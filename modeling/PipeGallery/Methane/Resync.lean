import Mathlib.Data.List.Rotate
import Mathlib.Data.List.Chain
import Mathlib.Data.List.GetD
import Mathlib.Tactic.IntervalCases
import PipeGallery.Methane.Refine

set_option autoImplicit false

/-!
# Methane sensor — re-synchronisation

After `AC AC` the parser takes 17 more bytes whatever they are, and after a rejected candidate it
goes on behind it. On a stream that repeats one frame, a lock at a wrong offset therefore lasts.

* `OnlyHeaderPair F`: in the endlessly repeated frame, `AC AC` occurs at the header only;
* `rxBytes_quiet`: bytes without `AC AC` leave the parser at index `0`;
* `segments_candidate`: nineteen bytes that start with `AC AC` are one candidate;
* **`resyncs_iff`**: a valid frame is accepted after every prefix iff `OnlyHeaderPair` holds of it.
-/

namespace PipeGallery.Methane

/-- A valid frame: 19 bytes, `AC AC 13 AA` in front, the checksum at the end. -/
def ValidFrame (F : List Byte) : Prop := F.length = packetSize ∧ Accepted F

instance (F : List Byte) : Decidable (ValidFrame F) := by unfold ValidFrame; infer_instance

/-- Among the checks, `F` is accepted and its fields are published. -/
def Accepts (checks : List Check) (F : List Byte) : Prop :=
  ∃ k ∈ checks, k.frame = F ∧ k.accepted = true ∧
    k.after.ppm = (F.getD 11 0).toUInt16 * 256 + (F.getD 10 0).toUInt16 ∧
    k.after.lel = F.getD 12 0 ∧ k.after.status = F.getD 13 0

instance (checks : List Check) (F : List Byte) : Decidable (Accepts checks F) := by
  unfold Accepts; infer_instance

/-- `n` copies of a frame, back to back. -/
def copies (n : ℕ) (F : List Byte) : List Byte := (List.replicate n F).flatten

/-- The receive loop, started at index `0` on `p` and 20 copies of `F`, accepts `F`. -/
def Resyncs (buf : ℕ → Byte) (g : Globals) (p F : List Byte) : Prop :=
  Accepts (uart2ReceiveAndPrint ⟨true, true, true⟩ (-1) { buf, g }
    ((p ++ copies 20 F).map Poll.byte)).2.checks F

instance (buf : ℕ → Byte) (g : Globals) (p F : List Byte) : Decidable (Resyncs buf g p F) := by
  unfold Resyncs; infer_instance

/-- `AC AC` does not occur at offsets `4` to `18` of the repeated frame. -/
def OnlyHeaderPair (F : List Byte) : Prop :=
  ∀ j, 4 ≤ j → j ≤ 18 → ¬ (F.getD j 0 = 0xAC ∧ F.getD ((j + 1) % 19) 0 = 0xAC)

theorem uart2ReceiveAndPrint_bytes (buf : ℕ → Byte) (g : Globals) (bs : List Byte) :
    (uart2ReceiveAndPrint ⟨true, true, true⟩ (-1) { buf, g } (bs.map Poll.byte)).2 =
      rxBytes { buf, g } bs := by
  have h : loopRead (-1) (bs.map Poll.byte) = bs := by
    rw [loopRead_forever (by decide), List.filterMap_map]
    exact List.filterMap_some
  rw [← congrArg (rxBytes _) h]
  exact receiveLoop_eq (-1) _ _ (by simp)

theorem accepts_of_mem {g : Globals} {cs : List (List Byte)} {F : List Byte} (hF : Accepted F)
    (h : F ∈ cs) : Accepts (verdicts g cs) F := by
  obtain ⟨k, hk, rfl⟩ := exists_mem_verdicts (g := g) h
  obtain ⟨-, ha, g', hg'⟩ := mem_verdicts_frame hk
  rw [judge, if_pos hF] at hg'
  exact ⟨k, hk, rfl, by rw [ha, decide_eq_true hF], by rw [hg'], by rw [hg'], by rw [hg']⟩

theorem Accepts.append_left {a : List Check} {F : List Byte} (h : Accepts a F) (b : List Check) :
    Accepts (b ++ a) F := by
  obtain ⟨k, hk, h⟩ := h
  exact ⟨k, List.mem_append_right _ hk, h⟩

/-! ## A frame is a candidate -/

theorem exists_cons_cons {c : List Byte} (h : c.take 2 = [0xAC, 0xAC]) :
    ∃ c', c = 0xAC :: 0xAC :: c' := by
  refine ⟨c.drop 2, ?_⟩
  conv_lhs => rw [← List.take_append_drop 2 c, h]
  rfl

/-- **Nineteen bytes that start with `AC AC` are one candidate.** -/
theorem segments_candidate {c : List Byte} (hl : c.length = packetSize) (h0 : c.take 2 = [0xAC, 0xAC])
    (bs : List Byte) : segments (c ++ bs) = .candidate c :: segments bs := by
  obtain ⟨c', rfl⟩ := exists_cons_cons h0
  have hl' : c'.length = 17 := by simpa [packetSize] using hl
  rw [List.cons_append, List.cons_append, segments, if_neg (by simp), if_neg (by simp),
    if_pos (by simp [hl']), ← hl', List.take_left, List.drop_left]

theorem candidates_eq_nil {bs : List Byte} (h : bs.length < packetSize) :
    candidates (segments bs) = [] := by
  have hle : ∀ ss : List Segment, ∀ c ∈ candidates ss, c.length ≤ (ss.flatMap Segment.bytes).length := by
    intro ss
    induction ss with
    | nil => simp [candidates]
    | cons x ss ih =>
      intro c hc
      rw [List.flatMap_cons, List.length_append]
      cases x with
      | skip bs => exact (ih c hc).trans (Nat.le_add_left _ _)
      | tail bs => exact (ih c hc).trans (Nat.le_add_left _ _)
      | candidate bs =>
        rcases List.mem_cons.mp hc with rfl | hc
        · exact Nat.le_add_right _ _
        · exact (ih c hc).trans (Nat.le_add_left _ _)
  refine List.eq_nil_iff_forall_not_mem.mpr fun c hc => ?_
  have h1 := hle _ c hc
  rw [bytes_segments, length_of_mem_candidates hc] at h1
  exact absurd h1 (not_le.mpr h)

theorem take_two_of_accepted {F : List Byte} (h : Accepted F) : F.take 2 = [0xAC, 0xAC] := by
  have := congrArg (List.take 2) h.1
  simpa [List.take_take] using this

/-! ## The frames that re-synchronise -/

/-- Bytes without `AC AC`, the last not `AC`, leave a parser at index `0`. -/
theorem rxBytes_quiet {w : List Byte} (hw : w.IsChain fun a b => ¬ (a = 0xAC ∧ b = 0xAC))
    (hlast : w.getLast? ≠ some 0xAC) {s : Rx} (h : s.dataIndex = 0) : (rxBytes s w).dataIndex = 0 := by
  induction w using segments.induct generalizing s with
  | case1 => exact h
  | case2 => simp at hlast
  | case3 a ha => rw [rxBytes_cons, rxByte_skip h ha]; exact h
  | case4 a b bs ha ih =>
    rw [rxBytes_cons, rxByte_skip h ha]
    exact ih (List.isChain_cons_cons.mp hw).2 (by simpa using hlast) h
  | case5 a b bs ha hb ih =>
    obtain rfl : a = 0xAC := not_not.mp ha
    rw [rxBytes_cons, rxBytes_cons, rxByte_first h, rxByte_drop rfl hb]
    refine ih ?_ ?_ rfl
    · exact (List.isChain_cons_cons.mp hw).2.of_cons
    · cases bs with
      | nil => simp
      | cons c bs => simpa using hlast
  | case6 a b bs ha hb hl ih =>
    exact absurd ⟨not_not.mp ha, not_not.mp hb⟩ (List.isChain_cons_cons.mp hw).1
  | case7 a b bs ha hb hl =>
    exact absurd ⟨not_not.mp ha, not_not.mp hb⟩ (List.isChain_cons_cons.mp hw).1

theorem getD_header {F : List Byte} (h : Accepted F) :
    F.getD 0 0 = 0xAC ∧ F.getD 1 0 = 0xAC ∧ F.getD 2 0 = 0x13 ∧ F.getD 3 0 = 0xAA := by
  have hk : ∀ k, k < 4 → F.getD k 0 = ([0xAC, 0xAC, 0x13, 0xAA] : List Byte).getD k 0 := by
    intro k hk
    rw [← h.1, List.getD_eq_getElem?_getD, List.getD_eq_getElem?_getD, List.getElem?_take, if_pos hk]
  exact ⟨hk 0 (by omega), hk 1 (by omega), hk 2 (by omega), hk 3 (by omega)⟩

/-- No suffix of the frame, its header's first byte cut off, contains `AC AC` or ends in `AC`. -/
theorem quiet_drop {F : List Byte} (hF : ValidFrame F) (hP : OnlyHeaderPair F) {n : ℕ} (hn : 1 ≤ n)
    (hn' : n ≤ 18) : ((F.drop n).IsChain fun a b => ¬ (a = 0xAC ∧ b = 0xAC)) ∧
      (F.drop n).getLast? ≠ some 0xAC := by
  obtain ⟨hl, hA⟩ := hF
  obtain ⟨h0, h1, h2, h3⟩ := getD_header hA
  have hl : F.length = 19 := hl
  have hget : ∀ i (hi : i < F.length), F[i] = F.getD i 0 := fun i hi =>
    (List.getD_eq_getElem F 0 hi).symm
  constructor
  · rw [List.isChain_iff_getElem]
    intro i hi
    rw [List.length_drop] at hi
    rw [List.getElem_drop, List.getElem_drop, hget, hget]
    rintro ⟨ha, hb⟩
    by_cases h4 : 4 ≤ n + i
    · exact hP (n + i) h4 (by omega) ⟨ha, by rw [Nat.mod_eq_of_lt (by omega)]; exact hb⟩
    · obtain hk | hk | hk : n + i = 1 ∨ n + i = 2 ∨ n + i = 3 := by omega
      · rw [show n + (i + 1) = 2 by omega, h2] at hb
        exact absurd hb (by decide)
      · rw [hk, h2] at ha
        exact absurd ha (by decide)
      · rw [hk, h3] at ha
        exact absurd ha (by decide)
  · rw [List.getLast?_drop, if_neg (by omega), List.getLast?_eq_getElem?, hl]
    intro h18
    refine hP 18 (by omega) le_rfl ⟨?_, h0⟩
    rw [List.getD_eq_getElem?_getD, h18]
    rfl

/-- One copy of such a frame brings every parser state back to index `0`. -/
theorem rxBytes_frame_index {F : List Byte} (hF : ValidFrame F) (hP : OnlyHeaderPair F) {s : Rx}
    (hs : s.dataIndex < packetSize) : (rxBytes s F).dataIndex = 0 := by
  have hl : F.length = 19 := hF.1
  have hs : s.dataIndex < 19 := hs
  have hcut : ∀ n, rxBytes s F = rxBytes (rxBytes s (F.take n)) (F.drop n) := fun n => by
    rw [← rxBytes_append, List.take_append_drop]
  have htail : ∀ n, 1 ≤ n → n ≤ 18 → (rxBytes s (F.take n)).dataIndex = 0 →
      (rxBytes s F).dataIndex = 0 := fun n h1 h18 h0 => by
    rw [hcut n]
    exact rxBytes_quiet (quiet_drop hF hP h1 h18).1 (quiet_drop hF hP h1 h18).2 h0
  obtain h0 | h1 | h2 : s.dataIndex = 0 ∨ s.dataIndex = 1 ∨ 2 ≤ s.dataIndex := by omega
  · -- a parser at index `0` judges the frame
    obtain ⟨p1, p2, -, -⟩ := rxBytes_pair h0
    rw [hcut 2, take_two_of_accepted hF.2]
    exact (rxBytes_complete (by omega) (by rw [p1, List.length_drop, hl]; rfl)
      (by rw [← List.length_pos_iff_ne_nil, List.length_drop]; omega)).1
  · -- the header's first byte is taken for the second: a candidate that ends one byte early
    refine htail 18 (by omega) le_rfl ?_
    have h18 : F.take 18 = 0xAC :: (F.take 18).drop 1 := by
      obtain ⟨F', rfl⟩ := exists_cons_cons (take_two_of_accepted hF.2)
      rfl
    rw [h18, rxBytes_cons, rxByte_second h1]
    exact (rxBytes_complete (s := { s with
      buf := Function.update s.buf 1 0xAC, dataIndex := 2, writes := s.writes ++ [1] })
      le_rfl (by simp [hl, packetSize])
      (by rw [← List.length_pos_iff_ne_nil, List.length_drop, List.length_take]; omega)).1
  · -- the candidate under way ends inside the frame
    refine htail (19 - s.dataIndex) (by omega) (by omega) ?_
    have hlen : (F.take (19 - s.dataIndex)).length = 19 - s.dataIndex := by
      rw [List.length_take]; omega
    exact (rxBytes_complete h2 (by rw [hlen]; unfold packetSize; omega)
      (by rw [← List.length_pos_iff_ne_nil, hlen]; omega)).1

/-- Two copies are enough: the first brings the parser to index `0`, the second is accepted. -/
theorem resyncs_of_onlyHeaderPair {F : List Byte} (hF : ValidFrame F) (hP : OnlyHeaderPair F)
    (buf : ℕ → Byte) (g : Globals) (p : List Byte) : Resyncs buf g p F := by
  have hB : (rxBytes { buf, g } p).Bounded :=
    Rx.Bounded.rxBytes ⟨(by decide : 0 < packetSize), by simp⟩ p
  have hsplit : p ++ copies 20 F = p ++ F ++ (F ++ copies 18 F) := by simp [copies, List.replicate]
  have h0 := rxBytes_frame_index hF hP hB.1
  rw [← rxBytes_append] at h0
  rw [Resyncs, uart2ReceiveAndPrint_bytes, hsplit, rxBytes_append, (rxBytes_scan _ h0).2,
    segments_candidate hF.1 (take_two_of_accepted hF.2)]
  exact (accepts_of_mem hF.2 List.mem_cons_self).append_left _

/-! ## The frames that do not -/

theorem drop_append_copies (j : ℕ) (F : List Byte) (n : ℕ) :
    F.drop j ++ copies n F = copies n (F.drop j ++ F.take j) ++ F.drop j := by
  induction n with
  | zero => simp [copies]
  | succ n ih =>
    have hF : copies (n + 1) F = F.take j ++ F.drop j ++ copies n F := by
      rw [List.take_append_drop]; rfl
    rw [hF, List.append_assoc, ih, ← List.append_assoc, ← List.append_assoc]
    rfl

/-- A noise prefix that leaves the parser `j` bytes before the end of a candidate. -/
def lockPrefix (j : ℕ) : List Byte := (0xAC :: 0xAC :: List.replicate 17 0).take (19 - j)

theorem length_lockPrefix (j : ℕ) : (lockPrefix j).length = 19 - j := by simp [lockPrefix]

/-- The bytes across the prefix start with `AC AC`. -/
theorem take_two_lockPrefix {F : List Byte} (hF : ValidFrame F) {j : ℕ} (h18 : j ≤ 18) :
    (lockPrefix j ++ F.take j).take 2 = [0xAC, 0xAC] := by
  obtain rfl | hlt : j = 18 ∨ j < 18 := by omega
  · obtain ⟨F', rfl⟩ := exists_cons_cons (take_two_of_accepted hF.2)
    rfl
  · obtain ⟨k, hk⟩ : ∃ k, 19 - j = k + 2 := ⟨17 - j, by omega⟩
    simp [lockPrefix, hk]

/-- A frame turned to an `AC AC` starts with it. -/
theorem take_two_rotate {F : List Byte} (hl : F.length = 19) {j : ℕ} (h18 : j ≤ 18)
    (hj : F.getD j 0 = 0xAC) (hj' : F.getD ((j + 1) % 19) 0 = 0xAC) :
    (F.rotate j).take 2 = [0xAC, 0xAC] := by
  have hget : ∀ i (hi : i < F.length), F[i] = F.getD i 0 := fun i hi =>
    (List.getD_eq_getElem F 0 hi).symm
  have hlr : (F.rotate j).length = 19 := by rw [List.length_rotate, hl]
  have hr : (F.rotate j).take 2 = [(F.rotate j).getD 0 0, (F.rotate j).getD 1 0] := by
    rw [List.take_succ_eq_append_getElem (by omega), List.take_succ_eq_append_getElem (by omega)]
    simp [List.getD_eq_getElem?_getD, hlr]
  rw [hr, List.getD_eq_getElem _ _ (by omega), List.getD_eq_getElem _ _ (by omega),
    List.getElem_rotate, List.getElem_rotate, hget, hget]
  simp only [hl, Nat.zero_add, Nat.mod_eq_of_lt (show j < 19 by omega), hj, Nat.add_comm 1 j, hj']

/-- Copies of nineteen bytes that start with `AC AC`, and an incomplete rest. -/
theorem candidates_copies {c r : List Byte} (hl : c.length = packetSize) (h0 : c.take 2 = [0xAC, 0xAC])
    (hr : r.length < packetSize) (n : ℕ) :
    candidates (segments (copies n c ++ r)) = List.replicate n c := by
  induction n with
  | zero => exact candidates_eq_nil hr
  | succ n ih =>
    have hsplit : copies (n + 1) c ++ r = c ++ (copies n c ++ r) := List.append_assoc _ _ _
    rw [hsplit, segments_candidate hl h0, candidates, ih]
    rfl

/-- The candidates of the locked stream: one across the prefix, then the frame turned by `j`. -/
theorem candidates_locked {F : List Byte} (hF : ValidFrame F) {j : ℕ} (h4 : 4 ≤ j) (h18 : j ≤ 18)
    (hj : F.getD j 0 = 0xAC) (hj' : F.getD ((j + 1) % 19) 0 = 0xAC) :
    candidates (segments (lockPrefix j ++ copies 20 F)) =
      (lockPrefix j ++ F.take j) :: List.replicate 19 (F.rotate j) := by
  have hl : F.length = 19 := hF.1
  have hrot : F.rotate j = F.drop j ++ F.take j := List.rotate_eq_drop_append_take (by omega)
  have hsplit : lockPrefix j ++ copies 20 F =
      (lockPrefix j ++ F.take j) ++ (copies 19 (F.rotate j) ++ F.drop j) := by
    rw [hrot, ← drop_append_copies, List.append_assoc, ← List.append_assoc (F.take j),
      List.take_append_drop]
    rfl
  have hacross : (lockPrefix j ++ F.take j).length = packetSize := by
    simp [length_lockPrefix, hl, packetSize]
    omega
  have hrest : (F.drop j).length < packetSize := by
    rw [List.length_drop, hl, packetSize]
    omega
  rw [hsplit, segments_candidate hacross (take_two_lockPrefix hF h18), candidates,
    candidates_copies (by rw [List.length_rotate]; exact hF.1) (take_two_rotate hl h18 hj hj') hrest]

/-- A frame is not a proper rotation of itself: 19 is prime and its bytes are not all equal. -/
theorem rotate_ne {F : List Byte} (hF : ValidFrame F) {j : ℕ} (h1 : 1 ≤ j) (h18 : j ≤ 18) :
    F.rotate j ≠ F := by
  intro h
  have hl : F.length = 19 := hF.1
  obtain ⟨h0, -, h2, -⟩ := getD_header hF.2
  have hiter : ∀ k, F.rotate (k * j) = F := by
    intro k
    induction k with
    | zero => simp
    | succ k ih => rw [Nat.succ_mul, ← List.rotate_rotate, ih, h]
  have hinv : ∀ j < 19, 1 ≤ j → ∃ k < 19, k * j % 19 = 2 := by decide
  obtain ⟨k, -, hk⟩ := hinv j (by omega) h1
  have h2' : F.rotate 2 = F := by
    rw [← hk, ← hl, List.rotate_mod]
    exact hiter k
  have hget := List.getElem_rotate F 2 0 (by simp [hl])
  simp only [h2', Nat.zero_add, hl, show 2 % 19 = 2 from rfl] at hget
  rw [← List.getD_eq_getElem F 0, ← List.getD_eq_getElem F 0, h0, h2] at hget
  exact absurd hget (by decide)

/-- The candidate across the prefix is not the frame: its third byte is not `13`. -/
theorem lockPrefix_ne {F : List Byte} (hF : ValidFrame F) {j : ℕ} (h4 : 4 ≤ j) (h18 : j ≤ 18) :
    lockPrefix j ++ F.take j ≠ F := by
  intro h
  have hl : F.length = 19 := hF.1
  obtain ⟨h0, h1, h2, -⟩ := getD_header hF.2
  have hd := congrArg (fun l => l.getD 2 0) h
  simp only [h2] at hd
  have hlen := length_lockPrefix j
  rw [List.getD_eq_getElem?_getD] at hd
  by_cases h3 : 2 < 19 - j
  · rw [List.getElem?_append_left (by omega)] at hd
    simp [lockPrefix, h3] at hd
  · rw [List.getElem?_append_right (by omega), hlen, List.getElem?_take, if_pos (by omega),
      ← List.getD_eq_getElem?_getD] at hd
    obtain h | h : 2 - (19 - j) = 0 ∨ 2 - (19 - j) = 1 := by omega
    · rw [h, h0] at hd; exact absurd hd (by decide)
    · rw [h, h1] at hd; exact absurd hd (by decide)

/-- **When the receiver re-synchronises.** The receive loop accepts a valid frame within 20 copies
after every byte string, whatever the buffer and the globals, iff `AC AC` occurs in the repeated
frame at its header only. -/
theorem resyncs_iff (F : List Byte) (hF : ValidFrame F) :
    (∀ (buf : ℕ → Byte) (g : Globals) (p : List Byte), Resyncs buf g p F) ↔ OnlyHeaderPair F := by
  refine ⟨fun h j h4 h18 ⟨hj, hj'⟩ => ?_, fun hP buf g p => resyncs_of_onlyHeaderPair hF hP buf g p⟩
  have hr := h (fun _ => 0) {} (lockPrefix j)
  rw [Resyncs, uart2ReceiveAndPrint_bytes, (rxBytes_scan _ rfl).2, candidates_locked hF h4 h18 hj hj'] at hr
  obtain ⟨k, hk, hkF, -⟩ := hr
  have hmem := (mem_verdicts_frame (List.nil_append _ ▸ hk)).1
  rw [hkF] at hmem
  rcases List.mem_cons.mp hmem with hmem | hmem
  · exact lockPrefix_ne hF h4 h18 hmem.symm
  · exact rotate_ne hF (by omega) h18 (List.eq_of_mem_replicate hmem).symm

/-- A frame of 100 ppm, found again after every prefix. -/
theorem resyncs_iff_hundred_ppm :
    let F : List Byte := [0xAC, 0xAC, 0x13, 0xAA, 0, 0, 0, 0, 0, 0, 100, 0, 2, 0xAA, 0, 0, 0, 0, 0x25]
    ValidFrame F ∧ ∀ (buf : ℕ → Byte) (g : Globals) (p : List Byte), Resyncs buf g p F := by
  intro F
  have hF : ValidFrame F := by decide
  refine ⟨hF, (resyncs_iff F hF).mpr fun j h4 h18 => ?_⟩
  interval_cases j <;> decide

/-- A frame of 237 ppm whose checksum is `AC`, received from its last byte on, is never accepted. -/
theorem not_resyncs_checksum_ac :
    let F : List Byte := [0xAC, 0xAC, 0x13, 0xAA, 0, 0, 0, 0, 0, 0, 237, 0, 0, 0xAA, 0, 0, 0, 0, 0xAC]
    ValidFrame F ∧ ¬ Resyncs (fun _ => 0) {} [0xAC] F := by
  decide +kernel

end PipeGallery.Methane
