import Mathlib.Tactic.Linarith
import PipeGallery.Methane.Scan

set_option autoImplicit false

/-!
# Methane sensor — the parsers compute the reference scan

* `responseFrameCheckUart_eq`: the frame check is the scan's verdict on the 19 bytes;
* `rxBytes_collect`, **`rxBytes_scan`**: a parser at index `0` judges the candidates of the stream;
* `toRx_debugByte`: the parser of `uart2_debug` is the same machine on its own buffer;
* `Rx.Bounded`: every write index stays below 19;
* **`parsers_refine_scan`**: both parsers, on every interleaving with empty reads.
-/

namespace PipeGallery.Methane

/-! ## The frame check -/

theorem bytesTo_succ (buf : ℕ → Byte) (n : ℕ) : bytesTo buf (n + 1) = bytesTo buf n ++ [buf n] := by
  simp [bytesTo, List.range_succ]

theorem bytesTo_update (buf : ℕ → Byte) {n m : ℕ} (h : n ≤ m) (b : Byte) :
    bytesTo (Function.update buf m b) n = bytesTo buf n := by
  refine List.map_congr_left fun i hi => Function.update_of_ne ?_ _ _
  have := List.mem_range.mp hi
  omega

theorem getD_bytesTo (buf : ℕ → Byte) {i n : ℕ} (h : i < n) : (bytesTo buf n).getD i 0 = buf i := by
  simp [bytesTo, List.getD_eq_getElem?_getD, List.getElem?_map, List.getElem?_range h]

theorem checksum_eq (buf : ℕ → Byte) : checksum buf = ((bytesTo buf packetSize).take 18).sum := by
  simp [checksum, bytesTo, packetSize, List.range_succ, UInt8.add_assoc]

theorem ppm_eq (hi lo : Byte) : (hi.toUInt16 <<< 8) ||| lo.toUInt16 = hi.toUInt16 * 256 + lo.toUInt16 := by
  have h : hi.toNat <<< 8 ||| lo.toNat = hi.toNat <<< 8 + lo.toNat :=
    (Nat.shiftLeft_add_eq_or_of_lt (UInt8.toNat_lt lo) _).symm
  have h1 := UInt8.toNat_lt hi
  have h2 := UInt8.toNat_lt lo
  apply UInt16.toNat_inj.mp
  simp only [Nat.shiftLeft_eq] at h
  simp [Nat.shiftLeft_eq, Nat.mod_eq_of_lt (show hi.toNat * 256 < 65536 by omega)] at h ⊢
  omega

/-- The header test reads the first four bytes. -/
theorem header_iff (buf : ℕ → Byte) :
    (buf 0 ≠ 0xAC ∨ buf 1 ≠ 0xAC ∨ buf 2 ≠ UInt8.ofNat packetSize ∨ buf 3 ≠ 0xAA) ↔
      ¬ (bytesTo buf packetSize).take 4 = [0xAC, 0xAC, 0x13, 0xAA] := by
  have h : (bytesTo buf packetSize).take 4 = [buf 0, buf 1, buf 2, buf 3] := by
    simp [bytesTo, packetSize, List.range_succ]
  rw [h]
  simp only [packetSize, List.cons.injEq, and_true, not_and_or]
  exact Iff.rfl

/-- **The frame check is the scan's verdict.** -/
theorem responseFrameCheckUart_eq (buf : ℕ → Byte) (g : Globals) :
    responseFrameCheckUart buf g =
      (judge g (bytesTo buf packetSize), decide (Accepted (bytesTo buf packetSize))) := by
  have hg : ∀ i, i < 19 → (bytesTo buf packetSize).getD i 0 = buf i := fun i => getD_bytesTo buf
  unfold responseFrameCheckUart
  by_cases h1 : (bytesTo buf packetSize).take 4 = [0xAC, 0xAC, 0x13, 0xAA]
  · rw [if_neg (fun h => (header_iff buf).mp h h1)]
    by_cases h2 : checksum buf = buf (packetSize - 1)
    · have hA : Accepted (bytesTo buf packetSize) :=
        ⟨h1, by rw [hg 18 (by omega), ← checksum_eq, h2]; rfl⟩
      rw [if_neg (not_not.mpr h2), judge, if_pos hA, hg 10 (by omega), hg 11 (by omega),
        hg 12 (by omega), hg 13 (by omega), ppm_eq, decide_eq_true hA]
    · have hA : ¬ Accepted (bytesTo buf packetSize) := fun h =>
        h2 (by rw [checksum_eq, ← h.2, hg 18 (by omega)]; rfl)
      rw [if_pos h2, judge, if_neg hA, decide_eq_false hA]
  · have hA : ¬ Accepted (bytesTo buf packetSize) := fun h => h1 h.1
    rw [if_pos ((header_iff buf).mpr h1), judge, if_neg hA, decide_eq_false hA]

/-! ## Collecting a candidate -/

theorem rxBytes_cons (s : Rx) (b : Byte) (bs : List Byte) : rxBytes s (b :: bs) = rxBytes (rxByte s b) bs :=
  rfl

theorem rxBytes_append (s : Rx) (a b : List Byte) : rxBytes s (a ++ b) = rxBytes (rxBytes s a) b :=
  List.foldl_append

/-- A byte inside a candidate is stored. -/
theorem rxByte_store {s : Rx} (h2 : 2 ≤ s.dataIndex) (h : s.dataIndex + 1 < packetSize) (b : Byte) :
    rxByte s b = { s with
      buf := Function.update s.buf s.dataIndex b
      dataIndex := s.dataIndex + 1
      writes := s.writes ++ [s.dataIndex] } := by
  rw [rxByte, if_neg (by omega), if_neg (by omega)]
  simp only [if_neg h.ne]

/-- The last byte of a candidate has it judged. -/
theorem rxByte_last {s : Rx} (h : s.dataIndex + 1 = packetSize) (b : Byte) :
    rxByte s b = { s with
      buf := Function.update s.buf s.dataIndex b
      dataIndex := 0
      g := judge s.g (bytesTo s.buf s.dataIndex ++ [b])
      writes := s.writes ++ [s.dataIndex]
      checks := s.checks ++ [⟨bytesTo s.buf s.dataIndex ++ [b],
        decide (Accepted (bytesTo s.buf s.dataIndex ++ [b])),
        judge s.g (bytesTo s.buf s.dataIndex ++ [b])⟩] } := by
  have hd : s.dataIndex = 18 := Nat.succ_injective h
  have hf : bytesTo (Function.update s.buf s.dataIndex b) packetSize =
      bytesTo s.buf s.dataIndex ++ [b] := by
    rw [← h, bytesTo_succ, bytesTo_update _ le_rfl, Function.update_self]
  rw [rxByte, if_neg (by omega), if_neg (by omega)]
  simp only [if_pos h, responseFrameCheckUart_eq, hf]

/-- Bytes inside a candidate extend the collected prefix and change nothing else. -/
theorem rxBytes_collect (w : List Byte) {s : Rx} (h2 : 2 ≤ s.dataIndex)
    (h : s.dataIndex + w.length < packetSize) :
    (rxBytes s w).dataIndex = s.dataIndex + w.length ∧
      bytesTo (rxBytes s w).buf (s.dataIndex + w.length) = bytesTo s.buf s.dataIndex ++ w ∧
      (rxBytes s w).g = s.g ∧ (rxBytes s w).checks = s.checks := by
  induction w generalizing s with
  | nil => simp [rxBytes]
  | cons b w ih =>
    rw [List.length_cons] at h
    rw [rxBytes_cons, rxByte_store h2 (by omega)]
    obtain ⟨i1, i2, i3, i4⟩ := ih (s := { s with
      buf := Function.update s.buf s.dataIndex b
      dataIndex := s.dataIndex + 1
      writes := s.writes ++ [s.dataIndex] }) (by simp only; omega) (by simp only; omega)
    simp only at i1 i2 i3 i4
    refine ⟨by rw [i1, List.length_cons]; omega, ?_, i3, i4⟩
    rw [List.length_cons, show s.dataIndex + (w.length + 1) = s.dataIndex + 1 + w.length by omega, i2,
      bytesTo_succ, bytesTo_update _ le_rfl, Function.update_self, List.append_assoc]
    rfl

/-- The bytes that complete a candidate have it judged and return to index `0`. -/
theorem rxBytes_complete {w : List Byte} {s : Rx} (h2 : 2 ≤ s.dataIndex)
    (h : s.dataIndex + w.length = packetSize) (hw : w ≠ []) :
    (rxBytes s w).dataIndex = 0 ∧
      (rxBytes s w).g = judge s.g (bytesTo s.buf s.dataIndex ++ w) ∧
      (rxBytes s w).checks = s.checks ++ [⟨bytesTo s.buf s.dataIndex ++ w,
        decide (Accepted (bytesTo s.buf s.dataIndex ++ w)),
        judge s.g (bytesTo s.buf s.dataIndex ++ w)⟩] := by
  obtain ⟨w', b, rfl⟩ : ∃ w' b, w = w' ++ [b] := ⟨_, _, (List.dropLast_append_getLast hw).symm⟩
  rw [List.length_append, List.length_singleton] at h
  obtain ⟨i1, i2, i3, i4⟩ := rxBytes_collect w' h2 (by omega)
  have hl := rxByte_last (s := rxBytes s w') (by rw [i1]; omega) b
  rw [rxBytes_append, show rxBytes (rxBytes s w') [b] = rxByte (rxBytes s w') b from rfl, hl]
  simp only [i1, i2, i3, i4, List.append_assoc, true_and]

/-! ## The whole stream -/

theorem bytesTo_two {buf : ℕ → Byte} {a b : Byte} (h0 : buf 0 = a) (h1 : buf 1 = b) :
    bytesTo buf 2 = [a, b] := by
  simp [bytesTo, List.range_succ, h0, h1]

theorem rxByte_skip {s : Rx} (h : s.dataIndex = 0) {b : Byte} (hb : b ≠ 0xAC) : rxByte s b = s := by
  rw [rxByte, if_pos h, if_neg hb]

theorem rxByte_first {s : Rx} (h : s.dataIndex = 0) :
    rxByte s 0xAC = { s with
      buf := Function.update s.buf 0 0xAC, dataIndex := 1, writes := s.writes ++ [0] } := by
  rw [rxByte, if_pos h, if_pos rfl]

theorem rxByte_drop {s : Rx} (h : s.dataIndex = 1) {b : Byte} (hb : b ≠ 0xAC) :
    rxByte s b = { s with dataIndex := 0 } := by
  rw [rxByte, if_neg (by omega), if_pos h, if_neg hb]

theorem rxByte_second {s : Rx} (h : s.dataIndex = 1) :
    rxByte s 0xAC = { s with
      buf := Function.update s.buf 1 0xAC, dataIndex := 2, writes := s.writes ++ [1] } := by
  rw [rxByte, if_neg (by omega), if_pos h, if_pos rfl]

/-- The parser after `AC AC`. -/
theorem rxBytes_pair {s : Rx} (h : s.dataIndex = 0) :
    (rxBytes s [0xAC, 0xAC]).dataIndex = 2 ∧
      bytesTo (rxBytes s [0xAC, 0xAC]).buf 2 = [0xAC, 0xAC] ∧
      (rxBytes s [0xAC, 0xAC]).g = s.g ∧ (rxBytes s [0xAC, 0xAC]).checks = s.checks := by
  rw [rxBytes_cons, rxBytes_cons, rxByte_first h, rxByte_second rfl]
  exact ⟨rfl, bytesTo_two (by simp [rxBytes]) (by simp [rxBytes]), rfl, rfl⟩

/-- **A parser at index `0` computes the scan of the stream**: the candidates are judged one after
another and nothing else is. -/
theorem rxBytes_scan (bs : List Byte) {s : Rx} (h : s.dataIndex = 0) :
    (rxBytes s bs).g = scan s.g bs ∧
      (rxBytes s bs).checks = s.checks ++ verdicts s.g (candidates (segments bs)) := by
  unfold scan
  induction bs using segments.induct generalizing s with
  | case1 => simp [rxBytes, segments, candidates, verdicts]
  | case2 =>
    rw [rxBytes_cons, rxByte_first h]
    simp [rxBytes, segments, candidates, verdicts]
  | case3 a ha =>
    rw [rxBytes_cons, rxByte_skip h ha]
    simp [rxBytes, segments, candidates, verdicts, ha]
  | case4 a b bs ha ih =>
    rw [rxBytes_cons, rxByte_skip h ha, segments, if_pos ha]
    exact ih h
  | case5 a b bs ha hb ih =>
    obtain rfl : a = 0xAC := not_not.mp ha
    rw [rxBytes_cons, rxBytes_cons, rxByte_first h, rxByte_drop rfl hb, segments, if_neg ha, if_pos hb]
    exact ih rfl
  | case6 a b bs ha hb hl ih =>
    obtain rfl : a = 0xAC := not_not.mp ha
    obtain rfl : b = 0xAC := not_not.mp hb
    obtain ⟨p1, p2, p3, p4⟩ := rxBytes_pair h
    have hlen : (bs.take 17).length = 17 := by simp [hl]
    obtain ⟨c1, c2, c3⟩ := rxBytes_complete (s := rxBytes s [0xAC, 0xAC]) (w := bs.take 17)
      (by omega) (by rw [p1, hlen]; rfl) (by rw [← List.length_pos_iff_ne_nil]; omega)
    rw [p1, p2, p3] at c2 c3
    have hsplit : rxBytes s (0xAC :: 0xAC :: bs) =
        rxBytes (rxBytes (rxBytes s [0xAC, 0xAC]) (bs.take 17)) (bs.drop 17) := by
      rw [← rxBytes_append, ← rxBytes_append, List.take_append_drop]
      rfl
    obtain ⟨i1, i2⟩ := ih c1
    rw [hsplit, segments, if_neg ha, if_neg hb, if_pos hl, i1, i2, c2, c3, p4]
    exact ⟨rfl, by simp [candidates, verdicts]⟩
  | case7 a b bs ha hb hl =>
    obtain rfl : a = 0xAC := not_not.mp ha
    obtain rfl : b = 0xAC := not_not.mp hb
    obtain ⟨p1, p2, p3, p4⟩ := rxBytes_pair h
    obtain ⟨-, -, c3, c4⟩ := rxBytes_collect bs (s := rxBytes s [0xAC, 0xAC]) (by omega)
      (by rw [p1]; unfold packetSize; omega)
    rw [show rxBytes s (0xAC :: 0xAC :: bs) = rxBytes (rxBytes s [0xAC, 0xAC]) bs from rfl, segments,
      if_neg ha, if_neg hb, if_neg hl, c3, c4, p3, p4]
    simp [candidates, verdicts]

/-! ## Write indices -/

/-- The index and every write so far are inside the 19-byte buffer. -/
def Rx.Bounded (s : Rx) : Prop := s.dataIndex < packetSize ∧ ∀ i ∈ s.writes, i < packetSize

theorem Rx.Bounded.rxByte {s : Rx} (h : s.Bounded) (b : Byte) : (rxByte s b).Bounded := by
  obtain ⟨hi, hw⟩ := h
  have hw' : ∀ k < packetSize, ∀ i ∈ s.writes ++ [k], i < packetSize := by
    intro k hk i hmem
    rcases List.mem_append.mp hmem with hmem | hmem
    · exact hw i hmem
    · rwa [List.mem_singleton.mp hmem]
  unfold Methane.rxByte
  split_ifs with h0 h1 h2 h3 h4
  · exact ⟨(by decide : 1 < packetSize), hw' 0 (by decide)⟩
  · exact ⟨hi, hw⟩
  · exact ⟨(by decide : 2 < packetSize), hw' 1 (by decide)⟩
  · exact ⟨(by decide : 0 < packetSize), hw⟩
  · exact ⟨(by decide : 0 < packetSize), hw' _ hi⟩
  · exact ⟨lt_of_le_of_ne hi h4, hw' _ hi⟩

theorem Rx.Bounded.rxBytes {s : Rx} (h : s.Bounded) (bs : List Byte) : (rxBytes s bs).Bounded := by
  induction bs generalizing s with
  | nil => exact h
  | cons b bs ih => exact ih (h.rxByte b)

/-! ## The loops around the parsers -/

/-- The bytes the receive loop reads before the timeout ends it. -/
def loopRead : ℤ → List Poll → List Byte
  | _, [] => []
  | timeout, .debugActive :: ps => loopRead timeout ps
  | timeout, .byte data :: ps => data :: loopRead timeout ps
  | timeout, .empty :: ps =>
    if 0 < timeout then if timeout - 10 ≤ 0 then [] else loopRead (timeout - 10) ps
    else if timeout = 0 then []
    else loopRead timeout ps

theorem receiveLoop_eq (timeout : ℤ) (s : Rx) (ps : List Poll) (h : Poll.debugActive ∉ ps) :
    (receiveLoop timeout s ps).1 = rxBytes s (loopRead timeout ps) := by
  induction ps generalizing timeout s with
  | nil => rfl
  | cons p ps ih =>
    have hps : Poll.debugActive ∉ ps := fun hm => h (List.mem_cons_of_mem _ hm)
    cases p with
    | debugActive => exact absurd List.mem_cons_self h
    | byte data => exact ih timeout (rxByte s data) hps
    | empty =>
      simp only [receiveLoop, loopRead]
      split_ifs
      · rfl
      · exact ih _ _ hps
      · rfl
      · exact ih _ _ hps

/-- The byte of a turn. -/
def Poll.byte? : Poll → Option Byte
  | .byte data => some data
  | _ => none

/-- `ps` reads the bytes `bs`, with empty reads anywhere between them. -/
def Interleaves (ps : List Poll) (bs : List Byte) : Prop :=
  ps.filterMap Poll.byte? = bs ∧ Poll.debugActive ∉ ps

/-- Waiting forever, the loop reads every byte. -/
theorem loopRead_forever {timeout : ℤ} (ht : timeout < 0) (ps : List Poll) :
    loopRead timeout ps = ps.filterMap Poll.byte? := by
  induction ps with
  | nil => rfl
  | cons p ps ih =>
    cases p with
    | debugActive => exact ih
    | byte data => simp [loopRead, Poll.byte?, ih]
    | empty =>
      rw [loopRead, if_neg (by omega), if_neg (by omega), ih]
      rfl

/-- The parser of `uart2_debug` as a parser state. -/
def Dbg.toRx (d : Dbg) : Rx where
  buf := d.frame
  dataIndex := d.frameIndex
  g := d.g
  checks := d.checks
  writes := d.writes

/-- **The two parsers are one machine.** -/
theorem toRx_debugByte (d : Dbg) (b : Byte) : (debugByte d b).toRx = rxByte d.toRx b := by
  by_cases h0 : d.frameIndex = 0
  · by_cases hb : b = 0xAC <;> simp [debugByte, rxByte, Dbg.toRx, h0, hb]
  by_cases h1 : d.frameIndex = 1
  · by_cases hb : b = 0xAC <;> simp [debugByte, rxByte, Dbg.toRx, h1, hb]
  by_cases h2 : d.frameIndex + 1 = packetSize <;> simp [debugByte, rxByte, Dbg.toRx, h0, h1, h2]

/-- The bytes `uart2_debug` reads before its deadline. -/
def debugRead (startTick timeoutMs : UInt32) : List (UInt32 × Option Byte) → List Byte
  | [] => []
  | (tick, r) :: ts =>
    if timeoutMs ≤ tick - startTick then []
    else
      match r with
      | some data => data :: debugRead startTick timeoutMs ts
      | none => debugRead startTick timeoutMs ts

theorem toRx_debugLoop (startTick timeoutMs : UInt32) (d : Dbg) (ts : List (UInt32 × Option Byte)) :
    (debugLoop startTick timeoutMs d ts).toRx = rxBytes d.toRx (debugRead startTick timeoutMs ts) := by
  induction ts generalizing d with
  | nil => rfl
  | cons t ts ih =>
    obtain ⟨tick, r⟩ := t
    by_cases h : timeoutMs ≤ tick - startTick
    · simp only [debugLoop, debugRead, if_pos h]
      rfl
    · cases r with
      | none => simp only [debugLoop, debugRead, if_neg h, ih]
      | some data =>
        simp only [debugLoop, debugRead, if_neg h, ih, toRx_debugByte]
        rfl

/-- **Both parsers compute the reference scan**, on every interleaving of the bytes with empty reads
and whatever their buffers hold at the start: the same globals, the same judged candidates; the
candidates are disjoint 19-byte pieces of the stream, no write index reaches 19, and a published value
changes only at an accepted candidate. -/
theorem parsers_refine_scan (g : Globals) (buf frame : ℕ → Byte) (s : List Byte) {timeout : ℤ}
    (ht : timeout < 0) (ps : List Poll) (hps : Interleaves ps s) (arg : Option ℤ) (startTick : UInt32)
    (ts : List (UInt32 × Option Byte)) (hts : debugRead startTick (debugTimeoutMs arg) ts = s) :
    let rx := (uart2ReceiveAndPrint ⟨true, true, true⟩ timeout { buf, g } ps).2
    let dbg := uart2Debug ⟨true, true, true⟩ arg startTick frame g ts
    rx.g = scan g s ∧ dbg.g = scan g s ∧
      rx.checks = verdicts g (candidates (segments s)) ∧
      dbg.checks = verdicts g (candidates (segments s)) ∧
      (segments s).flatMap Segment.bytes = s ∧
      (∀ c ∈ candidates (segments s), c.length = packetSize) ∧
      (∀ i ∈ rx.writes ++ dbg.writes, i < packetSize) ∧
      (∀ (g' : Globals) (c : List Byte), ¬ Accepted c → (judge g' c).published = g'.published) ∧
      ((∀ c ∈ candidates (segments s), ¬ Accepted c) → rx.g.published = g.published) := by
  intro rx dbg
  have hrx : rx = rxBytes { buf, g } s := by
    rw [← hps.1, ← loopRead_forever ht]
    exact receiveLoop_eq timeout _ ps hps.2
  have hdbg : dbg.toRx = rxBytes { buf := frame, g } s := by
    rw [← hts]
    exact toRx_debugLoop _ _ _ ts
  obtain ⟨r1, r2⟩ := rxBytes_scan s (s := { buf, g }) rfl
  obtain ⟨d1, d2⟩ := rxBytes_scan s (s := { buf := frame, g }) rfl
  rw [← hrx] at r1 r2
  rw [← hdbg] at d1 d2
  refine ⟨r1, d1, r2, d2, bytes_segments s, fun c => length_of_mem_candidates, fun i hi => ?_,
    fun g' c => published_judge_of_not, fun h => ?_⟩
  · have hb : ∀ b : ℕ → Byte, (rxBytes { buf := b, g } s).Bounded := fun b =>
      Rx.Bounded.rxBytes ⟨(by decide : 0 < packetSize), by simp⟩ s
    rcases List.mem_append.mp hi with hi | hi
    · exact (hrx ▸ hb buf : rx.Bounded).2 i hi
    · exact (hdbg ▸ hb frame : dbg.toRx.Bounded).2 i hi
  · rw [r1]
    exact published_scan_of_rejected h

/-- A frame of 0x1234 ppm after a byte of noise, read with empty reads in between. -/
theorem parsers_refine_scan_noisy_frame :
    let s : List Byte := [7, 0xAC, 0xAC, 0x13, 0xAA, 0, 0, 0, 0, 0, 0, 0x34, 0x12, 5, 0xAA, 0, 0, 0, 0, 10]
    let ps := Poll.empty :: s.flatMap fun b => [.byte b, .empty]
    let ts := s.map fun b => ((100 : UInt32), some b)
    (uart2ReceiveAndPrint ⟨true, true, true⟩ (-1) { buf := fun _ => 0 } ps).2.g = scan {} s ∧
      (uart2Debug ⟨true, true, true⟩ none 0 (fun _ => 0) {} ts).g = scan {} s := by
  intro s ps ts
  have h := parsers_refine_scan {} (fun _ => 0) (fun _ => 0) s (show (-1 : ℤ) < 0 by decide) ps
    ⟨by decide, by decide⟩ none 0 ts (by decide)
  exact ⟨h.1, h.2.1⟩

end PipeGallery.Methane
