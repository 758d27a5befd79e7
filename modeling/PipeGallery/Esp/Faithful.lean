import PipeGallery.Esp.Cloud
import PipeGallery.Lib.Runs

set_option autoImplicit false

/-!
# UART4 — what the receive buffer shows

The receive thread appends bytes; the cloud thread clears the buffer by a `memset` and, in a second
write, an index reset. The receive thread has the higher priority and may run between the two.

* `Rx`, `Action`, `rxStep`: the buffer, whether a clear is in progress, and the bytes received since
  the last one was completed;
* `Torn`: a byte is stored between the two writes of a clear;
* `bounded_rxStep`: the index and the last cell, in every run;
* **`text_faithful`**: without torn clears the C string is what was received since;
* `torn_visible`: a torn clear can always be followed by bytes that bring the old one to light;
* **`run_rxStep_of_run`**: the cloud thread and the receive thread make no other steps.
-/

namespace PipeGallery.Esp

open Lib

/-- UART4's buffer with the bytes received since the last completed clear. -/
structure Rx where
  uart : Uart4 := {}
  /-- between the `memset` and the index reset -/
  clearing : Bool := false
  since : List Char := []

/-- The atomic steps. -/
inductive Action where
  | append (c : Char)
  | memset
  | reset
  deriving DecidableEq, Repr

/-- The two writes of `uart4_buffer_clear` alternate; bytes come at any moment. -/
def rxStep (r : Rx) : Action → Option Rx
  | .append c => some { r with uart := r.uart.receive c, since := r.since ++ [c] }
  | .memset => if r.clearing then none else some { r with uart := r.uart.clearData, clearing := true }
  | .reset =>
    if r.clearing then some { uart := r.uart.clearIndex, clearing := false, since := [] } else none

/-- A byte other than NUL is stored between the two writes of a clear. -/
def Torn (r : Rx) : Action → Prop
  | .append c => r.clearing = true ∧ r.uart.index < 255 ∧ c ≠ '\x00'
  | _ => False

instance (r : Rx) (a : Action) : Decidable (Torn r a) :=
  match a with
  | .append c => inferInstanceAs (Decidable (r.clearing = true ∧ r.uart.index < 255 ∧ c ≠ '\x00'))
  | .memset => .isFalse id
  | .reset => .isFalse id

/-! ## Every run -/

/-- The index is a position of the buffer and the last cell is never written. -/
def Rx.Bounded (r : Rx) : Prop := r.uart.index ≤ 255 ∧ r.uart.data 255 = '\x00'

theorem bounded_rxStep {r r' : Rx} {a : Action} (h : r.Bounded) (hs : rxStep r a = some r') :
    r'.Bounded := by
  cases a with
  | append c =>
    cases hs
    have hi := Uart4.index_receive_le h.1 c
    exact ⟨hi, (Uart4.data_receive c hi).trans h.2⟩
  | memset =>
    rw [rxStep] at hs
    split_ifs at hs
    cases hs
    exact ⟨h.1, rfl⟩
  | reset =>
    rw [rxStep] at hs
    split_ifs at hs
    cases hs
    exact ⟨Nat.zero_le 255, h.2⟩

/-! ## Runs without torn clears -/

/-- Outside a clear the stored bytes are those received since, and the cells behind them are clear;
inside one, all cells are. -/
structure Rx.Clean (r : Rx) : Prop where
  index_le : r.uart.index ≤ 255
  stored : r.clearing = false → r.uart.stored = r.since.take 255
  tail : r.clearing = false → ∀ i, r.uart.index ≤ i → r.uart.data i = '\x00'
  blank : r.clearing = true → ∀ i, r.uart.data i = '\x00'

/-- A byte that is not stored, or is NUL, leaves a blank buffer blank. -/
theorem blank_receive {u : Uart4} {c : Char} (h : ∀ i, u.data i = '\x00')
    (hc : ¬ (u.index < 255 ∧ c ≠ '\x00')) (i : ℕ) : (u.receive c).data i = '\x00' := by
  by_cases hi : u.index < 255
  · rw [Uart4.receive_of_lt hi]
    have h0 : c = '\x00' := not_not.mp fun hne => hc ⟨hi, hne⟩
    dsimp only
    rw [h0, Function.update_apply]
    split_ifs
    · rfl
    · exact h i
  · rw [Uart4.receive_of_le (not_lt.mp hi)]
    exact h i

/-- **The steps that tear no clear keep the buffer clean.** -/
theorem clean_rxStep {r r' : Rx} {a : Action} (ha : ¬ Torn r a) (h : r.Clean)
    (hs : rxStep r a = some r') : r'.Clean := by
  cases a with
  | append c =>
    cases hs
    refine ⟨Uart4.index_receive_le h.index_le c, fun hc => ?_, fun hc i hi => ?_, fun hc => ?_⟩
    · exact Uart4.stored_receive_take (h.stored hc) c
    · have hle : r.uart.index ≤ i := by
        refine le_trans ?_ hi
        rw [Uart4.receive]
        split_ifs
        · exact Nat.le_succ _
        · exact le_refl _
      rw [Uart4.data_receive c hi]
      exact h.tail hc i hle
    · exact blank_receive (h.blank hc) fun hn => ha ⟨hc, hn⟩
  | memset =>
    rw [rxStep] at hs
    split_ifs at hs
    cases hs
    exact ⟨h.index_le, nofun, nofun, fun _ _ => rfl⟩
  | reset =>
    rw [rxStep] at hs
    split_ifs at hs with hc
    cases hs
    exact ⟨Nat.zero_le 255, fun _ => rfl, fun _ i _ => h.blank hc i, nofun⟩

/-- A prefix without NUL ends before the first NUL. -/
theorem prefix_takeWhile {l m : List Char} (h : l <+: m) (h0 : '\x00' ∉ l) :
    l <+: m.takeWhile fun c => decide (c ≠ '\x00') := by
  obtain ⟨t, rfl⟩ := h
  rw [List.takeWhile_append_of_pos]
  · exact List.prefix_append _ _
  · intro c hc
    exact decide_eq_true fun e => h0 (e ▸ hc)

theorem nul_not_mem_text (u : Uart4) : '\x00' ∉ u.text := by
  rw [Uart4.text_eq]
  intro h
  have := List.mem_takeWhile_imp h
  simp at this

/-- The C string of a clean buffer. -/
theorem text_prefix_since {r : Rx} (h : r.Clean) (hc : r.clearing = false) :
    r.uart.text <+: r.since.takeWhile fun c => decide (c ≠ '\x00') := by
  refine prefix_takeWhile ?_ (nul_not_mem_text r.uart)
  have hlt : r.uart.index < recivedDataSize := Nat.lt_succ_of_le h.index_le
  refine (Uart4.text_prefix_stored hlt (h.tail hc)).trans ?_
  rw [h.stored hc]
  exact List.take_prefix 255 r.since

/-- **The receive buffer is faithful.** In every run the index stays in `0..255` and cell 255 is NUL;
and when no clear of the run is torn, outside a clear the C string is a prefix of what was received
since the last one was completed, up to its first NUL. -/
theorem text_faithful {as : List Action} {r : Rx} (hr : run rxStep {} as = some r) :
    r.uart.index ≤ 255 ∧ r.uart.data 255 = '\x00' ∧
    (Along rxStep (fun r a => ¬ Torn r a) {} as → r.clearing = false →
      r.uart.text <+: r.since.takeWhile fun c => decide (c ≠ '\x00')) := by
  have hb : r.Bounded := by
    refine run_inv (C := fun _ _ => True) (fun _ _ _ _ => bounded_rxStep) ?_ ?_ hr
    · exact ⟨Nat.zero_le 255, rfl⟩
    · exact along_of_forall (P := fun _ => True) (fun _ _ => trivial) _
  refine ⟨hb.1, hb.2, fun ha hc => ?_⟩
  have hclean : r.Clean := by
    refine run_inv (fun _ _ _ => clean_rxStep) ?_ ha hr
    exact ⟨Nat.zero_le 255, fun _ => rfl, fun _ _ _ => rfl, nofun⟩
  exact text_prefix_since hclean hc

/-- A byte stored between the writes shows in the next reply, at the place of its old index. -/
theorem text_not_faithful : ¬ ∀ (as : List Action) (r : Rx), run rxStep {} as = some r →
    r.uart.index ≤ 255 ∧ r.uart.data 255 = '\x00' ∧ (r.clearing = false →
      r.uart.text <+: r.since.takeWhile fun c => decide (c ≠ '\x00')) := by
  intro h
  have := (h [.append 'O', .append 'K', .memset, .append '>', .reset, .append 'A', .append 'T'] _ rfl).2.2 rfl
  revert this
  decide +kernel

theorem text_faithful_ok : ∃ r, run rxStep {} [.append 'A', .memset, .reset, .append 'O', .append 'K'] =
    some r ∧ r.uart.text = "OK".toList ∧
    r.uart.text <+: r.since.takeWhile fun c => decide (c ≠ '\x00') :=
  ⟨_, rfl, by decide +kernel, (@text_faithful [.append 'A', .memset, .reset, .append 'O', .append 'K']
    _ rfl).2.2 (by decide +kernel) rfl⟩

/-! ## Torn clears -/

/-- `n` more bytes `c`. -/
theorem run_append {r : Rx} {n : ℕ} (hn : r.uart.index + n ≤ 255) (c : Char) : ∃ r',
    run rxStep r (List.replicate n (.append c)) = some r' ∧ r'.clearing = r.clearing ∧
    r'.uart.index = r.uart.index + n ∧ r'.uart.stored = r.uart.stored ++ List.replicate n c ∧
    r'.since = r.since ++ List.replicate n c ∧
    ∀ i, r.uart.index + n ≤ i → r'.uart.data i = r.uart.data i := by
  induction n generalizing r with
  | zero => exact ⟨r, rfl, rfl, rfl, (List.append_nil _).symm, (List.append_nil _).symm, fun _ _ => rfl⟩
  | succ n ih =>
    have hlt : r.uart.index < 255 := by omega
    have hu := Uart4.receive_of_lt hlt c
    obtain ⟨r', hr', hc, hi, hst, hsi, hd⟩ :=
      ih (r := { r with uart := r.uart.receive c, since := r.since ++ [c] }) (by rw [hu]; dsimp only; omega)
    refine ⟨r', hr', hc, ?_, ?_, ?_, fun i hi' => ?_⟩
    · rw [hi, hu]; dsimp only; omega
    · rw [hst, Uart4.stored_receive hlt, List.append_assoc, List.replicate_succ, List.singleton_append]
    · rw [hsi, List.append_assoc, List.replicate_succ, List.singleton_append]
    · rw [hd i (by rw [hu]; dsimp only; omega), Uart4.data_receive c (by rw [hu]; dsimp only; omega)]

/-- The cell at the index is visible behind stored bytes other than NUL. -/
theorem concat_prefix_text {u : Uart4} (h : u.index ≤ 255) (hs : '\x00' ∉ u.stored)
    (hd : u.data u.index ≠ '\x00') : u.stored ++ [u.data u.index] <+: u.text := by
  obtain ⟨k, hk⟩ : ∃ k, recivedDataSize - u.index = k + 1 :=
    ⟨255 - u.index, by rw [recivedDataSize]; omega⟩
  rw [Uart4.text_eq, Uart4.cells_eq (Nat.le_succ_of_le h), hk, List.range_succ_eq_map, List.map_cons,
    List.takeWhile_append_of_pos, Nat.add_zero, List.takeWhile_cons, if_pos (decide_eq_true hd)]
  · exact ⟨_, by rw [List.append_assoc]; rfl⟩
  · intro c hc
    exact decide_eq_true fun e => hs (e ▸ hc)

/-- **A torn clear can come to light**: the clear is completed and as many bytes arrive as had been
stored before. -/
theorem torn_visible {r : Rx} {c : Char} (h : Torn r (.append c)) : ∃ as r',
    run rxStep r (.append c :: .reset :: as) = some r' ∧ r'.clearing = false ∧
    ¬ r'.uart.text <+: r'.since := by
  obtain ⟨hc, hlt, h0⟩ := h
  have hu := Uart4.receive_of_lt hlt c
  have hle : 0 + r.uart.index ≤ 255 := by omega
  obtain ⟨r', hr', hc', hi, hst, hsi, hd⟩ :=
    run_append (r := { uart := (r.uart.receive c).clearIndex }) hle 'a'
  have hcell : r'.uart.data r'.uart.index = c := by
    rw [hi, hd _ (le_refl _)]
    change (r.uart.receive c).data (0 + r.uart.index) = c
    rw [hu, Nat.zero_add]
    exact Function.update_self _ _ _
  have hst' : r'.uart.stored = r'.since := by rw [hst, hsi]; rfl
  refine ⟨List.replicate r.uart.index (.append 'a'), r', ?_, hc', fun hp => ?_⟩
  · rw [run_cons, rxStep, Option.bind_some, run_cons, rxStep, if_pos hc, Option.bind_some]
    exact hr'
  · have hvis : r'.uart.stored ++ [r'.uart.data r'.uart.index] <+: r'.uart.text := by
      refine concat_prefix_text (hi.le.trans hle) ?_ (hcell.symm ▸ h0)
      rw [hst', hsi]
      intro hmem
      exact absurd (List.eq_of_mem_replicate hmem) (by decide)
    have := (hvis.trans hp).length_le
    rw [hst', List.length_append, List.length_singleton] at this
    omega

/-! ## The cloud thread -/

/-- The thread stands between the two writes of a clear. -/
def Pc.clears : Pc → Bool
  | .clearIndex _ => true
  | _ => false

/-- UART4 as the two threads have left it, with `since`. -/
def Sys.rx (s : Sys) (since : List Char) : Rx := ⟨s.uart, s.pc.clears, since⟩

theorem clears_of_waits {p : Pc} {k : Job} (h : p.waits = some k) : p.clears = false := by
  cases p <;> first | rfl | cases h

theorem clears_dispatch (s : Sys) (g : Report.Snapshot FVal) : (dispatch s g).pc.clears = false := by
  unfold dispatch
  split <;> rfl

theorem uart_dispatch (s : Sys) (g : Report.Snapshot FVal) : (dispatch s g).uart = s.uart := by
  unfold dispatch
  split <;> rfl

/-- A turn of the cloud thread is one of the two writes, or leaves UART4 alone. -/
theorem rxStep_cloudTurn (s : Sys) (g : Report.Snapshot FVal) (since : List Char) :
    (cloudTurn s g).rx since = s.rx since ∨
    ∃ a since', rxStep (s.rx since) a = some ((cloudTurn s g).rx since') := by
  cases hw : s.pc.waits with
  | some k =>
    left
    have hc : (cloudTurn s g).pc.clears = false := by
      rcases cloudTurn_of_waits hw g with ⟨ok, h⟩ | ⟨pc, ms, hpc, h⟩
      · rw [h]
        cases k <;> cases ok <;> rfl
      · rw [h]
        exact clears_of_waits hpc
    obtain ⟨n, pc, ms, h⟩ := exists_cloudTurn_eq_of_waits hw g
    have hu : (cloudTurn s g).uart = s.uart := by rw [h]; rfl
    rw [Sys.rx, Sys.rx, hu, hc, clears_of_waits hw]
  | none =>
    unfold cloudTurn
    split <;> rename_i hp
    case h_2 => left; rw [Sys.rx, Sys.rx, uart_dispatch, clears_dispatch, hp]; rfl
    case h_3 => right; exact ⟨.memset, since, by rw [Sys.rx, hp]; rfl⟩
    case h_4 => right; exact ⟨.reset, [], by rw [Sys.rx, hp]; rfl⟩
    case h_13 =>
      left
      dsimp only
      split_ifs <;> rw [Sys.rx, Sys.rx, hp] <;> rfl
    case h_1 => left; rw [Sys.rx, Sys.rx, hp]; rfl
    case h_5 => left; rw [Sys.rx, Sys.rx, hp]; rfl
    case h_6 => left; rw [Sys.rx, Sys.rx, hp]; rfl
    case h_11 => left; rw [Sys.rx, Sys.rx, hp]; rfl
    case h_12 => left; rw [Sys.rx, Sys.rx, hp]; rfl
    all_goals rw [hp] at hw; cases hw

/-- **The two threads make these steps.** Every run of the system is, for UART4, a run of `rxStep`. -/
theorem run_rxStep_of_run {es : List Event} {s : Sys} (h : run step {} es = some s) :
    ∃ as since, run rxStep {} as = some (s.rx since) := by
  refine run_inv (I := fun s => ∃ as since, run rxStep {} as = some (s.rx since))
    (C := fun _ _ => True) ?_ ⟨[], [], rfl⟩ (along_of_forall (fun _ _ => trivial) _) h
  rintro s e s' - ⟨as, since, hr⟩ hs
  cases e with
  | cloud g =>
    obtain rfl := eq_cloudTurn_of_step hs
    rcases rxStep_cloudTurn s g since with heq | ⟨a, since', ha⟩
    · exact ⟨as, since, heq ▸ hr⟩
    · exact ⟨as ++ [a], since', by rw [run_concat, hr, Option.bind_some, ha]⟩
  | rx c =>
    cases hs
    exact ⟨as ++ [.append c], since ++ [c], by rw [run_concat, hr]; rfl⟩
  | elapse ms =>
    cases hs
    exact ⟨as, since, hr⟩

end PipeGallery.Esp
