import PipeGallery.Phy.Model
import Mathlib.Order.Monotone.Basic

set_option autoImplicit false

/-!
# The reset of the PHY

* `Clock`, `InTime`: the ticks of a wait;
* `Answered`: an iteration that ends the wait;
* `resetWait_answered`, `resetWait_eq_none`: the wait ends, or never does;
* **`resetWait_ends_iff`**.
-/

namespace PipeGallery.Phy

/-- The ticks do not decrease, from `tickstart` on. -/
structure Mdio.Clock (h : Mdio) : Prop where
  start : h.tickstart.toNat ≤ (h.tick 0).toNat
  mono : Monotone fun k => (h.tick k).toNat

/-- At most 500 ticks have passed at iteration `k`. -/
def Mdio.InTime (h : Mdio) (k : ℕ) : Prop := (h.tick k).toNat ≤ h.tickstart.toNat + 500

/-- A read that fails or finds the reset bit clear. -/
def Mdio.Answered (h : Mdio) (k : ℕ) : Prop := ∀ v ∈ h.control k, v &&& phyResetMask = 0

/-- The wait ends, in one of the three ways it is meant to end. -/
def Mdio.Ends (h : Mdio) (regvalue : BitVec 32) (status : Status) : Prop :=
  ∃ fuel reg' status', resetWait h fuel 0 regvalue status = some (reg', status') ∧
    (reg' &&& phyResetMask = 0 ∨ (status' = .error ∧ ∃ k, h.control k = none) ∨
      (status' = .etimeout ∧ ∃ k, ¬ h.InTime k))

/-- From iteration `k` on the wait ends without a timeout. -/
def Mdio.Stops (h : Mdio) (k : ℕ) (regvalue : BitVec 32) (status : Status) : Prop :=
  ∃ fuel reg' status', resetWait h fuel k regvalue status = some (reg', status') ∧
    (reg' &&& phyResetMask = 0 ∨ (status' = .error ∧ ∃ k, h.control k = none))

variable {h : Mdio}

theorem Mdio.Clock.elapsed (hc : h.Clock) (k : ℕ) :
    (h.tick k - h.tickstart).toNat ≤ 500 ↔ h.InTime k := by
  have hk : h.tickstart.toNat ≤ (h.tick k).toNat := hc.start.trans (hc.mono (Nat.zero_le k))
  rw [BitVec.toNat_sub_of_le hk, Mdio.InTime]
  omega

theorem Mdio.Clock.inTime_of_le (hc : h.Clock) {j k : ℕ} (hjk : j ≤ k) (hk : h.InTime k) :
    h.InTime j := (hc.mono hjk).trans hk

theorem resetWait_of_clear {regvalue : BitVec 32} (hr : regvalue &&& phyResetMask = 0) (fuel k : ℕ)
    (status : Status) : resetWait h (fuel + 1) k regvalue status = some (regvalue, status) := by
  rw [resetWait, if_pos hr]

/-- An iteration in time ends the wait or goes on with what it read. -/
theorem resetWait_inTime (hc : h.Clock) {k : ℕ} (ht : h.InTime k) (regvalue : BitVec 32)
    (status : Status) :
    h.Stops k regvalue status ∨
      ∃ v ∈ h.control k, ∀ fuel,
        resetWait h (fuel + 1) k regvalue status = resetWait h fuel (k + 1) v status := by
  by_cases hr : regvalue &&& phyResetMask = 0
  · exact Or.inl ⟨1, regvalue, status, resetWait_of_clear hr 0 k status, Or.inl hr⟩
  · have he := (hc.elapsed k).mpr ht
    cases hv : h.control k with
    | none =>
      refine Or.inl ⟨1, regvalue, .error, ?_, Or.inr ⟨rfl, k, hv⟩⟩
      rw [resetWait, if_neg hr, if_pos he, hv]
    | some v =>
      refine Or.inr ⟨v, rfl, fun fuel => ?_⟩
      rw [resetWait, if_neg hr, if_pos he, hv]

/-- **An answer in time ends the wait.** -/
theorem resetWait_answered (hc : h.Clock) {n : ℕ} :
    ∀ {k : ℕ} (regvalue : BitVec 32) (status : Status),
      h.InTime (k + n) → h.Answered (k + n) → h.Stops k regvalue status := by
  -- the iterations before the answer are in time, and one of them may end the wait before it
  induction n with
  | zero =>
    intro k regvalue status ht ha
    rcases resetWait_inTime hc ht regvalue status with hs | ⟨v, hv, hw⟩
    · exact hs
    · have hclear : v &&& phyResetMask = 0 := ha v hv
      exact ⟨2, v, status, (hw 1).trans (resetWait_of_clear hclear 0 (k + 1) status), Or.inl hclear⟩
  | succ n ih =>
    intro k regvalue status ht ha
    have hk : h.InTime k := hc.inTime_of_le (Nat.le_add_right k (n + 1)) ht
    rcases resetWait_inTime hc hk regvalue status with hs | ⟨v, hv, hw⟩
    · exact hs
    · have hidx : k + (n + 1) = k + 1 + n := by omega
      rw [hidx] at ht ha
      obtain ⟨fuel, reg', status', hrun, hend⟩ := ih v status ht ha
      refine ⟨fuel + 1, reg', status', ?_, hend⟩
      rw [hw fuel, hrun]

/-- **Without an answer in time the wait never ends**: after the timeout nothing is read any more. -/
theorem resetWait_eq_none (hc : h.Clock) (hno : ∀ k, h.InTime k → ¬ h.Answered k) (fuel : ℕ) :
    ∀ {k : ℕ} {regvalue : BitVec 32} {status : Status}, regvalue &&& phyResetMask ≠ 0 →
      resetWait h fuel k regvalue status = none := by
  induction fuel with
  | zero =>
    intro k regvalue status hr
    rfl
  | succ fuel ih =>
    intro k regvalue status hr
    rw [resetWait, if_neg hr]
    split_ifs with he
    · have hna := hno k ((hc.elapsed k).mp he)
      rw [Mdio.Answered] at hna
      push Not at hna
      obtain ⟨v, hv, hset⟩ := hna
      rw [Option.mem_def.mp hv]
      exact ih hset
    · exact ih hr

/-- **When the wait for the reset ends**: exactly if the value tested first has the reset bit clear, or
a read within 500 ticks fails or finds it clear. -/
theorem resetWait_ends_iff (hc : h.Clock) (regvalue : BitVec 32) (status : Status) :
    h.Ends regvalue status ↔
      regvalue &&& phyResetMask = 0 ∨ ∃ k, h.InTime k ∧ h.Answered k := by
  constructor
  · rintro ⟨fuel, reg', status', hw, -⟩
    by_contra hno
    push Not at hno
    rw [resetWait_eq_none hc hno.2 fuel hno.1] at hw
    exact Option.some_ne_none _ hw.symm
  · rintro (hr | ⟨k, ht, ha⟩)
    · exact ⟨1, regvalue, status, resetWait_of_clear hr 0 0 status, Or.inl hr⟩
    · rw [← Nat.zero_add k] at ht ha
      obtain ⟨fuel, reg', status', hw, hend⟩ := resetWait_answered hc regvalue status ht ha
      exact ⟨fuel, reg', status', hw, hend.imp_right Or.inl⟩

theorem toNat_tick_constantPhy (v : BitVec 32) (k : ℕ) : ((constantPhy v).tick k).toNat = min k 1000 :=
  (BitVec.toNat_ofNat _ _).trans (Nat.mod_eq_of_lt (by omega))

theorem clock_constantPhy (v : BitVec 32) : (constantPhy v).Clock where
  start := Nat.zero_le _
  mono := by
    intro j k hjk
    simp only [toNat_tick_constantPhy]
    omega

/-- A reset that is answered at once. -/
theorem resetWait_ends_iff_answered : (constantPhy 0).Clock ∧ (constantPhy 0).Ends 0x8000 .eok := by
  refine ⟨clock_constantPhy 0, (resetWait_ends_iff (clock_constantPhy 0) 0x8000 .eok).mpr ?_⟩
  refine Or.inr ⟨0, by unfold Mdio.InTime; decide, fun v hv => ?_⟩
  rw [← Option.some.inj hv]
  decide

/-- A bus on which every register reads `0xFFFF`: the time runs out, and the wait goes on. -/
theorem not_ends_constantPhy : (constantPhy 0xFFFF).Clock ∧ (∃ k, ¬ (constantPhy 0xFFFF).InTime k) ∧
    ¬ (constantPhy 0xFFFF).Ends 0xFFFF .eok := by
  refine ⟨clock_constantPhy _, ⟨501, by unfold Mdio.InTime; decide⟩, ?_⟩
  rintro ⟨fuel, reg', status', hw, -⟩
  rw [resetWait_eq_none (clock_constantPhy _) (fun k _ ha => ?_) fuel (by decide)] at hw
  · exact Option.some_ne_none _ hw.symm
  · exact absurd (ha 0xFFFF rfl) (by decide)

end PipeGallery.Phy
