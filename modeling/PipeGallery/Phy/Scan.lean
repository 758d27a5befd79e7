import PipeGallery.Phy.Reset
import Mathlib.Data.Nat.Bitwise

set_option autoImplicit false

/-!
# The scan for the PHY

`rt_stm32_eth_init` looks for an address whose special-modes register repeats the address, and masks
the register with the number of another register.

* `Matches`, **`scanFrom_spec`**: the scan as a search;
* **`find_matches`**: only the addresses 0 and 1 can be found;
* `scanned`, `phyAddr_rtStm32EthInit`: what the scan leaves to the initialisation;
* `OnePhy`, **`scan_finds_iff`**: when the scan finds the PHY;
* `eok_of_rtStm32EthInit`, **`init_finds_iff`**: and when the initialisation does.
-/

namespace PipeGallery.Phy

variable {read : ℕ → Option (BitVec 32)}

/-! ## The scan as a search -/

/-- The test of the scan at address `i`. -/
def Matches (read : ℕ → Option (BitVec 32)) (i : ℕ) : Bool :=
  (read i).any fun v => decide ((v &&& phyBasicStatusReg).toNat = i)

theorem matches_of_none {i : ℕ} (h : read i = none) : Matches read i = false := by
  rw [Matches, h, Option.any_none]

theorem matches_of_some {i : ℕ} {v : BitVec 32} (h : read i = some v) :
    Matches read i = decide ((v &&& phyBasicStatusReg).toNat = i) := by
  rw [Matches, h, Option.any_some]

/-- **The scan finds the first address that matches.** If none does, a failed read is remembered. -/
theorem scanFrom_spec (is : List ℕ) (regvalue : BitVec 32) (status : Status) :
    (scanFrom read is regvalue status).1 = is.find? (Matches read) ∧
      (scanFrom read is regvalue status).2.2 =
        if (is.find? (Matches read)).isSome then .eok
        else if is.all fun i => (read i).isSome then status else .error := by
  induction is generalizing regvalue status with
  | nil => exact ⟨rfl, rfl⟩
  | cons i is ih =>
    rw [scanFrom, List.find?_cons, List.all_cons]
    cases hr : read i with
    | none =>
      obtain ⟨h1, h2⟩ := ih regvalue .error
      rw [matches_of_none hr]
      refine ⟨h1, h2.trans ?_⟩
      rw [ite_self]
      rfl
    | some v =>
      rw [matches_of_some hr]
      by_cases hi : (v &&& phyBasicStatusReg).toNat = i
      · simp [hi]
      · simp only [hi, decide_false, if_false, Option.isSome_some, Bool.true_and]
        exact ih v status

theorem toNat_and_one (v : BitVec 32) : (v &&& phyBasicStatusReg).toNat = v.toNat % 2 := by
  rw [BitVec.toNat_and]
  exact Nat.and_one_is_mod v.toNat

/-- The mask leaves one bit. -/
theorem matches_of_two_le {i : ℕ} (hi : 2 ≤ i) : Matches read i = false := by
  cases hr : read i with
  | none => exact matches_of_none hr
  | some v =>
    rw [matches_of_some hr, toNat_and_one]
    exact decide_eq_false (by omega)

/-- **Only the addresses 0 and 1 can be found**, whatever is read. -/
theorem find_matches (n : ℕ) : (List.range (n + 2)).find? (Matches read) =
    if Matches read 0 then some 0 else if Matches read 1 then some 1 else none := by
  have hrest : ((List.range n).map fun i => i + 2).find? (Matches read) = none := by
    refine List.find?_eq_none.mpr fun i hi => ?_
    obtain ⟨j, -, rfl⟩ := List.mem_map.mp hi
    rw [matches_of_two_le (Nat.le_add_left 2 j)]
    exact Bool.false_ne_true
  have hrange : List.range (n + 2) = 0 :: 1 :: (List.range n).map fun i => i + 2 := by
    rw [List.range_succ_eq_map, List.range_succ_eq_map, List.map_cons, List.map_map]
    rfl
  rw [hrange, List.find?_cons, List.find?_cons, hrest]
  cases Matches read 0 <;> cases Matches read 1 <;> rfl

/-! ## The first initialisation -/

/-- `PHY_ADDR` and `status` behind the scan. -/
def scanned (read : ℕ → Option (BitVec 32)) (phyAddr : ℕ) : ℕ × Status :=
  match scanFrom read (List.range (phyAddr + 1)) 0 .eok with
  | (found, _, status) => (found.getD phyAddr, status)

theorem phyAddr_rtStm32EthInit {fuel : ℕ} {h : Mdio} {s s' : Driver} {status : Status}
    (hi : rtStm32EthInit fuel h s = some (status, s')) :
    s'.phyAddr = (scanned h.scan s.phyAddr).1 := by
  rw [rtStm32EthInit] at hi
  obtain ⟨r, -, hr⟩ := Option.map_eq_some_iff.mp hi
  cases hl : h.last with
  | none =>
    rw [hl] at hr
    obtain ⟨-, rfl⟩ := Prod.mk.inj hr
    rfl
  | some v =>
    rw [hl] at hr
    obtain ⟨-, rfl⟩ := Prod.mk.inj hr
    rfl

/-- One PHY, at address `a`, with `a` in the low five bits of its special-modes register; at every other
address a read fails or finds the bus idle. -/
structure OnePhy (read : ℕ → Option (BitVec 32)) (a : ℕ) : Prop where
  lt : a < 32
  phy : ∃ v, read a = some v ∧ (v &&& 0x1F).toNat = a
  idle : ∀ i < 32, i ≠ a → read i = none ∨ read i = some 0xFFFF

variable {a : ℕ}

/-- The PHY itself matches only if one bit can hold its address. -/
theorem OnePhy.matches_self (h : OnePhy read a) : Matches read a = decide (a ≤ 1) := by
  obtain ⟨v, hv, hlow⟩ := h.phy
  have hmod : v.toNat % 32 = a := by
    rw [← hlow, BitVec.toNat_and]
    exact (Nat.and_two_pow_sub_one_eq_mod v.toNat 5).symm
  rw [matches_of_some hv, toNat_and_one, decide_eq_decide]
  omega

/-- The idle bus does not match at address 0. -/
theorem OnePhy.not_matches_zero (h : OnePhy read a) (ha : a ≠ 0) : Matches read 0 = false := by
  rcases h.idle 0 (by decide) ha.symm with hr | hr
  · exact matches_of_none hr
  · rw [matches_of_some hr]
    rfl

/-- It matches at address 1, unless the read fails. -/
theorem OnePhy.matches_one (h : OnePhy read a) (ha : a ≠ 1) : Matches read 1 = (read 1).isSome := by
  rcases h.idle 1 (by decide) ha.symm with hr | hr
  · rw [matches_of_none hr, hr]
    rfl
  · rw [matches_of_some hr, hr]
    rfl

theorem scanned_eq (phyAddr : ℕ) : scanned read phyAddr =
    (((List.range (phyAddr + 1)).find? (Matches read)).getD phyAddr,
      if ((List.range (phyAddr + 1)).find? (Matches read)).isSome then .eok
      else if (List.range (phyAddr + 1)).all fun i => (read i).isSome then .eok else .error) := by
  obtain ⟨h1, h2⟩ := @scanFrom_spec read (List.range (phyAddr + 1)) 0 .eok
  rw [← h2, ← h1]
  rfl

/-- From address 2 on the PHY is missed: the idle bus at address 1 is taken for it, or the failed read
there stays in `status`. -/
theorem OnePhy.scanned_of_two_le (h : OnePhy read a) (ha : 2 ≤ a) :
    scanned read 0x1F = if (read 1).isSome then (1, .eok) else (0x1F, .error) := by
  rw [scanned_eq, find_matches 30, h.not_matches_zero (by omega), h.matches_one (by omega)]
  cases hr : read 1 with
  | some v => rfl
  | none =>
    have hfail : ¬ (List.range (0x1F + 1)).all fun i => (read i).isSome := by
      intro hall
      have h1 := List.all_eq_true.mp hall 1 (by decide)
      rw [hr] at h1
      cases h1
    rw [if_neg hfail]
    rfl

/-- Only from the addresses 0 and 1 the scan brings the PHY back. -/
theorem OnePhy.scanned_iff (h : OnePhy read a) : scanned read 0x1F = (a, .eok) ↔ a ≤ 1 := by
  constructor
  · intro he
    by_contra ha
    have hmiss := h.scanned_of_two_le (by omega)
    split_ifs at hmiss
    · have h1 : 1 = a := (Prod.mk.inj (hmiss.symm.trans he)).1
      omega
    · cases (Prod.mk.inj (hmiss.symm.trans he)).2
  · intro ha
    have hself := h.matches_self
    rw [scanned_eq, find_matches 30]
    obtain rfl | rfl : a = 0 ∨ a = 1 := by omega
    · rw [hself]
      rfl
    · rw [h.not_matches_zero (by decide), hself]
      rfl

/-- **When the first scan finds the PHY**: exactly at the addresses 0 and 1. -/
theorem scan_finds_iff (h : OnePhy read a) :
    scanned read ({} : Driver).phyAddr = (a, .eok) ↔ a ≤ 1 := h.scanned_iff

/-- A PHY at address 1 on a bus that answers at no other address. -/
theorem scan_finds_iff_one :
    scanned (fun i => if i = 1 then some 0x60E1 else none) ({} : Driver).phyAddr = (1, .eok) := by
  refine (scan_finds_iff (a := 1) ⟨by decide, ⟨0x60E1, rfl, by decide⟩, fun i _ hi => ?_⟩).mpr le_rfl
  exact Or.inl (if_neg hi)

/-- A PHY at address 2: the idle bus at address 1 is taken for it. -/
def phyAtTwo (i : ℕ) : Option (BitVec 32) := if i = 2 then some 0x60E2 else some 0xFFFF

theorem not_scan_finds_phyAtTwo : OnePhy phyAtTwo 2 ∧
    scanned phyAtTwo ({} : Driver).phyAddr = (1, .eok) ∧
    scanned phyAtTwo ({} : Driver).phyAddr ≠ (2, .eok) := by
  refine ⟨⟨by decide, ⟨0x60E2, rfl, by decide⟩, fun i _ hi => Or.inr (if_neg hi)⟩, ?_, ?_⟩
  · decide
  · decide

/-! ## The status of the initialisation -/

/-- Nothing in the wait makes up for an error before it. -/
theorem eok_of_resetWait {h : Mdio} {fuel k : ℕ} {regvalue reg' : BitVec 32} {status : Status}
    (hw : resetWait h fuel k regvalue status = some (reg', .eok)) : status = .eok := by
  induction fuel generalizing k regvalue status with
  | zero => cases hw
  | succ fuel ih =>
    rw [resetWait] at hw
    split_ifs at hw
    · exact (Prod.mk.inj (Option.some.inj hw)).2
    · cases hv : h.control k with
      | none =>
        rw [hv] at hw
        cases (Prod.mk.inj (Option.some.inj hw)).2
      | some v =>
        rw [hv] at hw
        exact ih hw
    · cases ih hw

/-- An initialisation without an error had none in the scan. -/
theorem eok_of_rtStm32EthInit {fuel : ℕ} {h : Mdio} {s s' : Driver}
    (hi : rtStm32EthInit fuel h s = some (.eok, s')) : (scanned h.scan s.phyAddr).2 = .eok := by
  rw [rtStm32EthInit] at hi
  obtain ⟨⟨reg', status⟩, hw, hr⟩ := Option.map_eq_some_iff.mp hi
  have hstatus : status = .eok := by
    cases hl : h.last with
    | none =>
      rw [hl] at hr
      cases (Prod.mk.inj hr).1
    | some v =>
      rw [hl] at hr
      exact (Prod.mk.inj hr).1
  subst hstatus
  split_ifs at hw
  · exact eok_of_resetWait hw
  · exact (Prod.mk.inj (Option.some.inj hw)).2

/-- The reset bit is clear when it is tested first: the initialisation ends with what the scan found. -/
theorem rtStm32EthInit_of_clear {fuel : ℕ} {h : Mdio} {v w : BitVec 32} (hmodes : h.modes = some v)
    (hclear : v &&& phyResetMask = 0) (hlast : h.last = some w) (s : Driver) :
    rtStm32EthInit (fuel + 1) h s = some ((scanned h.scan s.phyAddr).2,
      { s with phyAddr := (scanned h.scan s.phyAddr).1, calls := s.calls ++ [true] }) := by
  rw [rtStm32EthInit, hlast, hmodes]
  dsimp only [Option.getD_some]
  rw [resetWait_of_clear hclear]
  split_ifs <;> rfl

/-- **When the first initialisation finds the PHY**: if the wait for the reset is over at once and the last read
succeeds, exactly at the addresses 0 and 1. -/
theorem init_finds_iff {h : Mdio} {v w : BitVec 32} (hp : OnePhy h.scan a) (hmodes : h.modes = some v)
    (hclear : v &&& phyResetMask = 0) (hlast : h.last = some w) :
    (∃ fuel s, rtStm32EthInit fuel h {} = some (.eok, s) ∧ s.phyAddr = a) ↔ a ≤ 1 := by
  constructor
  · rintro ⟨fuel, s, hi, rfl⟩
    refine hp.scanned_iff.mp (Prod.ext (phyAddr_rtStm32EthInit hi).symm ?_)
    exact eok_of_rtStm32EthInit hi
  · intro ha
    have hscan : scanned h.scan ({} : Driver).phyAddr = (a, .eok) := hp.scanned_iff.mpr ha
    have hi : rtStm32EthInit (0 + 1) h {} = _ := rtStm32EthInit_of_clear hmodes hclear hlast {}
    rw [hscan] at hi
    exact ⟨1, _, hi, rfl⟩

end PipeGallery.Phy
