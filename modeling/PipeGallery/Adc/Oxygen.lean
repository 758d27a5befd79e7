import PipeGallery.Lib.Trace
import PipeGallery.Report.Single

set_option autoImplicit false

/-!
# The oxygen reading

`o2_thread_entry` down to the HAL, one iteration after another. The waits for `HAL_ADC_STATE_READY`
give up after 100 ticks and change no result.

* `Conversion`, `Succeeds`: what the hardware does during an iteration;
* `stm32GetAdcValue`, `rtAdcRead`, `readOnce`, `o2ThreadCycle`, `o2Thread`: the code;
* `o2ReadOnce_inj`: the published float tells the tenths apart;
* `kept_iff_tenths`, **`survives_iff`**: when the published value is that of the latest successful conversion.
-/

namespace PipeGallery.Adc

open Lib Report

def rtEok : ℤ := 0

def rtError : ℤ := 1

/-- What the hardware does during a conversion: the results of `HAL_ADC_ConfigChannel`,
`HAL_ADC_Start` and `HAL_ADC_PollForConversion`, the data register when it is read, and what the
uninitialised `value` of `rt_adc_read` holds. -/
structure Conversion where
  config : HalStatus := .ok
  start : HalStatus := .ok
  poll : HalStatus := .ok
  dr : BitVec 16
  value : BitVec 32
  deriving DecidableEq

/-- No HAL call failed. -/
def Conversion.Succeeds (c : Conversion) : Prop := c.config = .ok ∧ c.start = .ok ∧ c.poll = .ok

instance (c : Conversion) : Decidable c.Succeeds := by unfold Conversion.Succeeds; infer_instance

/-! ## The code -/

/-- `stm32_get_adc_value`: its result and `*value`. -/
def stm32GetAdcValue (channel : Channel) (c : Conversion) (value : BitVec 32) : ℤ × BitVec 32 :=
  if channel ≤ 19 then
    match c.config with
    | .fail => (-rtError, value)
    -- the results of `HAL_ADC_Start` and `HAL_ADC_PollForConversion` are dropped
    | .ok => (rtEok, c.dr.zeroExtend 32)
  else (-rtError, value)

/-- `rt_adc_read`. -/
def rtAdcRead (channel : Channel) (c : Conversion) : BitVec 32 :=
  (stm32GetAdcValue channel c c.value).2

/-- `o2_read_once`: its result and `*o2_percent`. -/
def readOnce (c : Conversion) : ℤ × FVal := (rtEok, o2ReadOnce (rtAdcRead o2AdcChannel c))

/-- An iteration of `o2_thread_entry` on `g_o2_concentration`. -/
def o2ThreadCycle (gO2Concentration : FVal) (c : Conversion) : FVal :=
  match readOnce c with
  | (ret, o2) => if ret = rtEok then o2 else gO2Concentration

/-- `o2_thread_entry`: `g_o2_concentration` after some iterations. -/
def o2Thread (cs : List Conversion) : FVal := cs.foldl o2ThreadCycle (.fin 0)

/-! ## Tenths as floats -/

/-- Tenths of a percent are small. -/
theorem abs_toInt_o2X10_lt (raw : BitVec 32) : |(o2X10 raw).toInt| < 2 ^ 20 := by
  have hdiv : ∀ x : BitVec 32, |(x.sdiv (2410 - 0)).toInt| < 2 ^ 20 := by
    intro x
    have hx := BitVec.toInt_lt (x := x)
    have hx' := BitVec.le_toInt (x := x)
    have hb : (2410 - 0 : BitVec 32).toInt = 2410 := by decide
    rw [BitVec.toInt_sdiv_of_ne_or_ne _ _ (Or.inr (by decide)), hb, Int.abs_eq_natAbs,
      Int.natAbs_tdiv]
    change ((x.toInt.natAbs / 2410 : ℕ) : ℤ) < 2 ^ 20
    omega
  unfold o2X10
  dsimp only
  split_ifs
  · decide
  · exact hdiv _

/-- Rounding keeps tenths apart. -/
theorem round_tenth_inj {m n : ℤ} (hm : |m| < 2 ^ 20) (hn : |n| < 2 ^ 20)
    (h : binary32.round ((m : ℚ) / 10) = binary32.round ((n : ℚ) / 10)) : m = n := by
  have herr : ∀ k : ℤ, |k| < 2 ^ 20 →
      ∃ y, binary32.round ((k : ℚ) / 10) = .fin y ∧ |y - k / 10| < 1 / 20 := by
    intro k hk
    have hk' : |(k : ℚ)| < 2 ^ 20 := by exact_mod_cast hk
    have habs : |(k : ℚ) / 10| = |(k : ℚ)| / 10 := by rw [abs_div, abs_of_pos (by norm_num : (0 : ℚ) < 10)]
    rcases binary32_round_spec ((k : ℚ) / 10) with ⟨y, hy, he⟩ | ⟨-, hbig⟩
    · refine ⟨y, hy, he.trans_lt ?_⟩
      rw [habs]
      linarith
    · rw [habs] at hbig
      linarith
  obtain ⟨y, hy, hey⟩ := herr m hm
  obtain ⟨z, hz, hez⟩ := herr n hn
  obtain rfl : y = z := FVal.fin.inj (hy ▸ hz ▸ h)
  rw [abs_lt] at hey hez
  have h1 : ((m - n : ℤ) : ℚ) < 1 := by push_cast; linarith
  have h2 : (-1 : ℚ) < ((m - n : ℤ) : ℚ) := by push_cast; linarith
  have h1' : m - n < 1 := by exact_mod_cast h1
  have h2' : -1 < m - n := by exact_mod_cast h2
  omega

/-- A reading as a float of its tenths. -/
theorem o2ReadOnce_eq_round (raw : BitVec 32) :
    (o2ReadOnce raw : FVal) = binary32.round (((o2X10 raw).toInt : ℚ) / 10) := by
  have hlt := abs_toInt_o2X10_lt raw
  have hx : binary32.ofInt32 (o2X10 raw) = .fin (o2X10 raw).toInt :=
    Format.round_intCast (by decide) (by decide) (hlt.trans (by decide))
  have hten : binary32.ofInt32 10 = .fin (10 : ℤ) := by decide +kernel
  change binary32.div (binary32.ofInt32 (o2X10 raw)) (binary32.ofInt32 10) = _
  rw [hx, hten]
  rfl

/-- **The published float tells the tenths apart.** -/
theorem o2ReadOnce_inj {a b : BitVec 32} :
    (o2ReadOnce a : FVal) = o2ReadOnce b ↔ o2X10 a = o2X10 b := by
  constructor
  · intro h
    rw [o2ReadOnce_eq_round, o2ReadOnce_eq_round] at h
    exact BitVec.eq_of_toInt_eq
      (round_tenth_inj (abs_toInt_o2X10_lt a) (abs_toInt_o2X10_lt b) h)
  · intro h
    rw [o2ReadOnce, o2ReadOnce, h]

/-! ## Failed conversions -/

/-- The raw value of a successful conversion. -/
def Conversion.raw (c : Conversion) : Option (BitVec 32) :=
  if c.Succeeds then some (c.dr.zeroExtend 32) else none

/-- The word that is there after a conversion, read or not. -/
def Conversion.left (c : Conversion) : BitVec 32 :=
  if c.config = .ok then c.dr.zeroExtend 32 else c.value

theorem rtAdcRead_eq_left (c : Conversion) : rtAdcRead o2AdcChannel c = c.left := by
  rw [rtAdcRead, stm32GetAdcValue, if_pos (by decide), Conversion.left]
  cases h : c.config <;> rfl

/-- Whatever the conversion did, its word is published. -/
theorem o2ThreadCycle_eq : o2ThreadCycle = fun _ c => o2ReadOnce c.left := by
  funext g c
  rw [← rtAdcRead_eq_left]
  rfl

theorem left_of_raw {c : Conversion} {w : BitVec 32} (h : c.raw = some w) : c.left = w := by
  rw [Conversion.raw] at h
  split_ifs at h with hs
  rw [Conversion.left, if_pos hs.1]
  exact Option.some.inj h

theorem raw_eq_none_iff {c : Conversion} : c.raw = none ↔ ¬ c.Succeeds := by
  rw [Conversion.raw]
  split_ifs with hs <;> simp [hs]

/-- The value to publish: that of the latest successful conversion, and `0.0f` before the first. -/
def expected (cs : List Conversion) : FVal := latest (fun c => c.raw.map o2ReadOnce) (.fin 0) cs

/-- The raw value of the latest successful conversion, and `0` before the first. -/
def latestRaw (cs : List Conversion) : BitVec 32 := latest Conversion.raw 0 cs

theorem expected_eq (cs : List Conversion) : expected cs = o2ReadOnce (latestRaw cs) := by
  have h0 : (.fin 0 : FVal) = o2ReadOnce (0 : BitVec 32) := by decide +kernel
  rw [expected, h0, latest_map, latestRaw]

/-- The value survives if the word that each failed conversion leaves means the tenths of the latest
successful one. -/
theorem kept_iff_tenths (cs : List Conversion) :
    (∀ p, p <+: cs → o2Thread p = expected p) ↔
      ∀ p c, p ++ [c] <+: cs → ¬ c.Succeeds → o2X10 c.left = o2X10 (latestRaw p) := by
  have hv : ∀ (c : Conversion) (y : FVal), c.raw.map o2ReadOnce = some y → o2ReadOnce c.left = y := by
    intro c y h
    obtain ⟨w, hw, rfl⟩ := Option.map_eq_some_iff.mp h
    rw [left_of_raw hw]
  simp only [o2Thread, o2ThreadCycle_eq, expected, foldl_overwrite_iff hv, Option.map_eq_none_iff,
    raw_eq_none_iff]
  refine forall₂_congr fun p c => ?_
  rw [← expected, expected_eq, o2ReadOnce_inj]

/-! ## Whatever a failed conversion leaves -/

/-- The HAL calls end in the same way, and a conversion that succeeds reads the same word. What one that fails
leaves may differ. -/
structure Conversion.Alike (c d : Conversion) : Prop where
  config : d.config = c.config
  start : d.start = c.start
  poll : d.poll = c.poll
  raw : d.raw = c.raw

theorem Conversion.Alike.refl (c : Conversion) : c.Alike c := ⟨rfl, rfl, rfl, rfl⟩

theorem Conversion.Alike.succeeds {c d : Conversion} (h : c.Alike d) (hc : c.Succeeds) : d.Succeeds := by
  rw [Succeeds, h.config, h.start, h.poll]
  exact hc

theorem succeeds_of_alike {cs ds : List Conversion} (h : List.Forall₂ Conversion.Alike cs ds)
    (hcs : ∀ c ∈ cs, c.Succeeds) : ∀ d ∈ ds, d.Succeeds := by
  induction h with
  | nil => nofun
  | cons hcd _ ih =>
    rw [List.forall_mem_cons] at hcs ⊢
    exact ⟨hcd.succeeds hcs.1, ih hcs.2⟩

/-- A failed conversion may leave this word, wherever the code looks for it. -/
def Conversion.leaving (c : Conversion) (w : BitVec 16) : Conversion :=
  { c with dr := w, value := w.zeroExtend 32 }

theorem left_leaving (c : Conversion) (w : BitVec 16) : (c.leaving w).left = w.zeroExtend 32 := by
  rw [Conversion.left]
  exact ite_self _

theorem alike_leaving {c : Conversion} (hc : ¬ c.Succeeds) (w : BitVec 16) : c.Alike (c.leaving w) := by
  refine ⟨rfl, rfl, rfl, ?_⟩
  rw [raw_eq_none_iff.mpr hc, raw_eq_none_iff]
  exact hc

/-- Of two words that mean different tenths one does not mean those of the latest conversion. -/
theorem exists_leaving (x : BitVec 32) : ∃ w : BitVec 16, o2X10 (w.zeroExtend 32) ≠ o2X10 x := by
  by_cases h : o2X10 x = 0
  · exact ⟨2410, by rw [h]; decide⟩
  · exact ⟨0, fun h0 => h (h0.symm.trans (by decide))⟩

/-- **When the oxygen value survives failed conversions**: in every run in which each of them happens to leave
the raw word of the latest successful one; and whatever the failed ones leave, exactly if none fails. -/
theorem survives_iff (cs : List Conversion) :
    ((∀ p c, p ++ [c] <+: cs → ¬ c.Succeeds → c.left = latestRaw p) →
        ∀ p, p <+: cs → o2Thread p = expected p) ∧
      ((∀ ds, List.Forall₂ Conversion.Alike cs ds → ∀ p, p <+: ds → o2Thread p = expected p) ↔
        ∀ c ∈ cs, c.Succeeds) := by
  constructor
  · intro h
    rw [kept_iff_tenths]
    intro p c hp hc
    rw [h p c hp hc]
  constructor
  · intro h c hc
    by_contra hfail
    obtain ⟨p, q, rfl⟩ := List.append_of_mem hc
    obtain ⟨w, hw⟩ := exists_leaving (latestRaw p)
    have hsame : ∀ l : List Conversion, List.Forall₂ Conversion.Alike l l := fun l =>
      List.forall₂_same.mpr fun x _ => .refl x
    have hds := h (p ++ c.leaving w :: q)
      (List.rel_append (hsame p) (.cons (alike_leaving hfail w) (hsame q)))
    refine hw ?_
    rw [← left_leaving c w]
    refine (kept_iff_tenths _).mp hds p _ ⟨q, by rw [List.append_assoc, List.singleton_append]⟩ ?_
    exact hfail
  · intro h ds hds
    have hall := succeeds_of_alike hds h
    rw [kept_iff_tenths]
    intro p d hp hd
    exact absurd (hall d (hp.subset (List.mem_append_right p List.mem_cons_self))) hd

/-- A reading of air, after which a channel is not configured. -/
def failedConfig : List Conversion :=
  [{ dr := 2410, value := 0 }, { config := .fail, dr := 2410, value := 0 }]

/-- The second iteration publishes `0.0f` in place of `20.9f`. -/
theorem not_survives_failedConfig : ¬ ∀ p, p <+: failedConfig → o2Thread p = expected p := by
  intro h
  exact absurd (h failedConfig (List.prefix_refl _)) (by decide +kernel)

end PipeGallery.Adc
