import PipeGallery.Adc.Model
import PipeGallery.Lib.Float
import PipeGallery.Report.Encode

set_option autoImplicit false

/-!
# Reports — single precision

The `float` of the board: binary32, with conversions to `int` that saturate and give `0` for a NaN.

* the instance of `CFloat`; `registersToFloat`, `o2ReadOnce`;
* `TenthsExact`, `tenthsExact_binary32`: the integer part of `x / 10.0f`;
* `intPart_o2ReadOnce`: the integer part of an oxygen reading.
-/

namespace PipeGallery.Report

open PipeGallery.Lib
open PipeGallery.Adc (o2X10)

instance : CFloat FVal where
  ofInt := binary32.ofInt32
  toInt := toInt32
  sub := binary32.sub
  mul := binary32.mul
  div := binary32.div

/-- `registers_to_float`: the bit pattern of its result. -/
def registersToFloat (reg1 reg2 : BitVec 16) : BitVec 32 :=
  let reg2Unsigned := reg2 &&& 0xFFFF
  (reg1.zeroExtend 32 <<< 16) ||| reg2Unsigned.zeroExtend 32

section
variable {F : Type*} [CFloat F]

/-- `o2_read_once`. -/
def o2ReadOnce (raw : BitVec 32) : F := CFloat.div (CFloat.ofInt (o2X10 raw)) (CFloat.ofInt 10)

end

/-- The integer part of `x / 10.0f`, for the small `x` of the oxygen sensor. -/
def TenthsExact (F : Type*) [CFloat F] : Prop := ∀ x : BitVec 32, 0 ≤ x.toInt → x.toInt < 2 ^ 16 →
  (intPart (CFloat.div (CFloat.ofInt x) (CFloat.ofInt 10) : F)).toInt = x.toInt / 10

theorem toInt_toInt32_fin {q : ℚ} (h0 : 0 ≤ q) (h1 : q < 2 ^ 31) : (toInt32 (.fin q)).toInt = ⌊q⌋ := by
  have hf0 : 0 ≤ ⌊q⌋ := Int.floor_nonneg.mpr h0
  have hf1 : ⌊q⌋ < 2 ^ 31 := Int.floor_lt.mpr (by exact_mod_cast h1)
  rw [toInt_toInt32, truncate, if_pos h0]
  omega

/-- A small integer is rounded to itself. -/
theorem binary32_round_intCast {k : ℤ} (h0 : 0 ≤ k) (h1 : k < 2 ^ 24) :
    binary32.round (k : ℚ) = .fin k := by
  refine Format.round_intCast (by decide) (by decide) ?_
  change |k| < 2 ^ 24
  rwa [abs_of_nonneg h0]

/-- A tenth that is no integer is too far from the next one to be rounded to it. -/
theorem toInt_round_tenth {n : ℤ} (h0 : 0 ≤ n) (h1 : n < 2 ^ 16) (hn : n % 10 ≠ 0) :
    (toInt32 (binary32.round ((n : ℚ) / 10))).toInt = n / 10 := by
  have hq0 : (0 : ℚ) ≤ n := by exact_mod_cast h0
  have hq1 : (n : ℚ) < 2 ^ 16 := by exact_mod_cast h1
  have habs : |(n : ℚ) / 10| = n / 10 := abs_of_nonneg (by positivity)
  have hlo : ((n / 10 : ℤ) : ℚ) + 1 / 10 ≤ (n : ℚ) / 10 := by
    rw [le_div_iff₀ (by norm_num), add_mul]
    norm_num
    exact_mod_cast (show n / 10 * 10 + 1 ≤ n by omega)
  have hhi : (n : ℚ) / 10 ≤ ((n / 10 : ℤ) : ℚ) + 9 / 10 := by
    rw [div_le_iff₀ (by norm_num), add_mul]
    norm_num
    exact_mod_cast (show n ≤ n / 10 * 10 + 9 by omega)
  rcases binary32_round_spec ((n : ℚ) / 10) with ⟨y, hy, herr⟩ | ⟨-, hbig⟩
  · rw [habs, abs_le] at herr
    have hfl : ⌊y⌋ = n / 10 := by
      rw [Int.floor_eq_iff]
      constructor <;> linarith
    have hnn : (0 : ℚ) ≤ (n / 10 : ℤ) := by exact_mod_cast (show 0 ≤ n / 10 by omega)
    rw [hy, toInt_toInt32_fin (by linarith) (by linarith), hfl]
  · rw [habs] at hbig
    linarith

/-- Single precision meets it. -/
theorem tenthsExact_binary32 : TenthsExact FVal := by
  intro x h0 h1
  have hx : binary32.ofInt32 x = .fin x.toInt := binary32_round_intCast h0 (by omega)
  have hten : binary32.ofInt32 10 = .fin (10 : ℤ) := by decide +kernel
  change (toInt32 (binary32.div (binary32.ofInt32 x) (binary32.ofInt32 10))).toInt = _
  rw [hx, hten]
  change (toInt32 (binary32.round ((x.toInt : ℚ) / 10))).toInt = _
  by_cases hdvd : x.toInt % 10 = 0
  · have hk : (x.toInt : ℚ) / 10 = (x.toInt / 10 : ℤ) := by
      rw [div_eq_iff (by norm_num)]
      exact_mod_cast (show x.toInt = x.toInt / 10 * 10 by omega)
    rw [hk, binary32_round_intCast (by omega) (by omega), toInt_toInt32_fin, Int.floor_intCast]
    · exact_mod_cast (show 0 ≤ x.toInt / 10 by omega)
    · exact_mod_cast (show x.toInt / 10 < 2 ^ 31 by omega)
  · exact toInt_round_tenth h0 h1 hdvd

/-! ## Oxygen -/

theorem toInt_o2X10 {raw : BitVec 32} (h : raw.toNat < 2 ^ 16) :
    0 ≤ (o2X10 raw).toInt ∧ (o2X10 raw).toInt ≤ 5683 := by
  have hmul : (raw * 209).toNat = raw.toNat * 209 := by
    rw [BitVec.toNat_mul]
    exact Nat.mod_eq_of_lt (show raw.toNat * 209 < 2 ^ 32 by omega)
  have hm1 : (raw * 209).msb = false := by
    rw [BitVec.msb_eq_decide, hmul]
    exact decide_eq_false (show ¬ 2 ^ 31 ≤ raw.toNat * 209 by omega)
  have hdiv : ((raw - 0) * 209).sdiv (2410 - 0) = (raw * 209).udiv 2410 := by
    have hz : raw - 0 = raw := BitVec.sub_zero raw
    rw [hz, BitVec.sdiv_eq, hm1]
    rfl
  have hnat : ((raw * 209).udiv 2410).toNat = raw.toNat * 209 / 2410 := by
    rw [← hmul]
    exact BitVec.toNat_udiv
  have hint : ((raw * 209).udiv 2410).toInt = raw.toNat * 209 / 2410 := by
    rw [BitVec.toInt_eq_toNat_of_lt (by omega), hnat]
    norm_cast
  unfold o2X10
  rw [hdiv]
  dsimp only
  split_ifs with hair
  · decide
  · rw [hint]
    omega

theorem intPart_o2ReadOnce {F : Type*} [CFloat F] (hF : TenthsExact F) {raw : BitVec 32}
    (h : raw.toNat < 2 ^ 16) :
    0 ≤ (intPart (o2ReadOnce raw : F)).toInt ∧ (intPart (o2ReadOnce raw : F)).toInt ≤ 568 := by
  obtain ⟨h0, h1⟩ := toInt_o2X10 h
  rw [o2ReadOnce, hF _ h0 (by omega)]
  omega

end PipeGallery.Report
