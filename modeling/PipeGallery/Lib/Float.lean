import Mathlib.Data.Int.Log
import Mathlib.Data.Rat.Floor
import Mathlib.Tactic.Linarith
import Mathlib.Tactic.Positivity
import Mathlib.Tactic.Ring
import Mathlib.Tactic.FieldSimp
import Mathlib.Algebra.Order.Field.Power

set_option autoImplicit false

/-!
# Binary floating point, by value

A datum is a NaN, an infinity or a rational number; the payload of a NaN and the sign of a zero are
dropped. Operations are exact in `ℚ` and then rounded to nearest, ties to even, with gradual
underflow and with overflow to an infinity.

* `roundEven`, `abs_roundEven_sub_le`, `roundEven_intCast`;
* `Format`, `Format.ulp`, `Format.round`, `Format.sub`, `Format.mul`, `Format.div`;
* `truncate`, `toInt32`, `Format.ofInt32`: the conversions, saturating, with `0` for a NaN;
* **`Format.round_spec`**: a rounded value is close, or it overflowed with the sign of its argument;
* `Format.round_intCast`: small integers are exact;
* `binary32`, `decode32`: single precision and its bit patterns (`binary32_round_spec`,
  `binary32_round_ge`, `binary32_round_le`);
* `toInt_toInt32`, `toInt32_eq_intMin_iff`: where the conversion saturates.
-/

namespace PipeGallery.Lib

/-! ## Rounding to an integer -/

/-- The nearest integer, ties to even. -/
def roundEven (q : ℚ) : ℤ :=
  if q - ⌊q⌋ < 1 / 2 then ⌊q⌋
  else if 1 / 2 < q - ⌊q⌋ then ⌊q⌋ + 1
  else ⌊q⌋ + ⌊q⌋ % 2

theorem roundEven_intCast (n : ℤ) : roundEven n = n := by
  rw [roundEven, Int.floor_intCast, sub_self, if_pos (by norm_num)]

theorem abs_roundEven_sub_le (q : ℚ) : |(roundEven q : ℚ) - q| ≤ 1 / 2 := by
  have hlo := Int.floor_le q
  have hhi := Int.lt_floor_add_one q
  have hpar : ⌊q⌋ % 2 = 0 ∨ ⌊q⌋ % 2 = 1 := Int.emod_two_eq_zero_or_one _
  rw [abs_le]
  unfold roundEven
  split_ifs with h1 h2
  · constructor <;> linarith
  · push_cast
    constructor <;> linarith
  · rcases hpar with hp | hp <;> rw [hp] <;> push_cast <;> constructor <;> linarith

/-- Towards zero. -/
def truncate (q : ℚ) : ℤ := if 0 ≤ q then ⌊q⌋ else ⌈q⌉

/-! ## Formats -/

/-- The bits of the significand and the largest exponent. -/
structure Format where
  prec : ℕ
  emax : ℕ

/-- A datum of a format, by value. -/
inductive FVal where
  | nan
  | inf (neg : Bool)
  | fin (q : ℚ)
  deriving DecidableEq

namespace Format

variable (f : Format)

/-- The unit in the last place at `q`. -/
def ulp (q : ℚ) : ℚ := 2 ^ (max (Int.log 2 |q|) (1 - f.emax) + 1 - f.prec)

/-- The multiple of the unit in the last place that is nearest to `q`. -/
def nearest (q : ℚ) : ℚ := roundEven (q / f.ulp q) * f.ulp q

def round (q : ℚ) : FVal :=
  if 2 ^ (f.emax + 1) ≤ |f.nearest q| then .inf (decide (q < 0)) else .fin (f.nearest q)

def sub : FVal → FVal → FVal
  | .nan, _ => .nan
  | _, .nan => .nan
  | .inf a, .inf b => if a = b then .nan else .inf a
  | .inf a, .fin _ => .inf a
  | .fin _, .inf b => .inf (!b)
  | .fin p, .fin q => f.round (p - q)

def mul : FVal → FVal → FVal
  | .nan, _ => .nan
  | _, .nan => .nan
  | .inf a, .inf b => .inf (xor a b)
  | .inf a, .fin q => if q = 0 then .nan else .inf (xor a (decide (q < 0)))
  | .fin q, .inf a => if q = 0 then .nan else .inf (xor a (decide (q < 0)))
  | .fin p, .fin q => f.round (p * q)

/-- A zero divisor is taken for `+0`. -/
def div : FVal → FVal → FVal
  | .nan, _ => .nan
  | _, .nan => .nan
  | .inf _, .inf _ => .nan
  | .inf a, .fin q => .inf (xor a (decide (q < 0)))
  | .fin _, .inf _ => .fin 0
  | .fin p, .fin q =>
    if q = 0 then (if p = 0 then .nan else .inf (decide (p < 0))) else f.round (p / q)

def ofInt32 (w : BitVec 32) : FVal := f.round w.toInt

end Format

/-- Towards zero, saturating; a NaN gives `0`. -/
def toInt32 : FVal → BitVec 32
  | .nan => 0
  | .inf neg => BitVec.ofInt 32 (if neg then -2 ^ 31 else 2 ^ 31 - 1)
  | .fin q => BitVec.ofInt 32 (max (-2 ^ 31) (min (2 ^ 31 - 1) (truncate q)))

/-! ## Rounding -/

namespace Format

variable {f : Format}

theorem ulp_pos (q : ℚ) : 0 < f.ulp q := zpow_pos (by norm_num) _

theorem abs_nearest_sub_le (q : ℚ) : |f.nearest q - q| ≤ f.ulp q / 2 := by
  have hu := f.ulp_pos q
  have h : f.nearest q - q = (roundEven (q / f.ulp q) - q / f.ulp q) * f.ulp q := by
    rw [nearest, sub_mul, div_mul_cancel₀ _ hu.ne']
  rw [h, abs_mul, abs_of_pos hu]
  calc |(roundEven (q / f.ulp q) : ℚ) - q / f.ulp q| * f.ulp q ≤ 1 / 2 * f.ulp q :=
        mul_le_mul_of_nonneg_right (abs_roundEven_sub_le _) hu.le
    _ = f.ulp q / 2 := by ring

theorem ulp_le {q : ℚ} (hq : q ≠ 0) :
    f.ulp q ≤ 2 * (|q| / 2 ^ f.prec + 2 ^ (1 - f.emax - f.prec : ℤ)) := by
  have hlog : (2 : ℚ) ^ Int.log 2 |q| ≤ |q| := Int.zpow_log_le_self (by norm_num) (abs_pos.mpr hq)
  have hsplit (e : ℤ) : (2 : ℚ) ^ (e + 1 - f.prec) = 2 * (2 ^ e / 2 ^ f.prec) := by
    rw [zpow_sub₀ (by norm_num), zpow_add₀ (by norm_num), zpow_natCast, zpow_one]
    ring
  have hp : (0 : ℚ) < 2 ^ f.prec := by positivity
  unfold ulp
  rcases le_total (Int.log 2 |q|) (1 - f.emax) with h | h
  · rw [max_eq_right h, hsplit, zpow_sub₀ (by norm_num) (1 - (f.emax : ℤ)), zpow_natCast]
    have : 0 ≤ |q| / 2 ^ f.prec := by positivity
    linarith
  · rw [max_eq_left h, hsplit]
    have h1 : (2 : ℚ) ^ Int.log 2 |q| / 2 ^ f.prec ≤ |q| / 2 ^ f.prec :=
      div_le_div_of_nonneg_right hlog hp.le
    have h2 : (0 : ℚ) ≤ 2 ^ (1 - f.emax - f.prec : ℤ) := by positivity
    linarith

/-- The error of `nearest`. -/
theorem abs_nearest_sub_le' (q : ℚ) :
    |f.nearest q - q| ≤ |q| / 2 ^ f.prec + 2 ^ (1 - f.emax - f.prec : ℤ) := by
  by_cases hq : q = 0
  · have h0 : roundEven 0 = 0 := by exact_mod_cast roundEven_intCast 0
    rw [hq, nearest, zero_div, h0]
    simp only [Int.cast_zero, zero_mul, sub_self, abs_zero, zero_div, zero_add]
    positivity
  · have := abs_nearest_sub_le (f := f) q
    have := ulp_le (f := f) hq
    linarith

/-- **A rounded value** is close to its argument, or an infinity of its sign. -/
theorem round_spec (q : ℚ) :
    (∃ y, f.round q = .fin y ∧ |y - q| ≤ |q| / 2 ^ f.prec + 2 ^ (1 - f.emax - f.prec : ℤ)) ∨
      (f.round q = .inf (decide (q < 0)) ∧
        2 ^ (f.emax + 1) ≤ |q| + |q| / 2 ^ f.prec + 2 ^ (1 - f.emax - f.prec : ℤ)) := by
  have herr := abs_nearest_sub_le' (f := f) q
  unfold round
  split_ifs with h
  · refine Or.inr ⟨rfl, ?_⟩
    have := abs_sub_abs_le_abs_sub (f.nearest q) q
    linarith
  · exact Or.inl ⟨_, rfl, herr⟩

/-- A multiple of its unit in the last place is rounded to itself. -/
theorem nearest_eq_of_mul {q : ℚ} {n : ℤ} (h : q = n * f.ulp q) : f.nearest q = q := by
  have hdiv : q / f.ulp q = n := by
    rw [div_eq_iff (f.ulp_pos q).ne']
    exact h
  rw [nearest, hdiv, roundEven_intCast]
  exact h.symm

/-- Integers that fit the significand are exact. -/
theorem round_intCast (hf : f.prec ≤ f.emax) (h1 : 1 ≤ f.emax) {n : ℤ} (hn : |n| < 2 ^ f.prec) :
    f.round n = .fin n := by
  have hn' : |(n : ℚ)| < 2 ^ f.prec := by exact_mod_cast hn
  have hnear : f.nearest n = n := by
    by_cases h0 : n = 0
    · rw [h0]
      exact nearest_eq_of_mul (n := 0) (by simp)
    have hpos : 0 < |(n : ℚ)| := by positivity
    have hone : (1 : ℚ) ≤ |(n : ℚ)| := by exact_mod_cast Int.one_le_abs h0
    have hlo : 0 ≤ Int.log 2 |(n : ℚ)| :=
      (Int.zpow_le_iff_le_log (by norm_num) hpos).mp (by simpa using hone)
    have hhi : Int.log 2 |(n : ℚ)| < f.prec :=
      (Int.lt_zpow_iff_log_lt (by norm_num) hpos).mp (by exact_mod_cast hn')
    obtain ⟨k, hk⟩ : ∃ k : ℕ, (f.prec : ℤ) = Int.log 2 |(n : ℚ)| + 1 + k :=
      ⟨(f.prec - (Int.log 2 |(n : ℚ)| + 1)).toNat, by omega⟩
    have hulp : f.ulp n = (2 ^ k)⁻¹ := by
      rw [ulp, max_eq_left (by omega), hk, ← zpow_natCast, ← zpow_neg]
      congr 1
      ring
    refine nearest_eq_of_mul (n := n * 2 ^ k) ?_
    rw [hulp]
    push_cast
    rw [mul_assoc, mul_inv_cancel₀ (by positivity), mul_one]
  have hlt : ¬ (2 : ℚ) ^ (f.emax + 1) ≤ |(n : ℚ)| := by
    have : (2 : ℚ) ^ f.prec ≤ 2 ^ (f.emax + 1) := pow_le_pow_right₀ (by norm_num) (by omega)
    linarith
  rw [round, hnear, if_neg hlt]

end Format

/-! ## Single precision -/

def binary32 : Format := ⟨24, 127⟩

/-- The datum of a bit pattern. -/
def decode32 (w : BitVec 32) : FVal :=
  let e : ℕ := w.toNat / 2 ^ 23 % 2 ^ 8
  let m : ℕ := w.toNat % 2 ^ 23
  let sign : ℚ := if w.msb then -1 else 1
  if e = 255 then (if m = 0 then .inf w.msb else .nan)
  else if e = 0 then .fin (sign * m * 2 ^ (-149 : ℤ))
  else .fin (sign * (2 ^ 23 + m) * 2 ^ ((e : ℤ) - 150))

/-- The rounding error, in the form used for values of any size. -/
theorem binary32_round_spec (q : ℚ) :
    (∃ y, binary32.round q = .fin y ∧ |y - q| ≤ |q| / 2 ^ 24 + 1 / 2 ^ 20) ∨
      (binary32.round q = .inf (decide (q < 0)) ∧ 2 ^ 127 ≤ |q|) := by
  have htiny : (2 : ℚ) ^ (1 - (binary32.emax : ℤ) - binary32.prec) ≤ 1 / 2 ^ 20 := by
    have : (1 / 2 ^ 20 : ℚ) = 2 ^ (-20 : ℤ) := by norm_num
    rw [this]
    exact zpow_le_zpow_right₀ (by norm_num) (by decide)
  rcases binary32.round_spec q with ⟨y, hy, h⟩ | ⟨hi, h⟩
  · refine Or.inl ⟨y, hy, h.trans ?_⟩
    change |q| / 2 ^ 24 + _ ≤ _
    linarith
  · refine Or.inr ⟨hi, ?_⟩
    change (2 : ℚ) ^ 128 ≤ |q| + |q| / 2 ^ 24 + _ at h
    linarith

/-- Rounding a value above `-b`. -/
theorem binary32_round_ge {x b : ℚ} (h0 : 0 ≤ b) (hb : b < 2 ^ 127) (hx : -b ≤ x) :
    binary32.round x = .inf false ∨
      ∃ u, binary32.round x = .fin u ∧ -(b + b / 2 ^ 24 + 1 / 2 ^ 20) ≤ u := by
  rcases binary32_round_spec x with ⟨u, hu, herr⟩ | ⟨hi, hbig⟩
  · refine Or.inr ⟨u, hu, ?_⟩
    rw [abs_le] at herr
    rcases le_total 0 x with h | h
    · rw [abs_of_nonneg h] at herr
      linarith
    · rw [abs_of_nonpos h] at herr
      linarith
  · refine Or.inl ?_
    have hpos : ¬ x < 0 := by
      intro h
      rw [abs_of_neg h] at hbig
      linarith
    rw [hi, decide_eq_false hpos]

/-- Rounding a value below `-b`. -/
theorem binary32_round_le {x b : ℚ} (h0 : 0 ≤ b) (hx : x ≤ -b) :
    binary32.round x = .inf true ∨
      ∃ u, binary32.round x = .fin u ∧ u ≤ -(b - b / 2 ^ 24 - 1 / 2 ^ 20) := by
  have hn : x ≤ 0 := by linarith
  rcases binary32_round_spec x with ⟨u, hu, herr⟩ | ⟨hi, hbig⟩ <;> rw [abs_of_nonpos hn] at *
  · refine Or.inr ⟨u, hu, ?_⟩
    rw [abs_le] at herr
    linarith
  · refine Or.inl ?_
    have hneg : x < 0 := by linarith
    rw [hi, decide_eq_true hneg]

/-! ## The conversion to an integer -/

theorem toInt_toInt32 (q : ℚ) :
    (toInt32 (.fin q)).toInt = max (-2 ^ 31) (min (2 ^ 31 - 1) (truncate q)) := by
  rw [toInt32, BitVec.toInt_ofInt]
  exact Int.bmod_eq_of_le (by omega) (by omega)

theorem truncate_le (q : ℚ) : (truncate q : ℚ) ≤ q + 1 := by
  unfold truncate
  split_ifs
  · have := Int.floor_le q
    linarith
  · exact (Int.ceil_lt_add_one q).le

/-- The conversion gives the least integer exactly from `-2 ^ 31` downwards. -/
theorem toInt32_eq_intMin_iff (q : ℚ) : toInt32 (.fin q) = BitVec.intMin 32 ↔ q ≤ -2 ^ 31 := by
  have htrunc : truncate q ≤ -2 ^ 31 ↔ q ≤ -2 ^ 31 := by
    unfold truncate
    split_ifs with h
    · constructor
      · intro hf
        have := Int.floor_nonneg.mpr h
        omega
      · intro hq
        linarith
    · rw [Int.ceil_le]
      norm_num
  rw [← BitVec.toInt_inj, toInt_toInt32, ← htrunc]
  change max (-2 ^ 31) (min (2 ^ 31 - 1) (truncate q)) = -2 ^ 31 ↔ _
  omega

end PipeGallery.Lib
