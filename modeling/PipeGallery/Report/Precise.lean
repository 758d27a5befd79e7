import PipeGallery.Lib.Datum
import PipeGallery.Report.Decode
import PipeGallery.Report.WellFormed

set_option autoImplicit false

/-!
# Reading a report back, in single precision

What `append_float` prints of a `float`, with the roundings of the board. The subtraction of the integer part
is exact; the product by 100 is rounded, and may be rounded to the next hundredth.

* `product`, `toNat_decPart_single`: the decimals;
* `abs_product_lt`: there are at most 99 of them;
* `abs_truncate_product_sub_lt`: they are within a hundredth of the fraction;
* `hundredth`, `neg_one_lt_product`, `product_le_neg_one`: from where on a small negative value prints a decimal;
* `near_floatText_iff`, **`report_reads_back_iff`**.
-/

namespace PipeGallery.Report

open Lib

/-! ## The decimals -/

/-- `(val - i) * 100`. -/
def product (q : ℚ) : ℚ := binary32.nearest ((q - truncate q) * 100)

/-- The argument of the product is small. -/
theorem abs_fract_mul_lt (q : ℚ) : |(q - truncate q) * 100| < 100 := by
  have := abs_sub_truncate_lt q
  rw [abs_mul, abs_of_pos (by norm_num : (0 : ℚ) < 100)]
  linarith

theorem exponent_nonpos {y : ℚ} (hy : |y| < 2 ^ 7) : binary32.exponent y ≤ 0 := by
  by_cases h0 : y = 0
  · rw [h0, Format.exponent, abs_zero, Int.log_zero_right]
    decide
  · exact (Format.exponent_le_of_lt (f := binary32) (k := 6) h0 (by decide) hy).trans (by decide)

/-- The error of the product. -/
theorem abs_product_sub_le (q : ℚ) : |product q - (q - truncate q) * 100| ≤ 2 ^ (-18 : ℤ) := by
  have hlt : |(q - truncate q) * 100| < 2 ^ ((6 : ℤ) + 1) :=
    (abs_fract_mul_lt q).trans (by norm_num)
  exact Format.abs_nearest_sub_le_pow (f := binary32) (k := 6) (by decide) hlt

/-- **At most 99 hundredths**: a fraction is below one by at least `2⁻²⁴`, and 100 times that is more than the
error of the product. -/
theorem abs_product_lt {q : ℚ} (hq : binary32.Datum q) : |product q| < 100 := by
  have herr := abs_product_sub_le q
  have hone := abs_sub_truncate_lt q
  have htri : |product q| ≤ |product q - (q - truncate q) * 100| + |(q - truncate q) * 100| := by
    have := abs_add_le (product q - (q - truncate q) * 100) ((q - truncate q) * 100)
    rwa [sub_add_cancel] at this
  have hmul : |(q - truncate q) * 100| = |q - truncate q| * 100 := by
    rw [abs_mul, abs_of_pos (by norm_num : (0 : ℚ) < 100)]
  have hsmall : (2 : ℚ) ^ (-18 : ℤ) = 1 / 2 ^ 18 := by norm_num
  rw [hmul] at htri
  rw [hsmall] at herr
  rcases le_or_gt |q - truncate q| (1 / 2) with hhalf | hhalf
  · linarith
  · have hne : q - truncate q ≠ 0 := by
      rw [← abs_pos]
      linarith
    have hlo := Format.le_exponent_of_le (f := binary32) (k := -1) (x := q - truncate q)
      (by norm_num at hhalf ⊢; exact hhalf.le)
    have hhi := Format.exponent_le_of_lt (f := binary32) (k := -1) hne (by decide)
      (by rw [neg_add_cancel, zpow_zero]; exact hone)
    obtain ⟨n, hn⟩ := Format.datum_fract hq
    have hulp : binary32.ulp (q - truncate q) = 1 / 2 ^ 24 := by
      have hexp : binary32.exponent (q - truncate q) = -24 := le_antisymm hhi hlo
      rw [Format.ulp_eq, hexp]
      norm_num
    rw [hulp] at hn
    have habs : |q - truncate q| = |(n : ℚ)| / 2 ^ 24 := by
      rw [hn, abs_mul, abs_of_pos (by norm_num : (0 : ℚ) < 1 / 2 ^ 24)]
      ring
    have hn1 : |n| < 2 ^ 24 := by
      have : |(n : ℚ)| < 2 ^ 24 := by
        rw [habs, div_lt_one (by norm_num)] at hone
        exact hone
      exact_mod_cast this
    have hn2 : |(n : ℚ)| ≤ 2 ^ 24 - 1 := by exact_mod_cast Int.le_sub_one_of_lt hn1
    have hgap : |q - truncate q| ≤ 1 - 1 / 2 ^ 24 := by
      rw [habs, div_le_iff₀ (by norm_num)]
      linarith
    linarith

theorem abs_lt_of_trunc {q : ℚ} (h : |q| < 100) : (truncate q).natAbs ≤ 99 := by
  have hle : |(truncate q : ℚ)| < 100 := (abs_truncate_le q).trans_lt h
  have hlt : |truncate q| < 100 := by exact_mod_cast hle
  rw [Int.abs_eq_natAbs] at hlt
  omega

/-- The integer part as a `float`. -/
theorem ofInt_intPart {q : ℚ} (hq : binary32.Datum q) (h : |q| < 2 ^ 31) :
    (CFloat.ofInt (intPart (FVal.fin q)) : FVal) = .fin (truncate q) := by
  change binary32.round ((toInt32 (.fin q)).toInt : ℚ) = _
  rw [toInt_toInt32_of_abs h]
  apply Format.round_of_datum (Format.datum_truncate hq)
  apply ((abs_truncate_le q).trans_lt h).trans
  exact pow_lt_pow_right₀ (by norm_num) (by decide)

/-- **The decimals that are printed.** -/
theorem toNat_decPart_single {q : ℚ} (hq : binary32.Datum q) (h : |q| < 2 ^ 31) :
    (decPart (FVal.fin q)).toNat = (truncate (product q)).natAbs := by
  have hp := abs_product_lt hq
  have hbig : (100 : ℚ) < 2 ^ (binary32.emax + 1) := by
    change (100 : ℚ) < 2 ^ 128
    norm_num
  have hsub : CFloat.sub (FVal.fin q) (CFloat.ofInt (intPart (FVal.fin q))) = .fin (q - truncate q) := by
    rw [ofInt_intPart hq h]
    apply Format.round_of_datum (Format.datum_fract hq)
    linarith [abs_sub_truncate_lt q]
  have hhundred : (CFloat.ofInt 100 : FVal) = .fin (100 : ℤ) := by decide +kernel
  have harg : CFloat.mul (CFloat.sub (FVal.fin q) (CFloat.ofInt (intPart (FVal.fin q)))) (CFloat.ofInt 100) =
      .fin (product q) := by
    rw [hsub, hhundred]
    change binary32.round ((q - truncate q) * (100 : ℤ)) = _
    rw [Int.cast_ofNat, Format.round]
    exact if_neg (not_le.mpr (hp.trans hbig))
  have hd : (toInt32 (.fin (product q))).toInt = truncate (product q) :=
    toInt_toInt32_of_abs (hp.trans (by norm_num))
  have hrange := abs_lt_of_trunc hp
  unfold decPart
  rw [harg]
  change BitVec.toNat (if isNeg (toInt32 (.fin (product q))) then _ else _) = _
  split_ifs with hneg
  · have := toInt_eq_of_isNeg hneg
    change (-toInt32 (.fin (product q))).toNat = _
    omega
  · have := toInt_eq_of_not_isNeg hneg
    change (toInt32 (.fin (product q))).toNat = _
    omega

/-- **The decimals are within a hundredth of the fraction.** -/
theorem abs_truncate_product_sub_lt (q : ℚ) :
    |(truncate (product q) : ℚ) - (q - truncate q) * 100| < 1 := by
  apply Format.abs_truncate_nearest_sub_lt
  · exact exponent_nonpos ((abs_fract_mul_lt q).trans (by norm_num))
  · exact (abs_product_sub_le q).trans_lt (by norm_num)

/-- The decimals have the sign of the value. -/
theorem truncate_product_nonneg {q : ℚ} (h : 0 ≤ q) : 0 ≤ truncate (product q) := by
  have hfl : (truncate q : ℚ) ≤ q := by
    rw [truncate_of_nonneg h]
    exact Int.floor_le q
  have hp : ((0 : ℤ) : ℚ) ≤ product q := by
    apply Format.intCast_le_nearest (exponent_nonpos ((abs_fract_mul_lt q).trans (by norm_num)))
    rw [Int.cast_zero]
    apply mul_nonneg _ (by norm_num)
    linarith
  rw [Int.cast_zero] at hp
  rw [truncate_of_nonneg hp]
  exact Int.floor_nonneg.mpr hp

theorem product_nonpos {q : ℚ} (h : q ≤ 0) : product q ≤ 0 := by
  have hce : q ≤ (truncate q : ℚ) := by
    rw [truncate_of_nonpos h]
    exact Int.le_ceil q
  have hp : product q ≤ ((0 : ℤ) : ℚ) := by
    apply Format.nearest_le_intCast (exponent_nonpos ((abs_fract_mul_lt q).trans (by norm_num)))
    rw [Int.cast_zero]
    apply mul_nonpos_of_nonpos_of_nonneg _ (by norm_num)
    linarith
  rwa [Int.cast_zero] at hp

theorem truncate_product_nonpos {q : ℚ} (h : q ≤ 0) : truncate (product q) ≤ 0 := by
  rw [truncate_of_nonpos (product_nonpos h)]
  exact Int.ceil_le.mpr (by exact_mod_cast product_nonpos h)

/-! ## Where the sign is lost -/

/-- `0.01f`. -/
def hundredth : ℚ := 10737418 / 2 ^ 30

/-- Above `-0.01f` no decimal is printed. -/
theorem neg_one_lt_product {q : ℚ} (hq : binary32.Datum q) (h0 : q < 0) (h : -hundredth < q) :
    -1 < binary32.nearest (q * 100) := by
  have hc : hundredth < 1 / 2 ^ 6 := by norm_num [hundredth]
  have habs : |q| = -q := abs_of_neg h0
  have hy : |q * 100| < 2 ^ ((-1 : ℤ) + 1) := by
    rw [abs_mul, habs, abs_of_pos (by norm_num : (0 : ℚ) < 100), neg_add_cancel, zpow_zero]
    norm_num [hundredth] at h
    linarith
  have herr := Format.abs_nearest_sub_le_pow (f := binary32) (k := -1) (by decide) hy
  have heps : (2 : ℚ) ^ ((-1 : ℤ) - binary32.prec) = 1 / 2 ^ 25 := by
    change (2 : ℚ) ^ ((-1 : ℤ) - 24) = _
    norm_num
  rw [heps, abs_le] at herr
  rcases lt_or_ge (-q) (1 / 2 ^ 7) with hq7 | hq7
  · linarith [herr.1]
  · -- in the binade of `0.01f` the numbers are multiples of `2⁻³⁰`
    have hlo := Format.le_exponent_of_le (f := binary32) (k := -7) (x := q)
      (by rw [habs]; norm_num at hq7 ⊢; exact hq7)
    have hhi := Format.exponent_le_of_lt (f := binary32) (k := -7) h0.ne (by decide)
      (by rw [habs]; norm_num at hc ⊢; linarith)
    obtain ⟨n, hn⟩ := hq
    have hulp : binary32.ulp q = 1 / 2 ^ 30 := by
      have hexp : binary32.exponent q = -30 := le_antisymm hhi hlo
      rw [Format.ulp_eq, hexp]
      norm_num
    rw [hulp] at hn
    have hn1 : (-10737418 : ℤ) < n := by
      have : (-10737418 : ℚ) < n := by
        rw [hn, hundredth] at h
        linarith
      exact_mod_cast this
    have hn2 : (-10737417 : ℚ) ≤ n := by exact_mod_cast hn1
    rw [hn] at herr ⊢
    linarith [herr.1]

/-- From `-0.01f` down the product is rounded to `-1` or below. -/
theorem product_le_neg_one {q : ℚ} (h1 : -1 < q) (h : q ≤ -hundredth) :
    binary32.nearest (q * 100) ≤ -1 := by
  have hneg : q < 0 := by
    norm_num [hundredth] at h
    linarith
  have habs : |q * 100| = -(q * 100) := abs_of_neg (by linarith)
  rcases le_or_gt (q * 100) (-1) with hle | hgt
  · have hy : binary32.exponent (q * 100) ≤ 0 := by
      apply exponent_nonpos
      rw [habs]
      linarith
    have := Format.nearest_le_intCast (m := -1) hy (by push_cast; exact hle)
    rwa [Int.cast_neg, Int.cast_one] at this
  · have hy : |q * 100| < 2 ^ ((-1 : ℤ) + 1) := by
      rw [habs, neg_add_cancel, zpow_zero]
      linarith
    have herr := Format.abs_nearest_sub_le_pow (f := binary32) (k := -1) (by decide) hy
    have heps : (2 : ℚ) ^ ((-1 : ℤ) - binary32.prec) = 1 / 2 ^ 25 := by
      change (2 : ℚ) ^ ((-1 : ℤ) - 24) = _
      norm_num
    rw [heps, abs_le] at herr
    have hlo := Format.le_exponent_of_le (f := binary32) (k := -1) (x := q * 100)
      (by rw [habs]; norm_num [hundredth] at h ⊢; linarith)
    have hhi := Format.exponent_le_of_lt (f := binary32) (k := -1) (x := q * 100) (by linarith) (by decide) hy
    have hulp : binary32.ulp (q * 100) = 1 / 2 ^ 24 := by
      have hexp : binary32.exponent (q * 100) = -24 := le_antisymm hhi hlo
      rw [Format.ulp_eq, hexp]
      norm_num
    -- the product is a multiple of `2⁻²⁴` that is too close to `-1` to lie above it
    rw [Format.nearest, hulp] at herr ⊢
    generalize roundEven (q * 100 / (1 / 2 ^ 24)) = r at herr ⊢
    have hr : (r : ℚ) < ((-2 ^ 24 + 1 : ℤ) : ℚ) := by
      push_cast
      norm_num [hundredth] at h
      linarith [herr.2]
    have hr' : (r : ℚ) ≤ ((-2 ^ 24 : ℤ) : ℚ) := by exact_mod_cast Int.lt_add_one_iff.mp (by exact_mod_cast hr)
    push_cast at hr'
    linarith

/-! ## The number that is read -/

theorem readDecimal_single {q : ℚ} (hq : binary32.Datum q) (h : |q| < 2 ^ 31) :
    readDecimal (floatText (FVal.fin q)) =
      if truncate q < 0 then (truncate q : ℚ) - (truncate (product q)).natAbs / 100
      else truncate q + (truncate (product q)).natAbs / 100 := by
  have hdec := toNat_decPart_single hq h
  have hle : (decPart (FVal.fin q)).toNat ≤ 99 := by
    rw [hdec]
    exact abs_lt_of_trunc (abs_product_lt hq)
  have hint : (intPart (FVal.fin q)).toInt = truncate q := toInt_toInt32_of_abs h
  rw [floatText, readDecimal_parts hle, hint, hdec]

/-- With a sign of its own, a value is read to within a hundredth. -/
theorem near_of_signed {q : ℚ} (hq : binary32.Datum q) (h : |q| < 2 ^ 31) (hs : 0 ≤ q ∨ q ≤ -1) :
    |readDecimal (floatText (FVal.fin q)) - q| < 1 / 100 := by
  have hread : readDecimal (floatText (FVal.fin q)) = truncate q + truncate (product q) / 100 := by
    rw [readDecimal_single hq h]
    rcases hs with h0 | h1
    · have ht : ¬ truncate q < 0 := fun ht => by linarith [truncate_neg_iff.mp ht]
      rw [if_neg ht, ← Int.cast_natCast, Int.natAbs_of_nonneg (truncate_product_nonneg h0)]
    · rw [if_pos (truncate_neg_iff.mpr h1), ← Int.cast_natCast,
        Int.ofNat_natAbs_of_nonpos (truncate_product_nonpos (by linarith))]
      push_cast
      ring
  obtain ⟨hlo, hhi⟩ := abs_lt.mp (abs_truncate_product_sub_lt q)
  rw [hread, abs_lt]
  constructor <;> linarith

/-- **When a value is read to within a hundredth.** -/
theorem near_floatText_iff {q : ℚ} (hq : binary32.Datum q) (h : |q| < 2 ^ 31) :
    |readDecimal (floatText (FVal.fin q)) - q| < 1 / 100 ↔ ¬ (-1 < q ∧ q ≤ -hundredth) := by
  have hc : 0 < hundredth := by norm_num [hundredth]
  rcases le_or_gt 0 q with h0 | h0
  · exact iff_of_true (near_of_signed hq h (Or.inl h0)) fun hv => by linarith [hv.2]
  rcases le_or_gt q (-1) with h1 | h1
  · exact iff_of_true (near_of_signed hq h (Or.inr h1)) fun hv => by linarith [hv.1]
  -- the integer part is 0 and has no sign
  have hzero : truncate q = 0 := by
    have ht : ¬ truncate q < 0 := fun ht => by linarith [truncate_neg_iff.mp ht]
    have : truncate q ≤ 0 := by
      rw [truncate_of_nonpos h0.le]
      exact Int.ceil_le.mpr (by exact_mod_cast h0.le)
    omega
  have hprod : product q = binary32.nearest (q * 100) := by rw [product, hzero, Int.cast_zero, sub_zero]
  have hd0 := truncate_product_nonpos h0.le
  have hread : readDecimal (floatText (FVal.fin q)) = -(truncate (product q) : ℚ) / 100 := by
    rw [readDecimal_single hq h, hzero, if_neg (lt_irrefl 0), ← Int.cast_natCast,
      Int.ofNat_natAbs_of_nonpos hd0]
    push_cast
    ring
  have hone := abs_truncate_product_sub_lt q
  rw [hzero, Int.cast_zero, sub_zero, abs_lt] at hone
  have hdec : truncate (product q) = 0 ↔ -1 < binary32.nearest (q * 100) := by
    rw [← hprod, truncate_of_nonpos (product_nonpos h0.le), Int.ceil_eq_zero_iff]
    exact and_iff_left (product_nonpos h0.le)
  have hsign : -1 < binary32.nearest (q * 100) ↔ ¬ (-1 < q ∧ q ≤ -hundredth) := by
    constructor
    · intro hlt hv
      exact absurd (product_le_neg_one hv.1 hv.2) (not_le.mpr hlt)
    · intro hv
      exact neg_one_lt_product hq h0 (lt_of_not_ge fun hge => hv ⟨h1, hge⟩)
  rw [← hsign, ← hdec, hread, abs_lt]
  constructor
  · rintro ⟨-, hhi⟩
    by_contra hne
    have hle : truncate (product q) ≤ -1 := by omega
    have : (truncate (product q) : ℚ) ≤ -1 := by exact_mod_cast hle
    linarith
  · intro hz
    rw [hz, Int.cast_zero] at hone ⊢
    constructor <;> linarith

/-! ## Reports -/

/-- A bit pattern and a reading of it, to within a hundredth. -/
def Near (w : BitVec 32) (r : ℚ) : Prop := ∃ q, decode32 w = .fin q ∧ |r - q| < 1 / 100

/-- The integer part is an `int`. -/
def InRange (w : BitVec 32) : Prop := ∃ q, decode32 w = .fin q ∧ |q| < 2 ^ 31

/-- A negative value above -1 that prints a decimal. -/
def SignLost (w : BitVec 32) : Prop := ∃ q, decode32 w = .fin q ∧ -1 < q ∧ q ≤ -hundredth

theorem near_iff {w : BitVec 32} (hw : InRange w) :
    Near w (readDecimal (floatText (decode32 w))) ↔ ¬ SignLost w := by
  obtain ⟨q, hq, hlt⟩ := hw
  have h := near_floatText_iff (binary32_datum_decode32 hq) hlt
  rw [Near, SignLost, hq]
  constructor
  · rintro ⟨p, hp, hnear⟩ ⟨r, hr, hlost⟩
    cases hp
    cases hr
    exact h.mp hnear hlost
  · intro hs
    exact ⟨q, rfl, h.mpr fun hlost => hs ⟨q, rfl, hlost⟩⟩

/-- **The report fits its buffer**: the integers take at most 69 characters, and each `float` at most 14. -/
theorem length_sensorJson_le_single {s : Snapshot (BitVec 32)} (hs : ∀ w ∈ s.floats, InRange w) :
    ((sensorJsonCalls (s.map decode32)).flatMap Call.text).length ≤ 502 := by
  have hfloat : ∀ w ∈ s.floats, (floatText (decode32 w)).length ≤ 14 := by
    intro w hw
    obtain ⟨q, hq, hlt⟩ := hs w hw
    have hdatum := binary32_datum_decode32 hq
    have hdec : (decPart (FVal.fin q)).toNat ≤ 99 := by
      rw [toNat_decPart_single hdatum hlt]
      exact abs_lt_of_trunc (abs_product_lt hdatum)
    have h1 := length_sdec_le (intPart (FVal.fin q))
    have h2 := length_sdec02_of_le hdec
    rw [hq, floatText, List.length_append, List.length_cons]
    omega
  have hword : ∀ w : BitVec 32, (udec w.toNat).length ≤ 10 := fun w =>
    length_udec_le (by omega) (w.isLt.trans (by norm_num))
  have h0 := hword s.gAdcCh0
  have h1 := hword s.gAdcCh1
  have h3 := hword s.gAdcCh3
  have h4 := hword s.gAdcCh4
  have h5 := hword s.gAdcCh5
  have hp : (udec s.gMethanePpm.toNat).length ≤ 5 :=
    length_udec_le (by omega) (by have := s.gMethanePpm.isLt; omega)
  have hl : (udec s.gMethaneLel.toNat).length ≤ 3 :=
    length_udec_le (by omega) (by have := s.gMethaneLel.isLt; omega)
  have hf := length_sdec_le s.flame
  have hvalues : valuesLength (s.map decode32) = (udec s.gAdcCh0.toNat).length + (udec s.gAdcCh1.toNat).length +
      (udec s.gAdcCh3.toNat).length + (udec s.gAdcCh4.toNat).length + (udec s.gAdcCh5.toNat).length +
      (udec s.gMethanePpm.toNat).length + (udec s.gMethaneLel.toNat).length +
      (s.floats.map fun w => (floatText (decode32 w)).length).sum + (sdec s.flame).length := by
    simp only [valuesLength, members, Snapshot.map, Snapshot.floats, List.map_cons, List.map_nil, List.sum_cons,
      List.sum_nil]
    omega
  have hsum : (s.floats.map fun w => (floatText (decode32 w)).length).sum ≤ 12 * 14 := by
    have := List.sum_le_card_nsmul (s.floats.map fun w => (floatText (decode32 w)).length) 14 fun x hx => by
      obtain ⟨w, hw, rfl⟩ := List.mem_map.mp hx
      exact hfloat w hw
    rwa [List.length_map] at this
  rw [length_sensorJson, hvalues]
  omega

/-- **A report reads back.** For all globals whose `float`s have an `int` for integer part: `build_sensor_json`
leaves one line in its buffer, a reader of the line finds the twenty keys in their order and the counts as they
were, and it finds every measurement to within a hundredth exactly if none lies in `(-1, -0.01f]`. -/
theorem report_reads_back_iff {base : ℕ} (hb : base + 512 < 2 ^ 32) (m : Mem) (s : Snapshot (BitVec 32))
    (hs : ∀ w ∈ s.floats, InRange w) :
    ∃ line, cString (buildSensorJson base m (s.map decode32)).mem base 512 = line ++ ['\n'] ∧ '\n' ∉ line ∧
      (readReport line).map Prod.fst = keys.map String.toList ∧
      ∃ l, (readReport line).map (fun kv => readDecimal kv.2) = counts s ++ l ++ [(s.flame.toInt : ℚ)] ∧
        (List.Forall₂ Near s.floats l ↔ ∀ w ∈ s.floats, ¬ SignLost w) := by
  obtain ⟨-, -, htext, -⟩ :=
    buildSensorJson_report hb m ((length_sensorJson_le_single hs).trans_lt (by decide))
  refine ⟨reportLine (s.map decode32), ?_, newline_not_mem_reportLine _, ?_, ?_⟩
  · rw [htext, text_sensorJson_line]
  · rw [readReport_reportLine, List.map_map, ← map_fst_members (s.map decode32), List.map_map]
    rfl
  refine ⟨s.floats.map fun w => readDecimal (floatText (decode32 w)), ?_, ?_⟩
  · have h := readDecimal_members (s.map decode32)
    rw [floats_map, List.map_map] at h
    rw [readReport_reportLine, List.map_map]
    exact h
  · rw [List.forall₂_map_right_iff, List.forall₂_same]
    apply forall₂_congr
    intro w hw
    exact near_iff (hs w hw)

theorem report_reads_back_iff_quiet :
    ∃ line, cString (buildSensorJson 0 (fun _ => 'x') (quietSnapshot.map decode32)).mem 0 512 = line ++ ['\n'] ∧
      ∃ l, (readReport line).map (fun kv => readDecimal kv.2) =
          counts quietSnapshot ++ l ++ [(quietSnapshot.flame.toInt : ℚ)] ∧ List.Forall₂ Near quietSnapshot.floats l := by
  have hr : ∀ w ∈ quietSnapshot.floats, ∃ q, decode32 w = .fin q ∧ |q| < 2 ^ 31 ∧ ¬ (-1 < q ∧ q ≤ -hundredth) := by
    simp only [Snapshot.floats, quietSnapshot, List.forall_mem_cons, List.not_mem_nil, false_implies,
      implies_true, and_true]
    refine ⟨?_, ?_, ?_, ?_, ?_, ?_, ?_, ?_, ?_, ?_, ?_, ?_⟩ <;>
      exact ⟨_, rfl, by decide +kernel, by decide +kernel⟩
  obtain ⟨line, htext, -, -, l, hl, hnear⟩ := @report_reads_back_iff 0 (by decide) (fun _ => 'x') quietSnapshot
    fun w hw => by
      obtain ⟨q, hq, h, -⟩ := hr w hw
      exact ⟨q, hq, h⟩
  refine ⟨line, htext, l, hl, hnear.mpr ?_⟩
  rintro w hw ⟨p, hp, hlost⟩
  obtain ⟨q, hq, -, h⟩ := hr w hw
  rw [hq] at hp
  cases hp
  exact h hlost

end PipeGallery.Report
