import PipeGallery.Lib.Float

set_option autoImplicit false

/-!
# Numbers of a format

A number of a format is a whole multiple of its unit in the last place. Rounding leaves it alone, the fraction
behind its integer part is again one, and rounding never takes a value across an integer.

* `exponent`, `exponent_mono`: the exponent of the unit in the last place;
* `Datum`, `round_of_datum`, **`datum_fract`**, `datum_truncate`;
* `abs_nearest_sub_le_pow`: the error, for values below a power of two;
* **`intCast_le_nearest`**, **`nearest_le_intCast`**, `abs_truncate_nearest_sub_lt`;
* `binary32_datum_decode32`: a bit pattern stands for a number of the format.
-/

namespace PipeGallery.Lib

/-! ## Rounding to an integer -/

theorem floor_le_roundEven (q : ℚ) : ⌊q⌋ ≤ roundEven q := by
  have hpar : ⌊q⌋ % 2 = 0 ∨ ⌊q⌋ % 2 = 1 := Int.emod_two_eq_zero_or_one _
  unfold roundEven
  split_ifs <;> omega

theorem roundEven_le_ceil (q : ℚ) : roundEven q ≤ ⌈q⌉ := by
  have hfc : ⌊q⌋ ≤ ⌈q⌉ := Int.floor_le_ceil q
  have hpar : ⌊q⌋ % 2 = 0 ∨ ⌊q⌋ % 2 = 1 := Int.emod_two_eq_zero_or_one _
  unfold roundEven
  split_ifs with h1 h2
  · exact hfc
  all_goals
    have hlt : ⌊q⌋ < ⌈q⌉ := by
      apply Int.lt_ceil.mpr
      linarith
    omega

theorem abs_sub_truncate_le (q : ℚ) : |q - truncate q| ≤ |q| := by
  unfold truncate
  split_ifs with h
  · have h0 : (0 : ℚ) ≤ ⌊q⌋ := by exact_mod_cast Int.floor_nonneg.mpr h
    have h1 := Int.floor_le q
    rw [abs_of_nonneg h, abs_of_nonneg (by linarith)]
    linarith
  · push Not at h
    have h0 : (⌈q⌉ : ℚ) ≤ 0 := by exact_mod_cast Int.ceil_le.mpr (by exact_mod_cast h.le)
    have h1 := Int.le_ceil q
    rw [abs_of_neg h, abs_of_nonpos (by linarith)]
    linarith

theorem abs_truncate_le (q : ℚ) : |(truncate q : ℚ)| ≤ |q| := by
  unfold truncate
  split_ifs with h
  · have h0 : (0 : ℚ) ≤ ⌊q⌋ := by exact_mod_cast Int.floor_nonneg.mpr h
    rw [abs_of_nonneg h, abs_of_nonneg h0]
    exact Int.floor_le q
  · push Not at h
    have h0 : (⌈q⌉ : ℚ) ≤ 0 := by exact_mod_cast Int.ceil_le.mpr (by exact_mod_cast h.le)
    rw [abs_of_neg h, abs_of_nonpos h0]
    linarith [Int.le_ceil q]

theorem truncate_intCast (n : ℤ) : truncate n = n := by
  unfold truncate
  split_ifs
  · exact Int.floor_intCast n
  · exact Int.ceil_intCast n

namespace Format

variable {f : Format}

/-! ## The exponent -/

variable (f) in
/-- The exponent of the unit in the last place. -/
def exponent (q : ℚ) : ℤ := max (Int.log 2 |q|) (1 - f.emax) + 1 - f.prec

theorem ulp_eq (q : ℚ) : f.ulp q = 2 ^ f.exponent q := rfl

theorem exponent_mono {x y : ℚ} (hx : x ≠ 0) (h : |x| ≤ |y|) : f.exponent x ≤ f.exponent y := by
  have hlog : Int.log 2 |x| ≤ Int.log 2 |y| := Int.log_mono_right (abs_pos.mpr hx) h
  unfold exponent
  omega

/-- The exponent below a power of two. -/
theorem exponent_le_of_lt {x : ℚ} {k : ℤ} (hx : x ≠ 0) (hk : 1 - f.emax ≤ k) (h : |x| < 2 ^ (k + 1)) :
    f.exponent x ≤ k + 1 - f.prec := by
  have hlog : Int.log 2 |x| < k + 1 :=
    (Int.lt_zpow_iff_log_lt (by norm_num) (abs_pos.mpr hx)).mp (by exact_mod_cast h)
  unfold exponent
  omega

/-- The exponent from a power of two on. -/
theorem le_exponent_of_le {x : ℚ} {k : ℤ} (h : 2 ^ k ≤ |x|) : k + 1 - f.prec ≤ f.exponent x := by
  have hpos : 0 < |x| := lt_of_lt_of_le (by positivity) h
  have hlog : k ≤ Int.log 2 |x| := (Int.zpow_le_iff_le_log (by norm_num) hpos).mp (by exact_mod_cast h)
  unfold exponent
  omega

/-! ## Numbers of the format -/

variable (f) in
/-- A whole multiple of its unit in the last place. -/
def Datum (q : ℚ) : Prop := ∃ n : ℤ, q = n * f.ulp q

/-- A multiple of a larger power of two will do. -/
theorem datum_of_mul {q : ℚ} {n k : ℤ} (hq : q = n * 2 ^ k) (hk : f.exponent q ≤ k) : f.Datum q := by
  obtain ⟨j, hj⟩ := Int.eq_ofNat_of_zero_le (sub_nonneg.mpr hk)
  refine ⟨n * 2 ^ j, ?_⟩
  have hsplit : (2 : ℚ) ^ k = 2 ^ j * 2 ^ f.exponent q := by
    rw [← zpow_natCast, ← zpow_add₀ (by norm_num), ← hj, sub_add_cancel]
  rw [ulp_eq]
  push_cast
  rw [mul_assoc, ← hsplit]
  exact hq

theorem datum_zero : f.Datum 0 := ⟨0, by simp⟩

theorem nearest_of_datum {q : ℚ} (h : f.Datum q) : f.nearest q = q := by
  obtain ⟨n, hn⟩ := h
  exact nearest_eq_of_mul hn

/-- **Rounding leaves a number of the format alone.** -/
theorem round_of_datum {q : ℚ} (h : f.Datum q) (hq : |q| < 2 ^ (f.emax + 1)) : f.round q = .fin q := by
  rw [round, nearest_of_datum h, if_neg (not_le.mpr hq)]

/-- Above the significand there are no fractions. -/
theorem eq_intCast_of_exponent {q : ℚ} (h : f.Datum q) (hq : 0 ≤ f.exponent q) : ∃ n : ℤ, q = n := by
  obtain ⟨n, hn⟩ := h
  obtain ⟨j, hj⟩ := Int.eq_ofNat_of_zero_le hq
  refine ⟨n * 2 ^ j, ?_⟩
  rw [ulp_eq, hj, zpow_natCast] at hn
  push_cast
  exact hn

/-- **The fraction of a number is a number**: the subtraction of the integer part is exact. -/
theorem datum_fract {q : ℚ} (h : f.Datum q) : f.Datum (q - truncate q) := by
  by_cases hx : q - truncate q = 0
  · rw [hx]
    exact datum_zero
  have hexp : f.exponent q < 0 := by
    by_contra hge
    obtain ⟨n, rfl⟩ := eq_intCast_of_exponent h (not_lt.mp hge)
    rw [truncate_intCast, sub_self] at hx
    exact hx rfl
  obtain ⟨n, hn⟩ := h
  obtain ⟨j, hj⟩ := Int.eq_ofNat_of_zero_le (neg_nonneg.mpr hexp.le)
  have hone : (2 : ℚ) ^ j * 2 ^ f.exponent q = 1 := by
    rw [← zpow_natCast, ← zpow_add₀ (by norm_num), ← hj, neg_add_cancel, zpow_zero]
  apply datum_of_mul (n := n - truncate q * 2 ^ j) (k := f.exponent q)
  · rw [ulp_eq] at hn
    push_cast
    rw [sub_mul, mul_assoc, hone, mul_one, ← hn]
  · exact exponent_mono hx (abs_sub_truncate_le q)

theorem datum_truncate {q : ℚ} (h : f.Datum q) : f.Datum (truncate q) := by
  rcases le_or_gt 0 (f.exponent q) with hexp | hexp
  · obtain ⟨n, rfl⟩ := eq_intCast_of_exponent h hexp
    rw [truncate_intCast]
    exact h
  by_cases hx : (truncate q : ℚ) = 0
  · rw [hx]
    exact datum_zero
  · apply datum_of_mul (n := truncate q) (k := 0)
    · rw [zpow_zero, mul_one]
    · exact (exponent_mono hx (abs_truncate_le q)).trans hexp.le

/-! ## Errors -/

theorem nearest_zero : f.nearest 0 = 0 := nearest_of_datum datum_zero

/-- The error below a power of two. -/
theorem abs_nearest_sub_le_pow {y : ℚ} {k : ℤ} (hk : 1 - f.emax ≤ k) (hy : |y| < 2 ^ (k + 1)) :
    |f.nearest y - y| ≤ 2 ^ (k - f.prec) := by
  by_cases h0 : y = 0
  · rw [h0, nearest_zero, sub_self, abs_zero]
    positivity
  have hulp : f.ulp y ≤ 2 ^ (k + 1 - f.prec) :=
    zpow_le_zpow_right₀ (by norm_num) (exponent_le_of_lt h0 hk hy)
  have htwo : (2 : ℚ) ^ (k + 1 - f.prec) = 2 * 2 ^ (k - f.prec) := by
    rw [show k + 1 - (f.prec : ℤ) = (k - f.prec) + 1 by ring, zpow_add_one₀ (by norm_num), mul_comm]
  have := abs_nearest_sub_le (f := f) y
  linarith

/-- An integer is a whole number of small units. -/
theorem intCast_eq_mul_ulp {y : ℚ} (hy : f.exponent y ≤ 0) (m : ℤ) : ∃ n : ℤ, (m : ℚ) = n * f.ulp y := by
  obtain ⟨j, hj⟩ := Int.eq_ofNat_of_zero_le (neg_nonneg.mpr hy)
  refine ⟨m * 2 ^ j, ?_⟩
  rw [ulp_eq]
  push_cast
  rw [mul_assoc, ← zpow_natCast, ← zpow_add₀ (by norm_num), ← hj, neg_add_cancel, zpow_zero, mul_one]

/-- **Rounding stays on its side of an integer**, from above. -/
theorem intCast_le_nearest {y : ℚ} {m : ℤ} (hy : f.exponent y ≤ 0) (h : m ≤ y) : m ≤ f.nearest y := by
  have hu := f.ulp_pos y
  obtain ⟨n, hn⟩ := intCast_eq_mul_ulp hy m
  have hle : n ≤ roundEven (y / f.ulp y) := by
    apply le_trans _ (floor_le_roundEven _)
    rw [Int.le_floor, le_div_iff₀ hu, ← hn]
    exact h
  rw [hn, nearest]
  exact mul_le_mul_of_nonneg_right (by exact_mod_cast hle) hu.le

/-- From below. -/
theorem nearest_le_intCast {y : ℚ} {m : ℤ} (hy : f.exponent y ≤ 0) (h : y ≤ m) : f.nearest y ≤ m := by
  have hu := f.ulp_pos y
  obtain ⟨n, hn⟩ := intCast_eq_mul_ulp hy m
  have hle : roundEven (y / f.ulp y) ≤ n := by
    apply (roundEven_le_ceil _).trans
    rw [Int.ceil_le, div_le_iff₀ hu, ← hn]
    exact h
  rw [hn, nearest]
  exact mul_le_mul_of_nonneg_right (by exact_mod_cast hle) hu.le

/-- **A rounded value, truncated**, is within one of the value. -/
theorem abs_truncate_nearest_sub_lt {y : ℚ} (hy : f.exponent y ≤ 0) (herr : |f.nearest y - y| < 1) :
    |(truncate (f.nearest y) : ℚ) - y| < 1 := by
  obtain ⟨hlo, hhi⟩ := abs_lt.mp herr
  rw [abs_lt]
  unfold truncate
  split_ifs with h
  · have h1 := Int.floor_le (f.nearest y)
    have h2 := Int.lt_floor_add_one (f.nearest y)
    refine ⟨?_, by linarith⟩
    by_contra hge
    have := intCast_le_nearest (m := ⌊f.nearest y⌋ + 1) hy (by push_cast; linarith)
    push_cast at this
    linarith
  · have h1 := Int.le_ceil (f.nearest y)
    have h2 := Int.ceil_lt_add_one (f.nearest y)
    refine ⟨by linarith, ?_⟩
    by_contra hge
    have := nearest_le_intCast (m := ⌈f.nearest y⌉ - 1) hy (by push_cast; linarith)
    push_cast at this
    linarith

end Format

/-! ## Bit patterns -/

theorem binary32_exponent_subnormal {x : ℚ} (h : |x| < 2 ^ (-126 : ℤ)) : binary32.exponent x ≤ -149 ∨ x = 0 := by
  by_cases hx : x = 0
  · exact Or.inr hx
  · left
    have hk := Format.exponent_le_of_lt (f := binary32) (k := -126) hx (by decide)
      (h.trans_le (zpow_le_zpow_right₀ (by norm_num) (by norm_num)))
    exact hk.trans (by decide)

/-- **A bit pattern stands for a number of the format.** -/
theorem binary32_datum_decode32 {w : BitVec 32} {q : ℚ} (h : decode32 w = .fin q) : binary32.Datum q := by
  obtain ⟨s, hs, hsign⟩ : ∃ s : ℤ, (if w.msb then -1 else 1 : ℚ) = s ∧ |(s : ℚ)| = 1 := by
    split_ifs
    · exact ⟨-1, by norm_num, by norm_num⟩
    · exact ⟨1, by norm_num, by norm_num⟩
  have hm : w.toNat % 2 ^ 23 < 2 ^ 23 := Nat.mod_lt _ (by norm_num)
  have hm' : ((w.toNat % 2 ^ 23 : ℕ) : ℚ) < 2 ^ 23 := by exact_mod_cast hm
  have he : w.toNat / 2 ^ 23 % 2 ^ 8 < 2 ^ 8 := Nat.mod_lt _ (by norm_num)
  unfold decode32 at h
  dsimp only at h
  rw [hs] at h
  generalize w.toNat % 2 ^ 23 = m at h hm hm'
  generalize w.toNat / 2 ^ 23 % 2 ^ 8 = e at h he
  split_ifs at h with h1 h2 h3
  · -- a subnormal number
    injection h with hq
    have habs : |q| < 2 ^ (-126 : ℤ) := by
      rw [← hq, abs_mul, abs_mul, hsign, one_mul, Nat.abs_cast, abs_of_pos (by positivity)]
      calc (m : ℚ) * 2 ^ (-149 : ℤ) < 2 ^ 23 * 2 ^ (-149 : ℤ) := by
            exact mul_lt_mul_of_pos_right hm' (by positivity)
        _ = 2 ^ (-126 : ℤ) := by norm_num
    rcases binary32_exponent_subnormal habs with hexp | rfl
    · apply Format.datum_of_mul (n := s * m) (k := -149) _ hexp
      push_cast
      exact hq.symm
    · exact Format.datum_zero
  · -- a normal number
    injection h with hq
    have hpos : (0 : ℚ) < 2 ^ ((e : ℤ) - 150) := by positivity
    have habs : |q| = (2 ^ 23 + m) * 2 ^ ((e : ℤ) - 150) := by
      rw [← hq, abs_mul, abs_mul, hsign, one_mul, abs_of_pos hpos, abs_of_nonneg (by positivity)]
    have hq0 : q ≠ 0 := by
      rw [← abs_pos, habs]
      positivity
    have hlt : |q| < 2 ^ (((e : ℤ) - 127) + 1) := by
      rw [habs]
      calc ((2 : ℚ) ^ 23 + m) * 2 ^ ((e : ℤ) - 150) < 2 ^ 24 * 2 ^ ((e : ℤ) - 150) := by
            exact mul_lt_mul_of_pos_right (by linarith) hpos
        _ = 2 ^ (((e : ℤ) - 127) + 1) := by
            rw [← zpow_natCast, ← zpow_add₀ (by norm_num)]
            congr 1
            push_cast
            ring
    have hexp := Format.exponent_le_of_lt (f := binary32) hq0 (by change 1 - 127 ≤ (e : ℤ) - 127; omega) hlt
    apply Format.datum_of_mul (n := s * (2 ^ 23 + m)) (k := (e : ℤ) - 150)
    · push_cast
      exact hq.symm
    · apply hexp.trans
      change (e : ℤ) - 127 + 1 - 24 ≤ _
      omega

end PipeGallery.Lib
