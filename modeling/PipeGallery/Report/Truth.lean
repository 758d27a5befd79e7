import PipeGallery.Report.Single
import PipeGallery.Report.Limits

set_option autoImplicit false

/-!
# Reports — what a printed float says

`append_float` and `append_float_field` on exact rationals: the integer part and two decimals are
printed separately, and only the integer part carries a sign.

* the operations of `float` on `ℚ`;
* `readNat`, `readDecimal`: a decimal text read back;
* `readDecimal_floatText`: the number printed, from its two parts;
* `truncate_hundred`: truncation to two decimals, from the two parts;
* **`truthful_iff`**: the text is the value truncated to two decimals except for
  `-1 < v ≤ -0.01`, where the sign is lost.
-/

namespace PipeGallery.Report

open Lib

/-- Exact arithmetic. -/
instance : CFloat ℚ where
  ofInt w := w.toInt
  toInt q := toInt32 (.fin q)
  sub := (· - ·)
  mul := (· * ·)
  div := (· / ·)

/-! ## Reading a decimal -/

def readNat (cs : List Char) : ℕ := cs.foldl (fun n c => 10 * n + (c.toNat - '0'.toNat)) 0

/-- Digits, a dot and digits. -/
def readUnsigned (cs : List Char) : ℚ :=
  let int := cs.takeWhile fun c => c != '.'
  let frac := (cs.dropWhile fun c => c != '.').drop 1
  readNat int + readNat frac / 10 ^ frac.length

/-- An optional minus in front. -/
def readDecimal : List Char → ℚ
  | [] => readUnsigned []
  | c :: cs => if c = '-' then -readUnsigned cs else readUnsigned (c :: cs)

theorem toNat_digit {d : ℕ} (h : d < 10) : (digit false d).toNat - '0'.toNat = d := by
  interval_cases d <;> rfl

theorem readNat_udec (n : ℕ) : readNat (udec n) = n := by
  rw [udec, tmpDigits, readNat, List.foldl_reverse, if_pos rfl]
  split_ifs with h0
  · rw [h0]; rfl
  · have hval : Nat.ofDigits 10 (Nat.digits 10 n) = n := Nat.ofDigits_digits 10 n
    rw [Nat.ofDigits_eq_foldr] at hval
    rw [List.foldr_map]
    refine Eq.trans (List.foldr_ext _ _ _ fun d hd m => ?_) hval
    rw [toNat_digit (Nat.digits_lt_base (by norm_num) hd), Nat.cast_id, Nat.add_comm]

/-- Zeros in front do not count. -/
theorem readNat_replicate (k : ℕ) (cs : List Char) : readNat (List.replicate k '0' ++ cs) = readNat cs := by
  induction k with
  | zero => rfl
  | succ k ih => exact ih

theorem readNat_sdec02 {w : BitVec 32} (h : isNeg w = false) : readNat (sdec02 w) = w.toNat := by
  rw [sdec02, if_neg (by rw [h]; decide), readNat_replicate, readNat_udec]

theorem dot_not_mem_udec {n : ℕ} {c : Char} (h : c ∈ udec n) : (c != '.') = true := by
  have hd := isDigit_of_mem_udec h
  rw [bne_iff_ne]
  rintro rfl
  cases hd

/-- A number, a dot and a fraction. -/
theorem readUnsigned_udec (n : ℕ) (frac : List Char) : readUnsigned (udec n ++ '.' :: frac) =
    n + (readNat frac : ℚ) / 10 ^ frac.length := by
  have ht : (udec n ++ '.' :: frac).takeWhile (fun c => c != '.') = udec n := by
    rw [List.takeWhile_append_of_pos fun c => dot_not_mem_udec, List.takeWhile_cons_of_neg (by decide),
      List.append_nil]
  have hd : (udec n ++ '.' :: frac).dropWhile (fun c => c != '.') = '.' :: frac := by
    rw [List.dropWhile_append_of_pos fun c => dot_not_mem_udec, List.dropWhile_cons_of_neg (by decide)]
  unfold readUnsigned
  dsimp only
  rw [ht, hd, readNat_udec, List.drop_succ_cons, List.drop_zero]

theorem readDecimal_udec (n : ℕ) (rest : List Char) :
    readDecimal (udec n ++ rest) = readUnsigned (udec n ++ rest) := by
  obtain ⟨c, cs, hc, hd⟩ : ∃ c cs, udec n = c :: cs ∧ c.isDigit = true := by
    rcases udec_shape n with h | ⟨c, cs, h, hd, -, -⟩
    · exact ⟨'0', [], h, rfl⟩
    · exact ⟨c, cs, h, hd⟩
  have hne : c ≠ '-' := by
    rintro rfl
    cases hd
  rw [hc, List.cons_append, readDecimal, if_neg hne]

/-- **The printed number**, from its integer part and its decimals. -/
theorem readDecimal_parts {i d : BitVec 32} (hd : d.toNat ≤ 99) :
    readDecimal (sdec i ++ '.' :: sdec02 d) =
      if i.toInt < 0 then (i.toInt : ℚ) - d.toNat / 100 else i.toInt + d.toNat / 100 := by
  have hneg : isNeg d = false := by
    rw [isNeg, decide_eq_false_iff_not, BitVec.toInt_eq_toNat_of_lt (by omega)]
    omega
  have hfrac : ((readNat (sdec02 d) : ℕ) : ℚ) / 10 ^ (sdec02 d).length = d.toNat / 100 := by
    rw [readNat_sdec02 hneg, length_sdec02_of_le hd]
    norm_num
  unfold sdec
  split_ifs with h1 h2 h2
  · rw [List.cons_append, readDecimal, if_pos rfl, readUnsigned_udec, hfrac, toInt_eq_of_isNeg h1]
    push_cast
    ring
  · exact absurd (of_decide_eq_true h1) h2
  · exact absurd (decide_eq_true h2) h1
  · rw [readDecimal_udec, readUnsigned_udec, hfrac, toInt_eq_of_not_isNeg h1]
    push_cast
    rfl

/-! ## The two parts -/

theorem truncate_of_nonneg {q : ℚ} (h : 0 ≤ q) : truncate q = ⌊q⌋ := if_pos h

theorem truncate_of_nonpos {q : ℚ} (h : q ≤ 0) : truncate q = ⌈q⌉ := by
  rcases h.lt_or_eq with h | rfl
  · exact if_neg (not_le.mpr h)
  · rw [truncate_of_nonneg le_rfl, Int.floor_zero, Int.ceil_zero]

/-- The hundredths behind the integer part, toward zero. -/
def hundredths (v : ℚ) : ℤ := truncate ((v - truncate v) * 100)

/-- **Truncation to two decimals**, from the two parts. -/
theorem truncate_hundred (v : ℚ) : truncate (v * 100) = 100 * truncate v + hundredths v := by
  have hshift : (v - truncate v) * 100 = v * 100 - ((100 * truncate v : ℤ) : ℚ) := by
    push_cast
    ring
  unfold hundredths
  rcases le_or_gt 0 v with h | h
  · have hfloor : (truncate v : ℚ) ≤ v := by
      rw [truncate_of_nonneg h]
      exact Int.floor_le v
    rw [truncate_of_nonneg (by linarith : 0 ≤ v * 100),
      truncate_of_nonneg (by linarith : 0 ≤ (v - truncate v) * 100), hshift, Int.floor_sub_intCast]
    ring
  · have hceil : v ≤ truncate v := by
      rw [truncate_of_nonpos h.le]
      exact Int.le_ceil v
    rw [truncate_of_nonpos (by linarith : v * 100 ≤ 0),
      truncate_of_nonpos (by linarith : (v - truncate v) * 100 ≤ 0), hshift, Int.ceil_sub_intCast]
    ring

theorem abs_sub_truncate_lt (v : ℚ) : |v - truncate v| < 1 := by
  rcases le_or_gt 0 v with h | h
  · rw [truncate_of_nonneg h, abs_lt]
    have h1 := Int.floor_le v
    have h2 := Int.lt_floor_add_one v
    exact ⟨by linarith, by linarith⟩
  · rw [truncate_of_nonpos h.le, abs_lt]
    have h1 := Int.le_ceil v
    have h2 := Int.ceil_lt_add_one v
    exact ⟨by linarith, by linarith⟩

theorem hundredths_nonneg {v : ℚ} (h : 0 ≤ v) : 0 ≤ hundredths v ∧ hundredths v ≤ 99 := by
  have h1 := Int.floor_le v
  have h2 := Int.lt_floor_add_one v
  have hf : 0 ≤ (v - truncate v) * 100 := by
    rw [truncate_of_nonneg h]
    linarith
  unfold hundredths
  rw [truncate_of_nonneg hf, truncate_of_nonneg h]
  refine ⟨Int.floor_nonneg.mpr (by linarith), Int.lt_add_one_iff.mp (Int.floor_lt.mpr ?_)⟩
  push_cast
  linarith

theorem hundredths_nonpos {v : ℚ} (h : v < 0) : -99 ≤ hundredths v ∧ hundredths v ≤ 0 := by
  have h1 := Int.le_ceil v
  have h2 := Int.ceil_lt_add_one v
  have hf : (v - truncate v) * 100 ≤ 0 := by
    rw [truncate_of_nonpos h.le]
    linarith
  unfold hundredths
  rw [truncate_of_nonpos hf, truncate_of_nonpos h.le]
  refine ⟨?_, Int.ceil_le.mpr (by push_cast; linarith)⟩
  refine Int.sub_one_lt_iff.mp (Int.lt_ceil.mpr ?_)
  push_cast
  linarith

theorem toInt_toInt32_of_abs {q : ℚ} (h : |q| < 2 ^ 31) : (toInt32 (.fin q)).toInt = truncate q := by
  obtain ⟨hlo, hhi⟩ := abs_lt.mp h
  rw [toInt_toInt32]
  rcases le_or_gt 0 q with h0 | h0
  · have h1 : truncate q < 2 ^ 31 := by
      rw [truncate_of_nonneg h0, Int.floor_lt]
      exact_mod_cast hhi
    have h2 : 0 ≤ truncate q := by
      rw [truncate_of_nonneg h0]
      exact Int.floor_nonneg.mpr h0
    omega
  · have h1 : -2 ^ 31 < truncate q := by
      rw [truncate_of_nonpos h0.le, Int.lt_ceil]
      exact_mod_cast hlo
    have h2 : truncate q ≤ 0 := by
      rw [truncate_of_nonpos h0.le]
      exact Int.ceil_le.mpr (by exact_mod_cast h0.le)
    omega

theorem toInt_intPart {v : ℚ} (h : |v| < 2 ^ 31) : (intPart v).toInt = truncate v :=
  toInt_toInt32_of_abs h

theorem natAbs_hundredths_le (v : ℚ) : (hundredths v).natAbs ≤ 99 := by
  rcases le_or_gt 0 v with h0 | h0
  · have := hundredths_nonneg h0
    omega
  · have := hundredths_nonpos h0
    omega

theorem toNat_decPart {v : ℚ} (h : |v| < 2 ^ 31) : (decPart v).toNat = (hundredths v).natAbs := by
  have hrange := natAbs_hundredths_le v
  have hfrac : |(v - truncate v) * 100| < 2 ^ 31 := by
    have := abs_sub_truncate_lt v
    rw [abs_mul, abs_of_pos (by norm_num : (0 : ℚ) < 100)]
    linarith
  have harg : CFloat.mul (CFloat.sub v (CFloat.ofInt (intPart v))) (CFloat.ofInt 100) =
      (v - truncate v) * 100 := by
    change (v - ((intPart v).toInt : ℚ)) * (((100 : BitVec 32).toInt : ℤ) : ℚ) = _
    rw [toInt_intPart h]
    rfl
  have hd : (toInt32 (.fin ((v - truncate v) * 100))).toInt = hundredths v := toInt_toInt32_of_abs hfrac
  unfold decPart
  rw [harg]
  change BitVec.toNat (if isNeg (toInt32 (.fin ((v - truncate v) * 100))) then _ else _) = _
  split_ifs with hneg
  · have := toInt_eq_of_isNeg hneg
    change (-toInt32 (.fin ((v - truncate v) * 100))).toNat = _
    omega
  · have := toInt_eq_of_not_isNeg hneg
    change (toInt32 (.fin ((v - truncate v) * 100))).toNat = _
    omega

/-! ## Truthful texts -/

/-- The call prints a member whose number, read back, is `v` truncated toward zero to two decimals. -/
def Truthful (c : Call) (key : String) (v : ℚ) : Prop :=
  ∃ number, c.text = member (key, number) ∧ readDecimal number = truncate (v * 100) / 100

theorem readDecimal_floatText {v : ℚ} (h : |v| < 2 ^ 31) : readDecimal (floatText v) =
    if truncate v < 0 then (truncate v : ℚ) - (hundredths v).natAbs / 100
    else truncate v + (hundredths v).natAbs / 100 := by
  have hdec := toNat_decPart h
  have hle : (decPart v).toNat ≤ 99 := hdec ▸ natAbs_hundredths_le v
  rw [floatText, readDecimal_parts hle, toInt_intPart h, hdec]

/-- A negative value without an integer part. -/
theorem hundredths_eq_zero_iff {v : ℚ} (h0 : v < 0) (ht : truncate v = 0) :
    hundredths v = 0 ↔ -1 / 100 < v := by
  rw [hundredths, ht, Int.cast_zero, sub_zero, truncate_of_nonpos (by linarith), Int.ceil_eq_zero_iff]
  constructor
  · intro hv
    linarith [hv.1]
  · intro hv
    constructor <;> linarith

theorem natAbs_hundredths_of_neg {v : ℚ} (h0 : v < 0) : ((hundredths v).natAbs : ℚ) = -hundredths v := by
  rw [← Int.cast_natCast, Int.ofNat_natAbs_of_nonpos (hundredths_nonpos h0).2, Int.cast_neg]

theorem truncate_neg_iff {v : ℚ} : truncate v < 0 ↔ v ≤ -1 := by
  rcases le_or_gt 0 v with h0 | h0
  · rw [truncate_of_nonneg h0]
    exact iff_of_false (not_lt.mpr (Int.floor_nonneg.mpr h0)) (by linarith)
  · rw [truncate_of_nonpos h0.le, Int.lt_iff_add_one_le, ← le_sub_iff_add_le, zero_sub, Int.ceil_le]
    exact_mod_cast Iff.rfl

/-- A value that is not negative has two parts that are not. -/
theorem readDecimal_floatText_of_nonneg {v : ℚ} (h : |v| < 2 ^ 31) (h0 : 0 ≤ v) :
    readDecimal (floatText v) = truncate (v * 100) / 100 := by
  have ht : ¬ truncate v < 0 := fun ht => by linarith [truncate_neg_iff.mp ht]
  rw [readDecimal_floatText h, truncate_hundred, if_neg ht, ← Int.cast_natCast,
    Int.natAbs_of_nonneg (hundredths_nonneg h0).1]
  push_cast
  ring

/-- Up to -1 the integer part prints the sign of both. -/
theorem readDecimal_floatText_of_le {v : ℚ} (h : |v| < 2 ^ 31) (h1 : v ≤ -1) :
    readDecimal (floatText v) = truncate (v * 100) / 100 := by
  rw [readDecimal_floatText h, truncate_hundred, if_pos (truncate_neg_iff.mpr h1),
    natAbs_hundredths_of_neg (by linarith)]
  push_cast
  ring

/-- Above -1 the integer part is 0 and prints no sign. -/
theorem readDecimal_floatText_of_gt {v : ℚ} (h : |v| < 2 ^ 31) (h1 : -1 < v) (h0 : v < 0) :
    truncate v = 0 ∧ readDecimal (floatText v) = -(hundredths v / 100) := by
  have ht : ¬ truncate v < 0 := fun ht => by linarith [truncate_neg_iff.mp ht]
  have hzero : truncate v = 0 := by
    have : truncate v ≤ 0 := by
      rw [truncate_of_nonpos h0.le]
      exact Int.ceil_le.mpr (by exact_mod_cast h0.le)
    omega
  refine ⟨hzero, ?_⟩
  rw [readDecimal_floatText h, if_neg ht, natAbs_hundredths_of_neg h0, hzero]
  push_cast
  ring

/-- The sign is carried by the integer part alone. -/
theorem readDecimal_floatText_iff {v : ℚ} (h : |v| < 2 ^ 31) :
    readDecimal (floatText v) = truncate (v * 100) / 100 ↔ ¬ (-1 < v ∧ v ≤ -1 / 100) := by
  rcases le_or_gt 0 v with h0 | h0
  · exact iff_of_true (readDecimal_floatText_of_nonneg h h0) fun hv => by linarith [hv.2]
  rcases le_or_gt v (-1) with h1 | h1
  · exact iff_of_true (readDecimal_floatText_of_le h h1) fun hv => by linarith [hv.1]
  -- the printed number is the negative of the truncation, so both are 0 or it is wrong
  obtain ⟨hzero, hread⟩ := readDecimal_floatText_of_gt h h1 h0
  rw [hread, truncate_hundred, hzero, mul_zero, zero_add]
  have hsign : -((hundredths v : ℚ) / 100) = (hundredths v : ℚ) / 100 ↔ hundredths v = 0 := by
    rw [neg_eq_self, div_eq_zero_iff, or_iff_left (by norm_num), Int.cast_eq_zero]
  rw [hsign, hundredths_eq_zero_iff h0 hzero, ← not_le]
  exact not_congr (and_iff_right h1).symm

/-- The number of the member is the printed one. -/
theorem truthful_floatCall_iff {v : ℚ} (h : |v| < 2 ^ 31) (key : String) :
    Truthful (floatCall key.toList v) key v ↔ ¬ (-1 < v ∧ v ≤ -1 / 100) := by
  rw [← readDecimal_floatText_iff h]
  constructor
  · rintro ⟨number, hn, hr⟩
    rw [text_floatCall] at hn
    have hnum : floatText v = number := (List.cons.inj (List.append_cancel_left hn)).2
    rw [hnum, hr]
  · exact fun hr => ⟨floatText v, text_floatCall key v, hr⟩

/-- **Reported decimals are truthful except between -1 and -0.01**: for every rational of magnitude
below `2^31`, both encoders print its truncation to two decimals if and only if the value is not in
`(-1, -0.01]`. -/
theorem truthful_iff {v : ℚ} (h : |v| < 2 ^ 31) (key : String) :
    Truthful (appendFloat key v) key v ∧ Truthful (appendFloatField key v) key v ↔
      ¬ (-1 < v ∧ v ≤ -1 / 100) := by
  have hcall := truthful_floatCall_iff h key
  exact ⟨fun ht => hcall.mp ht.1, fun hv => ⟨hcall.mpr hv, hcall.mpr hv⟩⟩

theorem truthful_iff_quarter : |(-5 / 4 : ℚ)| < 2 ^ 31 ∧
    Truthful (appendFloat "flow" (-5 / 4 : ℚ)) "flow" (-5 / 4) ∧
    Truthful (appendFloatField "flow" (-5 / 4 : ℚ)) "flow" (-5 / 4) := by
  have hlt : |(-5 / 4 : ℚ)| < 2 ^ 31 := by norm_num [abs_lt]
  exact ⟨hlt, (truthful_iff hlt "flow").mpr (by norm_num)⟩

/-- `-0.5` is printed as `0.50`. -/
theorem not_truthful_half : |(-1 / 2 : ℚ)| < 2 ^ 31 ∧
    (appendFloat "temperature" (-1 / 2 : ℚ)).text = "\"temperature\":0.50".toList ∧
    (appendFloatField "temperature" (-1 / 2 : ℚ)).text = "\"temperature\":0.50".toList ∧
    ¬ Truthful (appendFloat "temperature" (-1 / 2 : ℚ)) "temperature" (-1 / 2) ∧
    ¬ Truthful (appendFloatField "temperature" (-1 / 2 : ℚ)) "temperature" (-1 / 2) := by
  have hlt : |(-1 / 2 : ℚ)| < 2 ^ 31 := by norm_num [abs_lt]
  have hcall := (truthful_floatCall_iff hlt "temperature").not.mpr (by norm_num)
  exact ⟨hlt, by decide +kernel, by decide +kernel, hcall, hcall⟩

end PipeGallery.Report
