import Mathlib.Data.Nat.Digits.Lemmas
import Mathlib.Data.Char
import Mathlib.Tactic.IntervalCases
import PipeGallery.Report.Printf

set_option autoImplicit false

/-!
# Reports — what `%u`, `%d` and `%02d` print

* `udec`, `sdec`, `sdec02`: the three texts;
* `layout_plain`, `layout_02`, `printNumber_u`, `printNumber_d`, `printNumber_02d`: `print_number`
  prints them;
* `length_udec_le`, `length_sdec_le`, `length_sdec02_le`: their lengths;
* `isDigit_of_mem_udec`, `udec_shape`: digits without a leading zero.
-/

namespace PipeGallery.Report

/-- The text of an unsigned number. -/
def udec (n : ℕ) : List Char := (tmpDigits false 10 n).reverse

/-- The text of `%d`. -/
def sdec (w : BitVec 32) : List Char := if isNeg w then '-' :: udec (-w).toNat else udec w.toNat

/-- The text of `%02d`. -/
def sdec02 (w : BitVec 32) : List Char :=
  if isNeg w then '-' :: udec (-w).toNat
  else List.replicate (2 - (udec w.toNat).length) '0' ++ udec w.toNat

theorem length_tmpDigits_pos (large : Bool) (base n : ℕ) : 0 < (tmpDigits large base n).length := by
  unfold tmpDigits
  split_ifs with h h'
  · simp
  all_goals
    rw [List.length_map, List.length_pos_iff_ne_nil]
    exact Nat.digits_ne_nil_iff_ne_zero.mpr h

theorem length_udec_pos (n : ℕ) : 0 < (udec n).length := by
  rw [udec, List.length_reverse]
  exact length_tmpDigits_pos _ _ _

/-- Without a width the digits follow the sign. -/
theorem layout_plain (sign : List Char) {tmp : List Char} (h : 0 < tmp.length) :
    layout sign tmp (-1) (-1) false false = sign ++ tmp.reverse := by
  have e1 : max (tmp.length : ℤ) (-1) = tmp.length := max_eq_left (by omega)
  have e2 : ¬ (0 < -1 - (tmp.length : ℤ)) := by omega
  have e3 : (-1 - (tmp.length : ℤ)).toNat = 0 := by omega
  have e4 : (afterPad (-1 - (tmp.length : ℤ)) - sign.length).toNat = 0 := by unfold afterPad; omega
  have e5 : (afterPad (afterPad (-1 - (tmp.length : ℤ)) - sign.length)).toNat = 0 := by
    unfold afterPad; omega
  simp only [layout, e1, decide_eq_false e2, Bool.or_self, Bool.not_false, Bool.and_false,
    Bool.false_eq_true, if_false, if_true, e3, e4, e5]
  simp

/-- With width 2 and zeros, one digit without a sign gets a zero. -/
theorem layout_02 (sign : List Char) {tmp : List Char} (h : 0 < tmp.length) :
    layout sign tmp 2 (-1) true false =
      sign ++ List.replicate (2 - tmp.length - sign.length) '0' ++ tmp.reverse := by
  have e1 : max (tmp.length : ℤ) (-1) = tmp.length := max_eq_left (by omega)
  have e2 : (2 - (tmp.length : ℤ) - sign.length).toNat = 2 - tmp.length - sign.length := by omega
  have e3 : (afterPad (2 - (tmp.length : ℤ) - sign.length)).toNat = 0 := by unfold afterPad; omega
  simp only [layout, e1, Bool.or_false, Bool.not_true, Bool.false_and, Bool.false_eq_true, if_false,
    if_true, e2, e3]
  simp

theorem printNumber_u (w : BitVec 32) : printNumber w 10 (-1) (-1) {} = udec w.toNat :=
  layout_plain [] (length_tmpDigits_pos _ _ _)

theorem printNumber_d (w : BitVec 32) : printNumber w 10 (-1) (-1) { sign := true } = sdec w := by
  unfold printNumber sdec
  refine (layout_plain _ (length_tmpDigits_pos _ _ _)).trans ?_
  cases h : isNeg w
  · simp [signText, h, udec]
  · simp only [signText, h, Bool.not_true, Bool.false_eq_true, if_false, if_true, Bool.and_self]
    rfl

theorem printNumber_02d (w : BitVec 32) :
    printNumber w 10 2 (-1) { sign := true, zeropad := true } = sdec02 w := by
  unfold printNumber sdec02
  refine (layout_02 _ (length_tmpDigits_pos _ _ _)).trans ?_
  cases h : isNeg w
  · simp [signText, h, udec]
  · have hp := length_tmpDigits_pos false 10 (-w).toNat
    simp only [signText, h, Bool.not_true, Bool.false_eq_true, if_false, if_true, Bool.and_self,
      List.length_singleton, show 2 - (tmpDigits false 10 (-w).toNat).length - 1 = 0 by omega]
    rfl

/-! ## Lengths -/

theorem length_udec_le {n k : ℕ} (hk : 1 ≤ k) (h : n < 10 ^ k) : (udec n).length ≤ k := by
  rw [udec, List.length_reverse, tmpDigits, if_pos rfl]
  split_ifs with h0
  · exact hk
  · rw [List.length_map, Nat.digits_length_le_iff (by norm_num)]
    exact h

theorem toNat_neg_le {w : BitVec 32} (h : isNeg w = true) : (-w).toNat ≤ 2 ^ 31 := by
  rw [isNeg, decide_eq_true_eq, BitVec.toInt_eq_toNat_cond] at h
  rw [BitVec.toNat_neg]
  have := w.isLt
  split_ifs at h <;> omega

theorem toNat_lt_of_not_isNeg {w : BitVec 32} (h : ¬ isNeg w = true) : w.toNat < 2 ^ 31 := by
  rw [isNeg, decide_eq_true_eq, BitVec.toInt_eq_toNat_cond] at h
  have := w.isLt
  split_ifs at h <;> omega

/-- A 32-bit integer takes at most eleven characters. -/
theorem length_sdec_le (w : BitVec 32) : (sdec w).length ≤ 11 := by
  unfold sdec
  split_ifs with h
  · have := length_udec_le (k := 10) (by omega) (lt_of_le_of_lt (toNat_neg_le h) (by norm_num))
    rw [List.length_cons]
    omega
  · have := length_udec_le (k := 10) (by omega) ((toNat_lt_of_not_isNeg h).trans (by norm_num))
    omega

theorem length_sdec02_le (w : BitVec 32) : (sdec02 w).length ≤ 11 := by
  unfold sdec02
  split_ifs with h
  · have := length_udec_le (k := 10) (by omega) (lt_of_le_of_lt (toNat_neg_le h) (by norm_num))
    rw [List.length_cons]
    omega
  · have := length_udec_le (k := 10) (by omega) ((toNat_lt_of_not_isNeg h).trans (by norm_num))
    have hp := length_udec_pos w.toNat
    rw [List.length_append, List.length_replicate]
    omega

/-! ## Digits -/

theorem isDigit_digit {d : ℕ} (h : d < 10) : (digit false d).isDigit = true := by
  interval_cases d <;> decide

theorem isDigit_of_mem_udec {n : ℕ} {c : Char} (h : c ∈ udec n) : c.isDigit = true := by
  rw [udec, List.mem_reverse, tmpDigits, if_pos rfl] at h
  split_ifs at h with h0
  · rw [List.mem_singleton.mp h]; decide
  · obtain ⟨d, hd, rfl⟩ := List.mem_map.mp h
    exact isDigit_digit (Nat.digits_lt_base (by norm_num) hd)

/-- `0`, or digits that start with none. -/
theorem udec_shape (n : ℕ) : udec n = ['0'] ∨ ∃ c cs, udec n = c :: cs ∧ c.isDigit = true ∧ c ≠ '0' ∧
    ∀ d ∈ cs, d.isDigit = true := by
  by_cases h0 : n = 0
  · left; rw [h0]; rfl
  right
  have hne : Nat.digits 10 n ≠ [] := Nat.digits_ne_nil_iff_ne_zero.mpr h0
  have hlast := Nat.getLast_digit_ne_zero 10 h0
  have hlt : (Nat.digits 10 n).getLast hne < 10 := Nat.digits_lt_base (by norm_num) (List.getLast_mem hne)
  have he : udec n = digit false ((Nat.digits 10 n).getLast hne) ::
      ((Nat.digits 10 n).dropLast.map (digit false)).reverse := by
    rw [udec, tmpDigits, if_neg h0, if_pos rfl]
    conv_lhs => rw [← List.dropLast_append_getLast hne]
    simp
  refine ⟨_, _, he, isDigit_digit hlt, ?_, fun d hd => isDigit_of_mem_udec (n := n) ?_⟩
  · revert hlast hlt
    generalize (Nat.digits 10 n).getLast hne = d
    intro hd hlt
    interval_cases d <;> first | exact absurd rfl hd | decide
  · rw [he]; exact List.mem_cons_of_mem _ hd

end PipeGallery.Report
