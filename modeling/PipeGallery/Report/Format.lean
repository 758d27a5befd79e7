import PipeGallery.Report.Decimal

set_option autoImplicit false

/-!
# Reports — reading a format

* `formatLoop_eq`: the format loop has turns enough;
* `formatted_nil`, `formatted_plain`, `formatted_s`, `formatted_u`, `formatted_d`, `formatted_02d`:
  what each piece of a format prints.
-/

namespace PipeGallery.Report

theorem length_takeFlags_le (f : Flags) (fmt : List Char) :
    (takeFlags f fmt).2.length ≤ fmt.length := by
  fun_induction takeFlags f fmt with
  | case6 => exact le_rfl
  | _ => rw [List.length_cons]; omega

theorem length_skipAtoi_le (n : ℕ) (fmt : List Char) : (skipAtoi n fmt).2.length ≤ fmt.length := by
  fun_induction skipAtoi n fmt with
  | case1 n c fmt hc ih => rw [List.length_cons]; omega
  | case2 => exact le_rfl
  | case3 => exact le_rfl

theorem length_takeWidth_le (f : Flags) (fmt : List Char) (args : List Arg) :
    (takeWidth f fmt args).2.2.1.length ≤ fmt.length := by
  unfold takeWidth
  split
  · dsimp only
    split_ifs <;> simp
  · split_ifs
    · exact length_skipAtoi_le _ _
    · exact le_rfl
  · exact le_rfl

theorem length_takePrecision_le (fmt : List Char) (args : List Arg) :
    (takePrecision fmt args).2.1.length ≤ fmt.length := by
  unfold takePrecision
  split
  · simp only [List.length_cons]; omega
  · rename_i fmt _
    have := length_skipAtoi_le 0 fmt
    simp only [List.length_cons]; omega
  · exact le_rfl

theorem length_takeQualifier_le (fmt : List Char) : (takeQualifier fmt).2.length ≤ fmt.length := by
  unfold takeQualifier
  split <;> simp

theorem length_convert_le (sp : Spec) (fmt : List Char) (args : List Arg) :
    (convert sp fmt args).2.1.length ≤ fmt.length := by
  unfold convert
  split <;> first | split_ifs <;> simp | simp

/-- **The turns suffice**: every turn takes a character of the format. -/
theorem formatLoop_eq {n : ℕ} {fmt : List Char} (h : fmt.length ≤ n) (args : List Arg) :
    formatLoop n fmt args = formatted fmt args := by
  suffices hs : ∀ n m (fmt : List Char) args, fmt.length ≤ n → fmt.length ≤ m →
      formatLoop n fmt args = formatLoop m fmt args from hs _ _ _ _ h le_rfl
  intro n
  induction n with
  | zero =>
    intro m fmt args hn _
    rw [List.length_eq_zero_iff.mp (Nat.le_zero.mp hn)]
    cases m <;> rfl
  | succ n ih =>
    intro m fmt args hn hm
    cases fmt with
    | nil => cases m <;> rfl
    | cons c fmt =>
      obtain ⟨m, rfl⟩ : ∃ k, m = k + 1 := ⟨m - 1, by rw [List.length_cons] at hm; omega⟩
      rw [List.length_cons] at hn hm
      simp only [formatLoop]
      split_ifs
      · refine congrArg _ (ih _ _ _ ?_ ?_)
        all_goals
          refine le_trans (length_convert_le _ _ _) (le_trans (length_takeQualifier_le _)
            (le_trans (length_takePrecision_le _ _) (le_trans (length_takeWidth_le _ _ _)
              (le_trans (length_takeFlags_le _ _) ?_))))
          omega
      · rw [ih m fmt args (by omega) (by omega)]

@[simp] theorem formatted_nil (args : List Arg) : formatted [] args = [] := rfl

theorem formatted_cons {c : Char} (h : c ≠ '%') (fmt : List Char) (args : List Arg) :
    formatted (c :: fmt) args = c :: formatted fmt args := by
  rw [formatted, List.length_cons, formatLoop, if_neg h]
  rfl

/-- Characters other than `%` print themselves. -/
theorem formatted_plain {l : List Char} (h : '%' ∉ l) (fmt : List Char) (args : List Arg) :
    formatted (l ++ fmt) args = l ++ formatted fmt args := by
  induction l with
  | nil => rfl
  | cons c l ih =>
    rw [List.mem_cons, not_or] at h
    rw [List.cons_append, formatted_cons (Ne.symm h.1), ih h.2, List.cons_append]

theorem formatted_s (fmt s : List Char) (args : List Arg) :
    formatted ('%' :: 's' :: fmt) (.str s :: args) = s ++ formatted fmt args := by
  have hpad : (-1 - (s.length : ℤ)).toNat = 0 := by omega
  change (List.replicate (-1 - (s.length : ℤ)).toNat ' ' ++ s) ++ formatLoop _ fmt args = _
  rw [hpad, List.replicate_zero, List.nil_append, formatLoop_eq (by simp)]

theorem formatted_u (fmt : List Char) (w : BitVec 32) (args : List Arg) :
    formatted ('%' :: 'u' :: fmt) (.num w :: args) = udec w.toNat ++ formatted fmt args := by
  change printNumber w 10 (-1) (-1) {} ++ formatLoop _ fmt args = _
  rw [printNumber_u, formatLoop_eq (by simp)]

theorem formatted_d (fmt : List Char) (w : BitVec 32) (args : List Arg) :
    formatted ('%' :: 'd' :: fmt) (.num w :: args) = sdec w ++ formatted fmt args := by
  change printNumber w 10 (-1) (-1) { sign := true } ++ formatLoop _ fmt args = _
  rw [printNumber_d, formatLoop_eq (by simp)]

theorem formatted_02d (fmt : List Char) (w : BitVec 32) (args : List Arg) :
    formatted ('%' :: '0' :: '2' :: 'd' :: fmt) (.num w :: args) = sdec02 w ++ formatted fmt args := by
  change printNumber w 10 2 (-1) { sign := true, zeropad := true } ++ formatLoop _ fmt args = _
  rw [printNumber_02d, formatLoop_eq (by simp; omega)]

end PipeGallery.Report
