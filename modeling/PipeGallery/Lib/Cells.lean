import Mathlib.Algebra.Order.Group.Nat
import Mathlib.Data.List.GetD
import Mathlib.Logic.Function.Basic
import Mathlib.Tactic.Push
import Mathlib.Tactic.SplitIfs

set_option autoImplicit false

/-!
# Texts in buffers

A buffer is a function from addresses to values; a text lies in it with an end mark `d` behind it.

* `padded`: a buffer that holds a text and end marks behind it; `padded_inj`;
* `moved`, `copied`: the moves of `memmove` and `memcpy`;
* `padded_insert`, `padded_concat`, `padded_erase`, `padded_dropLast`: one character more, one less;
* `At`: a text and its end mark at an address, `at_congr`, `at_left`, `at_padded`;
* `takeWhile_dropWhile`: a text without the characters it starts with.
-/

namespace PipeGallery.Lib

variable {α : Type*} {d : α}

/-! ## A text alone -/

/-- The text from address 0 on, and end marks behind it. -/
def padded (d : α) (t : List α) (i : ℕ) : α := t.getD i d

theorem padded_of_le {t : List α} {i : ℕ} (h : t.length ≤ i) : padded d t i = d :=
  List.getD_eq_default t d h

theorem padded_of_lt {t : List α} {i : ℕ} (h : i < t.length) : padded d t i = t[i] :=
  List.getD_eq_getElem t d h

theorem padded_append_left {a b : List α} {i : ℕ} (h : i < a.length) : padded d (a ++ b) i = padded d a i :=
  List.getD_append a b d i h

theorem padded_append_right {a b : List α} {i : ℕ} (h : a.length ≤ i) :
    padded d (a ++ b) i = padded d b (i - a.length) :=
  List.getD_append_right a b d i h

theorem padded_cons_succ (c : α) (t : List α) (i : ℕ) : padded d (c :: t) (i + 1) = padded d t i := rfl

theorem padded_mem {t : List α} {i : ℕ} (h : i < t.length) : padded d t i ∈ t := by
  rw [padded_of_lt h]
  exact List.getElem_mem h

/-- A text without end marks can be read off. -/
theorem padded_inj {t u : List α} (ht : d ∉ t) (hu : d ∉ u) (h : padded d t = padded d u) : t = u := by
  have hlen : ∀ {t u : List α}, d ∉ t → padded d t = padded d u → t.length ≤ u.length := by
    intro t u ht h
    by_contra hlt
    push Not at hlt
    apply ht
    have := padded_mem (d := d) hlt
    rwa [h, padded_of_le le_rfl] at this
  apply List.ext_getElem (le_antisymm (hlen ht h) (hlen hu h.symm))
  intro i h1 h2
  rw [← padded_of_lt (d := d) h1, ← padded_of_lt (d := d) h2, h]

/-! ## Moves -/

/-- `memmove`: `n` cells from `src` to `dst`. -/
def moved (m : ℕ → α) (dst src n : ℕ) (i : ℕ) : α := if dst ≤ i ∧ i < dst + n then m (src + (i - dst)) else m i

/-- `memcpy`: the first `n` cells of another buffer. -/
def copied (n : ℕ) (m src : ℕ → α) (i : ℕ) : α := if i < n then src i else m i

theorem copied_padded {n : ℕ} {t u : List α} (ht : t.length ≤ n) (hu : u.length ≤ n) :
    copied n (padded d t) (padded d u) = padded d u := by
  funext i
  unfold copied
  split_ifs with h
  · rfl
  · rw [padded_of_le (by omega), padded_of_le (by omega)]

/-- The front of a text over a shorter one. -/
theorem copied_front {t l w : List α} (ht : t.length ≤ l.length) (hl : l <+: w) :
    copied l.length (padded d t) (padded d w) = padded d l := by
  obtain ⟨r, rfl⟩ := hl
  funext i
  unfold copied
  split_ifs with h
  · exact padded_append_left h
  · rw [padded_of_le (by omega), padded_of_le (by omega)]

theorem padded_concat (a : List α) (c : α) : Function.update (padded d a) a.length c = padded d (a ++ [c]) := by
  funext i
  rcases lt_trichotomy i a.length with h | rfl | h
  · rw [Function.update_of_ne h.ne, padded_append_left h]
  · rw [Function.update_self, padded_append_right le_rfl, Nat.sub_self]
    rfl
  · rw [Function.update_of_ne h.ne', padded_of_le h.le, padded_of_le]
    rw [List.length_append, List.length_singleton]
    exact h

theorem padded_dropLast (a : List α) (c : α) : Function.update (padded d (a ++ [c])) a.length d = padded d a := by
  rw [← padded_concat, Function.update_idem]
  exact Function.update_eq_self_iff.mpr (padded_of_le le_rfl).symm

/-- **A character is inserted**: what is behind it moves up. -/
theorem padded_insert (a b : List α) (c : α) :
    Function.update (moved (padded d (a ++ b)) (a.length + 1) a.length b.length) a.length c =
      padded d (a ++ c :: b) := by
  funext i
  rcases lt_trichotomy i a.length with h | rfl | h
  · rw [Function.update_of_ne h.ne, moved, if_neg (by omega), padded_append_left h, padded_append_left h]
  · rw [Function.update_self, padded_append_right le_rfl, Nat.sub_self]
    rfl
  · obtain ⟨j, rfl⟩ := Nat.exists_eq_add_of_lt h
    rw [Function.update_of_ne h.ne', moved, padded_append_right (a := a) (b := c :: b) (by omega),
      show a.length + j + 1 - a.length = j + 1 by omega, padded_cons_succ]
    split_ifs with hj
    · rw [padded_append_right (by omega), show a.length + (a.length + j + 1 - (a.length + 1)) - a.length = j by omega]
    · have hbj : b.length ≤ j := by omega
      rw [padded_of_le hbj, padded_of_le]
      rw [List.length_append]
      omega

/-- **A character is taken out**: what is behind it moves down. -/
theorem padded_erase (a b : List α) (c : α) :
    Function.update (moved (padded d (a ++ c :: b)) a.length (a.length + 1) b.length) (a.length + b.length) d =
      padded d (a ++ b) := by
  funext i
  by_cases hend : i = a.length + b.length
  · rw [hend, Function.update_self, padded_of_le]
    rw [List.length_append]
  rw [Function.update_of_ne hend, moved]
  rcases lt_or_ge i a.length with h | h
  · rw [if_neg (by omega), padded_append_left h, padded_append_left h]
  · obtain ⟨j, rfl⟩ := Nat.exists_eq_add_of_le h
    rw [padded_append_right (a := a) (b := b) (by omega), Nat.add_sub_cancel_left]
    split_ifs with hj
    · rw [padded_append_right (by omega), show a.length + 1 + j - a.length = j + 1 by omega, padded_cons_succ]
    · have hbj : b.length ≤ j := by omega
      rw [padded_of_le hbj, padded_of_le]
      rw [List.length_append, List.length_cons]
      omega

/-! ## A text at an address -/

/-- The text from address `p` on, with its end mark. -/
def At (d : α) (m : ℕ → α) : ℕ → List α → Prop
  | p, [] => m p = d
  | p, c :: t => m p = c ∧ At d m (p + 1) t

theorem at_congr {m m' : ℕ → α} {p : ℕ} {t : List α} (h : ∀ i, p ≤ i → m' i = m i) (ht : At d m p t) :
    At d m' p t := by
  induction t generalizing p with
  | nil => exact (h p le_rfl).trans ht
  | cons c t ih => exact ⟨(h p le_rfl).trans ht.1, ih (fun i hi => h i (by omega)) ht.2⟩

theorem at_append {m : ℕ → α} {p : ℕ} {a b : List α} (h : At d m p (a ++ b)) : At d m (p + a.length) b := by
  induction a generalizing p with
  | nil => exact h
  | cons c a ih =>
    have := ih h.2
    rwa [Nat.add_right_comm] at this

/-- The front of a text, once an end mark is put behind it. -/
theorem at_left {m m' : ℕ → α} {p : ℕ} {a b : List α} (h : At d m p (a ++ b))
    (hsame : ∀ i, i < p + a.length → m' i = m i) (hend : m' (p + a.length) = d) : At d m' p a := by
  induction a generalizing p with
  | nil => exact hend
  | cons c a ih =>
    rw [List.length_cons] at hsame hend
    refine ⟨(hsame p (by omega)).trans h.1, ih h.2 (fun i hi => hsame i (by omega)) ?_⟩
    rwa [Nat.add_right_comm]

theorem at_padded (t : List α) : At d (padded d t) 0 t := by
  have h : ∀ (a t : List α), At d (padded d (a ++ t)) a.length t := by
    intro a t
    induction t generalizing a with
    | nil => exact padded_of_le (by rw [List.append_nil])
    | cons c t ih =>
      constructor
      · rw [padded_append_right le_rfl, Nat.sub_self]
        rfl
      · have := ih (a ++ [c])
        rwa [List.append_assoc, List.length_append] at this
  exact h [] t

/-! ## A text without its beginning -/

/-- What is left does not start with what was dropped. -/
theorem takeWhile_dropWhile (p : α → Bool) (t : List α) : (t.dropWhile p).takeWhile p = [] := by
  induction t with
  | nil => rfl
  | cons c t ih =>
    rw [List.dropWhile_cons]
    split_ifs with h
    · exact ih
    · exact List.takeWhile_cons_of_neg h

end PipeGallery.Lib
