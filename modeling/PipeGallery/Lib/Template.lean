import Mathlib.Data.List.TakeWhile
import Mathlib.Algebra.Ring.Nat
import Mathlib.Logic.Basic

set_option autoImplicit false

/-!
# Filling in a template and reading it back

A template is a text with fields in it, each followed by a literal. The characters of the fields are those
that meet `P`.

* `fill`, `length_fill`, `mem_fill`, `unfill`: one message; `unfill` takes the longest run of field characters for
  each field;
* **`unfill_fill`**: when no literal starts with a field character, the fields come back;
* `unfillMany`, **`unfillMany_flatMap`**: messages behind each other.
-/

namespace PipeGallery.Lib

variable {α : Type*}

/-- The fields, each with its literal behind it. -/
def fill : List (List α) → List (List α) → List α
  | l :: ls, f :: fs => f ++ (l ++ fill ls fs)
  | _, _ => []

theorem length_fill {ls fs : List (List α)} (h : ls.length = fs.length) :
    (fill ls fs).length = (ls.map List.length).sum + (fs.map List.length).sum := by
  induction ls generalizing fs with
  | nil =>
    obtain rfl : fs = [] := List.length_eq_zero_iff.mp h.symm
    rfl
  | cons l ls ih =>
    cases fs with
    | nil => cases h
    | cons f fs =>
      rw [fill, List.length_append, List.length_append, ih (Nat.succ.inj h), List.map_cons, List.map_cons,
        List.sum_cons, List.sum_cons]
      omega

theorem mem_fill {ls fs : List (List α)} {c : α} (h : c ∈ fill ls fs) :
    (∃ l ∈ ls, c ∈ l) ∨ ∃ f ∈ fs, c ∈ f := by
  induction ls generalizing fs with
  | nil => cases h
  | cons l ls ih =>
    cases fs with
    | nil => cases h
    | cons f fs =>
      rw [fill, List.mem_append, List.mem_append] at h
      rcases h with h | h | h
      · exact Or.inr ⟨f, List.mem_cons_self, h⟩
      · exact Or.inl ⟨l, List.mem_cons_self, h⟩
      · rcases ih h with ⟨l', hl', hc⟩ | ⟨f', hf', hc⟩
        · exact Or.inl ⟨l', List.mem_cons_of_mem l hl', hc⟩
        · exact Or.inr ⟨f', List.mem_cons_of_mem f hf', hc⟩

variable {P : α → Bool}

/-- A literal that ends a field. -/
def Ends (P : α → Bool) (l : List α) : Prop := ∃ c t, l = c :: t ∧ P c = false

/-- A run of field characters ends at the literal behind it. -/
theorem span_of_ends {f l : List α} (hf : ∀ c ∈ f, P c = true) (hl : Ends P l) (rest : List α) :
    (f ++ (l ++ rest)).takeWhile P = f ∧ (f ++ (l ++ rest)).dropWhile P = l ++ rest := by
  obtain ⟨c, t, rfl, hc⟩ := hl
  have hc' : ¬ P c = true := by rw [hc]; decide
  rw [List.takeWhile_append_of_pos hf, List.dropWhile_append_of_pos hf, List.cons_append,
    List.takeWhile_cons_of_neg hc', List.dropWhile_cons_of_neg hc', List.append_nil]
  exact ⟨rfl, rfl⟩

variable [DecidableEq α]

/-- The fields of a message, and what stands behind it. -/
def unfill (P : α → Bool) : List (List α) → List α → Option (List (List α) × List α)
  | [], cs => some ([], cs)
  | l :: ls, cs =>
    if l <+: cs.dropWhile P then
      (unfill P ls ((cs.dropWhile P).drop l.length)).map fun r => (cs.takeWhile P :: r.1, r.2)
    else none

/-- **The fields come back**, and what stands behind the message is left. -/
theorem unfill_fill {ls fs : List (List α)} (hlen : ls.length = fs.length) (hls : ∀ l ∈ ls, Ends P l)
    (hfs : ∀ f ∈ fs, ∀ c ∈ f, P c = true) (rest : List α) :
    unfill P ls (fill ls fs ++ rest) = some (fs, rest) := by
  induction ls generalizing fs with
  | nil =>
    obtain rfl : fs = [] := List.length_eq_zero_iff.mp hlen.symm
    rfl
  | cons l ls ih =>
    cases fs with
    | nil => cases hlen
    | cons f fs =>
      rw [List.forall_mem_cons] at hls hfs
      obtain ⟨htake, hdrop⟩ := span_of_ends hfs.1 hls.1 (fill ls fs ++ rest)
      rw [fill, List.append_assoc, List.append_assoc, unfill, hdrop, htake, if_pos (List.prefix_append _ _),
        List.drop_left, ih (Nat.succ.inj hlen) hls.2 hfs.2, Option.map_some]

/-- `n` messages, each with `lead` in front. -/
def unfillMany (P : α → Bool) (lead : List α) (ls : List (List α)) :
    ℕ → List α → Option (List (List (List α)) × List α)
  | 0, cs => some ([], cs)
  | n + 1, cs =>
    if lead <+: cs then
      (unfill P ls (cs.drop lead.length)).bind fun r =>
        (unfillMany P lead ls n r.2).map fun q => (r.1 :: q.1, q.2)
    else none

/-- **Messages behind each other come back.** -/
theorem unfillMany_flatMap {β : Type*} (lead : List α) {ls : List (List α)} (fields : β → List (List α))
    (hlen : ∀ b, (fields b).length = ls.length) (hls : ∀ l ∈ ls, Ends P l)
    (hfs : ∀ b, ∀ f ∈ fields b, ∀ c ∈ f, P c = true) (bs : List β) (rest : List α) :
    unfillMany P lead ls bs.length (bs.flatMap (fun b => lead ++ fill ls (fields b)) ++ rest) =
      some (bs.map fields, rest) := by
  induction bs with
  | nil => rfl
  | cons b bs ih =>
    rw [List.flatMap_cons, List.length_cons, unfillMany, List.append_assoc, List.append_assoc,
      if_pos (List.prefix_append _ _), List.drop_left, unfill_fill (hlen b).symm hls (hfs b), Option.bind_some, ih,
      Option.map_some, List.map_cons]

end PipeGallery.Lib
