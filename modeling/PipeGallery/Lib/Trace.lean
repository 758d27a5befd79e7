import Mathlib.Data.List.DropRight

set_option autoImplicit false

/-!
# Traces of calls

A trace is the list of the calls made so far, oldest first.

* `Guarded`, **`guarded_concat`**, `guarded_concat_iff`: each call of a trace is allowed by the calls
  before it;
* `le_length_rtakeWhile_iff`: the calls at the end of a trace that are all of one kind;
* `latest`, **`foldl_latest`**: a variable that keeps the last value found in a trace;
* **`foldl_overwrite_iff`**: a variable that every call overwrites.
-/

namespace PipeGallery.Lib

variable {α : Type*}

/-- Each call of `t` is allowed by the calls before it. -/
def Guarded (A : List α → α → Prop) (t : List α) : Prop := ∀ p x q, t = p ++ x :: q → A p x

theorem guarded_nil (A : List α → α → Prop) : Guarded A [] := by
  intro p x q h
  exact absurd h.symm (List.append_ne_nil_of_right_ne_nil p (List.cons_ne_nil x q))

/-- **One more call.** -/
theorem guarded_concat {A : List α → α → Prop} {t : List α} {x : α} (ht : Guarded A t)
    (hx : A t x) : Guarded A (t ++ [x]) := by
  intro p y q h
  rcases List.eq_nil_or_concat q with rfl | ⟨q, z, rfl⟩
  · obtain ⟨rfl, hy⟩ := List.append_inj' h rfl
    rw [List.singleton_inj] at hy
    exact hy ▸ hx
  · have h' : t ++ [x] = (p ++ y :: q) ++ [z] := by
      rw [h, List.concat_eq_append, List.append_assoc, List.cons_append]
    exact ht p y q (List.append_inj_left' h' rfl)

theorem guarded_concat_iff {A : List α → α → Prop} {t : List α} {x : α} :
    Guarded A (t ++ [x]) ↔ Guarded A t ∧ A t x := by
  constructor
  · intro h
    refine ⟨fun p y q ht => h p y (q ++ [x]) ?_, h t x [] rfl⟩
    rw [ht, List.append_assoc, List.cons_append]
  · rintro ⟨ht, hx⟩
    exact guarded_concat ht hx

/-- The last `n` calls satisfy `P`. -/
theorem le_length_rtakeWhile_iff {P : α → Bool} {t : List α} {n : ℕ} :
    n ≤ (t.rtakeWhile P).length ↔ ∃ l, l <:+ t ∧ l.length = n ∧ ∀ x ∈ l, P x := by
  constructor
  · intro h
    refine ⟨(t.rtakeWhile P).rtake n, ?_, ?_, ?_⟩
    · exact (List.drop_suffix _ _).trans (List.rtakeWhile_suffix P t)
    · rw [List.rtake, List.length_drop]
      omega
    · intro x hx
      exact List.mem_rtakeWhile_imp ((List.drop_suffix _ _).subset hx)
  · rintro ⟨l, hl, rfl, hP⟩
    induction l using List.reverseRecOn generalizing t with
    | nil => exact Nat.zero_le _
    | append_singleton l y ih =>
      obtain ⟨s, rfl⟩ := hl
      rw [← List.append_assoc, List.rtakeWhile_concat_pos P _ _ (hP y (by simp)), List.length_append,
        List.length_append]
      exact Nat.add_le_add_right (ih (List.suffix_append s l) fun x hx => hP x (by simp [hx])) _

/-- The last value that `f` finds in a trace, `d` if it finds none. -/
def latest {β : Type*} (f : α → Option β) (d : β) (t : List α) : β := (t.filterMap f).getLastD d

theorem latest_concat {β : Type*} (f : α → Option β) (d : β) (t : List α) (x : α) :
    latest f d (t ++ [x]) = (f x).getD (latest f d t) := by
  rw [latest, latest, List.filterMap_append]
  cases h : f x <;> simp [h]

/-- **A variable that each step sets to what `f` finds**, and otherwise keeps. -/
theorem foldl_latest {σ β : Type*} {step : σ → α → σ} {g : σ → β} {f : α → Option β}
    (h : ∀ s x, g (step s x) = (f x).getD (g s)) (s : σ) (t : List α) :
    g (t.foldl step s) = latest f (g s) t := by
  induction t using List.reverseRecOn with
  | nil => rfl
  | append_singleton t x ih => rw [List.foldl_concat, h, ih, latest_concat]

theorem latest_map {β γ : Type*} (h : β → γ) (f : α → Option β) (d : β) (t : List α) :
    latest (fun x => (f x).map h) (h d) t = h (latest f d t) := by
  induction t using List.reverseRecOn with
  | nil => rfl
  | append_singleton t x ih =>
    rw [latest_concat, latest_concat, ih]
    cases f x <;> rfl

/-- **A variable that each step overwrites** keeps what `f` finds exactly if a step at which `f` finds
nothing happens to write that value again. -/
theorem foldl_overwrite_iff {β : Type*} {v : α → β} {f : α → Option β}
    (hv : ∀ x y, f x = some y → v x = y) (d : β) (t : List α) :
    (∀ p, p <+: t → p.foldl (fun _ x => v x) d = latest f d p) ↔
      ∀ p x, p ++ [x] <+: t → f x = none → v x = latest f d p := by
  constructor
  · intro h p x hp hx
    have hpx := h (p ++ [x]) hp
    rwa [List.foldl_concat, latest_concat, hx, Option.getD_none] at hpx
  · intro h p hp
    rcases List.eq_nil_or_concat p with rfl | ⟨p, x, rfl⟩
    · rfl
    · rw [List.concat_eq_append] at hp ⊢
      rw [List.foldl_concat, latest_concat]
      cases hx : f x with
      | none => exact h p x hp hx
      | some y => exact hv x y hx

end PipeGallery.Lib
