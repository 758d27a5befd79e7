import Mathlib.Data.List.Infix

set_option autoImplicit false

/-!
# Words in a stream

A stream is read letter by letter. `Unanswered w a h`: what was read contains the word `w`, and no
`a` behind it.

* **`unanswered_concat`**: a word that has become unanswered was completed just now.
-/

namespace PipeGallery.Lib

variable {α : Type*}

/-- `w` occurs in `h`, and `a` does not occur behind it. -/
def Unanswered (w a h : List α) : Prop := ∃ t ∈ h.tails, w <+: t ∧ ¬ a <:+: t.drop w.length

instance [DecidableEq α] (w a h : List α) : Decidable (Unanswered w a h) :=
  inferInstanceAs (Decidable (∃ t ∈ h.tails, w <+: t ∧ ¬ a <:+: t.drop w.length))

/-- **A word that has become unanswered** was so before, or was completed just now. -/
theorem unanswered_concat {w a h : List α} {c : α} (hw : w ≠ []) (hu : Unanswered w a (h ++ [c])) :
    Unanswered w a h ∨ w <:+ h ++ [c] := by
  obtain ⟨t, ht, hpre, hans⟩ := hu
  rw [List.mem_tails] at ht
  rcases List.suffix_concat_iff.mp ht with rfl | ⟨t, rfl, hts⟩
  · exact absurd (List.prefix_nil.mp hpre) hw
  rcases List.prefix_concat_iff.mp hpre with rfl | hpre
  · exact Or.inr ht
  · refine Or.inl ⟨t, (List.mem_tails t h).mpr hts, hpre, fun hin => hans ?_⟩
    rw [List.drop_append_of_le_length hpre.length_le]
    exact hin.trans (List.prefix_append _ _).isInfix

end PipeGallery.Lib
