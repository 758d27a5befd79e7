import PipeGallery.Lib.Runs

set_option autoImplicit false

/-!
# Progress along runs

A run with enough events of one kind passes through a state that meets a condition, when each event of
that kind takes away from a measure and no other event adds to it.

* `Passes`: some state of a run meets a condition;
* **`passes_of_measure`**: the rule.
-/

namespace PipeGallery.Lib

variable {σ ε : Type*} {step : σ → ε → Option σ}

/-- Some state of the run from `s` meets `P`. -/
def Passes (step : σ → ε → Option σ) (P : σ → Prop) (s : σ) (es : List ε) : Prop :=
  ∃ p t, p <+: es ∧ run step s p = some t ∧ P t

theorem passes_cons {P : σ → Prop} {s s' : σ} {e : ε} {es : List ε} (h : step s e = some s')
    (hp : Passes step P s' es) : Passes step P s (e :: es) := by
  obtain ⟨p, t, hpre, hr, ht⟩ := hp
  refine ⟨e :: p, t, ?_, ?_, ht⟩
  · exact List.cons_prefix_cons.mpr ⟨rfl, hpre⟩
  · rw [run_cons, h, Option.bind_some, hr]

theorem passes_head {P : σ → Prop} {s s' : σ} {e : ε} (h : step s e = some s') (hp : P s') (es : List ε) :
    Passes step P s (e :: es) :=
  passes_cons h ⟨[], s', List.nil_prefix, rfl, hp⟩

/-- **The progress rule.** `I` holds until `P` is met, and up to then each event that `turn` marks lowers
`μ`. -/
theorem passes_of_measure {C : σ → ε → Prop} {I P : σ → Prop} {μ : σ → ℕ} {turn : ε → Bool}
    (hstep : ∀ s e s', C s e → I s → step s e = some s' →
      P s' ∨ I s' ∧ μ s' + (if turn e = true then 1 else 0) ≤ μ s)
    {s : σ} {es : List ε} (hs : I s) (hC : Along step C s es) (hr : (run step s es).isSome)
    (hn : μ s < es.countP turn) : Passes step P s es := by
  induction es generalizing s with
  | nil => exact absurd hn (Nat.not_lt_zero _)
  | cons e es ih =>
    rw [run_cons] at hr
    obtain ⟨s', hs'⟩ : ∃ s', step s e = some s' := by
      cases h : step s e with
      | none => rw [h] at hr; cases hr
      | some s' => exact ⟨s', rfl⟩
    rw [hs', Option.bind_some] at hr
    rw [List.countP_cons] at hn
    rcases hstep s e s' hC.1 hs hs' with hp | ⟨hI, hμ⟩
    · exact passes_head hs' hp es
    · apply passes_cons hs'
      apply ih hI (hC.2 s' hs') hr
      omega

end PipeGallery.Lib
