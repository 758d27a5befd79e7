import Mathlib.Logic.Basic
import Mathlib.Data.List.Basic

set_option autoImplicit false

/-!
# Runs of a partial step function

A system is a partial function `step s e`, defined when event `e` is enabled in state `s`. A run is
a list of events; a property of every reachable state is a property of the end of every run.

* `run`, `run_cons`, `run_concat`, `run_append`;
* `Along`: every step of a run meets a condition on the state before it and the event
  (`Along.and`, `Along.left`, `along_of_forall`);
* **`run_inv`**: an invariant kept by the steps that meet the condition holds at the end of every
  run that meets it.
-/

namespace PipeGallery.Lib

variable {σ ε : Type*} {step : σ → ε → Option σ}

/-- Take the events in order; `none` when one of them is not enabled. -/
def run (step : σ → ε → Option σ) : σ → List ε → Option σ
  | s, [] => some s
  | s, e :: es => (step s e).bind fun s' => run step s' es

theorem run_cons (s : σ) (e : ε) (es : List ε) :
    run step s (e :: es) = (step s e).bind fun s' => run step s' es := rfl

theorem run_concat (s : σ) (es : List ε) (e : ε) :
    run step s (es ++ [e]) = (run step s es).bind fun t => step t e := by
  induction es generalizing s with
  | nil =>
    rw [List.nil_append, run_cons]
    exact Option.bind_fun_some (step s e)
  | cons x es ih =>
    rw [List.cons_append, run_cons, run_cons, Option.bind_assoc]
    exact congrArg _ (funext fun s' => ih s')

theorem run_append (s : σ) (es fs : List ε) :
    run step s (es ++ fs) = (run step s es).bind fun t => run step t fs := by
  induction es generalizing s with
  | nil => rfl
  | cons x es ih =>
    rw [List.cons_append, run_cons, run_cons, Option.bind_assoc]
    exact congrArg _ (funext fun s' => ih s')

/-- Every step of the run from `s` meets `C`. -/
def Along (step : σ → ε → Option σ) (C : σ → ε → Prop) : σ → List ε → Prop
  | _, [] => True
  | s, e :: es => C s e ∧ ∀ s', step s e = some s' → Along step C s' es

instance Along.decidable {C : σ → ε → Prop} [∀ s e, Decidable (C s e)] :
    ∀ (s : σ) (es : List ε), Decidable (Along step C s es)
  | _, [] => .isTrue trivial
  | s, e :: es =>
    have : Decidable (∀ s', step s e = some s' → Along step C s' es) :=
      match step s e with
      | none => .isTrue fun _ h' => nomatch h'
      | some t =>
        match Along.decidable t es with
        | .isTrue ht => .isTrue fun _ h' => Option.some.inj h' ▸ ht
        | .isFalse ht => .isFalse fun h' => ht (h' t rfl)
    inferInstanceAs (Decidable (_ ∧ _))

theorem Along.and {C D : σ → ε → Prop} {s : σ} {es : List ε} (hC : Along step C s es)
    (hD : Along step D s es) : Along step (fun s e => C s e ∧ D s e) s es := by
  induction es generalizing s with
  | nil => trivial
  | cons e es ih => exact ⟨⟨hC.1, hD.1⟩, fun s' hs' => ih (hC.2 s' hs') (hD.2 s' hs')⟩

theorem Along.left {C : σ → ε → Prop} {s : σ} {es fs : List ε} (h : Along step C s (es ++ fs)) :
    Along step C s es := by
  induction es generalizing s with
  | nil => trivial
  | cons e es ih => exact ⟨h.1, fun s' hs' => ih (h.2 s' hs')⟩

/-- A condition on the events alone. -/
theorem along_of_forall {P : ε → Prop} {es : List ε} (h : ∀ e ∈ es, P e) (s : σ) :
    Along step (fun _ e => P e) s es := by
  induction es generalizing s with
  | nil => trivial
  | cons e es ih =>
    exact ⟨h e List.mem_cons_self, fun s' _ => ih (fun e' he' => h e' (List.mem_cons_of_mem _ he')) s'⟩

/-- **The invariant rule.** -/
theorem run_inv {C : σ → ε → Prop} {I : σ → Prop}
    (hstep : ∀ s e s', C s e → I s → step s e = some s' → I s') {s t : σ} {es : List ε}
    (hs : I s) (hC : Along step C s es) (hr : run step s es = some t) : I t := by
  induction es generalizing s with
  | nil => exact Option.some.inj hr ▸ hs
  | cons e es ih =>
    rw [run_cons, Option.bind_eq_some_iff] at hr
    obtain ⟨s', hs', hr⟩ := hr
    exact ih (hstep s e s' hC.1 hs hs') (hC.2 s' hs') hr

end PipeGallery.Lib
