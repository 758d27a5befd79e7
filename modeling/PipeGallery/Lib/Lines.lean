import Mathlib.Data.List.Pairwise
import Mathlib.Logic.Basic

set_option autoImplicit false

/-!
# Lines in a stream

A stream is cut at a separator. A writer sends messages that end with it, and some of them only in part.

* `linesFrom`, `lines`, `linesFrom_append`: what a reader makes of a stream;
* `Message`, `Message.carried`: a message and how much of it was sent;
* **`lines_eq_iff`**: the reader sees the whole messages and nothing else, exactly if no whole message
  stands behind a part of one.
-/

namespace PipeGallery.Lib

variable {α : Type*} {sep : α}

section
variable [DecidableEq α]

/-- The lines that end in a stream; `p` was read of the first one before. -/
def linesFrom (sep : α) : List α → List α → List (List α)
  | _, [] => []
  | p, c :: cs => if c = sep then p :: linesFrom sep [] cs else linesFrom sep (p ++ [c]) cs

def lines (sep : α) (cs : List α) : List (List α) := linesFrom sep [] cs

/-- Without a separator nothing ends. -/
theorem linesFrom_append {q : List α} (hq : sep ∉ q) (p cs : List α) :
    linesFrom sep p (q ++ cs) = linesFrom sep (p ++ q) cs := by
  induction q generalizing p with
  | nil => simp
  | cons c q ih =>
    rw [List.mem_cons, not_or] at hq
    rw [List.cons_append, linesFrom, if_neg (Ne.symm hq.1), ih hq.2, List.append_assoc,
      List.singleton_append]

theorem linesFrom_line {q : List α} (hq : sep ∉ q) (p cs : List α) :
    linesFrom sep p (q ++ sep :: cs) = (p ++ q) :: lines sep cs := by
  rw [linesFrom_append hq, linesFrom, if_pos rfl, lines]

end

/-- A message without its separator, and how much of the message was sent. -/
structure Message (α : Type*) where
  body : List α
  sent : ℕ
  deriving DecidableEq, Repr

namespace Message

/-- The whole message was sent, with its separator. -/
def Whole (m : Message α) : Prop := m.body.length < m.sent

/-- A part of the message was sent, and some of it. -/
def Part (m : Message α) : Prop := 0 < m.sent ∧ m.sent ≤ m.body.length

instance (m : Message α) : Decidable m.Whole := inferInstanceAs (Decidable (_ < _))

instance (m : Message α) : Decidable m.Part := inferInstanceAs (Decidable (_ ∧ _))

/-- What the stream carries of a message. -/
def carried (sep : α) (m : Message α) : List α := (m.body ++ [sep]).take m.sent

theorem carried_of_whole {m : Message α} (h : m.Whole) : m.carried sep = m.body ++ [sep] := by
  apply List.take_of_length_le
  rw [List.length_append, List.length_singleton]
  exact h

theorem carried_of_not_whole {m : Message α} (h : ¬ m.Whole) : m.carried sep = m.body.take m.sent :=
  List.take_append_of_le_length (Nat.not_lt.mp h)

end Message

open Message

variable [DecidableEq α]

/-- Behind a part of a message no whole message is seen. -/
theorem linesFrom_eq_iff {p : List α} (hp : p ≠ []) (ms : List (Message α)) (hms : ∀ m ∈ ms, sep ∉ m.body) :
    linesFrom sep p (ms.flatMap (carried sep)) = (ms.filter fun m => m.Whole).map body ↔
      ∀ m ∈ ms, ¬ m.Whole := by
  induction ms generalizing p with
  | nil => simp [linesFrom]
  | cons m ms ih =>
    rw [List.forall_mem_cons] at hms
    rw [List.flatMap_cons, List.forall_mem_cons]
    by_cases hw : m.Whole
    · -- the part and this message are read as one line
      refine iff_of_false (fun h => ?_) fun h => h.1 hw
      rw [carried_of_whole hw, List.append_assoc, List.singleton_append, linesFrom_line hms.1,
        List.filter_cons_of_pos (by simpa using hw), List.map_cons] at h
      exact hp (List.append_left_eq_self.mp (List.cons.inj h).1)
    · rw [carried_of_not_whole hw, linesFrom_append (fun h => hms.1 (List.mem_of_mem_take h)),
        List.filter_cons_of_neg (by simpa using hw), ih _ hms.2]
      · simp [hw]
      · simp [hp]

/-- **The reader sees the whole messages and nothing else**, exactly if no whole message stands behind a
part of one. -/
theorem lines_eq_iff (ms : List (Message α)) (hms : ∀ m ∈ ms, sep ∉ m.body) :
    lines sep (ms.flatMap (carried sep)) = (ms.filter fun m => m.Whole).map body ↔
      ms.Pairwise fun a b => a.Part → ¬ b.Whole := by
  induction ms with
  | nil => simp [lines, linesFrom]
  | cons m ms ih =>
    rw [List.forall_mem_cons] at hms
    rw [List.flatMap_cons, List.pairwise_cons, ← ih hms.2]
    by_cases hw : m.Whole
    · have hnp : ¬ m.Part := fun h => absurd hw (Nat.not_lt.mpr h.2)
      rw [carried_of_whole hw, List.append_assoc, List.singleton_append, lines, linesFrom_line hms.1,
        List.filter_cons_of_pos (by simpa using hw), List.map_cons, List.nil_append]
      simp [hnp]
    · rw [carried_of_not_whole hw, lines, linesFrom_append (fun h => hms.1 (List.mem_of_mem_take h)),
        List.filter_cons_of_neg (by simpa using hw), List.nil_append]
      by_cases h0 : m.body.take m.sent = []
      · have hnp : ¬ m.Part := by
          rintro ⟨h1, h2⟩
          rw [List.take_eq_nil_iff] at h0
          rcases h0 with h0 | h0
          · omega
          · rw [h0] at h2
            simp at h2
            omega
        rw [h0]
        simp [hnp, lines]
      · have hpart : m.Part := by
          refine ⟨Nat.pos_of_ne_zero fun hz => h0 ?_, Nat.not_lt.mp hw⟩
          rw [hz, List.take_zero]
        rw [linesFrom_eq_iff h0 ms hms.2]
        constructor
        · intro h
          refine ⟨fun b hb _ => h b hb, (ih hms.2).mpr ?_⟩
          exact List.pairwise_of_forall_mem_list fun a _ b hb _ => h b hb
        · intro h b hb
          exact h.1 b hb hpart

end PipeGallery.Lib
