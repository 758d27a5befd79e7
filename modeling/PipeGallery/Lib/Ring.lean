import Mathlib.Data.List.DropRight
import Mathlib.Logic.Function.Basic
import PipeGallery.Lib.Trace

set_option autoImplicit false

/-!
# Rings and bounded queues

A ring of `n` cells holds a queue of fewer than `n` elements from a first cell on. A bounded queue drops
its oldest elements when it is full.

* `cells`, `cells_succ`, **`cells_concat`**: the cells of a ring as a list;
* `QOp`, `queueRun`: elements that arrive at a queue of at most `cap` and are taken from it;
* **`queueRun_sublist`**: nothing is reordered, repeated or invented;
* `Room`, **`queueRun_conserves_iff`**: nothing is lost exactly if there was always room.
-/

namespace PipeGallery.Lib

variable {α : Type*}

/-! ## Rings -/

/-- The `k` cells of a ring of `n` cells from cell `g` on. -/
def cells (buf : ℕ → α) (n g k : ℕ) : List α := (List.range k).map fun i => buf ((g + i) % n)

theorem length_cells (buf : ℕ → α) (n g k : ℕ) : (cells buf n g k).length = k := by simp [cells]

theorem cells_mod (buf : ℕ → α) (n g k : ℕ) : cells buf n (g % n) k = cells buf n g k := by
  simp [cells]

/-- The first cell and the rest. -/
theorem cells_succ (buf : ℕ → α) (n g k : ℕ) :
    cells buf n g (k + 1) = buf (g % n) :: cells buf n (g + 1) k := by
  simp only [cells, List.range_succ_eq_map, List.map_cons, List.map_map, Nat.add_zero]
  congr 1
  refine List.map_congr_left fun i _ => ?_
  simp only [Function.comp_apply, Nat.succ_eq_add_one]
  congr 2
  omega

/-- **Writing the cell behind the last one** appends to the list. -/
theorem cells_concat (buf : ℕ → α) {n g k : ℕ} (hk : k < n) (x : α) :
    cells (Function.update buf ((g + k) % n) x) n g (k + 1) = cells buf n g k ++ [x] := by
  simp only [cells, List.range_succ, List.map_append, List.map_singleton, Function.update_self]
  congr 1
  refine List.map_congr_left fun i hi => Function.update_of_ne (fun he => ?_) x buf
  -- two cells of the ring are the same only if a multiple of `n` lies between them
  have hik := List.mem_range.mp hi
  have hdvd : n ∣ (g + k) - (g + i) := Nat.dvd_of_mod_eq_zero (Nat.sub_mod_eq_zero_of_mod_eq he.symm)
  have := Nat.le_of_dvd (by omega) hdvd
  omega

/-! ## Bounded queues -/

/-- Elements arrive, or up to `n` of them are taken. -/
inductive QOp (α : Type*) where
  | arrive (xs : List α)
  | take (n : ℕ)
  deriving DecidableEq, Repr

/-- What has been taken from the queue, and what is in it. -/
structure QState (α : Type*) where
  taken : List α := []
  rest : List α := []
  deriving DecidableEq, Repr

def queueStep (cap : ℕ) (s : QState α) : QOp α → QState α
  | .arrive xs => { s with rest := (s.rest ++ xs).rtake cap }
  | .take n => ⟨s.taken ++ s.rest.take n, s.rest.drop n⟩

/-- The queue behind a list of operations. -/
def queueRun (cap : ℕ) (ops : List (QOp α)) : QState α := ops.foldl (queueStep cap) {}

theorem queueRun_concat (cap : ℕ) (ops : List (QOp α)) (op : QOp α) :
    queueRun cap (ops ++ [op]) = queueStep cap (queueRun cap ops) op := by
  rw [queueRun, List.foldl_concat, queueRun]

/-- What arrived. -/
def arrivals (ops : List (QOp α)) : List α :=
  ops.flatMap fun
    | .arrive xs => xs
    | .take _ => []

theorem arrivals_concat (ops : List (QOp α)) (op : QOp α) :
    arrivals (ops ++ [op]) = arrivals ops ++ arrivals [op] := by
  rw [arrivals, List.flatMap_append, arrivals, arrivals]

theorem rtake_of_length_le {l : List α} {n : ℕ} (h : l.length ≤ n) : l.rtake n = l := by
  rw [List.rtake, Nat.sub_eq_zero_of_le h, List.drop_zero]

theorem length_rtake (l : List α) (n : ℕ) : (l.rtake n).length = min n l.length := by
  rw [List.rtake, List.length_drop]
  omega

/-- Elements that arrive one at a time, or all at once. -/
theorem rtake_append_rtake (l m : List α) (n : ℕ) : (l.rtake n ++ m).rtake n = (l ++ m).rtake n := by
  simp only [List.rtake, List.length_append, List.length_drop, List.drop_append, List.drop_drop]
  congr 2 <;> omega

/-- **Nothing is reordered, repeated or invented.** -/
theorem queueRun_sublist (cap : ℕ) (ops : List (QOp α)) :
    List.Sublist ((queueRun cap ops).taken ++ (queueRun cap ops).rest) (arrivals ops) := by
  induction ops using List.reverseRecOn with
  | nil => exact List.Sublist.refl _
  | append_singleton ops op ih =>
    rw [queueRun_concat, arrivals_concat]
    cases op with
    | arrive xs =>
      have hrest : List.Sublist (((queueRun cap ops).rest ++ xs).rtake cap)
          ((queueRun cap ops).rest ++ xs) := List.drop_sublist _ _
      refine ((List.Sublist.refl (queueRun cap ops).taken).append hrest).trans ?_
      rw [← List.append_assoc]
      exact ih.append (by simp [arrivals])
    | take n =>
      simpa [queueStep, arrivals, List.append_assoc, List.take_append_drop] using ih

/-- There is room for what arrives. -/
def Room (cap : ℕ) (ops : List (QOp α)) : QOp α → Prop
  | .arrive xs => (queueRun cap ops).rest.length + xs.length ≤ cap
  | .take _ => True

/-- **Nothing is lost** exactly if there was always room. -/
theorem queueRun_conserves_iff (cap : ℕ) (ops : List (QOp α)) :
    (queueRun cap ops).taken ++ (queueRun cap ops).rest = arrivals ops ↔ Guarded (Room cap) ops := by
  induction ops using List.reverseRecOn with
  | nil => exact iff_of_true rfl (guarded_nil _)
  | append_singleton ops op ih =>
    rw [guarded_concat_iff, ← ih, queueRun_concat, arrivals_concat]
    cases op with
    | take n => simp [queueStep, arrivals, Room, List.append_assoc, List.take_append_drop]
    | arrive xs =>
      have hle := (queueRun_sublist cap ops).length_le
      simp only [List.length_append] at hle
      constructor
      · intro h
        -- a queue that dropped something never catches up
        have hlen := congrArg List.length h
        simp only [queueStep, arrivals, List.flatMap_singleton, List.length_append,
          length_rtake] at hlen hle ⊢
        have hroom : (queueRun cap ops).rest.length + xs.length ≤ cap := by omega
        refine ⟨(queueRun_sublist cap ops).eq_of_length ?_, hroom⟩
        simp only [arrivals, List.length_append]
        omega
      · rintro ⟨h, hroom⟩
        have hfits : ((queueRun cap ops).rest ++ xs).length ≤ cap := by
          rw [List.length_append]
          exact hroom
        simp only [queueStep]
        rw [rtake_of_length_le hfits, ← List.append_assoc, h]
        simp [arrivals]

end PipeGallery.Lib
