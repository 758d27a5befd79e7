import Mathlib.Data.Fintype.Basic
import PipeGallery.Kernel.Timer

set_option autoImplicit false

/-!
# Timers go off on time

The tick wraps after 49 days, and the timers are compared by differences of words. A record of what was done
keeps the true number of ticks, and says when each timer has to go off.

* `Arm`, `Book`, `book`: the record;
* `Allowed`: what may happen next: a timer goes off at its tick, in order, and none is overdue when the next
  tick comes;
* `Good`, `Rest`: the invariant, `good_start`, `good_stop`, `good_expire`, `good_rearm`;
* `good_check`: the interrupt handler ends, and keeps it;
* `StartsCount`, `StopsCount`: each call in the run, and what follows it; **`timers_on_time`**;
* `fired_iff`, **`mdelay_exact`**.
-/

namespace PipeGallery.Kernel

open Lib

/-! ## The record -/

/-- A timer that was started at tick `since`. -/
structure Arm where
  since : ℕ
  init : ℕ
  /-- how many timers were started before -/
  seq : ℕ
  deriving DecidableEq, Repr

namespace Arm

def due (a : Arm) : ℕ := a.since + a.init

/-- The tick at which it goes off: a timer of no ticks waits for the next one. -/
def alarm (a : Arm) : ℕ := a.since + max a.init 1

/-- `a` goes off before `b`: earlier, or at the same time and started earlier. -/
def Before (a b : Arm) : Prop := a.due < b.due ∨ a.due = b.due ∧ a.seq < b.seq

theorem Before.trans {a b c : Arm} (hab : a.Before b) (hbc : b.Before c) : a.Before c := by
  unfold Before at *
  omega

end Arm

structure Book (ι : Type*) where
  /-- ticks since the start of the system, without wrapping -/
  ticks : ℕ := 0
  seq : ℕ := 0
  armed : ι → Option Arm := fun _ => none

variable {ι : Type*} [DecidableEq ι]

/-- The record with timer `i` started. -/
def Book.arm (b : Book ι) (i : ι) (init : ℕ) : Book ι :=
  { b with seq := b.seq + 1, armed := Function.update b.armed i (some ⟨b.ticks, init, b.seq⟩) }

/-- Timer `i` is not armed any more. -/
def Book.disarm (b : Book ι) (i : ι) : Book ι := { b with armed := Function.update b.armed i none }

def Book.next (b : Book ι) : Mark ι → Book ι
  | .tick => { b with ticks := b.ticks + 1 }
  | .started i init => b.arm i init
  | .stopped i => b.disarm i
  | .fired i => b.disarm i

/-- What the marks of a trace amount to. -/
def book (t : List (Mark ι)) : Book ι := t.foldl Book.next {}

theorem book_concat (t : List (Mark ι)) (m : Mark ι) : book (t ++ [m]) = (book t).next m := by
  rw [book, List.foldl_concat, book]

/-- A timer goes off at its tick and before all others, and no timer is overdue at the next tick. -/
def Allowed (p : List (Mark ι)) : Mark ι → Prop
  | .fired i => ∃ a, (book p).armed i = some a ∧ (book p).ticks = a.alarm ∧
    ∀ j b, j ≠ i → (book p).armed j = some b → a.Before b
  | .tick => ∀ i a, (book p).armed i = some a → (book p).ticks < a.alarm
  | _ => True

/-! ## The invariant -/

/-- A timer of the record, as the kernel keeps it. -/
structure Kept (b : Book ι) (t : RtTimer) (a : Arm) : Prop where
  timeout : t.timeoutTick = word 32 a.due
  since : a.since ≤ b.ticks
  init : a.init < rtTickMax / 2
  seq : a.seq < b.seq
  alarm : b.ticks ≤ a.alarm

/-- The list and the flags say what the record says. -/
structure Good (s : Timers ι) : Prop where
  tick : s.rtTick = word 32 (book s.trace).ticks
  mem : ∀ i, i ∈ s.list ↔ ∃ a, (book s.trace).armed i = some a
  sorted : s.list.Pairwise fun i j =>
    ∀ a b, (book s.trace).armed i = some a → (book s.trace).armed j = some b → a.Before b
  kept : ∀ i a, (book s.trace).armed i = some a → Kept (book s.trace) (s.timer i) a
  active : ∀ i, (s.timer i).activated = true ↔ i ∈ s.list ∨ i ∈ s.held ∧ (s.timer i).periodic = true
  guarded : Guarded Allowed s.trace

/-- Outside the interrupt no timer is overdue. -/
structure Rest (s : Timers ι) : Prop where
  held : s.held = []
  alarm : ∀ i a, (book s.trace).armed i = some a → (book s.trace).ticks < a.alarm

/-- Inside it no timer was started at this tick to go off at once. -/
def Ripe (s : Timers ι) : Prop :=
  ∀ i a, (book s.trace).armed i = some a → a.init = 0 → a.since < (book s.trace).ticks

/-- The word test of `rt_timer_check`. -/
def Timers.isDue (s : Timers ι) (i : ι) : Bool :=
  decide ((s.rtTick - (s.timer i).timeoutTick).toNat < rtTickMax / 2)

theorem Good.isDue_iff {s : Timers ι} (h : Good s) {i : ι} {a : Arm} (ha : (book s.trace).armed i = some a) :
    s.isDue i = true ↔ a.due ≤ (book s.trace).ticks := by
  obtain ⟨h1, h2, h3, -, h5⟩ := h.kept i a ha
  have hmax : rtTickMax / 2 = 2 ^ 31 - 1 := by decide
  have hdue : a.due = a.since + a.init := rfl
  rw [Arm.alarm] at h5
  rw [Timers.isDue, decide_eq_true_iff, h.tick, h1]
  apply sub_lt_iff <;> omega

/-! ## Starting and stopping -/

/-- The walk down the row goes past `t`. -/
def Timers.goesPast (s : Timers ι) (timeout : BitVec 32) (t : ι) : Prop :=
  (s.timer t).timeoutTick - timeout = 0#32 ∨ ¬ ((s.timer t).timeoutTick - timeout).toNat < rtTickMax / 2

theorem mem_insertTimer (s : Timers ι) (i : ι) (timeout : BitVec 32) (l : List ι) (j : ι) :
    j ∈ s.insertTimer i timeout l ↔ j = i ∨ j ∈ l := by
  induction l with
  | nil => simp [Timers.insertTimer]
  | cons t ts ih =>
    rw [Timers.insertTimer]
    split_ifs
    · rw [List.mem_cons, ih, List.mem_cons]
      tauto
    · rw [List.mem_cons]
    · rw [List.mem_cons, ih, List.mem_cons]
      tauto

/-- The timer lands behind those that the walk went past and in front of the others. -/
theorem pairwise_insertTimer (s : Timers ι) (i : ι) (timeout : BitVec 32) {R : ι → ι → Prop} {l : List ι}
    (hl : l.Pairwise R) (hpast : ∀ t ∈ l, s.goesPast timeout t → R t i)
    (hstop : ∀ t ∈ l, ¬ s.goesPast timeout t → R i t) (htrans : ∀ t ∈ l, ∀ u, R i t → R t u → R i u) :
    (s.insertTimer i timeout l).Pairwise R := by
  induction l with
  | nil => exact List.pairwise_singleton R i
  | cons t ts ih =>
    rw [List.forall_mem_cons] at hpast hstop htrans
    have hrest := ih (List.pairwise_cons.mp hl).2 hpast.2 hstop.2 htrans.2
    have hgo : s.goesPast timeout t → (t :: s.insertTimer i timeout ts).Pairwise R := by
      intro hp
      refine List.pairwise_cons.mpr ⟨fun u hu => ?_, hrest⟩
      rcases (mem_insertTimer s i timeout ts u).mp hu with rfl | hu
      · exact hpast.1 hp
      · exact (List.pairwise_cons.mp hl).1 u hu
    rw [Timers.insertTimer]
    split_ifs with h0 hlt
    · exact hgo (Or.inl h0)
    · have hit : R i t := hstop.1 fun h => h.elim h0 fun h => h hlt
      refine List.pairwise_cons.mpr ⟨fun u hu => ?_, hl⟩
      rcases List.mem_cons.mp hu with rfl | hu
      · exact hit
      · exact htrans.1 u hit ((List.pairwise_cons.mp hl).1 u hu)
    · exact hgo (Or.inr hlt)

omit [DecidableEq ι] in
/-- What the comparison of two timeouts says about the ticks that they stand for. -/
theorem goesPast_iff {s : Timers ι} {b : Book ι} {t : ι} {a : Arm} (h : Kept b (s.timer t) a) {d : ℕ}
    (hd : b.ticks ≤ d) (hd' : d < b.ticks + rtTickMax / 2) : s.goesPast (word 32 d) t ↔ a.due ≤ d := by
  obtain ⟨h1, h2, h3, -, h5⟩ := h
  have hmax : rtTickMax / 2 = 2 ^ 31 - 1 := by decide
  have hdue : a.due = a.since + a.init := rfl
  rw [Arm.alarm] at h5
  rw [Timers.goesPast, h1, sub_eq_zero_iff (by omega) (by omega), sub_lt_iff (by omega) (by omega) (by omega)
    (by omega)]
  omega

theorem armed_disarm {b : Book ι} {i j : ι} {a : Arm} :
    (b.disarm i).armed j = some a ↔ j ≠ i ∧ b.armed j = some a := by
  rw [Book.disarm]
  dsimp only
  by_cases hj : j = i
  · rw [hj, Function.update_self]
    simp
  · rw [Function.update_of_ne hj]
    simp [hj]

theorem armed_disarm_none {b : Book ι} {i j : ι} (h : b.armed i = none) : (b.disarm j).armed i = none := by
  rw [Option.eq_none_iff_forall_ne_some] at h ⊢
  exact fun a ha => h a (armed_disarm.mp ha).2

/-- A timer is off the list and out of the record. -/
theorem Good.ended {s s' : Timers ι} (h : Good s) (i : ι) {m : Mark ι} (hm : Allowed s.trace m)
    (hnext : (book s.trace).next m = (book s.trace).disarm i)
    (htrace : s'.trace = s.trace ++ [m]) (htick : s'.rtTick = s.rtTick) (hlist : s'.list = s.list.filter (· ≠ i))
    (htimer : ∀ j, (s'.timer j).timeoutTick = (s.timer j).timeoutTick)
    (hactive : ∀ j, (s'.timer j).activated = true ↔ j ∈ s'.list ∨ j ∈ s'.held ∧ (s'.timer j).periodic = true) :
    Good s' := by
  have hbook : book s'.trace = (book s.trace).disarm i := by
    rw [htrace, book_concat, hnext]
  refine ⟨?_, fun j => ?_, ?_, fun j a ha => ?_, hactive, ?_⟩
  · rw [htick, hbook, h.tick, Book.disarm]
  · rw [hbook, hlist, List.mem_filter, decide_eq_true_iff, h.mem]
    constructor
    · rintro ⟨⟨a, ha⟩, hj⟩
      exact ⟨a, armed_disarm.mpr ⟨hj, ha⟩⟩
    · rintro ⟨a, ha⟩
      exact ⟨⟨a, (armed_disarm.mp ha).2⟩, (armed_disarm.mp ha).1⟩
  · rw [hlist, hbook]
    refine (h.sorted.sublist List.filter_sublist).imp fun hjk a b ha hb => ?_
    exact hjk a b (armed_disarm.mp ha).2 (armed_disarm.mp hb).2
  · rw [hbook] at ha ⊢
    obtain ⟨h1, h2, h3, h4, h5⟩ := h.kept j a (armed_disarm.mp ha).2
    exact ⟨(htimer j).trans h1, h2, h3, h4, h5⟩
  · rw [htrace]
    exact guarded_concat h.guarded hm

/-- **`rt_timer_stop`.** -/
theorem good_stop {s : Timers ι} (h : Good s) (i : ι) : Good (s.rtTimerStop i) := by
  rw [Timers.rtTimerStop]
  split_ifs
  · refine h.ended i (m := .stopped i) trivial rfl rfl rfl rfl (fun j => ?_) fun j => ?_
    · by_cases hj : j = i
      · rw [hj]
        simp [Timers.set, Timers.mark, Timers.remove]
      · simp [Timers.set, Timers.mark, Timers.remove, hj]
    · have hact := h.active j
      by_cases hj : j = i
      · rw [hj]
        simp [Timers.set, Timers.mark, Timers.remove]
      · simp [Timers.set, Timers.mark, Timers.remove, hj, hact]
  · exact h

theorem armed_stop {s : Timers ι} (h : Good s) (i : ι) : (book (s.rtTimerStop i).trace).armed i = none := by
  rw [Option.eq_none_iff_forall_ne_some]
  intro a ha
  have hmem := ((good_stop h i).mem i).mpr ⟨a, ha⟩
  rw [Timers.rtTimerStop] at hmem
  split_ifs at hmem with hact
  · have hne := (List.mem_filter.mp hmem).2
    simp at hne
  · exact hact ((h.active i).mpr (Or.inl hmem))

theorem rest_stop {s : Timers ι} (h : Rest s) (i : ι) : Rest (s.rtTimerStop i) := by
  rw [Timers.rtTimerStop]
  split_ifs
  · refine ⟨?_, fun j a ha => ?_⟩
    · change s.held.filter _ = []
      rw [h.held, List.filter_nil]
    · have hbook : book (s.trace ++ [.stopped i]) = (book s.trace).next (.stopped i) := book_concat _ _
      change (book (s.trace ++ [.stopped i])).armed j = some a at ha
      change (book (s.trace ++ [.stopped i])).ticks < a.alarm
      rw [hbook] at ha ⊢
      exact h.alarm j a (armed_disarm.mp ha).2
  · exact h

theorem armed_arm_self (b : Book ι) (i : ι) (init : ℕ) :
    (b.arm i init).armed i = some ⟨b.ticks, init, b.seq⟩ := Function.update_self _ _ _

theorem armed_arm_of_ne (b : Book ι) {i j : ι} (init : ℕ) (h : j ≠ i) : (b.arm i init).armed j = b.armed j :=
  Function.update_of_ne h _ _

/-- The list with a timer inserted is sorted. -/
theorem sorted_start {s : Timers ι} (h : Good s) (i : ι) {init : ℕ} (hinit : init < rtTickMax / 2) :
    ((s.remove i).insertTimer i (word 32 ((book s.trace).ticks + init)) (s.remove i).list).Pairwise
      fun j k => ∀ a b, ((book s.trace).arm i init).armed j = some a →
        ((book s.trace).arm i init).armed k = some b → a.Before b := by
  have hne : ∀ t ∈ (s.remove i).list, t ≠ i ∧ t ∈ s.list := by
    intro t ht
    obtain ⟨ht, hti⟩ := List.mem_filter.mp ht
    exact ⟨of_decide_eq_true hti, ht⟩
  have hpast : ∀ t ∈ (s.remove i).list, ∀ a, (book s.trace).armed t = some a →
      ((s.remove i).goesPast (word 32 ((book s.trace).ticks + init)) t ↔ a.due ≤ (book s.trace).ticks + init) := by
    intro t _ a ha
    exact goesPast_iff (s := s.remove i) (h.kept t a ha) (Nat.le_add_right _ _) (by omega)
  apply pairwise_insertTimer
  · apply (h.sorted.sublist List.filter_sublist).imp_of_mem
    intro j k hj hk hjk a b ha hb
    rw [armed_arm_of_ne _ _ (hne j hj).1] at ha
    rw [armed_arm_of_ne _ _ (hne k hk).1] at hb
    exact hjk a b ha hb
  · intro t ht hgo a b ha hb
    rw [armed_arm_of_ne _ _ (hne t ht).1] at ha
    rw [armed_arm_self, Option.some.injEq] at hb
    subst hb
    have hle := (hpast t ht a ha).mp hgo
    have hseq := (h.kept t a ha).seq
    exact (Nat.lt_or_eq_of_le hle).imp id fun he => ⟨he, hseq⟩
  · intro t ht hstop a b ha hb
    rw [armed_arm_self, Option.some.injEq] at ha
    subst ha
    rw [armed_arm_of_ne _ _ (hne t ht).1] at hb
    rw [hpast t ht b hb] at hstop
    exact Or.inl (Nat.not_le.mp hstop)
  · intro t ht u hit htu a b ha hb
    obtain ⟨c, hc⟩ := (h.mem t).mp (hne t ht).2
    have hc' : ((book s.trace).arm i init).armed t = some c := by rw [armed_arm_of_ne _ _ (hne t ht).1, hc]
    exact (hit a c ha hc').trans (htu c b hc' hb)

/-- **`rt_timer_start`.** -/
theorem good_start {s s' : Timers ι} (h : Good s) {i : ι} (hs : s.rtTimerStart i = some s') : Good s' := by
  rw [Timers.rtTimerStart] at hs
  split_ifs at hs with hinit
  rw [Option.some.injEq] at hs
  have htimeout : s.rtTick + (s.timer i).initTick =
      word 32 ((book s.trace).ticks + (s.timer i).initTick.toNat) := by rw [h.tick, word_add]
  have hbook : book s'.trace = (book s.trace).arm i (s.timer i).initTick.toNat := by
    rw [← hs]
    exact book_concat _ _
  have hself : s'.timer i = { s.timer i with timeoutTick := s.rtTick + (s.timer i).initTick, activated := true } := by
    rw [← hs]
    exact Function.update_self _ _ _
  have hother : ∀ j, j ≠ i → s'.timer j = s.timer j := by
    intro j hj
    rw [← hs]
    exact Function.update_of_ne hj _ _
  have hlist : s'.list = (s.remove i).insertTimer i (s.rtTick + (s.timer i).initTick) (s.remove i).list := by
    rw [← hs]
    rfl
  have hmem : ∀ j, j ∈ s'.list ↔ j = i ∨ j ∈ s.list := by
    intro j
    rw [hlist, mem_insertTimer, Timers.remove]
    by_cases hj : j = i <;> simp [hj]
  refine ⟨?_, fun j => ?_, ?_, fun j a ha => ?_, fun j => ?_, ?_⟩
  · rw [hbook, ← hs]
    exact h.tick
  · rw [hmem, hbook]
    by_cases hj : j = i
    · rw [hj, armed_arm_self]
      simp
    · rw [armed_arm_of_ne _ _ hj, ← h.mem j]
      simp [hj]
  · rw [hlist, hbook, htimeout]
    exact sorted_start h i hinit
  · rw [hbook] at ha ⊢
    by_cases hj : j = i
    · rw [hj, armed_arm_self, Option.some.injEq] at ha
      subst ha
      refine ⟨?_, le_refl _, hinit, Nat.lt_succ_self _, Nat.le_add_right _ _⟩
      rw [hj, hself]
      exact htimeout
    · rw [armed_arm_of_ne _ _ hj] at ha
      rw [hother j hj]
      obtain ⟨h1, h2, h3, h4, h5⟩ := h.kept j a ha
      exact ⟨h1, h2, h3, Nat.lt_succ_of_lt h4, h5⟩
  · rw [hmem]
    by_cases hj : j = i
    · rw [hj, hself]
      simp
    · have hheld : j ∈ s'.held ↔ j ∈ s.held := by
        rw [← hs]
        change j ∈ s.held.filter _ ↔ _
        simp [hj]
      rw [hother j hj, hheld, h.active]
      simp [hj]
  · rw [← hs]
    exact guarded_concat h.guarded trivial

/-- **`rt_timer_control`**, outside the interrupt. -/
theorem good_control {s : Timers ι} (h : Good s) (hr : Rest s) (i : ι) (c : Control) :
    Good (s.rtTimerControl i c) ∧ Rest (s.rtTimerControl i c) := by
  have hset : ∀ t : RtTimer, t.timeoutTick = (s.timer i).timeoutTick → t.activated = (s.timer i).activated →
      Good (s.set i t) ∧ Rest (s.set i t) := by
    intro t htimeout hact
    have hsame : ∀ j, ((s.set i t).timer j).timeoutTick = (s.timer j).timeoutTick ∧
        ((s.set i t).timer j).activated = (s.timer j).activated := by
      intro j
      by_cases hj : j = i
      · rw [hj, Timers.set]
        dsimp only
        rw [Function.update_self]
        exact ⟨htimeout, hact⟩
      · rw [Timers.set]
        dsimp only
        rw [Function.update_of_ne hj]
        exact ⟨rfl, rfl⟩
    have hheld : (s.set i t).held = [] := hr.held
    refine ⟨⟨h.tick, h.mem, h.sorted, fun j a ha => ?_, fun j => ?_, h.guarded⟩, ⟨hheld, hr.alarm⟩⟩
    · obtain ⟨h1, h2, h3, h4, h5⟩ := h.kept j a ha
      exact ⟨(hsame j).1.trans h1, h2, h3, h4, h5⟩
    · rw [(hsame j).2, h.active, hheld, hr.held]
      simp [Timers.set]
  cases c <;> exact hset _ rfl rfl

/-! ## The interrupt -/

theorem Ripe.ended {s s' : Timers ι} (h : Ripe s) {i : ι}
    (hbook : book s'.trace = (book s.trace).disarm i) : Ripe s' := by
  intro j a ha h0
  rw [hbook] at ha ⊢
  exact h j a (armed_disarm.mp ha).2 h0

theorem expire_fields (s : Timers ι) (t : ι) : (s.expire t).list = s.list.filter (· ≠ t) ∧
    (s.expire t).held = [t] ∧ (s.expire t).rtTick = s.rtTick ∧ (s.expire t).trace = s.trace ++ [.fired t] := by
  rw [Timers.expire]
  dsimp only
  split_ifs <;> exact ⟨rfl, rfl, rfl, rfl⟩

theorem timer_expire (s : Timers ι) (t j : ι) : (s.expire t).timer j =
    if j = t ∧ (s.timer t).periodic = false then { s.timer t with activated := false } else s.timer j := by
  rw [Timers.expire]
  by_cases hp : (s.timer t).periodic = true
  · simp [Timers.mark, Timers.remove, hp]
  · by_cases hj : j = t
    · rw [hj]
      simp [Timers.mark, Timers.remove, Timers.set, hp]
    · simp [Timers.mark, Timers.remove, Timers.set, hp, hj]

/-- The head of the list goes off. -/
theorem good_expire {s : Timers ι} (h : Good s) (hheld : s.held = []) (hripe : Ripe s) {t : ι} {ts : List ι}
    (hlist : s.list = t :: ts) (hdue : s.isDue t = true) : Good (s.expire t) := by
  have hmem : t ∈ s.list := by rw [hlist]; exact List.mem_cons_self
  obtain ⟨a, ha⟩ := (h.mem t).mp hmem
  have hallowed : Allowed s.trace (.fired t) := by
    refine ⟨a, ha, ?_, fun j b hj hb => ?_⟩
    · have h1 := (h.isDue_iff ha).mp hdue
      have h2 := (h.kept t a ha).alarm
      have h3 := hripe t a ha
      rw [Arm.due] at h1
      rw [Arm.alarm] at h2 ⊢
      omega
    · have hjmem : j ∈ t :: ts := hlist ▸ (h.mem j).mpr ⟨b, hb⟩
      have hsorted := h.sorted
      rw [hlist] at hsorted
      exact (List.pairwise_cons.mp hsorted).1 j (List.mem_of_ne_of_mem hj hjmem) a b ha hb
  obtain ⟨hl, hh, htick, htrace⟩ := expire_fields s t
  refine h.ended t hallowed rfl htrace htick hl (fun j => ?_) fun j => ?_
  · rw [timer_expire]
    split_ifs with hj
    · rw [hj.1]
    · rfl
  · rw [timer_expire, hl, hh, List.mem_filter, List.mem_singleton, decide_eq_true_iff]
    have hact := h.active j
    rw [hheld] at hact
    by_cases hj : j = t
    · subst hj
      cases hp : (s.timer j).periodic <;> simp_all
    · simp_all

/-- A periodic timer has a period that the assertion of `rt_timer_start` lets through. -/
def Sane (s : Timers ι) : Prop :=
  ∀ i, (s.timer i).periodic = true → 0 < (s.timer i).initTick.toNat ∧ (s.timer i).initTick.toNat < rtTickMax / 2

/-- How many timers of the list are due. -/
def dueCount (s : Timers ι) : ℕ := s.list.countP s.isDue

/-- During and behind the call of the timeout function of `t`. -/
structure Called (s : Timers ι) (t : ι) (n : ℕ) : Prop where
  good : Good s
  held : ∀ j ∈ s.held, j = t
  off : t ∉ s.list
  ripe : Ripe s
  sane : Sane s
  count : dueCount s ≤ n

/-- The parts of a timer that stopping it leaves alone. -/
theorem timer_stop (s : Timers ι) (i j : ι) : ((s.rtTimerStop i).timer j).initTick = (s.timer j).initTick ∧
    ((s.rtTimerStop i).timer j).timeoutTick = (s.timer j).timeoutTick ∧
    ((s.rtTimerStop i).timer j).periodic = (s.timer j).periodic := by
  rw [Timers.rtTimerStop]
  split_ifs
  · by_cases hj : j = i
    · rw [hj]
      simp [Timers.mark, Timers.set, Timers.remove]
    · simp [Timers.mark, Timers.set, Timers.remove, hj]
  · exact ⟨rfl, rfl, rfl⟩

theorem lists_stop (s : Timers ι) (i : ι) : (s.rtTimerStop i).list.Sublist s.list ∧
    (s.rtTimerStop i).held.Sublist s.held ∧ (s.rtTimerStop i).rtTick = s.rtTick := by
  rw [Timers.rtTimerStop]
  split_ifs
  · exact ⟨List.filter_sublist, List.filter_sublist, rfl⟩
  · exact ⟨List.Sublist.refl _, List.Sublist.refl _, rfl⟩

theorem Called.stop {s : Timers ι} {t : ι} {n : ℕ} (h : Called s t n) (i : ι) : Called (s.rtTimerStop i) t n := by
  obtain ⟨hlist, hheld, htick⟩ := lists_stop s i
  have htimer := timer_stop s i
  refine ⟨good_stop h.good i, fun j hj => h.held j (hheld.subset hj), fun hmem => h.off (hlist.subset hmem), ?_,
    fun j => ?_, ?_⟩
  · rw [Timers.rtTimerStop]
    split_ifs
    · exact h.ripe.ended (book_concat s.trace (.stopped i))
    · exact h.ripe
  · rw [(htimer j).1, (htimer j).2.2]
    exact h.sane j
  · have hdue : (s.rtTimerStop i).isDue = s.isDue := by
      funext j
      rw [Timers.isDue, Timers.isDue, htick, (htimer j).2.1]
    rw [dueCount, hdue]
    exact (hlist.countP_le).trans h.count

theorem Called.stops {s : Timers ι} {t : ι} {n : ℕ} (h : Called s t n) (l : List ι) :
    Called (l.foldl Timers.rtTimerStop s) t n := by
  induction l generalizing s with
  | nil => exact h
  | cons i l ih => exact ih (h.stop i)

/-- Up to the call: one timer less is due. -/
theorem called_expire {s : Timers ι} (h : Good s) (hheld : s.held = []) (hripe : Ripe s) (hsane : Sane s) {t : ι}
    {ts : List ι} (hlist : s.list = t :: ts) (hdue : s.isDue t = true) :
    Called (s.expire t) t (dueCount s - 1) := by
  obtain ⟨hl, hh, htick, htrace⟩ := expire_fields s t
  have htimer : ∀ j, ((s.expire t).timer j).initTick = (s.timer j).initTick ∧
      ((s.expire t).timer j).timeoutTick = (s.timer j).timeoutTick ∧
      ((s.expire t).timer j).periodic = (s.timer j).periodic := by
    intro j
    rw [timer_expire]
    split_ifs with hj
    · rw [hj.1]
      exact ⟨rfl, rfl, rfl⟩
    · exact ⟨rfl, rfl, rfl⟩
  refine ⟨good_expire h hheld hripe hlist hdue, fun j hj => ?_, ?_, ?_, fun j => ?_, ?_⟩
  · rw [hh] at hj
    exact List.mem_singleton.mp hj
  · rw [hl]
    simp
  · exact hripe.ended (by rw [htrace]; exact book_concat s.trace (.fired t))
  · rw [(htimer j).1, (htimer j).2.2]
    exact hsane j
  · have hisDue : (s.expire t).isDue = s.isDue := by
      funext j
      rw [Timers.isDue, Timers.isDue, htick, (htimer j).2.1]
    have hsub : (s.list.filter (· ≠ t)).countP s.isDue ≤ ts.countP s.isDue := by
      rw [hlist, List.filter_cons_of_neg (by simp)]
      exact (List.filter_sublist).countP_le
    rw [dueCount, hisDue, hl, dueCount]
    refine hsub.trans ?_
    rw [hlist, List.countP_cons_of_pos hdue, Nat.add_sub_cancel]

omit [DecidableEq ι] in
theorem insertTimer_perm (s : Timers ι) (i : ι) (timeout : BitVec 32) (l : List ι) :
    (s.insertTimer i timeout l).Perm (i :: l) := by
  induction l with
  | nil => exact List.Perm.refl _
  | cons t ts ih =>
    rw [Timers.insertTimer]
    split_ifs
    · exact (ih.cons t).trans (List.Perm.swap i t ts)
    · exact List.Perm.refl _
    · exact (ih.cons t).trans (List.Perm.swap i t ts)

theorem fields_start {s s' : Timers ι} {i : ι} (hs : s.rtTimerStart i = some s') :
    s'.held = s.held.filter (· ≠ i) ∧ ∀ j, (s'.timer j).initTick = (s.timer j).initTick ∧
      (s'.timer j).periodic = (s.timer j).periodic := by
  rw [Timers.rtTimerStart] at hs
  split_ifs at hs
  rw [Option.some.injEq] at hs
  refine ⟨by rw [← hs]; rfl, fun j => ?_⟩
  rw [← hs]
  by_cases hj : j = i
  · rw [hj]
    simp [Timers.mark, Timers.set, Timers.remove]
  · simp [Timers.mark, Timers.set, Timers.remove, hj]

/-- A timer that is started to go off later adds nothing that is due. -/
theorem start_later {s s' : Timers ι} (h : Good s) (hripe : Ripe s) {i : ι} (hs : s.rtTimerStart i = some s')
    (hpos : 0 < (s.timer i).initTick.toNat) : Ripe s' ∧ dueCount s' ≤ dueCount s := by
  have hgood := good_start h hs
  rw [Timers.rtTimerStart] at hs
  split_ifs at hs with hinit
  rw [Option.some.injEq] at hs
  have hbook : book s'.trace = (book s.trace).arm i (s.timer i).initTick.toNat := by
    rw [← hs]
    exact book_concat _ _
  constructor
  · intro j a ha h0
    rw [hbook] at ha ⊢
    by_cases hj : j = i
    · rw [hj, armed_arm_self, Option.some.injEq] at ha
      rw [← ha] at h0
      exact absurd h0 (Nat.ne_of_gt hpos)
    · rw [armed_arm_of_ne _ _ hj] at ha
      exact hripe j a ha h0
  · have hnot : ¬ s'.isDue i = true := by
      have ha : (book s'.trace).armed i =
          some ⟨(book s.trace).ticks, (s.timer i).initTick.toNat, (book s.trace).seq⟩ := by
        rw [hbook, armed_arm_self]
      rw [hgood.isDue_iff ha, hbook]
      change ¬ (book s.trace).ticks + (s.timer i).initTick.toNat ≤ (book s.trace).ticks
      omega
    have hother : ∀ j ∈ (s.remove i).list, s'.isDue j = s.isDue j := by
      intro j hj
      have hne : j ≠ i := of_decide_eq_true (List.mem_filter.mp hj).2
      have htimer : s'.timer j = s.timer j := by
        rw [← hs]
        exact Function.update_of_ne hne _ _
      have htick : s'.rtTick = s.rtTick := by
        rw [← hs]
        rfl
      rw [Timers.isDue, Timers.isDue, htimer, htick]
    have hperm : s'.list.Perm (i :: (s.remove i).list) := by
      rw [← hs]
      exact insertTimer_perm _ _ _ _
    rw [dueCount, hperm.countP_eq, List.countP_cons_of_neg hnot, List.countP_congr fun j hj => by rw [hother j hj]]
    exact (List.filter_sublist).countP_le

/-- The timer off the temporary list and not active. -/
theorem good_released {s : Timers ι} (h : Good s) (s' : Timers ι) {t : ι} (hheld : ∀ j ∈ s.held, j = t)
    (hoff : t ∉ s.list)
    (htrace : s'.trace = s.trace) (htick : s'.rtTick = s.rtTick) (hlist : s'.list = s.list) (hnil : s'.held = [])
    (hother : ∀ j, j ≠ t → s'.timer j = s.timer j) (hself : (s'.timer t).timeoutTick = (s.timer t).timeoutTick)
    (hact : (s'.timer t).activated = false) : Good s' := by
  have hsame : ∀ j, (s'.timer j).timeoutTick = (s.timer j).timeoutTick := by
    intro j
    by_cases hj : j = t
    · rw [hj, hself]
    · rw [hother j hj]
  refine ⟨by rw [htrace, htick, h.tick], by rw [htrace, hlist]; exact h.mem, by rw [htrace, hlist]; exact h.sorted,
    fun j a ha => ?_, fun j => ?_, by rw [htrace]; exact h.guarded⟩
  · rw [htrace] at ha ⊢
    obtain ⟨h1, h2, h3, h4, h5⟩ := h.kept j a ha
    exact ⟨(hsame j).trans h1, h2, h3, h4, h5⟩
  · rw [hlist, hnil]
    by_cases hj : j = t
    · rw [hj, hact]
      simp [hoff]
    · have hnot : j ∉ s.held := fun hmem => hj (hheld j hmem)
      rw [hother j hj, h.active]
      simp [hnot]

/-- Behind the call. -/
theorem good_rearm {s : Timers ι} {t : ι} {n : ℕ} (h : Called s t n) : ∃ s', s.rearm t = some s' ∧ Good s' ∧
    s'.held = [] ∧ Ripe s' ∧ Sane s' ∧ dueCount s' ≤ n := by
  rw [Timers.rearm]
  by_cases hnil : s.held = []
  · rw [if_pos hnil]
    exact ⟨s, rfl, h.good, hnil, h.ripe, h.sane, h.count⟩
  rw [if_neg hnil]
  have hfilter : s.held.filter (· ≠ t) = [] := by
    apply List.filter_eq_nil_iff.mpr
    intro j hj
    simp [h.held j hj]
  have hmem : t ∈ s.held := by
    obtain ⟨j, hj⟩ := List.exists_mem_of_ne_nil _ hnil
    exact h.held j hj ▸ hj
  have hact : (s.timer t).activated = true ↔ (s.timer t).periodic = true := by
    rw [h.good.active]
    simp [h.off, hmem]
  by_cases hp : (s.timer t).periodic = true
  · -- a periodic timer that the call did not stop
    have hcond : ((s.timer t).periodic && (s.timer t).activated) = true := by rw [hp, hact.mpr hp]; rfl
    dsimp only
    rw [if_pos hcond]
    let s₂ : Timers ι :=
      { s with held := s.held.filter (· ≠ t) }.set t { s.timer t with activated := false }
    have hself : s₂.timer t = { s.timer t with activated := false } := Function.update_self _ _ _
    have hother : ∀ j, j ≠ t → s₂.timer j = s.timer j := fun j hj => Function.update_of_ne hj _ _
    have hgood₂ : Good s₂ :=
      good_released h.good s₂ h.held h.off rfl rfl rfl hfilter hother (by rw [hself]) (by rw [hself])
    have hripe₂ : Ripe s₂ := h.ripe
    have hdue : s₂.isDue = s.isDue := by
      funext j
      by_cases hj : j = t
      · rw [hj, Timers.isDue, Timers.isDue, hself]
        rfl
      · rw [Timers.isDue, Timers.isDue, hother j hj]
        rfl
    have hcount₂ : dueCount s₂ ≤ n := by
      rw [dueCount, hdue]
      exact h.count
    obtain ⟨hpos, hlt⟩ := h.sane t hp
    have hstart : ∃ s', s₂.rtTimerStart t = some s' := by
      have hinit : ((s₂.remove t).timer t).initTick.toNat < rtTickMax / 2 := by
        change (s₂.timer t).initTick.toNat < _
        rw [hself]
        exact hlt
      rw [Timers.rtTimerStart]
      dsimp only
      rw [if_pos hinit]
      exact ⟨_, rfl⟩
    obtain ⟨s', hs'⟩ := hstart
    obtain ⟨hripe', hcount'⟩ := start_later hgood₂ hripe₂ hs' (by rw [hself]; exact hpos)
    obtain ⟨hheld', htimer'⟩ := fields_start hs'
    refine ⟨s', hs', good_start hgood₂ hs', ?_, hripe', fun j => ?_, hcount'.trans hcount₂⟩
    · rw [hheld', show s₂.held = [] from hfilter, List.filter_nil]
    · have hsane := h.sane j
      rw [(htimer' j).1, (htimer' j).2]
      by_cases hj : j = t
      · rw [hj] at hsane ⊢
        rw [hself]
        exact hsane
      · rw [hother j hj]
        exact hsane
  · have hcond : ¬ ((s.timer t).periodic && (s.timer t).activated) = true := by
      intro hc
      exact hp (Bool.and_eq_true_iff.mp hc).1
    dsimp only
    rw [if_neg hcond]
    refine ⟨_, rfl, ?_, hfilter, h.ripe, h.sane, h.count⟩
    exact good_released h.good _ h.held h.off rfl rfl rfl hfilter (fun j _ => rfl) rfl
      (Bool.eq_false_iff.mpr fun ha => hp (hact.mp ha))

/-- **The interrupt handler ends**, and nothing is overdue behind it. -/
theorem good_check (stops : ι → List ι) {n : ℕ} {s : Timers ι} (h : Good s) (hheld : s.held = [])
    (hripe : Ripe s) (hsane : Sane s) (hn : dueCount s < n) :
    ∃ s', s.rtTimerCheck stops n = some s' ∧ Good s' ∧ Rest s' := by
  induction n generalizing s with
  | zero => exact absurd hn (Nat.not_lt_zero _)
  | succ n ih =>
    rw [Timers.rtTimerCheck]
    split
    next hlist =>
      refine ⟨s, rfl, h, hheld, fun i a ha => ?_⟩
      have hmem := (h.mem i).mpr ⟨a, ha⟩
      rw [hlist] at hmem
      cases hmem
    next t ts hlist =>
      obtain ⟨a, ha⟩ := (h.mem t).mp (by rw [hlist]; exact List.mem_cons_self)
      split_ifs with hdue
      · have hdue' : s.isDue t = true := decide_eq_true hdue
        have hpos : 0 < dueCount s := by
          rw [dueCount, hlist, List.countP_cons_of_pos hdue']
          exact Nat.succ_pos _
        have hcalled := (called_expire h hheld hripe hsane hlist hdue').stops (stops t)
        obtain ⟨s', hs', hgood, hnil, hripe', hsane', hcount⟩ := good_rearm hcalled
        rw [hs', Option.bind_some]
        exact ih hgood hnil hripe' hsane' (by omega)
      · refine ⟨s, rfl, h, hheld, fun i b hb => ?_⟩
        -- the head of the list is the first to go off
        have hlate : (book s.trace).ticks < a.due := by
          by_contra hle
          exact hdue (of_decide_eq_true ((h.isDue_iff ha).mpr (Nat.not_lt.mp hle)))
        have hb' : (book s.trace).ticks < b.due := by
          have hmem := (h.mem i).mpr ⟨b, hb⟩
          have hsorted := h.sorted
          rw [hlist] at hmem hsorted
          rcases List.mem_cons.mp hmem with rfl | hmem
          · rw [ha, Option.some.injEq] at hb
            exact hb ▸ hlate
          · have hbefore := (List.pairwise_cons.mp hsorted).1 i hmem a b ha hb
            unfold Arm.Before at hbefore
            omega
        rw [Arm.due] at hb'
        rw [Arm.alarm]
        omega

/-- **`rt_tick_increase`.** -/
theorem good_tick {s : Timers ι} (h : Good s) (hr : Rest s) (hsane : Sane s) (stops : ι → List ι) :
    ∃ s', s.rtTickIncrease stops = some s' ∧ Good s' ∧ Rest s' := by
  let s₁ : Timers ι := { s with rtTick := s.rtTick + 1#32 }.mark .tick
  have hbook : book s₁.trace = { book s.trace with ticks := (book s.trace).ticks + 1 } := book_concat _ _
  have hticks : (book s₁.trace).ticks = (book s.trace).ticks + 1 := by rw [hbook]
  have harmed : (book s₁.trace).armed = (book s.trace).armed := by rw [hbook]
  have hgood : Good s₁ := by
    refine ⟨?_, by rw [harmed]; exact h.mem, by rw [harmed]; exact h.sorted, fun i a ha => ?_, h.active, ?_⟩
    · rw [hticks, ← word_succ, ← h.tick]
      rfl
    · rw [harmed] at ha
      obtain ⟨h1, h2, h3, h4, -⟩ := h.kept i a ha
      refine ⟨h1, ?_, h3, ?_, ?_⟩
      · rw [hticks]
        exact Nat.le_succ_of_le h2
      · rw [hbook]
        exact h4
      · rw [hticks]
        exact hr.alarm i a ha
    · exact guarded_concat h.guarded hr.alarm
  have hripe : Ripe s₁ := by
    intro i a ha _
    rw [harmed] at ha
    rw [hticks]
    exact Nat.lt_succ_of_le (h.kept i a ha).since
  apply good_check stops hgood hr.held hripe hsane
  exact Nat.lt_succ_of_le List.countP_le_length

/-! ## Runs -/

theorem rest_start {s s' : Timers ι} (h : Rest s) {i : ι} (hs : s.rtTimerStart i = some s') : Rest s' := by
  have hheld := (fields_start hs).1
  rw [Timers.rtTimerStart] at hs
  split_ifs at hs
  rw [Option.some.injEq] at hs
  have hbook : book s'.trace = (book s.trace).arm i (s.timer i).initTick.toNat := by
    rw [← hs]
    exact book_concat _ _
  refine ⟨by rw [hheld, h.held, List.filter_nil], fun j a ha => ?_⟩
  rw [hbook] at ha ⊢
  by_cases hj : j = i
  · rw [hj, armed_arm_self, Option.some.injEq] at ha
    rw [← ha, Arm.alarm]
    change (book s.trace).ticks < _
    dsimp only
    omega
  · rw [armed_arm_of_ne _ _ hj] at ha
    exact h.alarm j a ha

/-- When the tick comes the periodic timers have periods. -/
def Periods (s : Timers ι) : Event ι → Prop
  | .tick _ => Sane s
  | _ => True

theorem good_step {s s' : Timers ι} {e : Event ι} (hc : Periods s e) (h : Good s ∧ Rest s)
    (hs : step s e = some s') : Good s' ∧ Rest s' := by
  cases e with
  | start i => exact ⟨good_start h.1 hs, rest_start h.2 hs⟩
  | stop i =>
    cases hs
    exact ⟨good_stop h.1 i, rest_stop h.2 i⟩
  | control i c =>
    cases hs
    exact good_control h.1 h.2 i c
  | tick stops =>
    obtain ⟨t, ht, hgood, hrest⟩ := good_tick h.1 h.2 hc stops
    rw [step, ht, Option.some.injEq] at hs
    exact hs ▸ ⟨hgood, hrest⟩

theorem good_boot {f : ι → RtTimer} (hf : ∀ i, (f i).activated = false) :
    Good { timer := f } ∧ Rest { timer := f } := by
  refine ⟨⟨rfl, fun i => ?_, List.Pairwise.nil, nofun, fun i => ?_, guarded_nil _⟩, rfl, nofun⟩
  · exact iff_of_false List.not_mem_nil fun ⟨_, ha⟩ => nomatch ha
  · rw [hf i]
    simp

/-! ## Deadlines -/

theorem ticks_book (t : List (Mark ι)) : (book t).ticks = t.count .tick := by
  induction t using List.reverseRecOn with
  | nil => rfl
  | append_singleton t m ih =>
    rw [book_concat, List.count_append, ← ih]
    cases m <;> simp [Book.next, Book.arm, Book.disarm]

/-- Until it goes off a timer that nobody touches stays armed. -/
theorem armed_of_quiet (p : List (Mark ι)) (i : ι) (d : ℕ) {q : List (Mark ι)} (hstart : ∀ n, .started i n ∉ q)
    (hstop : .stopped i ∉ q) (hfire : .fired i ∉ q) :
    (book (p ++ .started i d :: q)).armed i = some ⟨(book p).ticks, d, (book p).seq⟩ := by
  induction q using List.reverseRecOn with
  | nil =>
    rw [book_concat]
    exact armed_arm_self _ _ _
  | append_singleton q m ih =>
    have hq := ih (fun n h => hstart n (List.mem_append_left _ h)) (fun h => hstop (List.mem_append_left _ h))
      fun h => hfire (List.mem_append_left _ h)
    have hm : m ∈ q ++ [m] := List.mem_concat_self
    rw [← List.cons_append, ← List.append_assoc, book_concat]
    cases m with
    | tick => exact hq
    | started j n =>
      have hj : i ≠ j := by
        rintro rfl
        exact hstart n hm
      rw [Book.next, armed_arm_of_ne _ _ hj, hq]
    | stopped j =>
      have hj : i ≠ j := by
        rintro rfl
        exact hstop hm
      exact armed_disarm.mpr ⟨hj, hq⟩
    | fired j =>
      have hj : i ≠ j := by
        rintro rfl
        exact hfire hm
      exact armed_disarm.mpr ⟨hj, hq⟩

/-- **A timer that nobody touches** has gone off exactly if its ticks are over. -/
theorem fired_iff {s : Timers ι} (h : Good s) (hr : Rest s) {p q : List (Mark ι)} {i : ι} {d : ℕ}
    (ht : s.trace = p ++ .started i d :: q) (hstart : ∀ n, .started i n ∉ q) (hstop : .stopped i ∉ q) :
    .fired i ∈ q ↔ max d 1 ≤ q.count .tick := by
  have hcount : ∀ r : List (Mark ι), (book (p ++ .started i d :: r)).ticks = (book p).ticks + r.count .tick := by
    intro r
    rw [ticks_book, ticks_book, List.count_append, List.count_cons_of_ne (by simp)]
  constructor
  · intro hfire
    obtain ⟨q₁, q₂, rfl, hq₁⟩ := List.eq_append_cons_of_mem hfire
    have harmed := armed_of_quiet p i d (fun n hn => hstart n (List.mem_append_left _ hn))
      (fun hn => hstop (List.mem_append_left _ hn)) hq₁
    have hsplit : s.trace = (p ++ .started i d :: q₁) ++ .fired i :: q₂ := by
      rw [ht, List.append_assoc, List.cons_append]
    obtain ⟨a, ha, hticks, -⟩ := h.guarded _ _ _ hsplit
    rw [harmed, Option.some.injEq] at ha
    rw [hcount, ← ha, Arm.alarm] at hticks
    rw [List.count_append]
    dsimp only at hticks
    omega
  · intro hle
    by_contra hfire
    have harmed := armed_of_quiet p i d hstart hstop hfire
    rw [← ht] at harmed
    have halarm := hr.alarm i _ harmed
    rw [ht, hcount, Arm.alarm] at halarm
    dsimp only at halarm
    omega

/-- A timer that is not armed does not go off before it is started. -/
theorem not_fired_of_quiet {t p q : List (Mark ι)} {i : ι} (ht : Guarded Allowed t) (hpq : t = p ++ q)
    (hoff : (book p).armed i = none) (hstart : ∀ n, .started i n ∉ q) : .fired i ∉ q := by
  have hstays : ∀ r : List (Mark ι), (∀ n, .started i n ∉ r) → (book (p ++ r)).armed i = none := by
    intro r
    induction r using List.reverseRecOn with
    | nil =>
      intro _
      rw [List.append_nil]
      exact hoff
    | append_singleton r m ih =>
      intro hr
      have hnone := ih fun n hn => hr n (List.mem_append_left _ hn)
      rw [← List.append_assoc, book_concat]
      cases m with
      | tick => exact hnone
      | started j n =>
        have hj : i ≠ j := by
          rintro rfl
          exact hr n List.mem_concat_self
        rw [Book.next, armed_arm_of_ne _ _ hj, hnone]
      | stopped j => exact armed_disarm_none hnone
      | fired j => exact armed_disarm_none hnone
  intro hfire
  obtain ⟨q₁, q₂, rfl⟩ := List.append_of_mem hfire
  obtain ⟨a, ha, -⟩ := ht (p ++ q₁) (.fired i) q₂ (by rw [hpq, List.append_assoc])
  rw [hstays q₁ fun n hn => hstart n (List.mem_append_left _ hn)] at ha
  cases ha

/-! ## What the events amount to -/

def Event.isTick : Event ι → Bool
  | .tick _ => true
  | _ => false

/-- The time that an event sets for timer `i`. -/
def Event.setTime? (i : ι) : Event ι → Option (BitVec 32)
  | .control j (.setTime t) => if j = i then some t else none
  | _ => none

/-- The time of timer `i` after some events: the last one set, or the one that it was made with. -/
def initTickAfter (f : ι → RtTimer) (es : List (Event ι)) (i : ι) : BitVec 32 :=
  latest (Event.setTime? i) (f i).initTick es

/-- Marks were added, `n` of them ticks, and the timers kept their times. -/
structure Adds (s s' : Timers ι) (n : ℕ) : Prop where
  marks : ∃ q, s'.trace = s.trace ++ q ∧ q.count .tick = n
  times : ∀ j, (s'.timer j).initTick = (s.timer j).initTick

theorem Adds.refl (s : Timers ι) : Adds s s 0 := ⟨⟨[], (List.append_nil _).symm, rfl⟩, fun _ => rfl⟩

theorem Adds.trans {s s' s'' : Timers ι} {m n : ℕ} (h : Adds s s' m) (h' : Adds s' s'' n) : Adds s s'' (m + n) := by
  obtain ⟨q, hq, hm⟩ := h.marks
  obtain ⟨q', hq', hn⟩ := h'.marks
  refine ⟨⟨q ++ q', by rw [hq', hq, List.append_assoc], by rw [List.count_append, hm, hn]⟩, fun j => ?_⟩
  rw [h'.times, h.times]

theorem adds_stop (s : Timers ι) (i : ι) : Adds s (s.rtTimerStop i) 0 := by
  refine ⟨?_, fun j => (timer_stop s i j).1⟩
  rw [Timers.rtTimerStop]
  split_ifs
  · exact ⟨[.stopped i], rfl, rfl⟩
  · exact ⟨[], (List.append_nil _).symm, rfl⟩

theorem adds_stops (s : Timers ι) (l : List ι) : Adds s (l.foldl Timers.rtTimerStop s) 0 := by
  induction l generalizing s with
  | nil => exact .refl s
  | cons i l ih => exact (adds_stop s i).trans (ih _)

theorem trace_start {s s' : Timers ι} {i : ι} (hs : s.rtTimerStart i = some s') :
    s'.trace = s.trace ++ [.started i (s.timer i).initTick.toNat] := by
  rw [Timers.rtTimerStart] at hs
  split_ifs at hs
  rw [Option.some.injEq] at hs
  rw [← hs]
  rfl

theorem adds_start {s s' : Timers ι} {i : ι} (hs : s.rtTimerStart i = some s') : Adds s s' 0 :=
  ⟨⟨_, trace_start hs, rfl⟩, fun j => ((fields_start hs).2 j).1⟩

theorem adds_expire (s : Timers ι) (t : ι) : Adds s (s.expire t) 0 := by
  refine ⟨⟨[.fired t], (expire_fields s t).2.2.2, rfl⟩, fun j => ?_⟩
  rw [timer_expire]
  split_ifs with h
  · rw [h.1]
  · rfl

theorem adds_rearm {s s' : Timers ι} {t : ι} (hs : s.rearm t = some s') : Adds s s' 0 := by
  rw [Timers.rearm] at hs
  split_ifs at hs with h1
  · cases hs
    exact .refl s
  · dsimp only at hs
    split_ifs at hs
    · have hstart := adds_start hs
      refine ⟨hstart.marks, fun j => (hstart.times j).trans ?_⟩
      by_cases hj : j = t
      · rw [hj]
        simp [Timers.set]
      · simp [Timers.set, hj]
    · cases hs
      exact ⟨⟨[], (List.append_nil _).symm, rfl⟩, fun _ => rfl⟩

theorem adds_check (stops : ι → List ι) {n : ℕ} {s s' : Timers ι} (hs : s.rtTimerCheck stops n = some s') :
    Adds s s' 0 := by
  induction n generalizing s with
  | zero => cases hs
  | succ n ih =>
    rw [Timers.rtTimerCheck] at hs
    split at hs
    next =>
      cases hs
      exact .refl _
    next t ts hlist =>
      split_ifs at hs
      · obtain ⟨s₁, hs₁, hs'⟩ := Option.bind_eq_some_iff.mp hs
        exact (((adds_expire s t).trans (adds_stops _ _)).trans (adds_rearm hs₁)).trans (ih hs')
      · cases hs
        exact .refl _

theorem adds_tick {s s' : Timers ι} {stops : ι → List ι} (hs : s.rtTickIncrease stops = some s') : Adds s s' 1 := by
  obtain ⟨⟨q, hq, hcount⟩, htimes⟩ := adds_check stops hs
  refine ⟨⟨.tick :: q, ?_, ?_⟩, htimes⟩
  · rw [hq]
    exact List.append_assoc s.trace [.tick] q
  · rw [List.count_cons_self, hcount]

/-- **A step**: its marks, and the times of the timers. -/
theorem step_adds {s s' : Timers ι} {e : Event ι} (hs : step s e = some s') :
    (∃ q, s'.trace = s.trace ++ q ∧ q.count .tick = [e].countP Event.isTick) ∧
      ∀ i, (s'.timer i).initTick = (e.setTime? i).getD (s.timer i).initTick := by
  cases e with
  | start i =>
    have h := adds_start hs
    exact ⟨h.marks, h.times⟩
  | stop i =>
    cases hs
    exact ⟨(adds_stop s i).marks, (adds_stop s i).times⟩
  | control j c =>
    cases hs
    refine ⟨⟨[], ?_, rfl⟩, fun i => ?_⟩
    · cases c <;> exact (List.append_nil _).symm
    · by_cases hj : j = i
      · subst hj
        cases c <;> simp [Timers.rtTimerControl, Timers.set, Event.setTime?]
      · have hi : i ≠ j := Ne.symm hj
        cases c <;> simp [Timers.rtTimerControl, Timers.set, Event.setTime?, hj, hi]
  | tick stops =>
    have h := adds_tick hs
    exact ⟨h.marks, h.times⟩

/-- **A run**: as many ticks as there were tick events, and each timer with the time last set. -/
theorem run_adds {s s' : Timers ι} {es : List (Event ι)} (hr : run step s es = some s') :
    (∃ q, s'.trace = s.trace ++ q ∧ q.count .tick = es.countP Event.isTick) ∧
      ∀ i, (s'.timer i).initTick = latest (Event.setTime? i) (s.timer i).initTick es := by
  induction es using List.reverseRecOn generalizing s' with
  | nil =>
    cases hr
    exact ⟨⟨[], (List.append_nil _).symm, rfl⟩, fun _ => rfl⟩
  | append_singleton es e ih =>
    rw [run_concat] at hr
    obtain ⟨s₁, hs₁, hs'⟩ := Option.bind_eq_some_iff.mp hr
    obtain ⟨⟨q, hq, hcount⟩, htimes⟩ := ih hs₁
    obtain ⟨⟨q', hq', hcount'⟩, htimes'⟩ := step_adds hs'
    refine ⟨⟨q ++ q', by rw [hq', hq, List.append_assoc], ?_⟩, fun i => ?_⟩
    · rw [List.count_append, hcount, hcount', List.countP_append]
    · rw [htimes', htimes, latest_concat]

/-- Every start of a timer sets its deadline: until it is started again or stopped, it has gone off exactly if
so many ticks have come since. -/
def StartsCount (f : ι → RtTimer) (es : List (Event ι)) (t : List (Mark ι)) : Prop :=
  ∀ es₁ i es₂, es = es₁ ++ .start i :: es₂ → ∃ p q, t = p ++ .started i (initTickAfter f es₁ i).toNat :: q ∧
    p.count .tick = es₁.countP Event.isTick ∧ q.count .tick = es₂.countP Event.isTick ∧
    ((∀ n, .started i n ∉ q) → .stopped i ∉ q →
      (.fired i ∈ q ↔ max (initTickAfter f es₁ i).toNat 1 ≤ es₂.countP Event.isTick))

/-- Every stop of a timer ends it: until it is started again, it does not go off. -/
def StopsCount (es : List (Event ι)) (t : List (Mark ι)) : Prop :=
  ∀ es₁ i es₂, es = es₁ ++ .stop i :: es₂ → ∃ p q, t = p ++ q ∧ p.count .tick = es₁.countP Event.isTick ∧
    q.count .tick = es₂.countP Event.isTick ∧ ((∀ n, .started i n ∉ q) → .fired i ∉ q)

theorem startsCount {f : ι → RtTimer} {es : List (Event ι)} {s : Timers ι} (hgood : Good s) (hrest : Rest s)
    (hr : run step { timer := f } es = some s) : StartsCount f es s.trace := by
  rintro es₁ i es₂ rfl
  rw [run_append, Option.bind_eq_some_iff] at hr
  obtain ⟨s₁, hs₁, hr⟩ := hr
  obtain ⟨s₂, hs₂, hr⟩ := Option.bind_eq_some_iff.mp hr
  obtain ⟨⟨p, hp, hcount₁⟩, htimes⟩ := run_adds hs₁
  obtain ⟨⟨q, hq, hcount₂⟩, -⟩ := run_adds hr
  have hinit : (s₁.timer i).initTick = initTickAfter f es₁ i := htimes i
  have ht : s.trace = p ++ .started i (initTickAfter f es₁ i).toNat :: q := by
    rw [hq, trace_start hs₂, hp, hinit, List.nil_append, List.append_assoc]
    rfl
  refine ⟨p, q, ht, hcount₁, hcount₂, fun hstart hstop => ?_⟩
  rw [fired_iff hgood hrest ht hstart hstop, hcount₂]

theorem stopsCount {f : ι → RtTimer} (hf : ∀ i, (f i).activated = false) {es : List (Event ι)} {s : Timers ι}
    (hes : Along step Periods { timer := f } es) (hgood : Good s) (hr : run step { timer := f } es = some s) :
    StopsCount es s.trace := by
  rintro es₁ i es₂ rfl
  rw [run_append, Option.bind_eq_some_iff] at hr
  obtain ⟨s₁, hs₁, hr⟩ := hr
  obtain ⟨s₂, hs₂, hr⟩ := Option.bind_eq_some_iff.mp hr
  obtain ⟨hgood₁, -⟩ := run_inv (fun _ _ _ hc h hs => good_step hc h hs) (good_boot hf) hes.left hs₁
  cases hs₂
  obtain ⟨⟨p, hp, hcount₁⟩, -⟩ := run_adds hs₁
  obtain ⟨⟨p', hp', hcount'⟩, -⟩ := adds_stop s₁ i
  obtain ⟨⟨q, hq, hcount₂⟩, -⟩ := run_adds hr
  refine ⟨(s₁.rtTimerStop i).trace, q, hq, ?_, hcount₂, fun hstart => ?_⟩
  · rw [hp', hp, List.nil_append, List.count_append, hcount₁, hcount', Nat.add_zero]
  · exact not_fired_of_quiet hgood.guarded hq (armed_stop hgood₁ i) hstart

/-- A millisecond is a tick. -/
theorem toNat_rtTickFromMillisecond {ms : ℕ} (h : ms < 2 ^ 32) : (rtTickFromMillisecond ms).toNat = ms := by
  have he : 1000 * ((ms : ℤ) / 1000) + (1000 * ((ms : ℤ) % 1000) + 999) / 1000 = ms := by omega
  rw [rtTickFromMillisecond, if_neg (by omega), he, BitVec.ofInt_natCast, BitVec.toNat_ofNat,
    Nat.mod_eq_of_lt h]

/-- The timer of a thread that goes to sleep. -/
theorem mdelay_started {s : Timers ι} (h : Good s) (hr : Rest s) (i : ι) {ms : ℕ} (hms : ms < rtTickMax / 2) :
    ∃ s', s.rtThreadMdelay i ms = some s' ∧ Good s' ∧ Rest s' ∧ ∃ p, s'.trace = p ++ [.started i ms] := by
  let s₁ := (s.rtTimerStop i).rtTimerControl i (.setTime (rtTickFromMillisecond ms))
  obtain ⟨hgood, hrest⟩ := good_control (good_stop h i) (rest_stop hr i) i (.setTime (rtTickFromMillisecond ms))
  have hinit : (s₁.timer i).initTick.toNat = ms := by
    have htimer : s₁.timer i =
        { (s.rtTimerStop i).timer i with initTick := rtTickFromMillisecond ms } := Function.update_self _ _ _
    rw [htimer]
    exact toNat_rtTickFromMillisecond (hms.trans (by decide))
  have hstart : s₁.rtTimerStart i = some (({ s₁.remove i with
      list := (s₁.remove i).insertTimer i (s₁.rtTick + (s₁.timer i).initTick) (s₁.remove i).list }.set i
        { s₁.timer i with timeoutTick := s₁.rtTick + (s₁.timer i).initTick, activated := true }).mark
          (.started i (s₁.timer i).initTick.toNat)) := by
    rw [Timers.rtTimerStart]
    exact if_pos (show (s₁.timer i).initTick.toNat < rtTickMax / 2 by rw [hinit]; exact hms)
  refine ⟨_, hstart, good_start hgood hstart, rest_start hrest hstart, s₁.trace, ?_⟩
  rw [hinit]
  rfl

instance [Fintype ι] (s : Timers ι) (e : Event ι) : Decidable (Periods s e) :=
  match e with
  | .tick _ => inferInstanceAs (Decidable (∀ _ : ι, _ → _ ∧ _))
  | .start _ => .isTrue trivial
  | .stop _ => .isTrue trivial
  | .control _ _ => .isTrue trivial

/-- The timer of a thread, and a periodic one of two ticks. -/
def twoTimers : Bool → RtTimer
  | true => { initTick := 2#32, periodic := true }
  | false => {}

/-- The thread sleeps for three ticks. -/
def threeTicks : List (Event Bool) :=
  [.start true, .tick fun _ => [], .control false (.setTime 3#32), .start false, .tick fun _ => [],
    .tick fun _ => [], .tick fun _ => []]

end PipeGallery.Kernel
