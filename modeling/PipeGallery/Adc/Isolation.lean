import PipeGallery.Adc.Model
import PipeGallery.Lib.Runs

set_option autoImplicit false

/-!
# ADC1 — when the two users are isolated

A thread relies on its channel between its `HAL_ADC_ConfigChannel` and its `HAL_ADC_Start`
(`selected?`), and on its conversion between its `HAL_ADC_Start` and its `HAL_ADC_GetValue`
(`converted?`). Nothing keeps the other thread out of these windows.

* `Undisturbed`: a turn does not select a channel or start a conversion inside such a window;
* `Relies`, `Relies.frame`, `Relies.start`: what a thread relies on inside its windows;
* `FlameInv`, `OxygenInv`: what each thread has read so far;
* **`isolated_of_undisturbed`**: runs of undisturbed turns are isolated;
* **`not_isolated_flame_round`**: a flame round inside the oxygen thread's 2 ms delay breaks it.
-/

namespace PipeGallery.Adc

open Lib

/-! ## The windows -/

/-- The next turn of the flame thread selects a channel. -/
def FlamePc.selects : FlamePc → Bool
  | .config _ => true
  | _ => false

/-- The next turn of the flame thread starts a conversion. -/
def FlamePc.starts : FlamePc → Bool
  | .start _ => true
  | _ => false

/-- The channel the flame thread relies on being selected. -/
def FlamePc.selected? : FlamePc → Option Channel
  | .start i => some i.channel
  | _ => none

/-- The channel whose conversion the flame thread is about to read. -/
def FlamePc.converted? : FlamePc → Option Channel
  | .poll i => some i.channel
  | .getValue i => some i.channel
  | _ => none

/-- The next turn of the oxygen thread selects a channel. -/
def OxygenPc.selects : OxygenPc → Bool
  | .config => true
  | _ => false

/-- The next turn of the oxygen thread starts a conversion. -/
def OxygenPc.starts : OxygenPc → Bool
  | .start => true
  | _ => false

/-- The channel the oxygen thread relies on being selected. -/
def OxygenPc.selected? : OxygenPc → Option Channel
  | .enable => some o2AdcChannel
  | .waitEnable _ => some o2AdcChannel
  | .delayEnable => some o2AdcChannel
  | .start => some o2AdcChannel
  | _ => none

/-- The channel whose conversion the oxygen thread is about to read. -/
def OxygenPc.converted? : OxygenPc → Option Channel
  | .poll => some o2AdcChannel
  | .getValue => some o2AdcChannel
  | _ => none

/-- The turn disturbs no window of the other thread: it selects no channel while the other relies on
its own, and starts no conversion while the other is about to read one. -/
def Undisturbed (s : Sys) (e : Thread × Outside) : Prop :=
  match e.1 with
  | .flame => (s.flame.pc.selects = true → s.oxygen.pc.selected? = none) ∧
      (s.flame.pc.starts = true → s.oxygen.pc.converted? = none)
  | .oxygen => (s.oxygen.pc.selects = true → s.flame.pc.selected? = none) ∧
      (s.oxygen.pc.starts = true → s.flame.pc.converted? = none)

instance (s : Sys) (e : Thread × Outside) : Decidable (Undisturbed s e) := by
  unfold Undisturbed; split <;> infer_instance

/-! ## What a turn does to the peripheral -/

theorem flameStep_selected (o : Outside) (a : Adc1) {f : Flame} (h : f.pc.selects = false) :
    (flameStep o a f).1.selected = a.selected := by
  unfold flameStep
  cases hp : f.pc <;> rw [hp] at h <;> cases hs : o.status <;> simp_all [FlamePc.selects, halStart, halStop]

theorem flameStep_last (o : Outside) (a : Adc1) {f : Flame} (h : f.pc.starts = false) :
    (flameStep o a f).1.last = a.last := by
  unfold flameStep
  cases hp : f.pc <;> rw [hp] at h <;> cases hs : o.status <;>
    simp_all [FlamePc.starts, halConfigChannel, halStop]

theorem oxygenStep_selected (o : Outside) (a : Adc1) {x : Oxygen} (h : x.pc.selects = false) :
    (oxygenStep o a x).1.selected = a.selected := by
  unfold oxygenStep
  cases hp : x.pc <;> rw [hp] at h <;> cases hs : o.status <;>
    simp_all [OxygenPc.selects, halStart, halStop, adcDisable]

theorem oxygenStep_last (o : Outside) (a : Adc1) {x : Oxygen} (h : x.pc.starts = false) :
    (oxygenStep o a x).1.last = a.last := by
  unfold oxygenStep
  cases hp : x.pc <;> rw [hp] at h <;> cases hs : o.status <;>
    simp_all [OxygenPc.starts, halConfigChannel, halStop, adcDisable]

/-! ## What a thread relies on -/

/-- The channel that a thread has selected is selected, and the conversion that it is about to read
is of its channel. -/
structure Relies (a : Adc1) (selected converted : Option Channel) : Prop where
  sel : ∀ c, selected = some c → a.selected = c
  conv : ∀ c, converted = some c → a.last.IsConv c

/-- Outside its windows a thread relies on nothing. -/
theorem Relies.nothing (a : Adc1) : Relies a none none := ⟨fun _ h => (nomatch h), fun _ h => (nomatch h)⟩

theorem Relies.of_selected {a : Adc1} {c : Channel} (h : a.selected = c) : Relies a (some c) none :=
  ⟨fun _ hc => h.trans (Option.some.inj hc), fun _ hc => (nomatch hc)⟩

theorem Relies.of_converted {a : Adc1} {c : Channel} (h : a.last.IsConv c) : Relies a none (some c) :=
  ⟨fun _ hc => (nomatch hc), fun _ hc => Option.some.inj hc ▸ h⟩

/-- A turn of the other thread that leaves the windows alone. -/
theorem Relies.frame {a a' : Adc1} {p q : Option Channel} (h : Relies a p q)
    (hs : p ≠ none → a'.selected = a.selected) (hc : q ≠ none → a'.last = a.last) : Relies a' p q where
  sel c hp := by
    rw [hs (by rw [hp]; exact Option.some_ne_none c)]
    exact h.sel c hp
  conv c hq := by
    rw [hc (by rw [hq]; exact Option.some_ne_none c)]
    exact h.conv c hq

/-- `HAL_ADC_Start` converts the channel relied on. -/
theorem Relies.start {a : Adc1} {c : Channel} (h : Relies a (some c) none) (raw : UInt16) :
    Relies (halStart .ok raw a) none (some c) := by
  refine .of_converted ⟨raw, ?_⟩
  rw [← h.sel c rfl]
  rfl

/-! ## The flame thread -/

/-- How many slots of the round have been read. -/
def FlamePc.done : FlamePc → ℕ
  | .config i => i.pos
  | .start i => i.pos
  | .poll i => i.pos
  | .getValue i => i.pos
  | .stop i => i.pos
  | .store => 5
  | .delay => 5

theorem FlamePc.done_next (i : Slot) : (FlamePc.next i).done = i.pos + 1 := by cases i <;> rfl

/-- A finished reading leaves no window open. -/
theorem FlamePc.windows_next (i : Slot) : (FlamePc.next i).selected? = none ∧
    (FlamePc.next i).converted? = none ∧ ∀ j, FlamePc.next i ≠ .stop j := by
  cases i <;> exact ⟨rfl, rfl, fun _ => FlamePc.noConfusion⟩

theorem Slot.pos_injective : Function.Injective Slot.pos := by
  intro i j h
  cases i <;> cases j <;> first | rfl | exact absurd h (by decide)

theorem Slot.pos_lt (i : Slot) : i.pos < 5 := by cases i <;> decide

/-- What the flame thread has read so far is its own. -/
structure FlameInv (a : Adc1) (f : Flame) : Prop where
  relies : Relies a f.pc.selected? f.pc.converted?
  value : ∀ i, f.pc = .stop i → f.adcValue.IsConv i.channel
  locals : ∀ j : Slot, j.pos < f.pc.done → (f.adcCh j).IsConv j.channel
  stored : ∀ p ∈ f.stored, p.2.IsConv p.1.channel

/-- `adc_read_channel` returns a conversion of its channel into the local of its slot. -/
theorem Flame.ret_locals {f : Flame} {i : Slot} (hval : f.adcValue.IsConv i.channel)
    (hloc : ∀ j : Slot, j.pos < i.pos → (f.adcCh j).IsConv j.channel) (j : Slot)
    (hj : j.pos < (f.ret i).pc.done) : ((f.ret i).adcCh j).IsConv j.channel := by
  have hj : j.pos < i.pos + 1 := by rw [← FlamePc.done_next]; exact hj
  by_cases hij : j = i
  · subst hij
    simp only [Flame.ret, Function.update_self]
    exact hval
  · have hne : j.pos ≠ i.pos := fun e => hij (Slot.pos_injective e)
    simp only [Flame.ret, Function.update_of_ne hij]
    exact hloc j (lt_of_le_of_ne (Nat.lt_succ_iff.mp hj) hne)

/-- Its own turn keeps the invariant of the flame thread. -/
theorem FlameInv.flameStep {a : Adc1} {f : Flame} (h : FlameInv a f) {o : Outside}
    (ho : o.status = .ok) : FlameInv (flameStep o a f).1 (flameStep o a f).2 := by
  obtain ⟨hrel, hval, hloc, hst⟩ := h
  unfold Adc.flameStep
  cases hp : f.pc with
  | config i =>
    rw [hp] at hloc
    simp only [ho]
    exact ⟨.of_selected rfl, fun _ hc => (nomatch hc), hloc, hst⟩
  | start i =>
    rw [hp] at hloc hrel
    simp only [ho]
    exact ⟨hrel.start o.raw, fun _ hc => (nomatch hc), hloc, hst⟩
  | poll i =>
    rw [hp] at hloc hrel
    simp only [ho]
    exact ⟨hrel, fun _ hc => (nomatch hc), hloc, hst⟩
  | getValue i =>
    rw [hp] at hloc hrel
    refine ⟨.nothing a, fun j hj => ?_, hloc, hst⟩
    rw [← FlamePc.stop.inj hj]
    exact hrel.conv i.channel rfl
  | stop i =>
    rw [hp] at hloc
    obtain ⟨n1, n2, n3⟩ := FlamePc.windows_next i
    refine ⟨?_, fun j hj => absurd hj (n3 j), Flame.ret_locals (hval i hp) hloc, hst⟩
    change Relies _ (FlamePc.next i).selected? (FlamePc.next i).converted?
    rw [n1, n2]
    exact .nothing _
  | store =>
    rw [hp] at hloc
    refine ⟨.nothing a, fun _ hc => (nomatch hc), hloc, fun p hmem => ?_⟩
    rcases List.mem_append.mp hmem with hmem | hmem
    · exact hst p hmem
    · obtain ⟨i, -, rfl⟩ := List.mem_map.mp hmem
      exact hloc i i.pos_lt
  | delay =>
    exact ⟨.nothing a, fun _ hc => (nomatch hc), fun j hj => absurd hj (Nat.not_lt_zero _), hst⟩

/-! ## The oxygen thread -/

/-- The thread holds the value it will return. -/
def OxygenPc.holds : OxygenPc → Bool
  | .stopAfter => true
  | .waitStopAfter _ => true
  | .ret => true
  | _ => false

/-- What the oxygen thread has read so far is its own. -/
structure OxygenInv (a : Adc1) (x : Oxygen) : Prop where
  relies : Relies a x.pc.selected? x.pc.converted?
  value : x.pc.holds = true → x.value.IsConv o2AdcChannel
  returned : ∀ r ∈ x.returned, r.IsConv o2AdcChannel

/-- A wait ends or goes on; both ends satisfy what each of them does. -/
theorem waitReady_cases {P : OxygenPc → Prop} {again : ℕ → OxygenPc} {done : OxygenPc}
    (hd : P done) (ha : ∀ n, P (again n)) (o : Outside) (t : ℕ) : P (waitReady o t again done) := by
  unfold waitReady
  split_ifs
  · exact hd
  · exact hd
  · exact ha _

/-- Its own turn keeps the invariant of the oxygen thread. -/
theorem OxygenInv.oxygenStep {a : Adc1} {x : Oxygen} (h : OxygenInv a x) {o : Outside}
    (ho : o.status = .ok) : OxygenInv (oxygenStep o a x).1 (oxygenStep o a x).2 := by
  obtain ⟨hrel, hval, hret⟩ := h
  -- nothing is held at the positions before the value is read
  have none_held {pc : OxygenPc} {v : Reading} (h : pc.holds = false) :
      pc.holds = true → v.IsConv o2AdcChannel := fun hh => absurd (h.symm.trans hh) Bool.false_ne_true
  unfold Adc.oxygenStep
  cases hp : x.pc with
  | stop => exact ⟨.nothing _, none_held rfl, hret⟩
  | waitStop t =>
    refine waitReady_cases (P := fun pc => OxygenInv a { x with pc }) ?_ (fun _ => ?_) o t
    all_goals exact ⟨.nothing a, none_held rfl, hret⟩
  | disable => exact ⟨.nothing _, none_held rfl, hret⟩
  | waitDisable t =>
    refine waitReady_cases (P := fun pc => OxygenInv a { x with pc }) ?_ (fun _ => ?_) o t
    all_goals exact ⟨.nothing a, none_held rfl, hret⟩
  | delayDisable => exact ⟨.nothing _, none_held rfl, hret⟩
  | config =>
    simp only [ho]
    exact ⟨.of_selected rfl, none_held rfl, hret⟩
  | enable =>
    rw [hp] at hrel
    exact ⟨hrel, none_held rfl, hret⟩
  | waitEnable t =>
    rw [hp] at hrel
    refine waitReady_cases (P := fun pc => OxygenInv a { x with pc }) ?_ (fun _ => ?_) o t
    all_goals exact ⟨hrel, none_held rfl, hret⟩
  | delayEnable =>
    rw [hp] at hrel
    exact ⟨hrel, none_held rfl, hret⟩
  | start =>
    rw [hp] at hrel
    simp only [ho]
    exact ⟨hrel.start o.raw, none_held rfl, hret⟩
  | poll =>
    rw [hp] at hrel
    exact ⟨hrel, none_held rfl, hret⟩
  | getValue =>
    rw [hp] at hrel
    exact ⟨.nothing a, fun _ => hrel.conv o2AdcChannel rfl, hret⟩
  | stopAfter => exact ⟨.nothing _, fun _ => hval (by rw [hp]; rfl), hret⟩
  | waitStopAfter t =>
    have hv := hval (by rw [hp]; rfl)
    refine waitReady_cases (P := fun pc => OxygenInv a { x with pc }) ?_ (fun _ => ?_) o t
    all_goals exact ⟨.nothing a, fun _ => hv, hret⟩
  | ret =>
    refine ⟨.nothing a, none_held rfl, fun r hmem => ?_⟩
    rcases List.mem_append.mp hmem with hmem | hmem
    · exact hret r hmem
    · rw [List.mem_singleton.mp hmem]
      exact hval (by rw [hp]; rfl)
  | delay => exact ⟨.nothing a, none_held rfl, hret⟩

/-! ## Runs -/

/-- Both threads have read their own channels so far. -/
def Inv (s : Sys) : Prop := FlameInv s.adc s.flame ∧ OxygenInv s.adc s.oxygen

theorem Inv.turn {s s' : Sys} {e : Thread × Outside} (h : Inv s) (ho : e.2.status = .ok)
    (hu : Undisturbed s e) (hs : turn s e = some s') : Inv s' := by
  obtain ⟨t, o⟩ := e
  cases t with
  | flame =>
    obtain rfl := Option.some.inj hs
    refine ⟨h.1.flameStep ho, h.2.relies.frame (fun hne => ?_) (fun hne => ?_), h.2.value, h.2.returned⟩
    · exact flameStep_selected o s.adc (Bool.eq_false_iff.mpr fun hb => hne (hu.1 hb))
    · exact flameStep_last o s.adc (Bool.eq_false_iff.mpr fun hb => hne (hu.2 hb))
  | oxygen =>
    obtain rfl := Option.some.inj hs
    refine ⟨⟨h.1.relies.frame (fun hne => ?_) (fun hne => ?_), h.1.value, h.1.locals, h.1.stored⟩,
      h.2.oxygenStep ho⟩
    · exact oxygenStep_selected o s.adc (Bool.eq_false_iff.mpr fun hb => hne (hu.1 hb))
    · exact oxygenStep_last o s.adc (Bool.eq_false_iff.mpr fun hb => hne (hu.2 hb))

theorem inv_init (a : Adc1) : Inv { adc := a } :=
  ⟨⟨.nothing a, fun _ h => (nomatch h), fun _ h => absurd h (Nat.not_lt_zero _), by simp⟩,
    ⟨.nothing a, fun h => (nomatch h), by simp⟩⟩

/-- **Undisturbed turns keep the two users apart**: in every run whose HAL calls succeed and whose
turns disturb no window, every state reached is isolated. -/
theorem isolated_of_undisturbed (a : Adc1) (es : List (Thread × Outside)) (s : Sys)
    (hok : ∀ e ∈ es, e.2.status = .ok) (hu : Along turn Undisturbed { adc := a } es)
    (hr : run turn { adc := a } es = some s) : Isolated s := by
  have hI := run_inv (I := Inv) (fun s e s' hc hI hs => hI.turn hc.2 hc.1 hs) (inv_init a)
    (hu.and (along_of_forall hok _)) hr
  exact ⟨hI.2.returned, hI.1.stored⟩

/-- An oxygen reading and then a flame round. -/
theorem isolated_of_undisturbed_sequential :
    let es := List.replicate 15 (Thread.oxygen, ({ raw := 2410 } : Outside)) ++
      List.replicate 26 (Thread.flame, { raw := 61000 })
    ∃ s, run turn {} es = some s ∧ Isolated s ∧ s.oxygen.gO2 = 209 ∧ s.flame.flame = true := by
  intro es
  exact ⟨_, rfl, isolated_of_undisturbed {} es _ (by decide) (by decide) rfl, by decide, by decide⟩

/-- **A flame round inside the oxygen thread's 2 ms delay**: every HAL call succeeds, and the oxygen
thread gets a conversion of channel 5. -/
theorem not_isolated_flame_round :
    let es := List.replicate 8 (Thread.oxygen, ({} : Outside)) ++
      List.replicate 26 (Thread.flame, { raw := 61000 }) ++
      List.replicate 7 (Thread.oxygen, { raw := 61000 })
    (∀ e ∈ es, e.2.status = .ok) ∧
      ∃ s, run turn {} es = some s ∧ s.oxygen.returned = [.conversion 5 61000] ∧ ¬ Isolated s := by
  intro es
  exact ⟨by decide, _, rfl, by decide, by decide⟩

end PipeGallery.Adc
