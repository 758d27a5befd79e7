import Mathlib.Data.Int.Basic
import Mathlib.Data.List.Basic
import Mathlib.Logic.Function.Basic

set_option autoImplicit false

/-!
# ADC1 — two users of one peripheral

The flame thread (`adc_read_thread_entry`) and the oxygen thread (`o2_thread_entry`) both drive ADC1,
each through a HAL handle of its own, so that the HAL locks do not exclude them. A turn runs one of
them up to its next HAL call or `rt_thread_mdelay`.

* `Adc1`, `halConfigChannel`, `halStart`, `halStop`, `adcDisable`: the peripheral;
* `flameStep`: `adc_read_channel` for the five channels, the globals and the flame flag;
* `oxygenStep`: `stm32_get_adc_value` on channel 18 under `rt_adc_read` and `o2_read_once`;
* `Sys`, `turn`: the interleaving.
-/

namespace PipeGallery.Adc

/-- A regular channel of ADC1. -/
abbrev Channel := ℕ

/-- `HAL_OK` or any other `HAL_StatusTypeDef`. -/
inductive HalStatus where
  | ok
  | fail
  deriving DecidableEq, Repr

/-- A word read by a thread: the result of a conversion, or a word that is none (the constant `0`,
an uninitialised variable). -/
inductive Reading where
  | conversion (channel : Channel) (raw : UInt16)
  | constant (word : UInt32)
  deriving DecidableEq, Repr

/-- The value of a reading. -/
def Reading.word : Reading → UInt32
  | .conversion _ raw => raw.toUInt32
  | .constant word => word

/-- The reading is a conversion of channel `c`. -/
def Reading.IsConv (r : Reading) (c : Channel) : Prop := ∃ raw, r = .conversion c raw

instance (r : Reading) (c : Channel) : Decidable (r.IsConv c) :=
  match r with
  | .conversion c' raw =>
    decidable_of_iff (c' = c) ⟨fun h => ⟨raw, by rw [h]⟩, fun ⟨_, h⟩ => (Reading.conversion.inj h).1⟩
  | .constant _ => .isFalse fun ⟨_, h⟩ => nomatch h

/-- The peripheral: the selected regular channel, whether it runs, the last conversion. -/
structure Adc1 where
  selected : Channel := 0
  running : Bool := false
  last : Reading := .constant 0
  deriving DecidableEq, Repr

/-- `HAL_ADC_ConfigChannel`. -/
def halConfigChannel (status : HalStatus) (c : Channel) (a : Adc1) : Adc1 :=
  match status with
  | .ok => { a with selected := c }
  | .fail => a

/-- `HAL_ADC_Start`: the channel selected at this moment is converted. -/
def halStart (status : HalStatus) (raw : UInt16) (a : Adc1) : Adc1 :=
  match status with
  | .ok => { a with running := true, last := .conversion a.selected raw }
  | .fail => a

/-- `HAL_ADC_Stop`. -/
def halStop (a : Adc1) : Adc1 := { a with running := false }

/-- `ADC_Disable`; `ADC_Enable` does not start a conversion and changes nothing here. -/
def adcDisable (a : Adc1) : Adc1 := { a with running := false }

/-- What the outside decides in one turn: the status of a HAL call, the level at the input, whether
`HAL_ADC_GetState` reads `HAL_ADC_STATE_READY`, the content of an uninitialised word. -/
structure Outside where
  status : HalStatus := .ok
  raw : UInt16 := 0
  ready : Bool := true
  word : UInt32 := 0
  deriving DecidableEq, Repr

/-! ## The flame thread -/

/-- The five readings of one round, in order. -/
inductive Slot where
  | ch0
  | ch1
  | ch3
  | ch4
  | ch5
  deriving DecidableEq, Repr

/-- The channel that `ADC1_Read_Channel0`, …, `ADC1_Read_Channel5` configure. -/
def Slot.channel : Slot → Channel
  | .ch0 => 0
  | .ch1 => 15
  | .ch3 => 3
  | .ch4 => 19
  | .ch5 => 5

/-- The position of a reading in the round. -/
def Slot.pos : Slot → ℕ
  | .ch0 => 0
  | .ch1 => 1
  | .ch3 => 2
  | .ch4 => 3
  | .ch5 => 4

/-- Where the flame thread stands. -/
inductive FlamePc where
  | config (i : Slot)
  | start (i : Slot)
  | poll (i : Slot)
  | getValue (i : Slot)
  | stop (i : Slot)
  | store
  | delay
  deriving DecidableEq, Repr

/-- The flame thread: `adc_value`, the locals `adc_ch0` … `adc_ch5`, the globals `g_adc_ch0` … and
`Flame`; `stored` logs every value put in a global. -/
structure Flame where
  pc : FlamePc := .config .ch0
  adcValue : Reading := .constant 0
  adcCh : Slot → Reading := fun _ => .constant 0
  gAdc : Slot → Reading := fun _ => .constant 0
  flame : Bool := false
  stored : List (Slot × Reading) := []

/-- After the reading of slot `i`. -/
def FlamePc.next : Slot → FlamePc
  | .ch0 => .config .ch1
  | .ch1 => .config .ch3
  | .ch3 => .config .ch4
  | .ch4 => .config .ch5
  | .ch5 => .store

/-- `adc_read_channel` returns `adc_value` into the local of slot `i`. -/
def Flame.ret (f : Flame) (i : Slot) : Flame :=
  { f with adcCh := Function.update f.adcCh i f.adcValue, adcValue := .constant 0, pc := .next i }

/-- All slots, in the order of the round. -/
def Slot.all : List Slot := [.ch0, .ch1, .ch3, .ch4, .ch5]

/-- `fire_count >= 4`: at least four readings above 60000. -/
def fire (adcCh : Slot → Reading) : Bool :=
  decide (4 ≤ Slot.all.countP fun i => decide (60000 < (adcCh i).word))

/-- One turn of the flame thread. -/
def flameStep (o : Outside) (a : Adc1) (f : Flame) : Adc1 × Flame :=
  match f.pc with
  | .config i =>
    match o.status with
    | .ok => (halConfigChannel .ok i.channel a, { f with pc := .start i })
    | .fail => (a, f.ret i)
  | .start i =>
    match o.status with
    | .ok => (halStart .ok o.raw a, { f with pc := .poll i })
    | .fail => (a, f.ret i)
  | .poll i =>
    match o.status with
    | .ok => (a, { f with pc := .getValue i })
    | .fail => (a, { f with pc := .stop i })
  | .getValue i => (a, { f with adcValue := a.last, pc := .stop i })
  | .stop i => (halStop a, f.ret i)
  | .store =>
    (a, { f with
      gAdc := f.adcCh
      flame := fire f.adcCh
      stored := f.stored ++ Slot.all.map fun i => (i, f.adcCh i)
      pc := .delay })
  | .delay => (a, { f with pc := .config .ch0 })

/-! ## The oxygen thread -/

/-- `O2_ADC_CHANNEL`. -/
def o2AdcChannel : Channel := 18

/-- Where the oxygen thread stands in `stm32_get_adc_value`; the waits carry their `timeout`. -/
inductive OxygenPc where
  | stop
  | waitStop (timeout : ℕ)
  | disable
  | waitDisable (timeout : ℕ)
  | delayDisable
  | config
  | enable
  | waitEnable (timeout : ℕ)
  | delayEnable
  | start
  | poll
  | getValue
  | stopAfter
  | waitStopAfter (timeout : ℕ)
  | ret
  | delay
  deriving DecidableEq, Repr

/-- `o2_x10` of `o2_read_once`: tenths of a percent. -/
def o2X10 (raw : BitVec 32) : BitVec 32 :=
  let x := ((raw - 0) * 209).sdiv (2410 - 0)
  -- near air: forced to 20.9 %
  if 207 ≤ x.toInt ∧ x.toInt ≤ 211 then 209 else x

/-- The oxygen thread: `value` of `rt_adc_read` and `g_o2_concentration` in tenths; `returned` logs
every value returned by `rt_adc_read`. -/
structure Oxygen where
  pc : OxygenPc := .stop
  value : Reading := .constant 0
  gO2 : BitVec 32 := 0
  returned : List Reading := []

/-- A wait for `HAL_ADC_STATE_READY`: at most `timeout` delays of one tick. -/
def waitReady (o : Outside) (timeout : ℕ) (again : ℕ → OxygenPc) (done : OxygenPc) : OxygenPc :=
  if o.ready then done else if timeout = 0 then done else again (timeout - 1)

/-- One turn of the oxygen thread. -/
def oxygenStep (o : Outside) (a : Adc1) (x : Oxygen) : Adc1 × Oxygen :=
  match x.pc with
  | .stop => (halStop a, { x with value := .constant o.word, pc := .waitStop 100 })
  | .waitStop t => (a, { x with pc := waitReady o t .waitStop .disable })
  | .disable => (adcDisable a, { x with pc := .waitDisable 100 })
  | .waitDisable t => (a, { x with pc := waitReady o t .waitDisable .delayDisable })
  | .delayDisable => (a, { x with pc := .config })
  | .config =>
    match o.status with
    | .ok => (halConfigChannel .ok o2AdcChannel a, { x with pc := .enable })
    | .fail => (a, { x with pc := .ret })
  | .enable => (a, { x with pc := .waitEnable 100 })
  | .waitEnable t => (a, { x with pc := waitReady o t .waitEnable .delayEnable })
  | .delayEnable => (a, { x with pc := .start })
  | .start => (halStart o.status o.raw a, { x with pc := .poll })
  | .poll => (a, { x with pc := .getValue })
  | .getValue => (a, { x with value := a.last, pc := .stopAfter })
  | .stopAfter => (halStop a, { x with pc := .waitStopAfter 100 })
  | .waitStopAfter t => (a, { x with pc := waitReady o t .waitStopAfter .ret })
  | .ret =>
    (a, { x with gO2 := o2X10 x.value.word.toBitVec, returned := x.returned ++ [x.value], pc := .delay })
  | .delay => (a, { x with pc := .stop })

/-! ## The interleaving -/

/-- The peripheral and its two users. -/
structure Sys where
  adc : Adc1 := {}
  flame : Flame := {}
  oxygen : Oxygen := {}

/-- Which thread runs. -/
inductive Thread where
  | flame
  | oxygen
  deriving DecidableEq, Repr

/-- One turn: a thread runs to its next HAL call or delay. -/
def turn (s : Sys) (e : Thread × Outside) : Option Sys :=
  match e.1 with
  | .flame =>
    let r := flameStep e.2 s.adc s.flame
    some { s with adc := r.1, flame := r.2 }
  | .oxygen =>
    let r := oxygenStep e.2 s.adc s.oxygen
    some { s with adc := r.1, oxygen := r.2 }

/-- **Isolation**: the oxygen thread got conversions of channel 18 only, and every value stored for
the flame sensor is a conversion of that sensor's own channel. -/
def Isolated (s : Sys) : Prop :=
  (∀ r ∈ s.oxygen.returned, r.IsConv o2AdcChannel) ∧ ∀ p ∈ s.flame.stored, p.2.IsConv p.1.channel

instance (s : Sys) : Decidable (Isolated s) := by unfold Isolated; infer_instance

end PipeGallery.Adc
