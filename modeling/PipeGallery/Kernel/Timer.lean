import PipeGallery.Lib.Trace
import PipeGallery.Lib.Wrap
import PipeGallery.Lib.Runs

set_option autoImplicit false

/-!
# Timers

`timer.c` and `rt_tick_increase` of `clock.c`, for the timers of the tick interrupt: the list has one row,
and the tick is a word of 32 bits. Every delay and every timeout of the program is a timer of a thread; the
link of the Ethernet port is polled by a periodic one.

* `RtTimer`, `Mark`, `Timers`: the timers, the list, and what was done so far;
* `remove`, `insertTimer`, `rtTimerStart`, `rtTimerStop`, `rtTimerControl`;
* `rtTimerCheck`, `rtTickIncrease`: the interrupt;
* `rtTickFromMillisecond`, `rtThreadMdelay`: a delay;
* `Event`, `step`: the calls and the ticks.
-/

namespace PipeGallery.Kernel

open Lib

/-- `RT_TICK_MAX`. -/
def rtTickMax : ℕ := 2 ^ 32 - 1

/-- `struct rt_timer`, with the two flags that the code uses. -/
structure RtTimer where
  initTick : BitVec 32 := 0
  timeoutTick : BitVec 32 := 0
  periodic : Bool := false
  activated : Bool := false
  deriving DecidableEq, Repr

/-- What was done to the timers. -/
inductive Mark (ι : Type*) where
  | tick
  | started (i : ι) (init : ℕ)
  | stopped (i : ι)
  /-- the timeout function is called -/
  | fired (i : ι)
  deriving DecidableEq, Repr

structure Timers (ι : Type*) where
  rtTick : BitVec 32 := 0
  timer : ι → RtTimer := fun _ => {}
  /-- `rt_timer_list` -/
  list : List ι := []
  /-- the temporary list of `rt_timer_check` -/
  held : List ι := []
  trace : List (Mark ι) := []

variable {ι : Type*} [DecidableEq ι]

namespace Timers

def set (s : Timers ι) (i : ι) (t : RtTimer) : Timers ι := { s with timer := Function.update s.timer i t }

def mark (s : Timers ι) (m : Mark ι) : Timers ι := { s with trace := s.trace ++ [m] }

/-- `_rt_timer_remove`: off whatever list it is on. -/
def remove (s : Timers ι) (i : ι) : Timers ι :=
  { s with list := s.list.filter (· ≠ i), held := s.held.filter (· ≠ i) }

/-- The walk of `rt_timer_start` down the row, for a timer with this timeout. -/
def insertTimer (s : Timers ι) (i : ι) (timeout : BitVec 32) : List ι → List ι
  | [] => [i]
  | t :: ts =>
    if (s.timer t).timeoutTick - timeout = 0#32 then t :: insertTimer s i timeout ts
    else if ((s.timer t).timeoutTick - timeout).toNat < rtTickMax / 2 then i :: t :: ts
    else t :: insertTimer s i timeout ts

/-- `rt_timer_start`; `none` when its assertion fails. -/
def rtTimerStart (s : Timers ι) (i : ι) : Option (Timers ι) :=
  let s := s.remove i
  let t := s.timer i
  if t.initTick.toNat < rtTickMax / 2 then
    let timeout := s.rtTick + t.initTick
    let list := s.insertTimer i timeout s.list
    some ({ s with list := list }.set i { t with timeoutTick := timeout, activated := true }
      |>.mark (.started i t.initTick.toNat))
  else none

/-- `rt_timer_stop`. -/
def rtTimerStop (s : Timers ι) (i : ι) : Timers ι :=
  if (s.timer i).activated then
    let s := s.remove i
    s.set i { s.timer i with activated := false } |>.mark (.stopped i)
  else s

end Timers

/-- The commands of `rt_timer_control` that change a timer. -/
inductive Control where
  | setTime (tick : BitVec 32)
  | setOneshot
  | setPeriodic
  deriving DecidableEq, Repr

namespace Timers

/-- `rt_timer_control`. -/
def rtTimerControl (s : Timers ι) (i : ι) : Control → Timers ι
  | .setTime tick => s.set i { s.timer i with initTick := tick }
  | .setOneshot => s.set i { s.timer i with periodic := false }
  | .setPeriodic => s.set i { s.timer i with periodic := true }

/-- Up to the call of the timeout function of `t`: it leaves the list, and a one-shot timer is not
active any more. -/
def expire (s : Timers ι) (t : ι) : Timers ι :=
  let s := s.remove t
  let s := if (s.timer t).periodic then s else s.set t { s.timer t with activated := false }
  { s with held := [t] }.mark (.fired t)

/-- Behind the call: a periodic timer that was not stopped is started again. -/
def rearm (s : Timers ι) (t : ι) : Option (Timers ι) :=
  if s.held = [] then some s
  else
    let s := { s with held := s.held.filter (· ≠ t) }
    if (s.timer t).periodic && (s.timer t).activated then
      (s.set t { s.timer t with activated := false }).rtTimerStart t
    else some s

/-- The loop of `rt_timer_check`, for `n` turns at most. The timeout function of `t` resumes threads, which
stops the timers `stops t`. -/
def rtTimerCheck (stops : ι → List ι) : ℕ → Timers ι → Option (Timers ι)
  | 0, _ => none
  | n + 1, s =>
    match s.list with
    | [] => some s
    | t :: _ =>
      if (s.rtTick - (s.timer t).timeoutTick).toNat < rtTickMax / 2 then
        (((stops t).foldl rtTimerStop (s.expire t)).rearm t).bind (rtTimerCheck stops n)
      else some s

/-- `rt_tick_increase`. -/
def rtTickIncrease (s : Timers ι) (stops : ι → List ι) : Option (Timers ι) :=
  rtTimerCheck stops (s.list.length + 1) ({ s with rtTick := s.rtTick + 1#32 }.mark .tick)

end Timers

/-- `rt_tick_from_millisecond`, with 1000 ticks a second. -/
def rtTickFromMillisecond (ms : ℤ) : BitVec 32 :=
  if ms < 0 then BitVec.ofInt 32 (-1)
  else BitVec.ofInt 32 (1000 * (ms / 1000) + (1000 * (ms % 1000) + 999) / 1000)

/-- `rt_thread_mdelay` of the thread with timer `i`, up to the `rt_schedule` of `rt_thread_sleep`. -/
def Timers.rtThreadMdelay (s : Timers ι) (i : ι) (ms : ℤ) : Option (Timers ι) :=
  ((s.rtTimerStop i).rtTimerControl i (.setTime (rtTickFromMillisecond ms))).rtTimerStart i

/-! ## Runs -/

inductive Event (ι : Type*) where
  | start (i : ι)
  | stop (i : ι)
  | control (i : ι) (c : Control)
  | tick (stops : ι → List ι)

/-- Calls and ticks, in any order. -/
def step (s : Timers ι) : Event ι → Option (Timers ι)
  | .start i => s.rtTimerStart i
  | .stop i => some (s.rtTimerStop i)
  | .control i c => some (s.rtTimerControl i c)
  | .tick stops => s.rtTickIncrease stops

end PipeGallery.Kernel
