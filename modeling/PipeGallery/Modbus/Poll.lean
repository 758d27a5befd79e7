import PipeGallery.Lib.Trace
import PipeGallery.Report.Single
import PipeGallery.Stress.Poll

set_option autoImplicit false

/-!
# The Modbus poll

`send_thread_entry` of `freeModbusApp.c`: the water meter, the displacement sensor, the stress sensor
and the ammeter are read in turn into one register image. Floats from registers are bit patterns, and
the displacement is exact.

* `Cycle`, `Globals`, `request`: the outcomes of an iteration, the published values with their copies
  in `node[0]`, and the register image;
* `readFlow`, `readDisplacement`, `readStress`, `readVoltage`, `readCurrent`, `sendThreadCycle`,
  `sendThread`: the reads, an iteration, the thread;
* `floatAt`, `displacementMm`: what the delivered registers mean;
* **`polls_keep_last_good`**: after any number of iterations.
-/

namespace PipeGallery.Modbus

open Lib Report
open Stress (Row Outcome readHoldingRegister)

variable {ε : Type*}

def ammeterSlaveAddr : ℕ := 73
def voltageRegStart : ℕ := 0x100
def voltageRegNum : ℕ := 6
def currentRegStart : ℕ := 0x10E
def currentRegNum : ℕ := 6
def watermeterSlaveAddr : ℕ := 1
def flowRegStart : ℕ := 1
def flowRegNum : ℕ := 2
def displacementSlaveAddr : ℕ := 2
def displacementRegStart : ℕ := 0x0000
def displacementRegNum : ℕ := 2
def stressSlaveAddr : ℕ := 3

/-! ## The thread -/

/-- The outcomes of the requests of an iteration. -/
structure Cycle (ε : Type*) where
  flow : Outcome ε
  displacement : Outcome ε
  stress : Stress.Poll ε
  voltage : Outcome ε
  current : Outcome ε

/-- `usMRegHoldBuf`. -/
abbrev Image := ℕ → Row

/-- The fields of `node[0]` that the thread writes. -/
structure Node where
  ch1A : Fin 3 → BitVec 32 := fun _ => 0
  flow : BitVec 32 := 0
  displacement : ℚ := 0

/-- The globals that the thread writes. -/
structure Globals where
  voltage : Fin 3 → BitVec 32 := fun _ => 0
  current : Fin 3 → BitVec 32 := fun _ => 0
  flow : BitVec 32 := 0
  displacement : ℚ := 0
  gDisplacementValue : ℚ := 0
  gDisplacementSensorOnline : Bool := false
  node0 : Node := {}
  stress : Stress.State := {}
  usMRegHoldBuf : Image := fun _ _ => 0

/-- `eMBMasterReqReadHoldingRegister` on the row of a slave. -/
def request (s : Globals) (addr reg num : ℕ) (o : Outcome ε) : Option ε × Globals :=
  let r := readHoldingRegister (s.usMRegHoldBuf (addr - 1)) reg num o
  (r.1, { s with usMRegHoldBuf := Function.update s.usMRegHoldBuf (addr - 1) r.2 })

def readFlow (s : Globals) (o : Outcome ε) : Globals :=
  match request s watermeterSlaveAddr flowRegStart flowRegNum o with
  | (some _, s) => s
  | (none, s) =>
    let regHigh := s.usMRegHoldBuf (watermeterSlaveAddr - 1) flowRegStart
    let regLow := s.usMRegHoldBuf (watermeterSlaveAddr - 1) (flowRegStart + 1)
    let s := { s with flow := registersToFloat regHigh regLow }
    { s with node0 := { s.node0 with flow := s.flow } }

/-- `raw_value` with the zero offset and the scale factor applied. -/
def adjusted (rawValue : BitVec 16) : ℚ :=
  let adjustedRaw : ℤ := rawValue.toNat - 298
  let adjustedRaw := if adjustedRaw < 0 then 0 else adjustedRaw
  adjustedRaw * 0.025

def readDisplacement (s : Globals) (o : Outcome ε) : Globals :=
  match request s displacementSlaveAddr displacementRegStart displacementRegNum o with
  | (some _, s) => { s with gDisplacementSensorOnline := false }
  | (none, s) =>
    let rawValue := s.usMRegHoldBuf (displacementSlaveAddr - 1) (displacementRegStart + 1)
    let s := { s with displacement := adjusted rawValue }
    { s with
      gDisplacementValue := s.displacement, gDisplacementSensorOnline := true,
      node0 := { s.node0 with displacement := s.displacement } }

/-- `(void)stress_sensor_poll()`, on the row of its slave. -/
def readStress (s : Globals) (p : Stress.Poll ε) : Globals :=
  let stress :=
    (Stress.stressSensorPoll { s.stress with row := s.usMRegHoldBuf (stressSlaveAddr - 1) } p).1
  { s with
    stress := stress,
    usMRegHoldBuf := Function.update s.usMRegHoldBuf (stressSlaveAddr - 1) stress.row }

/-- The loop over the three phases, on the registers from `start`. -/
def phases (row : Row) (start : ℕ) (i : Fin 3) : BitVec 32 :=
  let regHigh := row (start + i * 2)
  let regLow := row (start + i * 2 + 1)
  registersToFloat regHigh regLow

def readVoltage (s : Globals) (o : Outcome ε) : Globals :=
  match request s ammeterSlaveAddr voltageRegStart voltageRegNum o with
  | (some _, s) => s
  | (none, s) => { s with voltage := phases (s.usMRegHoldBuf (ammeterSlaveAddr - 1)) voltageRegStart }

def readCurrent (s : Globals) (o : Outcome ε) : Globals :=
  match request s ammeterSlaveAddr currentRegStart currentRegNum o with
  | (some _, s) => s
  | (none, s) =>
    let s := { s with current := phases (s.usMRegHoldBuf (ammeterSlaveAddr - 1)) currentRegStart }
    { s with node0 := { s.node0 with ch1A := s.current } }

/-- An iteration of `send_thread_entry`. -/
def sendThreadCycle (s : Globals) (c : Cycle ε) : Globals :=
  let s := readFlow s c.flow
  let s := readDisplacement s c.displacement
  let s := readStress s c.stress
  let s := readVoltage s c.voltage
  readCurrent s c.current

/-- The iterations so far. -/
def sendThread (cs : List (Cycle ε)) : Globals := cs.foldl sendThreadCycle {}

/-! ## What the registers mean -/

/-- The registers of a request that succeeded. -/
def delivered : Outcome ε → Option Row
  | .stored regs => some regs
  | .error _ _ => none

/-- The 32 bits high:low at register `i`. -/
def floatAt (regs : Row) (i : ℕ) : BitVec 32 := regs i ++ regs (i + 1)

/-- The offset and the scale of the displacement sensor. -/
def displacementMm (regs : Row) : ℚ := max 0 (((regs 1).toNat : ℚ) - 298) * (25 / 1000)

theorem registersToFloat_eq (reg1 reg2 : BitVec 16) : registersToFloat reg1 reg2 = reg1 ++ reg2 := by
  have hmask : reg2 &&& 0xFFFF = reg2 := BitVec.and_allOnes
  rw [registersToFloat, hmask]
  exact Stress.or_shift_eq_append reg1 reg2

namespace Cycle

/-- What the iteration delivers for the flow. -/
def flowOf (c : Cycle ε) : Option (BitVec 32) := (delivered c.flow).map fun regs => floatAt regs 1

def displacementOf (c : Cycle ε) : Option ℚ := (delivered c.displacement).map displacementMm

def voltageOf (c : Cycle ε) : Option (Fin 3 → BitVec 32) :=
  (delivered c.voltage).map fun regs i => floatAt regs (0x100 + 2 * i)

def currentOf (c : Cycle ε) : Option (Fin 3 → BitVec 32) :=
  (delivered c.current).map fun regs i => floatAt regs (0x10E + 2 * i)

end Cycle

/-! ## One read at a time -/

/-- A request that succeeds leaves the registers in the row, one that fails leaves some row. -/
theorem request_cases (s : Globals) (addr reg num : ℕ) (o : Outcome ε) : ∃ img : Image,
    (delivered o = none ∧ ∃ e, request s addr reg num o = (some e, { s with usMRegHoldBuf := img })) ∨
      ∃ regs, delivered o = some regs ∧
        request s addr reg num o = (none, { s with usMRegHoldBuf := img }) ∧
        ∀ i, reg ≤ i → i < reg + num → img (addr - 1) i = regs i := by
  cases o with
  | error e row => exact ⟨_, Or.inl ⟨rfl, e, rfl⟩⟩
  | stored regs =>
    refine ⟨_, Or.inr ⟨regs, rfl, rfl, fun i h1 h2 => ?_⟩⟩
    rw [Function.update_self]
    exact if_pos ⟨h1, h2⟩

theorem readFlow_eq (s : Globals) (o : Outcome ε) : ∃ img : Image, readFlow s o = { s with
    flow := ((delivered o).map fun regs => floatAt regs 1).getD s.flow,
    node0 := { s.node0 with
      flow := ((delivered o).map fun regs => floatAt regs 1).getD s.node0.flow },
    usMRegHoldBuf := img } := by
  obtain ⟨img, h⟩ := request_cases s watermeterSlaveAddr flowRegStart flowRegNum o
  refine ⟨img, ?_⟩
  unfold readFlow
  rcases h with ⟨hd, e, he⟩ | ⟨regs, hd, he, hregs⟩
  · rw [he, hd]
    rfl
  · rw [he, hd]
    dsimp only
    rw [hregs _ (by decide) (by decide), hregs _ (by decide) (by decide), registersToFloat_eq]
    rfl

/-- The clamped integer is the clamped rational. -/
theorem adjusted_eq (raw : BitVec 16) : adjusted raw = max 0 ((raw.toNat : ℚ) - 298) * (25 / 1000) := by
  have hscale : (0.025 : ℚ) = 25 / 1000 := by norm_num
  unfold adjusted
  dsimp only
  rw [hscale]
  congr 1
  split_ifs with h
  · have hneg : (raw.toNat : ℚ) - 298 ≤ 0 := by exact_mod_cast h.le
    rw [max_eq_left hneg, Int.cast_zero]
  · have hpos : (0 : ℚ) ≤ (raw.toNat : ℚ) - 298 := by exact_mod_cast not_lt.mp h
    rw [max_eq_right hpos]
    push_cast
    rfl

theorem readDisplacement_eq (s : Globals) (o : Outcome ε) : ∃ img : Image,
    readDisplacement s o = { s with
      displacement := ((delivered o).map displacementMm).getD s.displacement,
      gDisplacementValue := ((delivered o).map displacementMm).getD s.gDisplacementValue,
      gDisplacementSensorOnline := (delivered o).isSome,
      node0 := { s.node0 with
        displacement := ((delivered o).map displacementMm).getD s.node0.displacement },
      usMRegHoldBuf := img } := by
  obtain ⟨img, h⟩ := request_cases s displacementSlaveAddr displacementRegStart displacementRegNum o
  refine ⟨img, ?_⟩
  unfold readDisplacement
  rcases h with ⟨hd, e, he⟩ | ⟨regs, hd, he, hregs⟩
  · rw [he, hd]
    rfl
  · rw [he, hd]
    dsimp only
    rw [hregs _ (by decide) (by decide), adjusted_eq]
    rfl

theorem readStress_eq (s : Globals) (p : Stress.Poll ε) : ∃ (st : Stress.State) (img : Image),
    readStress s p = { s with stress := st, usMRegHoldBuf := img } := ⟨_, _, rfl⟩

/-- The three phases of the ammeter. -/
theorem phases_eq {row regs : Row} {start : ℕ} (h : ∀ i, start ≤ i → i < start + 6 → row i = regs i) :
    phases row start = fun i : Fin 3 => floatAt regs (start + 2 * i) := by
  funext i
  have := i.isLt
  rw [phases, h _ (by omega) (by omega), h _ (by omega) (by omega), registersToFloat_eq, floatAt,
    Nat.mul_comm]

theorem readVoltage_eq (s : Globals) (o : Outcome ε) : ∃ img : Image, readVoltage s o = { s with
    voltage := ((delivered o).map fun regs (i : Fin 3) => floatAt regs (0x100 + 2 * i)).getD s.voltage,
    usMRegHoldBuf := img } := by
  obtain ⟨img, h⟩ := request_cases s ammeterSlaveAddr voltageRegStart voltageRegNum o
  refine ⟨img, ?_⟩
  unfold readVoltage
  rcases h with ⟨hd, e, he⟩ | ⟨regs, hd, he, hregs⟩
  · rw [he, hd]
    rfl
  · rw [he, hd]
    dsimp only
    rw [phases_eq hregs]
    rfl

theorem readCurrent_eq (s : Globals) (o : Outcome ε) : ∃ img : Image, readCurrent s o = { s with
    current := ((delivered o).map fun regs (i : Fin 3) => floatAt regs (0x10E + 2 * i)).getD s.current,
    node0 := { s.node0 with
      ch1A := ((delivered o).map fun regs (i : Fin 3) => floatAt regs (0x10E + 2 * i)).getD s.node0.ch1A },
    usMRegHoldBuf := img } := by
  obtain ⟨img, h⟩ := request_cases s ammeterSlaveAddr currentRegStart currentRegNum o
  refine ⟨img, ?_⟩
  unfold readCurrent
  rcases h with ⟨hd, e, he⟩ | ⟨regs, hd, he, hregs⟩
  · rw [he, hd]
    rfl
  · rw [he, hd]
    dsimp only
    rw [phases_eq hregs]
    rfl

/-! ## Iterations -/

/-- The globals `s` behind an iteration that leaves `st` and `img`: each value is what its own read
delivers, and otherwise as it was. -/
def Cycle.after (c : Cycle ε) (s : Globals) (st : Stress.State) (img : Image) : Globals where
  voltage := c.voltageOf.getD s.voltage
  current := c.currentOf.getD s.current
  flow := c.flowOf.getD s.flow
  displacement := c.displacementOf.getD s.displacement
  gDisplacementValue := c.displacementOf.getD s.gDisplacementValue
  gDisplacementSensorOnline := (delivered c.displacement).isSome
  node0 :=
    { ch1A := c.currentOf.getD s.node0.ch1A
      flow := c.flowOf.getD s.node0.flow
      displacement := c.displacementOf.getD s.node0.displacement }
  stress := st
  usMRegHoldBuf := img

/-- **An iteration** sets each value to what its own read delivers, and otherwise keeps it. -/
theorem sendThreadCycle_eq (s : Globals) (c : Cycle ε) : ∃ (st : Stress.State) (img : Image),
    sendThreadCycle s c = c.after s st img := by
  obtain ⟨i₁, h₁⟩ := readFlow_eq s c.flow
  obtain ⟨i₂, h₂⟩ := readDisplacement_eq (readFlow s c.flow) c.displacement
  obtain ⟨st, i₃, h₃⟩ := readStress_eq (readDisplacement (readFlow s c.flow) c.displacement) c.stress
  obtain ⟨i₄, h₄⟩ :=
    readVoltage_eq (readStress (readDisplacement (readFlow s c.flow) c.displacement) c.stress) c.voltage
  obtain ⟨i₅, h₅⟩ := readCurrent_eq (readVoltage (readStress (readDisplacement (readFlow s c.flow)
    c.displacement) c.stress) c.voltage) c.current
  refine ⟨st, i₅, ?_⟩
  unfold sendThreadCycle
  dsimp only
  rw [h₅, h₄, h₃, h₂, h₁]
  rfl

/-- A value that each iteration sets to what it delivers is the last one delivered. -/
theorem sendThread_latest {β : Type} (g : Globals → β) (f : Cycle ε → Option β)
    (h : ∀ (c : Cycle ε) s st img, g (c.after s st img) = (f c).getD (g s)) (cs : List (Cycle ε)) :
    g (sendThread cs) = latest f (g {}) cs := by
  have hstep : ∀ s c, g (sendThreadCycle s c) = (f c).getD (g s) := by
    intro s c
    obtain ⟨st, img, he⟩ := sendThreadCycle_eq s c
    rw [he, h]
  exact foldl_latest hstep {} cs

theorem online_sendThread (cs : List (Cycle ε)) : (sendThread cs).gDisplacementSensorOnline = true ↔
    ∃ c regs, cs.getLast? = some c ∧ c.displacement = .stored regs := by
  induction cs using List.reverseRecOn with
  | nil => exact iff_of_false nofun nofun
  | append_singleton cs c _ =>
    obtain ⟨st, img, h⟩ := sendThreadCycle_eq (sendThread cs) c
    rw [sendThread, List.foldl_concat, List.getLast?_concat]
    change (sendThreadCycle (sendThread cs) c).gDisplacementSensorOnline = true ↔ _
    rw [h, Cycle.after]
    constructor
    · intro ho
      cases hd : c.displacement with
      | stored regs => exact ⟨c, regs, rfl, hd⟩
      | error e row =>
        rw [hd] at ho
        cases ho
    · rintro ⟨c', regs, hc, hd⟩
      cases hc
      rw [hd]
      rfl

/-- **The poll keeps the last good values.** After any number of iterations, whatever their outcomes:
flow, voltages and currents are the bit patterns high:low of the last read of their own registers
that succeeded, and the displacement is the clamped and scaled raw value of the last one of its own,
each `0` until then; `node[0]` and `g_displacement_value` hold the same; and the displacement sensor
is online exactly when its last read succeeded. -/
theorem polls_keep_last_good (cs : List (Cycle ε)) :
    (sendThread cs).flow = latest Cycle.flowOf 0 cs ∧
    (sendThread cs).voltage = latest Cycle.voltageOf (fun _ => 0) cs ∧
    (sendThread cs).current = latest Cycle.currentOf (fun _ => 0) cs ∧
    (sendThread cs).displacement = latest Cycle.displacementOf 0 cs ∧
    (sendThread cs).node0.flow = (sendThread cs).flow ∧
    (sendThread cs).node0.ch1A = (sendThread cs).current ∧
    (sendThread cs).node0.displacement = (sendThread cs).displacement ∧
    (sendThread cs).gDisplacementValue = (sendThread cs).displacement ∧
    ((sendThread cs).gDisplacementSensorOnline = true ↔
      ∃ c regs, cs.getLast? = some c ∧ c.displacement = .stored regs) := by
  have hflow := sendThread_latest (·.flow) Cycle.flowOf (fun _ _ _ _ => rfl) cs
  have hvoltage := sendThread_latest (·.voltage) Cycle.voltageOf (fun _ _ _ _ => rfl) cs
  have hcurrent := sendThread_latest (·.current) Cycle.currentOf (fun _ _ _ _ => rfl) cs
  have hdisp := sendThread_latest (·.displacement) Cycle.displacementOf (fun _ _ _ _ => rfl) cs
  have hnflow := sendThread_latest (·.node0.flow) Cycle.flowOf (fun _ _ _ _ => rfl) cs
  have hnch1 := sendThread_latest (·.node0.ch1A) Cycle.currentOf (fun _ _ _ _ => rfl) cs
  have hndisp := sendThread_latest (·.node0.displacement) Cycle.displacementOf (fun _ _ _ _ => rfl) cs
  have hg := sendThread_latest (·.gDisplacementValue) Cycle.displacementOf (fun _ _ _ _ => rfl) cs
  exact ⟨hflow, hvoltage, hcurrent, hdisp, hnflow.trans hflow.symm, hnch1.trans hcurrent.symm,
    hndisp.trans hdisp.symm, hg.trans hdisp.symm, online_sendThread cs⟩

end PipeGallery.Modbus
