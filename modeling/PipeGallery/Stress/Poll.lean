import Mathlib.Data.Rat.Defs
import Mathlib.Algebra.Order.Field.Rat
import Mathlib.Data.List.Induction
import PipeGallery.Lib.Trace

set_option autoImplicit false

/-!
# The stress sensor

`stressSensorApp.c`: three Modbus reads a poll, a decoder and seven globals. Arithmetic is exact;
`ε` is the type of the error codes of the Modbus master other than `MB_MRE_NO_ERR`.

* `Outcome`, `readHoldingRegister`, `stressReadRegisters`: the reads;
* `stressConvertToN`, `stressDecodeMeasurement`, `stressSensorPoll`, `polls`: the decoder, one poll,
  a sequence of polls;
* `Poll.registers`, `newtons`, `Poll.measurement`: what a poll reads and what that means;
* `stressReadRegisters_eq`, `stressDecodeMeasurement_eq`, `stressSensorPoll_ok`,
  `stressSensorPoll_error`: one lemma for each function;
* `polls_valueN`: the value of the last valid poll, over every sequence;
* **`poll_consistent`**.
-/

namespace PipeGallery.Stress

variable {ε : Type*}

/-! ## The reads -/

/-- A row of `usMRegHoldBuf`. -/
abbrev Row := ℕ → BitVec 16

/-- A request to the slave: its registers are stored, or an error is returned and the row is left in
some state. -/
inductive Outcome (ε : Type*) where
  | stored (regs : Row)
  | error (code : ε) (row : Row)

/-- `eMBMasterReqReadHoldingRegister`: the code, `none` for `MB_MRE_NO_ERR`, and the row. -/
def readHoldingRegister (row : Row) (addr count : ℕ) : Outcome ε → Option ε × Row
  | .stored regs => (none, fun i => if addr ≤ i ∧ i < addr + count then regs i else row i)
  | .error code row' => (some code, row')

def stressStatusReg : ℕ := 0x0008
def stressValueReg : ℕ := 0x0050
def stressValueRegNum : ℕ := 2
def stressUnitReg : ℕ := 0x0068

/-- The outcomes of the three requests of a poll. -/
structure Poll (ε : Type*) where
  status : Outcome ε
  unit : Outcome ε
  value : Outcome ε

/-- The registers of a measurement. -/
structure Registers where
  status : BitVec 16
  unit : BitVec 16
  regHigh : BitVec 16
  regLow : BitVec 16

/-- `stress_read_registers`, on the slave's row. -/
def stressReadRegisters (row : Row) (p : Poll ε) : Except ε Registers × Row :=
  let r₁ := readHoldingRegister row stressStatusReg 1 p.status
  match r₁.1 with
  | some e => (.error e, r₁.2)
  | none =>
    let status := r₁.2 stressStatusReg
    let r₂ := readHoldingRegister r₁.2 stressUnitReg 1 p.unit
    match r₂.1 with
    | some e => (.error e, r₂.2)
    | none =>
      let unit := r₂.2 stressUnitReg
      let r₃ := readHoldingRegister r₂.2 stressValueReg stressValueRegNum p.value
      match r₃.1 with
      | some e => (.error e, r₃.2)
      | none => (.ok ⟨status, unit, r₃.2 stressValueReg, r₃.2 (stressValueReg + 1)⟩, r₃.2)

/-! ## The decoder -/

def stressPow10Table : List ℕ := [1, 10, 100, 1000, 10000, 100000, 1000000, 10000000]

/-- `stress_convert_to_n`: the value, `none` for `RT_FALSE`. -/
def stressConvertToN (rawValue : BitVec 32) (decimalPlaces : BitVec 8) (unit : BitVec 16) : Option ℚ :=
  if stressPow10Table.length ≤ decimalPlaces.toNat then none
  else
    let displayedValue : ℚ := rawValue.toInt / (stressPow10Table.getD decimalPlaces.toNat 0 : ℕ)
    if unit = 4 then some displayedValue
    else if unit = 3 then some (displayedValue * 9806.65)
    else if unit = 2 then some (displayedValue * 9.80665)
    else if unit = 1 then some (displayedValue * 0.00980665)
    else none

def stressDecimalMask : BitVec 16 := 0x0007

/-- `stress_decode_measurement`: the raw value, the decimal places and the value. -/
def stressDecodeMeasurement (r : Registers) : BitVec 32 × BitVec 8 × Option ℚ :=
  let combined := (r.regHigh.zeroExtend 32 <<< 16) ||| r.regLow.zeroExtend 32
  let decimalPlaces := (r.status &&& stressDecimalMask).truncate 8
  (combined, decimalPlaces, stressConvertToN combined decimalPlaces r.unit)

/-! ## Polls -/

/-- The seven globals and the slave's row. -/
structure State where
  valueN : ℚ := 0
  rawValue : BitVec 32 := 0
  status : BitVec 16 := 0
  unit : BitVec 16 := 0
  decimalPlaces : BitVec 8 := 0
  online : Bool := false
  valid : Bool := false
  row : Row := fun _ => 0

/-- `stress_sensor_poll`; `true` for `RT_EOK`. -/
def stressSensorPoll (s : State) (p : Poll ε) : State × Bool :=
  match stressReadRegisters s.row p with
  | (.error _, row) => ({ s with online := false, valid := false, row := row }, false)
  | (.ok r, row) =>
    let d := stressDecodeMeasurement r
    let s' := { s with
      online := true, status := r.status, unit := r.unit, valid := d.2.2.isSome, rawValue := d.1,
      decimalPlaces := d.2.1, row := row }
    (if s'.valid then { s' with valueN := d.2.2.getD 0 } else s', true)

/-- A sequence of polls. -/
def polls (s : State) (ps : List (Poll ε)) : State := ps.foldl (fun s p => (stressSensorPoll s p).1) s

/-! ## What a poll means -/

/-- The slave's registers, when all three requests succeeded. -/
def Poll.registers (p : Poll ε) : Option Registers :=
  match p.status, p.unit, p.value with
  | .stored s, .stored u, .stored v =>
    some ⟨s stressStatusReg, u stressUnitReg, v stressValueReg, v (stressValueReg + 1)⟩
  | _, _, _ => none

/-- Newtons per unit: g, kg, t, N. -/
def newtonFactor (unit : BitVec 16) : Option ℚ :=
  if unit = 1 then some 0.00980665
  else if unit = 2 then some 9.80665
  else if unit = 3 then some 9806.65
  else if unit = 4 then some 1
  else none

/-- The signed value of high:low, over a power of ten, in newtons. -/
def newtons (r : Registers) : Option ℚ :=
  (newtonFactor r.unit).map fun k =>
    (r.regHigh ++ r.regLow).toInt / 10 ^ (r.status &&& 7).toNat * k

/-- The measurement of a poll, when it is a valid one. -/
def Poll.measurement (p : Poll ε) : Option ℚ := p.registers.bind newtons

/-! ## One function at a time -/

/-- The reads deliver the slave's registers, or an error. -/
theorem stressReadRegisters_eq (row : Row) (p : Poll ε) :
    (∃ r row', p.registers = some r ∧ stressReadRegisters row p = (.ok r, row')) ∨
      ∃ e row', p.registers = none ∧ stressReadRegisters row p = (.error e, row') := by
  obtain ⟨ps, pu, pv⟩ := p
  cases ps with
  | error e row' => exact Or.inr ⟨e, row', rfl, rfl⟩
  | stored s =>
    cases pu with
    | error e row' => exact Or.inr ⟨e, row', rfl, rfl⟩
    | stored u =>
      cases pv with
      | error e row' => exact Or.inr ⟨e, row', rfl, rfl⟩
      | stored v => exact Or.inl ⟨_, _, rfl, rfl⟩

theorem stressPow10Table_getD {n : ℕ} (h : n < 8) : stressPow10Table.getD n 0 = 10 ^ n := by
  revert n
  decide

/-- High word first. -/
theorem or_shift_eq_append (hi lo : BitVec 16) :
    (hi.zeroExtend 32 <<< 16) ||| lo.zeroExtend 32 = hi ++ lo := by
  refine BitVec.eq_of_getLsbD_eq fun i hlt => ?_
  rw [BitVec.getLsbD_append]
  by_cases h : i < 16
  · simp [h, hlt]
  · have := lo.getLsbD_of_ge i (by omega)
    simp [h, hlt, this]

/-- The mask leaves at most seven decimal places. -/
theorem toNat_and_seven_lt (w : BitVec 16) : (w &&& 7).toNat < 8 := by
  rw [BitVec.toNat_and]
  exact Nat.lt_succ_of_le Nat.and_le_right

/-- The decimal places are kept by the conversion to `uint8_t`. -/
theorem toNat_decimalPlaces (w : BitVec 16) : ((w &&& 7).truncate 8).toNat = (w &&& 7).toNat := by
  have := toNat_and_seven_lt w
  rw [BitVec.toNat_setWidth]
  exact Nat.mod_eq_of_lt (by omega)

/-- The decoder computes newtons. -/
theorem stressDecodeMeasurement_eq (r : Registers) :
    stressDecodeMeasurement r = (r.regHigh ++ r.regLow, (r.status &&& 7).truncate 8, newtons r) := by
  have hlt := toNat_and_seven_lt r.status
  have hlen : ¬ stressPow10Table.length ≤ (r.status &&& 7).toNat := by
    change ¬ 8 ≤ _
    omega
  have hconv : stressConvertToN (r.regHigh ++ r.regLow) ((r.status &&& 7).truncate 8) r.unit =
      newtons r := by
    rw [stressConvertToN, toNat_decimalPlaces, if_neg hlen, stressPow10Table_getD hlt, newtons, newtonFactor,
      Nat.cast_pow, Nat.cast_ofNat]
    -- the units are tested in the order N, t, kg, g
    by_cases h4 : r.unit = 4
    · simp [h4]
    by_cases h3 : r.unit = 3
    · simp [h3]
    by_cases h2 : r.unit = 2
    · simp [h2]
    by_cases h1 : r.unit = 1
    · simp [h1]
    rw [if_neg h4, if_neg h3, if_neg h2, if_neg h1, if_neg h1, if_neg h2, if_neg h3, if_neg h4]
    rfl
  unfold stressDecodeMeasurement
  rw [or_shift_eq_append]
  exact congrArg _ (congrArg _ hconv)

/-- A poll that reads its registers. -/
theorem stressSensorPoll_ok {p : Poll ε} {r : Registers} (h : p.registers = some r) (s : State) :
    ∃ row, (stressSensorPoll s p).1 = { s with
      online := true, valid := (newtons r).isSome, status := r.status, unit := r.unit,
      rawValue := r.regHigh ++ r.regLow, decimalPlaces := (r.status &&& 7).truncate 8,
      valueN := (newtons r).getD s.valueN, row := row } := by
  rcases stressReadRegisters_eq s.row p with ⟨r', row, hr, he⟩ | ⟨e, row, hr, -⟩
  · obtain rfl : r = r' := Option.some.inj (h.symm.trans hr)
    refine ⟨row, ?_⟩
    rw [stressSensorPoll, he]
    simp only [stressDecodeMeasurement_eq]
    cases newtons r <;> rfl
  · rw [h] at hr
    cases hr

/-- A poll that fails keeps the data. -/
theorem stressSensorPoll_error {p : Poll ε} (h : p.registers = none) (s : State) :
    ∃ row, (stressSensorPoll s p).1 = { s with online := false, valid := false, row := row } := by
  rcases stressReadRegisters_eq s.row p with ⟨r', row, hr, -⟩ | ⟨e, row, -, he⟩
  · rw [h] at hr
    cases hr
  · refine ⟨row, ?_⟩
    rw [stressSensorPoll, he]

/-! ## Sequences -/

/-- The value of the last valid poll, `0` if there is none. -/
def lastValid (ps : List (Poll ε)) : ℚ := (ps.filterMap Poll.measurement).getLastD 0

/-- One poll: the value is the measurement, if it has one. -/
theorem stressSensorPoll_valueN (s : State) (p : Poll ε) :
    (stressSensorPoll s p).1.valueN = p.measurement.getD s.valueN := by
  unfold Poll.measurement
  cases h : p.registers with
  | none =>
    obtain ⟨row, he⟩ := stressSensorPoll_error h s
    rw [he]
    rfl
  | some r =>
    obtain ⟨row, he⟩ := stressSensorPoll_ok h s
    rw [he]
    rfl

theorem polls_concat (s : State) (ps : List (Poll ε)) (p : Poll ε) :
    polls s (ps ++ [p]) = (stressSensorPoll (polls s ps) p).1 := by
  simp [polls]

/-- **Over every sequence of polls** the value is that of the last valid one. -/
theorem polls_valueN (row : Row) (ps : List (Poll ε)) :
    (polls { row := row } ps).valueN = lastValid ps :=
  Lib.foldl_latest (g := State.valueN) stressSensorPoll_valueN { row := row } ps

/-- **The state after any poll of any sequence**: online exactly when the three reads succeeded;
valid only when online; a valid value is computed from this poll's registers; a value that is not
valid is that of the last valid poll; a failed read changes none of the data. -/
theorem poll_consistent (row : Row) (ps : List (Poll ε)) (p : Poll ε) :
    let s := polls { row := row } ps
    let t := polls { row := row } (ps ++ [p])
    (t.online = true ↔ p.registers.isSome) ∧
      (t.valid = true → t.online = true) ∧
      (t.valid = true → ∃ r k, p.registers = some r ∧ newtonFactor r.unit = some k ∧
        t.valueN = (r.regHigh ++ r.regLow).toInt / 10 ^ (r.status &&& 7).toNat * k ∧
        t.rawValue = r.regHigh ++ r.regLow ∧ t.decimalPlaces.toNat = (r.status &&& 7).toNat ∧
        t.status = r.status ∧ t.unit = r.unit) ∧
      (t.valid = true ↔ p.measurement.isSome) ∧
      (t.valid = false → t.valueN = lastValid ps) ∧
      (p.registers = none → t.valueN = s.valueN ∧ t.rawValue = s.rawValue ∧ t.status = s.status ∧
        t.unit = s.unit ∧ t.decimalPlaces = s.decimalPlaces) := by
  intro s t
  have ht : t = (stressSensorPoll s p).1 := polls_concat _ _ _
  have hv : s.valueN = lastValid ps := polls_valueN row ps
  cases h : p.registers with
  | none =>
    obtain ⟨row', he⟩ := stressSensorPoll_error h s
    rw [he] at ht
    rw [ht]
    simp [Poll.measurement, h, hv]
  | some r =>
    obtain ⟨row', he⟩ := stressSensorPoll_ok h s
    rw [he] at ht
    have hdec := toNat_decimalPlaces r.status
    rw [ht]
    cases hk : newtonFactor r.unit with
    | none => simp [Poll.measurement, h, newtons, hk, hv]
    | some k => simpa [Poll.measurement, h, newtons, hk] using hdec

end PipeGallery.Stress
