import PipeGallery.Modbus.Poll

set_option autoImplicit false

/-!
# The address commands of the displacement sensor

`disp_set_addr` and `disp_test_addr` of `displacementSensorApp.c`. Each argument is narrowed to eight
bits, and its range is checked after that. `atoi` is any function to `int`.

* `Request`, `Reply`, `Effect`: what a command asks of the Modbus master, reads and prints;
* `displacementChangeSlaveAddress`, `displacementTestAddress`, `dispSetAddr`, `dispTestAddr`;
* `typedWrites`, `typedReads`, `typedRows`: what the operator asked for;
* `dispSetAddr_refused_iff`, `dispTestAddr_refused_iff`: a command that is refused requests nothing;
* `dispSetAddr_eq`, `dispTestAddr_eq`: a command acts on the low bytes of its arguments;
* **`commands_reach_typed_iff`**: when that is what the operator asked for.
-/

namespace PipeGallery.Modbus

open Stress (Outcome)

variable {ε : Type*}

/-! ## The commands -/

/-- `eMBMasterReqReadHoldingRegister` and `eMBMasterReqWriteHoldingRegister`. -/
inductive Request where
  | read (addr reg num : ℕ)
  | write (addr reg value : ℕ)
  deriving DecidableEq, Repr

/-- What a command prints at its end: a text that refuses the arguments, or what became of the request. -/
inductive Reply (ε : Type*) where
  | refused (text : String)
  | changed (newAddr : BitVec 8)
  | notChanged (oldAddr : BitVec 8) (code : ε)
  | responds (testAddr : BitVec 8) (rawValue : BitVec 16) (whole thousandths : ℤ)
  | testFailed (testAddr : BitVec 8) (code : ε)
  deriving DecidableEq, Repr

/-- The requests of a command, the rows of `usMRegHoldBuf` that it indexes, and its reply. -/
structure Effect (ε : Type*) where
  requests : List Request := []
  rows : List ℕ := []
  reply : Reply ε
  deriving DecidableEq, Repr

/-- `RT_EOK` and `-RT_ERROR`. -/
inductive RtErr where
  | eok
  | error
  deriving DecidableEq, Repr

/-- `displacement_change_slave_address`, with what the write returns, `none` for `MB_MRE_NO_ERR`. -/
def displacementChangeSlaveAddress (oldAddr newAddr : BitVec 8) (code : Option ε) : RtErr × Effect ε :=
  let regValue : BitVec 16 := newAddr.setWidth 16
  let requests := [.write oldAddr.toNat 0x0004 regValue.toNat]
  match code with
  | none => (.eok, { requests := requests, reply := .changed newAddr })
  | some code => (.error, { requests := requests, reply := .notChanged oldAddr code })

/-- `displacement_test_address`, with the outcome of the read. -/
def displacementTestAddress (s : Globals) (testAddr : BitVec 8) (o : Outcome ε) : Effect ε × Globals :=
  let requests := [.read testAddr.toNat 0x0000 2]
  match request s testAddr.toNat 0x0000 2 o with
  | (some code, s) => ({ requests := requests, reply := .testFailed testAddr code }, s)
  | (none, s) =>
    let rawValue := s.usMRegHoldBuf (testAddr.toNat - 1) 1
    let adjusted : ℤ := rawValue.toNat - 74
    let adjusted := if adjusted < 0 then 0 else adjusted
    let displacementMilli := adjusted * 25
    ({ requests := requests, rows := [testAddr.toNat - 1],
       reply := .responds testAddr rawValue (displacementMilli / 1000) (displacementMilli % 1000) }, s)

variable (atoi : List Char → BitVec 32)

/-- `disp_set_addr`. -/
def dispSetAddr (argv : List (List Char)) (code : Option ε) : Effect ε :=
  match argv with
  | [_, x, y] =>
    -- the assignments to `uint8_t`
    let oldAddr := (atoi x).setWidth 8
    let newAddr := (atoi y).setWidth 8
    if oldAddr.toNat < 1 ∨ oldAddr.toNat > 247 ∨ newAddr.toNat < 1 ∨ newAddr.toNat > 247 then
      { reply := .refused "\nError: Address must be in range 1-247\n\n" }
    else if oldAddr = newAddr then
      { reply := .refused "\nError: Old and new addresses are the same!\n\n" }
    else (displacementChangeSlaveAddress oldAddr newAddr code).2
  | _ =>
    { reply := .refused ("\nUsage: disp_set_addr <old_addr> <new_addr>\n" ++
        "Example: disp_set_addr 1 2\n" ++
        "         (Change from address 1 to address 2)\n\n") }

/-- `disp_test_addr`. -/
def dispTestAddr (s : Globals) (argv : List (List Char)) (o : Outcome ε) : Effect ε × Globals :=
  match argv with
  | [_, x] =>
    let testAddr := (atoi x).setWidth 8
    if testAddr.toNat < 1 ∨ testAddr.toNat > 247 then
      ({ reply := .refused "\nError: Address must be in range 1-247\n\n" }, s)
    else displacementTestAddress s testAddr o
  | _ =>
    ({ reply := .refused ("\nUsage: disp_test_addr <address>\n" ++
        "Example: disp_test_addr 2\n" ++
        "         (Test if device responds at address 2)\n\n") }, s)

/-! ## What the operator asked for -/

/-- The range of slave addresses. -/
def Legal (x : ℤ) : Prop := 1 ≤ x ∧ x ≤ 247

instance (x : ℤ) : Decidable (Legal x) := inferInstanceAs (Decidable (1 ≤ x ∧ x ≤ 247))

/-- The write of `disp_set_addr x y`. -/
def typedWrites (x y : ℤ) : List Request :=
  if Legal x ∧ Legal y ∧ x ≠ y then [.write x.toNat 0x0004 y.toNat] else []

/-- The read of `disp_test_addr x`. -/
def typedReads (x : ℤ) : List Request := if Legal x then [.read x.toNat 0x0000 2] else []

/-- The row of `disp_test_addr x`, when its read succeeds. -/
def typedRows (x : ℤ) (o : Outcome ε) : List ℕ :=
  if Legal x ∧ (delivered o).isSome then [(x - 1).toNat] else []

/-- What `uint8_t` holds. -/
def IsByte (x : ℤ) : Prop := 0 ≤ x ∧ x ≤ 255

variable {x y : ℤ}

theorem Legal.isByte (h : Legal x) : IsByte x := ⟨by linarith [h.1], by linarith [h.2]⟩

theorem IsByte.emod (h : IsByte x) : x % 256 = x :=
  Int.emod_eq_of_lt h.1 (by linarith [h.2])

/-- Narrowing both arguments changes the write unless it leaves them, or the write is refused. -/
theorem typedWrites_emod_iff : typedWrites (x % 256) (y % 256) = typedWrites x y ↔
    (Legal (x % 256) → Legal (y % 256) → x % 256 ≠ y % 256 → IsByte x ∧ IsByte y) := by
  constructor
  · intro h hx hy hne
    rw [typedWrites, if_pos ⟨hx, hy, hne⟩, typedWrites] at h
    by_contra hb
    have hout : ¬ (Legal x ∧ Legal y ∧ x ≠ y) := fun hl => hb ⟨hl.1.isByte, hl.2.1.isByte⟩
    rw [if_neg hout] at h
    cases h
  · intro h
    by_cases hb : IsByte x ∧ IsByte y
    · rw [hb.1.emod, hb.2.emod]
    · -- neither write happens
      have hlow : ¬ (Legal (x % 256) ∧ Legal (y % 256) ∧ x % 256 ≠ y % 256) :=
        fun hl => hb (h hl.1 hl.2.1 hl.2.2)
      have hout : ¬ (Legal x ∧ Legal y ∧ x ≠ y) := fun hl => hb ⟨hl.1.isByte, hl.2.1.isByte⟩
      rw [typedWrites, if_neg hlow, typedWrites, if_neg hout]

theorem typedReads_emod_iff : typedReads (x % 256) = typedReads x ↔ (Legal (x % 256) → IsByte x) := by
  constructor
  · intro h hx
    rw [typedReads, if_pos hx, typedReads] at h
    by_contra hb
    rw [if_neg fun hl : Legal x => hb hl.isByte] at h
    cases h
  · intro h
    by_cases hb : IsByte x
    · rw [hb.emod]
    · rw [typedReads, if_neg fun hl => hb (h hl), typedReads, if_neg fun hl => hb hl.isByte]

theorem typedRows_emod (o : Outcome ε) (h : Legal (x % 256) → IsByte x) :
    typedRows (x % 256) o = typedRows x o := by
  by_cases hb : IsByte x
  · rw [hb.emod]
  · rw [typedRows, if_neg fun hl => hb (h hl.1), typedRows, if_neg fun hl => hb hl.1.isByte]

/-! ## What the commands do -/

/-- The assignment of an `int` to a `uint8_t`. -/
theorem toNat_setWidth_eight (v : BitVec 32) : ((v.setWidth 8).toNat : ℤ) = v.toInt % 256 := by
  rw [BitVec.toNat_setWidth, BitVec.toInt_eq_toNat_cond]
  split
  · rfl
  · omega

theorem legal_setWidth_iff (v : BitVec 32) :
    Legal (v.toInt % 256) ↔ ¬ ((v.setWidth 8).toNat < 1 ∨ (v.setWidth 8).toNat > 247) := by
  rw [← toNat_setWidth_eight, Legal]
  omega

theorem setWidth_eight_inj (v w : BitVec 32) :
    v.setWidth 8 = w.setWidth 8 ↔ v.toInt % 256 = w.toInt % 256 := by
  rw [← toNat_setWidth_eight, ← toNat_setWidth_eight, Nat.cast_inj, BitVec.toNat_inj]

theorem displacementChangeSlaveAddress_requests (oldAddr newAddr : BitVec 8) (code : Option ε) :
    (displacementChangeSlaveAddress oldAddr newAddr code).2.requests =
      [.write oldAddr.toNat 0x0004 newAddr.toNat] := by
  have hvalue : (newAddr.setWidth 16).toNat = newAddr.toNat :=
    BitVec.toNat_setWidth_of_le (by decide)
  cases code with
  | none => rw [displacementChangeSlaveAddress, hvalue]
  | some code => rw [displacementChangeSlaveAddress, hvalue]

theorem displacementTestAddress_effect (s : Globals) (testAddr : BitVec 8) (o : Outcome ε) :
    (displacementTestAddress s testAddr o).1.requests = [.read testAddr.toNat 0x0000 2] ∧
      (displacementTestAddress s testAddr o).1.rows =
        if (delivered o).isSome then [testAddr.toNat - 1] else [] := by
  cases o with
  | stored regs => exact ⟨rfl, rfl⟩
  | error code row => exact ⟨rfl, rfl⟩

/-- A command is refused exactly when it requests nothing. -/
theorem dispSetAddr_refused_iff (argv : List (List Char)) (code : Option ε) :
    (∃ text, (dispSetAddr atoi argv code).reply = .refused text) ↔
      (dispSetAddr atoi argv code).requests = [] := by
  unfold dispSetAddr
  split
  · dsimp only
    split_ifs with hrange hsame
    · exact iff_of_true ⟨_, rfl⟩ rfl
    · exact iff_of_true ⟨_, rfl⟩ rfl
    · rw [displacementChangeSlaveAddress_requests]
      refine iff_of_false ?_ (List.cons_ne_nil _ _)
      rintro ⟨text, h⟩
      cases code with
      | none => cases h
      | some code => cases h
  · exact iff_of_true ⟨_, rfl⟩ rfl

/-- One that is refused also leaves the registers alone. -/
theorem dispTestAddr_refused_iff (s : Globals) (argv : List (List Char)) (o : Outcome ε) :
    ((∃ text, (dispTestAddr atoi s argv o).1.reply = .refused text) ↔
      (dispTestAddr atoi s argv o).1.requests = []) ∧
    ((dispTestAddr atoi s argv o).1.requests = [] → (dispTestAddr atoi s argv o).2 = s) := by
  unfold dispTestAddr
  split
  · dsimp only
    split_ifs with hrange
    · exact ⟨iff_of_true ⟨_, rfl⟩ rfl, fun _ => rfl⟩
    · rw [(displacementTestAddress_effect s _ o).1]
      refine ⟨iff_of_false ?_ (List.cons_ne_nil _ _), fun h => absurd h (List.cons_ne_nil _ _)⟩
      rintro ⟨text, h⟩
      cases o with
      | stored regs => cases h
      | error code row => cases h
  · exact ⟨iff_of_true ⟨_, rfl⟩ rfl, fun _ => rfl⟩

/-- **`disp_set_addr` acts on the low bytes** of its arguments. -/
theorem dispSetAddr_eq (cmd a b : List Char) (code : Option ε) :
    (dispSetAddr atoi [cmd, a, b] code).requests =
      typedWrites ((atoi a).toInt % 256) ((atoi b).toInt % 256) := by
  have ha := legal_setWidth_iff (atoi a)
  have hb := legal_setWidth_iff (atoi b)
  have heq := setWidth_eight_inj (atoi a) (atoi b)
  rw [dispSetAddr]
  split_ifs with hrange hsame
  · have hl : ¬ (Legal ((atoi a).toInt % 256) ∧ Legal ((atoi b).toInt % 256) ∧
        (atoi a).toInt % 256 ≠ (atoi b).toInt % 256) := by
      rintro ⟨h1, h2, -⟩
      have := ha.mp h1
      have := hb.mp h2
      omega
    rw [typedWrites, if_neg hl]
  · rw [typedWrites, if_neg fun hl => hl.2.2 (heq.mp hsame)]
  · have h1 : Legal ((atoi a).toInt % 256) := ha.mpr (by omega)
    have h2 : Legal ((atoi b).toInt % 256) := hb.mpr (by omega)
    rw [typedWrites, if_pos ⟨h1, h2, fun h => hsame (heq.mpr h)⟩,
      displacementChangeSlaveAddress_requests, ← toNat_setWidth_eight, ← toNat_setWidth_eight]
    rfl

/-- **`disp_test_addr` acts on the low byte** of its argument. -/
theorem dispTestAddr_eq (s : Globals) (cmd a : List Char) (o : Outcome ε) :
    (dispTestAddr atoi s [cmd, a] o).1.requests = typedReads ((atoi a).toInt % 256) ∧
      (dispTestAddr atoi s [cmd, a] o).1.rows = typedRows ((atoi a).toInt % 256) o := by
  have ha := legal_setWidth_iff (atoi a)
  rw [dispTestAddr]
  split_ifs with hrange
  · have hl : ¬ Legal ((atoi a).toInt % 256) := fun h => ha.mp h hrange
    rw [typedReads, if_neg hl, typedRows, if_neg fun h => hl h.1]
    exact ⟨rfl, rfl⟩
  · have hl : Legal ((atoi a).toInt % 256) := ha.mpr hrange
    obtain ⟨hrequests, hrows⟩ := displacementTestAddress_effect s ((atoi a).setWidth 8) o
    rw [hrequests, hrows, typedReads, if_pos hl, typedRows, ← toNat_setWidth_eight]
    rw [← toNat_setWidth_eight] at hl
    refine ⟨rfl, ?_⟩
    have hrow : (((atoi a).setWidth 8).toNat - 1 : ℤ).toNat = ((atoi a).setWidth 8).toNat - 1 := by
      omega
    rw [hrow]
    simp only [hl, true_and]

/-- **When the commands reach what the operator typed**: `disp_set_addr` exactly when the low bytes
are no two different addresses or the arguments fit a byte, and `disp_test_addr` exactly when the low
byte is no address or the argument fits a byte. -/
theorem commands_reach_typed_iff (cmd a b : List Char) (code : Option ε) (s : Globals) (o : Outcome ε) :
    ((dispSetAddr atoi [cmd, a, b] code).requests = typedWrites (atoi a).toInt (atoi b).toInt ↔
      (Legal ((atoi a).toInt % 256) → Legal ((atoi b).toInt % 256) →
        (atoi a).toInt % 256 ≠ (atoi b).toInt % 256 →
        IsByte (atoi a).toInt ∧ IsByte (atoi b).toInt)) ∧
    ((dispTestAddr atoi s [cmd, a] o).1.requests = typedReads (atoi a).toInt ∧
        (dispTestAddr atoi s [cmd, a] o).1.rows = typedRows (atoi a).toInt o ↔
      (Legal ((atoi a).toInt % 256) → IsByte (atoi a).toInt)) := by
  obtain ⟨hrequests, hrows⟩ := dispTestAddr_eq atoi s cmd a o
  rw [dispSetAddr_eq, hrequests, hrows]
  refine ⟨typedWrites_emod_iff, fun h => typedReads_emod_iff.mp h.1, fun h => ?_⟩
  exact ⟨typedReads_emod_iff.mpr h, typedRows_emod o h⟩

/-- `atoi` on texts whose number fits an `int`: white space, a sign, digits. -/
def decimalAtoi (text : List Char) : BitVec 32 :=
  match text.dropWhile fun c => c = ' ' ∨ 9 ≤ c.toNat ∧ c.toNat ≤ 13 with
  | '-' :: ds => BitVec.ofInt 32 (-(Report.skipAtoi 0 ds).1)
  | '+' :: ds => BitVec.ofInt 32 (Report.skipAtoi 0 ds).1
  | ds => BitVec.ofInt 32 (Report.skipAtoi 0 ds).1

/-- `disp_set_addr 257 2` and `disp_test_addr 257` reach the slave 1. -/
theorem not_commands_reach_typed_257 :
    (decimalAtoi "257".toList).toInt = 257 ∧ (decimalAtoi "2".toList).toInt = 2 ∧
    (dispSetAddr decimalAtoi ["disp_set_addr".toList, "257".toList, "2".toList]
      (none : Option Unit)).requests = [.write 1 0x0004 2] ∧
    (dispSetAddr decimalAtoi ["disp_set_addr".toList, "257".toList, "2".toList]
      (none : Option Unit)).requests ≠ typedWrites 257 2 ∧
    (dispTestAddr decimalAtoi {} ["disp_test_addr".toList, "257".toList]
      (.stored fun _ => 0 : Outcome Unit)).1.requests = [.read 1 0x0000 2] ∧
    (dispTestAddr decimalAtoi {} ["disp_test_addr".toList, "257".toList]
      (.stored fun _ => 0 : Outcome Unit)).1.requests ≠ typedReads 257 := by
  decide +kernel

end PipeGallery.Modbus
