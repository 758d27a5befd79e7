import Mathlib.Data.Int.Notation
import PipeGallery.Lib.TwoWire

set_option autoImplicit false

/-!
# The bit-banged I2C master

`i2c-bit-ops.c` of RT-Thread over the two pins of `drv_soft_i2c.c`. A wait for SCL can time out when a
device holds it low; SCL then stays low until the master releases it again.

* `Env`, `Bus`: the devices and the lines;
* `sclH`, `i2cStart`, `i2cRestart`, `i2cStop`, `i2cWaitack`, `i2cWriteb`, `i2cReadb`: one byte;
* `Msg`, `i2cSendBytes`, `i2cRecvBytes`, `i2cSendAddress`, `i2cBitSendAddress`, `i2cBitXfer`: a transfer.
-/

namespace PipeGallery.I2c

open Lib.TwoWire

/-- `RT_ERROR`, `RT_ETIMEOUT` and `RT_EIO`. -/
def rtError : ℤ := 1
def rtEtimeout : ℤ := 2
def rtEio : ℤ := 8

/-! ## The lines -/

/-- What the devices leave SDA at, given what they have seen, and whether SCL is high in time at the
`n`-th wait. -/
structure Env where
  pull : List Sym → Bool
  rises : ℕ → Bool

/-- The lines, and the waits for SCL so far. -/
structure Bus where
  lines : Lines := {}
  waits : ℕ := 0

section
variable (E : Env)

/-- `SET_SDA`. -/
def setSda (v : Bool) (b : Bus) : Bus := { b with lines := Lib.TwoWire.setSda E.pull v b.lines }

/-- `SCL_L`. -/
def sclL (b : Bus) : Bus := { b with lines := sclFall E.pull b.lines }

/-- `SCL_H`; `false` is `-RT_ETIMEOUT`. -/
def sclH (b : Bus) : Bool × Bus :=
  if E.rises b.waits then (true, { lines := sclRise b.lines, waits := b.waits + 1 })
  else (false, { b with waits := b.waits + 1 })

/-- `GET_SDA`. -/
def getSda (b : Bus) : Bool := b.lines.wire E.pull

/-! ## One byte -/

def i2cStart (b : Bus) : Bus := sclL E (setSda E false b)

/-- The result of `SCL_H` is not looked at. -/
def i2cRestart (b : Bus) : Bus := sclL E (setSda E false (sclH E (setSda E true b)).2)

def i2cStop (b : Bus) : Bus := setSda E true (sclH E (setSda E false b)).2

/-- `1` for an acknowledge bit, `0` for none. -/
def i2cWaitack (b : Bus) : ℤ × Bus :=
  match sclH E (setSda E true b) with
  | (false, b) => (-rtEtimeout, b)
  | (true, b) => (if getSda E b then 0 else 1, sclL E b)

/-- The loop of `i2c_writeb` from bit `i - 1` down. -/
def writeLoop (data : Byte) : ℕ → Bus → Bool × Bus
  | 0, b => (true, b)
  | i + 1, b =>
    match sclH E (setSda E (data.getLsbD i) (sclL E b)) with
    | (false, b) => (false, b)
    | (true, b) => writeLoop data i b

def i2cWriteb (data : Byte) (b : Bus) : ℤ × Bus :=
  match writeLoop E data 8 b with
  | (false, b) => (-rtEtimeout, b)
  | (true, b) => i2cWaitack E (sclL E b)

/-- The loop of `i2c_readb`, with `n` bits to come. -/
def readLoop : ℕ → Byte → Bus → Option Byte × Bus
  | 0, data, b => (some data, b)
  | n + 1, data, b =>
    match sclH E b with
    | (false, b) => (none, b)
    | (true, b) => readLoop n ((data <<< 1) ||| (if getSda E b then 1 else 0)) (sclL E b)

/-- `none` is `-RT_ETIMEOUT`. -/
def i2cReadb (b : Bus) : Option Byte × Bus := readLoop E 8 0 (setSda E true b)

def i2cSendAckOrNack (ack : Bool) (b : Bus) : Bool × Bus :=
  match sclH E (if ack then setSda E false b else b) with
  | (false, b) => (false, b)
  | (true, b) => (true, sclL E b)

/-! ## Transfers -/

/-- `struct rt_i2c_msg`; `len` is the length of `buf`. -/
structure Msg where
  addr : BitVec 16
  flags : BitVec 16
  buf : List Byte

/-- `RT_I2C_RD`, `RT_I2C_ADDR_10BIT`, `RT_I2C_NO_START`, `RT_I2C_IGNORE_NACK`, `RT_I2C_NO_READ_ACK`,
`RT_I2C_NO_STOP`. -/
def Msg.rd (m : Msg) : Bool := m.flags.getLsbD 0
def Msg.addr10bit (m : Msg) : Bool := m.flags.getLsbD 2
def Msg.noStart (m : Msg) : Bool := m.flags.getLsbD 4
def Msg.ignoreNack (m : Msg) : Bool := m.flags.getLsbD 5
def Msg.noReadAck (m : Msg) : Bool := m.flags.getLsbD 6
def Msg.noStop (m : Msg) : Bool := m.flags.getLsbD 7

/-- `i2c_send_bytes`: the bytes sent so far, and those to come. -/
def i2cSendBytes (ignoreNack : Bool) : ℕ → List Byte → Bus → ℤ × Bus
  | bytes, [], b => (bytes, b)
  | bytes, data :: rest, b =>
    match i2cWriteb E data b with
    | (ret, b) =>
      if 0 < ret ∨ ignoreNack ∧ ret = 0 then i2cSendBytes ignoreNack (bytes + 1) rest b
      else if ret = 0 then (0, b)
      else (ret, b)

/-- `i2c_recv_bytes` with `count` bytes to come: its result and what it wrote to `buf`. -/
def i2cRecvBytes (noReadAck : Bool) : ℕ → List Byte → Bus → (ℤ × List Byte) × Bus
  | 0, got, b => ((got.length, got), b)
  | count + 1, got, b =>
    match i2cReadb E b with
    | (none, b) => ((got.length, got), b)
    | (some val, b) =>
      if noReadAck then i2cRecvBytes noReadAck count (got ++ [val]) b
      else
        match i2cSendAckOrNack E (count != 0) b with
        | (false, b) => ((-rtEtimeout, got ++ [val]), b)
        | (true, b) => i2cRecvBytes noReadAck count (got ++ [val]) b

/-- `i2c_send_address` with `retries` attempts to come after this one. -/
def i2cSendAddress (addr : Byte) : ℕ → Bus → ℤ × Bus
  | 0, b => i2cWriteb E addr b
  | retries + 1, b =>
    match i2cWriteb E addr b with
    | (ret, b) =>
      if ret = 1 then (ret, b) else i2cSendAddress addr retries (i2cStart E (i2cStop E b))

/-- The address bytes of a message: `addr << 1`; `0xf0 | ((addr >> 7) & 0x06)` and `addr & 0xff`. -/
def Msg.addr7 (m : Msg) : Byte := ((m.addr <<< 1).truncate 8) ||| (if m.rd then 1 else 0)
def Msg.addr1 (m : Msg) : Byte := 0xf0 ||| (((m.addr >>> 7) &&& 0x06).truncate 8)
def Msg.addr2 (m : Msg) : Byte := (m.addr &&& 0xff).truncate 8

/-- `i2c_bit_send_address`: `false` is `-RT_EIO`. -/
def i2cBitSendAddress (busRetries : ℕ) (m : Msg) (b : Bus) : Bool × Bus :=
  let retries := if m.ignoreNack then 0 else busRetries
  if m.addr10bit then
    match i2cSendAddress E m.addr1 retries b with
    | (ret, b) =>
      if ret ≠ 1 ∧ !m.ignoreNack then (false, b)
      else
        match i2cWriteb E m.addr2 b with
        | (ret, b) =>
          if ret ≠ 1 ∧ !m.ignoreNack then (false, b)
          else if m.rd then
            match i2cSendAddress E (m.addr1 ||| 0x01) retries (i2cRestart E b) with
            | (ret, b) => if ret ≠ 1 ∧ !m.ignoreNack then (false, b) else (true, b)
          else (true, b)
  else
    match i2cSendAddress E m.addr7 retries b with
    | (ret, b) => if ret ≠ 1 ∧ !m.ignoreNack then (false, b) else (true, b)

/-- The data of a message in `i2c_bit_xfer`: the error it ends with, if any, and what is in `buf`. -/
def xferData (m : Msg) (b : Bus) : (Option ℤ × List Byte) × Bus :=
  if m.rd then
    match i2cRecvBytes E m.noReadAck m.buf.length [] b with
    | ((ret, got), b) =>
      let buf := got ++ m.buf.drop got.length
      if ret < m.buf.length then ((some (if 0 ≤ ret then -rtEio else ret), buf), b) else ((none, buf), b)
  else
    match i2cSendBytes E m.ignoreNack 0 m.buf b with
    | (ret, b) =>
      if ret < m.buf.length then ((some (if 0 ≤ ret then -rtError else ret), m.buf), b)
      else ((none, m.buf), b)

/-- One message in the loop of `i2c_bit_xfer`, the first or a later one. -/
def xferMsg (busRetries : ℕ) (first : Bool) (m : Msg) (b : Bus) : (Option ℤ × List Byte) × Bus :=
  if m.noStart then xferData E m b
  else
    match i2cBitSendAddress E busRetries m (if first then i2cStart E b else i2cRestart E b) with
    | (ok, b) => if !ok ∧ !m.ignoreNack then ((some (-rtEio), m.buf), b) else xferData E m b

/-- `out:` of `i2c_bit_xfer`. -/
def xferOut (m : Msg) (b : Bus) : Bus := if m.noStop then b else i2cStop E b

/-- The loop of `i2c_bit_xfer` from message `i` on: its result, the buffers, the bus. -/
def xferLoop (busRetries : ℕ) : ℕ → Msg → List Msg → Bus → (ℤ × List (List Byte)) × Bus
  | i, m, ms, b =>
    match xferMsg E busRetries (i == 0) m b with
    | ((some ret, buf), b) => ((ret, buf :: ms.map Msg.buf), xferOut E m b)
    | ((none, buf), b) =>
      match ms with
      | [] => ((i + 1, [buf]), xferOut E m b)
      | m' :: ms =>
        match xferLoop busRetries (i + 1) m' ms b with
        | ((ret, bufs), b) => ((ret, buf :: bufs), b)

/-- `i2c_bit_xfer` on at least one message. -/
def i2cBitXfer (busRetries : ℕ) (m : Msg) (ms : List Msg) (b : Bus) : (ℤ × List (List Byte)) × Bus :=
  xferLoop E busRetries 0 m ms b

end

end PipeGallery.I2c
