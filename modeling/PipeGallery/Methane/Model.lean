import Mathlib.Data.List.Range
import Mathlib.Logic.Function.Basic

set_option autoImplicit false

/-!
# Methane sensor — the two byte parsers

The GM-402B sends 19-byte frames on UART2. `uart2_receive_and_print` collects them one byte at a
time into a static buffer, and the shell command `uart2_debug` does the same with a buffer of its
own while the background parser stands still.

* `responseFrameCheckUart`: `Response_FrameCheck_Uart`, the header and checksum test;
* `rxByte`, `receiveLoop`, `uart2ReceiveAndPrint`: the background parser;
* `debugByte`, `debugLoop`, `uart2Debug`: the parser inside `uart2_debug`.

Both states keep a log of the frames handed to `Response_FrameCheck_Uart` (`checks`) and of the
indices written in the buffer (`writes`); nothing reads the logs.
-/

namespace PipeGallery.Methane

/-- A byte of UART2. -/
abbrev Byte := UInt8

/-- `PACKET_SIZE`. -/
def packetSize : ℕ := 19

/-- `g_methane_ppm`, `g_methane_lel`, `g_methane_status`, `g_methane_data_valid` and the counters
`methane_valid_frames`, `methane_invalid_frames`. -/
structure Globals where
  ppm : UInt16 := 0
  lel : UInt8 := 0
  status : UInt8 := 0
  dataValid : Bool := false
  validFrames : UInt32 := 0
  invalidFrames : UInt32 := 0
  deriving DecidableEq, Repr

/-- The checksum loop over the first 18 bytes. -/
def checksum (buf : ℕ → Byte) : Byte :=
  (List.range (packetSize - 1)).foldl (fun c i => c + buf i) 0

/-- `Response_FrameCheck_Uart`. -/
def responseFrameCheckUart (buf : ℕ → Byte) (g : Globals) : Globals × Bool :=
  if buf 0 ≠ 0xAC ∨ buf 1 ≠ 0xAC ∨ buf 2 ≠ UInt8.ofNat packetSize ∨ buf 3 ≠ 0xAA then
    ({ g with invalidFrames := g.invalidFrames + 1 }, false)
  else if checksum buf ≠ buf (packetSize - 1) then
    ({ g with invalidFrames := g.invalidFrames + 1 }, false)
  else
    ({ g with
        ppm := ((buf 11).toUInt16 <<< 8) ||| (buf 10).toUInt16
        lel := buf 12
        status := buf 13
        dataValid := true
        validFrames := g.validFrames + 1 }, true)

/-- One call of `Response_FrameCheck_Uart`: its 19 bytes, its result, the globals it left. -/
structure Check where
  frame : List Byte
  accepted : Bool
  after : Globals
  deriving DecidableEq, Repr

/-- The first `n` bytes of a buffer. -/
def bytesTo (buf : ℕ → Byte) (n : ℕ) : List Byte := (List.range n).map buf

/-- The parser of `uart2_receive_and_print`: `uart2_received_data`, `data_index`, the globals. -/
structure Rx where
  buf : ℕ → Byte
  dataIndex : ℕ := 0
  g : Globals := {}
  checks : List Check := []
  writes : List ℕ := []

/-- One received byte. -/
def rxByte (s : Rx) (data : Byte) : Rx :=
  if s.dataIndex = 0 then
    if data = 0xAC then
      { s with buf := Function.update s.buf 0 data, dataIndex := 1, writes := s.writes ++ [0] }
    else s
  else if s.dataIndex = 1 then
    if data = 0xAC then
      { s with buf := Function.update s.buf 1 data, dataIndex := 2, writes := s.writes ++ [1] }
    else { s with dataIndex := 0 }
  else
    let buf := Function.update s.buf s.dataIndex data
    let writes := s.writes ++ [s.dataIndex]
    if s.dataIndex + 1 = packetSize then
      let r := responseFrameCheckUart buf s.g
      { buf, dataIndex := 0, g := r.1, writes,
        checks := s.checks ++ [⟨bytesTo buf packetSize, r.2, r.1⟩] }
    else { s with buf, dataIndex := s.dataIndex + 1, writes }

/-- The bytes of a read sequence, one after another. -/
def rxBytes (s : Rx) (bs : List Byte) : Rx := bs.foldl rxByte s

/-- One turn of the receive loop: `methane_debug_active` is set, or `rt_device_read` gives nothing
or a byte. -/
inductive Poll where
  | debugActive
  | empty
  | byte (data : Byte)
  deriving DecidableEq, Repr

/-- The receive loop: the state, and the turns left when the timeout ends it. -/
def receiveLoop : ℤ → Rx → List Poll → Rx × List Poll
  | _, s, [] => (s, [])
  | timeout, s, .debugActive :: ps => receiveLoop timeout { s with dataIndex := 0 } ps
  | timeout, s, .byte data :: ps => receiveLoop timeout (rxByte s data) ps
  | timeout, s, .empty :: ps =>
    if 0 < timeout then
      if timeout - 10 ≤ 0 then (s, ps) else receiveLoop (timeout - 10) s ps
    else if timeout = 0 then (s, ps)
    else receiveLoop timeout s ps

/-- The results of `rt_device_find`, `rt_device_open` and `rt_device_control`. -/
structure Setup where
  found : Bool
  opened : Bool
  configured : Bool

/-- `RT_EOK` and `-RT_ERROR`. -/
inductive RtErr where
  | eok
  | error
  deriving DecidableEq, Repr

/-- `uart2_receive_and_print`: the buffer and the globals are static, `data_index` starts at `0`. -/
def uart2ReceiveAndPrint (d : Setup) (timeout : ℤ) (s : Rx) (ps : List Poll) : RtErr × Rx :=
  if !d.found then (.error, s)
  else if !d.opened then (.error, s)
  else if !d.configured then (.error, s)
  else (.eok, (receiveLoop timeout { s with dataIndex := 0 } ps).1)

/-- The parser of `uart2_debug`: `frame`, `frame_index`, `byte_count`, the same globals. -/
structure Dbg where
  frame : ℕ → Byte
  frameIndex : ℕ := 0
  byteCount : UInt32 := 0
  g : Globals := {}
  checks : List Check := []
  writes : List ℕ := []

/-- One byte in `uart2_debug`. -/
def debugByte (d : Dbg) (data : Byte) : Dbg :=
  let d := { d with byteCount := d.byteCount + 1 }
  if d.frameIndex = 0 then
    if data = 0xAC then
      { d with frame := Function.update d.frame 0 data, frameIndex := 1, writes := d.writes ++ [0] }
    else d
  else if d.frameIndex = 1 then
    if data = 0xAC then
      { d with frame := Function.update d.frame 1 data, frameIndex := 2, writes := d.writes ++ [1] }
    else { d with frameIndex := 0 }
  else
    let frame := Function.update d.frame d.frameIndex data
    let writes := d.writes ++ [d.frameIndex]
    if d.frameIndex + 1 = packetSize then
      let r := responseFrameCheckUart frame d.g
      { d with
          frame, frameIndex := 0, g := r.1, writes
          checks := d.checks ++ [⟨bytesTo frame packetSize, r.2, r.1⟩] }
    else { d with frame, frameIndex := d.frameIndex + 1, writes }

/-- The loop of `uart2_debug`: each turn has the tick at which the deadline is tested and the result
of the read. -/
def debugLoop (startTick timeoutMs : UInt32) : Dbg → List (UInt32 × Option Byte) → Dbg
  | d, [] => d
  | d, (tick, r) :: ts =>
    if timeoutMs ≤ tick - startTick then d
    else
      match r with
      | some data => debugLoop startTick timeoutMs (debugByte d data) ts
      | none => debugLoop startTick timeoutMs d ts

/-- The deadline of `uart2_debug`: 5 seconds, or the argument when it is between 1 and 60. -/
def debugTimeoutMs : Option ℤ → UInt32
  | some seconds => if 0 < seconds ∧ seconds ≤ 60 then UInt32.ofNat (seconds.toNat * 1000) else 5000
  | none => 5000

/-- `uart2_debug`: `frame` is uninitialised, `frame_index` starts at `0`. -/
def uart2Debug (u : Setup) (arg : Option ℤ) (startTick : UInt32) (frame : ℕ → Byte) (g : Globals)
    (ts : List (UInt32 × Option Byte)) : Dbg :=
  let d : Dbg := { frame, g }
  if !u.found || !u.opened || !u.configured then d
  else debugLoop startTick (debugTimeoutMs arg) d ts

end PipeGallery.Methane
