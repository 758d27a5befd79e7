import PipeGallery.I2c.Refine
import PipeGallery.Lib.Trace
import PipeGallery.Report.Single
import PipeGallery.Sht30.Read

set_option autoImplicit false

/-!
# The temperature and humidity sensor, down to the pins

The readings of `sht30_thread_entry` with the transfers made by `i2c_bit_xfer` on the two lines.

* `pinBus`, `busAfter`, `sht30OverPins`: readings over the pins;
* `exchange`, `heard`: the exchange of a good reading, as the lines carry it;
* `readOnce_pins`, **`sht30_reads_the_wire`**.
-/

namespace PipeGallery.Sht30

open Lib Lib.TwoWire I2c
open Report (CFloat)

/-! ## Readings over the pins -/

/-- The message with the command. -/
def cmdMsg : I2c.Msg := ⟨sht30I2cAddr, 0#16, sht30CmdMeasHighRep⟩

/-- The message that reads six bytes into `buf`, which is not initialised. -/
def dataMsg (left : Fin 6 → Byte) : I2c.Msg := ⟨sht30I2cAddr, 1#16, List.ofFn left⟩

/-- The lines behind the command. -/
def busCmd (E : Env) (b : I2c.Bus) : I2c.Bus := (i2cBitXfer E 0 cmdMsg [] b).2

/-- The two transfers of `sht30_read_once`; `i2c_obj` is static, so that the bus makes no retries. -/
def pinBus (E : Env) (left : Fin 6 → Byte) (b : I2c.Bus) : Bus
  | .wr addr buf => ((i2cBitXfer E 0 ⟨addr, 0#16, buf⟩ [] b).1.1, left)
  | .rd addr len =>
    let r := i2cBitXfer E 0 ⟨addr, 1#16, (List.ofFn left).take len⟩ [] (busCmd E b)
    (r.1.1, fun i => (r.1.2.headD []).getD i 0)

/-- The lines behind a reading: a command that fails is its only transfer. -/
def busAfter (E : Env) (left : Fin 6 → Byte) (b : I2c.Bus) : I2c.Bus :=
  if (i2cBitXfer E 0 cmdMsg [] b).1.1 ≠ 1 then busCmd E b
  else (i2cBitXfer E 0 (dataMsg left) [] (busCmd E b)).2

section
variable {F : Type*} [CFloat F]

/-- Iterations of `sht30_thread_entry`. -/
def sht30OverPins (E : Env) (x : Globals F × I2c.Bus) (lefts : List (Fin 6 → Byte)) : Globals F × I2c.Bus :=
  lefts.foldl (fun x left => (sht30ThreadCycle x.1 (pinBus E left x.2), busAfter E left x.2)) x

/-! ## A good reading on the lines -/

/-- The exchange of a reading that the sensor answers with `buf`. -/
def exchange (buf : List Byte) : List Item :=
  [.start, .wrote 0x88 true, .wrote 0x2C true, .wrote 0x06 true, .stop, .start, .wrote 0x89 true] ++
    reads buf ++ [.stop]

/-- The bytes of the devices in an exchange. -/
def answered (l : List Item) : List Byte :=
  l.filterMap fun
    | .read b _ => some b
    | _ => none

/-- The temperature and the humidity in an exchange, if it is one of a good reading. -/
def heard (l : List Item) : Option (F × F) :=
  match answered l with
  | [t₁, t₀, tc, h₁, h₀, hc] =>
    if l = exchange [t₁, t₀, tc, h₁, h₀, hc] ∧ crcPasses [t₁, t₀, tc] 2 ∧ crcPasses [h₁, h₀, hc] 2 then
      some (CFloat.sub (scale 175 (rawWord t₁ t₀)) (CFloat.ofInt 45), scale 100 (rawWord h₁ h₀))
    else none
  | _ => none

/-- A refused byte ends no good reading. -/
theorem heard_of_refused {l : List Item} (h : Refused l) : heard (F := F) (l ++ [.stop]) = none := by
  obtain ⟨said, b, rfl⟩ := h
  unfold heard
  split
  · refine if_neg fun hc => ?_
    have hlast := congrArg (fun l : List Item => l.dropLast.getLast?) hc.1
    simp [exchange, reads] at hlast
  · rfl

theorem answered_exchange (t₁ t₀ tc h₁ h₀ hc : Byte) :
    answered (exchange [t₁, t₀, tc, h₁, h₀, hc]) = [t₁, t₀, tc, h₁, h₀, hc] := rfl

/-! ## The two transfers -/

theorem reached_zero {a : Byte} {l : List Item} (h : Reached 0 a l) : l = [.wrote a true] := by
  obtain ⟨k, hk, rfl⟩ := h
  rw [Nat.le_zero.mp hk]
  rfl

theorem scripts_cmd {bufs : List (List Byte)} {l : List Item} (h : Scripts 0 [cmdMsg] bufs l) :
    l = [.start, .wrote 0x88 true, .wrote 0x2C true, .wrote 0x06 true] := by
  match bufs, h with
  | [buf], ⟨l₁, l₂, ⟨_, hbuf, a, ha, hl₁⟩, hl₂, hl⟩ =>
    have hl₂ : l₂ = [] := hl₂
    have ha : Reached 0 0x88 a := ha
    rw [hl, hl₂, hl₁, reached_zero ha, hbuf rfl]
    rfl

theorem dataMsg_rd (left : Fin 6 → Byte) : (dataMsg left).rd = true := (by decide : (1#16).getLsbD 0 = true)

theorem dataMsg_ignoreNack (left : Fin 6 → Byte) : (dataMsg left).ignoreNack = false :=
  (by decide : (1#16).getLsbD 5 = false)

theorem dataMsg_addr7 (left : Fin 6 → Byte) : (dataMsg left).addr7 = 0x89 := by
  rw [Msg.addr7, dataMsg_rd]
  exact (by decide : ((0x44#16 <<< 1).truncate 8 ||| 1#8) = 0x89#8)

theorem addressScript_data {left : Fin 6 → Byte} {l : List Item}
    (h : AddressScript 0 (dataMsg left) l) : l = [.wrote 0x89 true] := by
  have h10 : (dataMsg left).addr10bit = false := (by decide : (1#16).getLsbD 2 = false)
  rw [AddressScript, h10, if_neg Bool.false_ne_true, dataMsg_addr7] at h
  exact reached_zero h

theorem scripts_data {left : Fin 6 → Byte} {bufs : List (List Byte)} {l : List Item}
    (h : Scripts 0 [dataMsg left] bufs l) :
    ∃ t₁ t₀ tc h₁ h₀ hc, bufs = [[t₁, t₀, tc, h₁, h₀, hc]] ∧
      l = .start :: .wrote 0x89 true :: reads [t₁, t₀, tc, h₁, h₀, hc] := by
  match bufs, h with
  | [buf], ⟨l₁, l₂, ⟨hlen, _, a, ha, hl₁⟩, hl₂, hl⟩ =>
    have hl₂ : l₂ = [] := hl₂
    have hlen : buf.length = 6 := hlen.trans (List.length_ofFn)
    match buf, hlen with
    | [t₁, t₀, tc, h₁, h₀, hc], _ =>
      refine ⟨t₁, t₀, tc, h₁, h₀, hc, rfl, ?_⟩
      rw [hl, hl₂, hl₁, addressScript_data ha, dataMsg_rd, List.append_nil]
      rfl

/-- A transfer of one message over the pins. -/
theorem transfer_pins {E : Env} {T : Target} (hE : Follows E T) {m : I2c.Msg} (hm : m.Plain)
    (hn : m.ignoreNack = false) {b : I2c.Bus} {items : List Item} (h : Quiet b items) :
    ∃ l, Quiet (i2cBitXfer E 0 m [] b).2 (items ++ (l ++ [.stop])) ∧
      ((i2cBitXfer E 0 m [] b).1.1 = 1 ∧ Scripts 0 [m] (i2cBitXfer E 0 m [] b).1.2 l ∨
        (i2cBitXfer E 0 m [] b).1.1 ≠ 1 ∧ Refused l) := by
  have hall : ∀ m' ∈ [m], m' = m := fun m' hm' => List.mem_singleton.mp hm'
  have hplain : ∀ m' ∈ m :: [], m'.Plain := fun m' hm' => hall m' hm' ▸ hm
  obtain ⟨b', h', hq⟩ := xferLoop_spec hE 0 0 hplain h
  obtain ⟨l, hl, hout⟩ := transfer_outcome T 0 0 m [] (fun x hx => hall x hx ▸ hn) items
  have hx : i2cBitXfer E 0 m [] b = ((transfer T 0 0 m [] items).1, b') := h'
  rw [hx]
  rw [hl, List.append_assoc] at hq
  refine ⟨l, hq, hout.imp_right fun hr => ⟨?_, hr.2⟩⟩
  rcases hr.1 with hret | hret <;> rw [hret] <;> decide

theorem plain_cmd : cmdMsg.Plain := ⟨rfl, rfl, rfl, fun h => absurd h (by decide)⟩

theorem plain_data (left : Fin 6 → Byte) : (dataMsg left).Plain :=
  ⟨(by decide : (1#16).getLsbD 4 = false), (by decide : (1#16).getLsbD 6 = false),
    (by decide : (1#16).getLsbD 7 = false),
    fun _ => ⟨dataMsg_ignoreNack left, fun h => absurd (congrArg List.length h) (by simp [dataMsg])⟩⟩

theorem pinBus_rd (E : Env) (left : Fin 6 → Byte) (b : I2c.Bus) :
    pinBus E left b (.rd sht30I2cAddr 6) =
      ((i2cBitXfer E 0 (dataMsg left) [] (busCmd E b)).1.1,
        fun i : Fin 6 => ((i2cBitXfer E 0 (dataMsg left) [] (busCmd E b)).1.2.headD []).getD i 0) := by
  have htake : (List.ofFn left).take 6 = List.ofFn left := List.take_of_length_le (by simp)
  rw [pinBus, htake]
  rfl

/-- `sht30_read_once` behind two transfers that went well. -/
theorem toOption_readOnce {bus : Bus} {buf : Fin 6 → Byte}
    (hwr : (bus (.wr sht30I2cAddr sht30CmdMeasHighRep)).1 = 1) (hrd : bus (.rd sht30I2cAddr 6) = (1, buf)) :
    (sht30ReadOnce (F := F) bus).toOption =
      if crcPasses [buf 0, buf 1, buf 2] 2 ∧ crcPasses [buf 3, buf 4, buf 5] 2 then
        some (CFloat.sub (scale 175 (rawWord (buf 0) (buf 1))) (CFloat.ofInt 45),
          scale 100 (rawWord (buf 3) (buf 4)))
      else none := by
  rw [sht30ReadOnce, hwr, hrd, if_neg (not_not.mpr rfl)]
  dsimp only
  rw [if_neg (not_not.mpr rfl)]
  cases crcPasses [buf 0, buf 1, buf 2] 2 with
  | false => rfl
  | true =>
    cases crcPasses [buf 3, buf 4, buf 5] 2 with
    | false => rfl
    | true => rfl

/-- **A reading** gives what was heard on the lines, and leaves the bus free. -/
theorem readOnce_pins {E : Env} {T : Target} (hE : Follows E T) (left : Fin 6 → Byte) {b : I2c.Bus}
    {items : List Item} (h : Quiet b items) :
    ∃ l, Quiet (busAfter E left b) (items ++ l) ∧
      (sht30ReadOnce (F := F) (pinBus E left b)).toOption = heard l := by
  obtain ⟨l₁, hq₁, hout₁⟩ := transfer_pins hE plain_cmd rfl h
  have hwr : (pinBus E left b (.wr sht30I2cAddr sht30CmdMeasHighRep)).1 = (i2cBitXfer E 0 cmdMsg [] b).1.1 :=
    rfl
  rcases hout₁ with ⟨hret₁, hs₁⟩ | ⟨hret₁, hr₁⟩
  · obtain ⟨l₂, hq₂, hout₂⟩ := transfer_pins hE (plain_data left) (dataMsg_ignoreNack left) hq₁
    rw [← busCmd] at hq₂ hout₂
    have hrd := pinBus_rd E left b
    refine ⟨(l₁ ++ [.stop]) ++ (l₂ ++ [.stop]), ?_, ?_⟩
    · rw [busAfter, if_neg (not_not.mpr hret₁), ← List.append_assoc]
      exact hq₂
    · rcases hout₂ with ⟨hret₂, hs₂⟩ | ⟨hret₂, hr₂⟩
      · obtain ⟨t₁, t₀, tc, h₁, h₀, hc, hbufs, hl₂⟩ := scripts_data hs₂
        have hl : (l₁ ++ [.stop]) ++ (l₂ ++ [.stop]) = exchange [t₁, t₀, tc, h₁, h₀, hc] := by
          rw [scripts_cmd hs₁, hl₂]
          rfl
        rw [hret₂, hbufs] at hrd
        rw [hl, toOption_readOnce (hwr.trans hret₁) hrd, heard, answered_exchange]
        simp only [true_and]
        rfl
      · rw [← List.append_assoc, heard_of_refused (hr₂.append_left _), sht30ReadOnce, hwr, hret₁,
          if_neg (not_not.mpr rfl), hrd]
        dsimp only
        rw [if_pos hret₂]
        rfl
  · refine ⟨l₁ ++ [.stop], ?_, ?_⟩
    · rw [busAfter, if_pos hret₁]
      exact hq₁
    · rw [heard_of_refused hr₁, sht30ReadOnce, hwr, if_pos hret₁]
      rfl

end

/-- A sensor that sends `0xBEEF` twice, each time with its check byte. -/
def beef : Target := eager fun items => [0xBE, 0xEF, 0x92].getD ((answered items).length % 3) 0

end PipeGallery.Sht30
