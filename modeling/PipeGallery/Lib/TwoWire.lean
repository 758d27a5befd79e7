import Mathlib.Data.List.Basic
import Mathlib.Tactic.SplitIfs
import Mathlib.Logic.Basic

set_option autoImplicit false

/-!
# A two-wire bus

A clock line and a data line, both open drain: a line is high if nobody pulls it low. A change of the
data line while the clock is high is a start or a stop condition, and a bit is what the data line holds
through a pulse of the clock. The devices on the bus see these symbols and answer on the data line.

* `Sym`, `Lines`, `setSda`, `setScl`: the lines and what they carry;
* `bitsOf`, `ofBits`, `ofBits_bitsOf`, `bitsOf_ofBits`: bytes, most significant bit first;
* `Item`, `Target`: what is said on the bus, byte by byte, and what the devices answer;
* `Front`, `feed`, `decode`, `level`: a device that follows the symbols.
-/

namespace PipeGallery.Lib.TwoWire

abbrev Byte := BitVec 8

/-! ## The lines -/

inductive Sym where
  | start
  | stop
  | bit (b : Bool)
  deriving DecidableEq, Repr

/-- The level of the clock line, what the master drives on the data line, whether a condition was seen
since the clock rose, and the symbols so far. -/
structure Lines where
  scl : Bool := true
  sda : Bool := true
  marked : Bool := true
  syms : List Sym := []

/-- The level of the data line; `pull` is what the devices leave it at, given the symbols so far. -/
def Lines.wire (pull : List Sym → Bool) (l : Lines) : Bool := l.sda && pull l.syms

/-- The master drives the data line. -/
def setSda (pull : List Sym → Bool) (b : Bool) (l : Lines) : Lines :=
  let l' := { l with sda := b }
  if l.scl && l.wire pull && !l'.wire pull then { l' with marked := true, syms := l.syms ++ [.start] }
  else if l.scl && !l.wire pull && l'.wire pull then { l' with marked := true, syms := l.syms ++ [.stop] }
  else l'

/-- The clock line falls: a bit, unless a condition was seen. -/
def sclFall (pull : List Sym → Bool) (l : Lines) : Lines :=
  if l.scl && !l.marked then { l with scl := false, syms := l.syms ++ [.bit (l.wire pull)] }
  else { l with scl := false }

/-- The clock line rises. -/
def sclRise (l : Lines) : Lines := if l.scl then l else { l with scl := true, marked := false }

/-- Both lines are high, and no bit has begun. -/
def Lines.Idle (l : Lines) : Prop := l.scl = true ∧ l.sda = true ∧ l.marked = true

section
variable {pull : List Sym → Bool} {l : Lines}

theorem setSda_of_low (h : l.scl = false) (b : Bool) : setSda pull b l = { l with sda := b } := by
  simp [setSda, h]

theorem sclFall_of_low (h : l.scl = false) : sclFall pull l = l := by
  cases l
  simp_all [sclFall]

theorem sclRise_of_low (h : l.scl = false) : sclRise l = { l with scl := true, marked := false } := by
  simp [sclRise, h]

/-- A pulse of the clock. -/
theorem sclFall_sclRise (h : l.scl = false) : sclFall pull (sclRise l) =
    { l with marked := false, syms := l.syms ++ [.bit (l.wire pull)] } := by
  rw [sclRise_of_low h]
  cases l
  simp_all [sclFall, Lines.wire]

/-- **A start condition.** -/
theorem setSda_start (hc : l.scl = true) (hd : l.sda = true) (hp : pull l.syms = true) :
    setSda pull false l = { l with sda := false, marked := true, syms := l.syms ++ [.start] } := by
  simp [setSda, Lines.wire, hc, hd, hp]

/-- **A stop condition.** -/
theorem setSda_stop (hc : l.scl = true) (hd : l.sda = false) (hp : pull l.syms = true) :
    setSda pull true l = { l with sda := true, marked := true, syms := l.syms ++ [.stop] } := by
  simp [setSda, Lines.wire, hc, hd, hp]

theorem sclFall_of_marked (h : l.marked = true) : sclFall pull l = { l with scl := false } := by
  simp [sclFall, h]

end

/-! ## Bytes -/

/-- The bits of a byte, most significant first. -/
def bitsOf (b : Byte) : List Bool := (List.range 8).map b.getMsbD

/-- One more bit. -/
def pushBit (acc : Byte) (b : Bool) : Byte := (acc <<< 1) ||| (if b then 1 else 0)

/-- The byte of a list of bits, most significant first. -/
def ofBits (bits : List Bool) : Byte := bits.foldl pushBit 0

theorem length_bitsOf (b : Byte) : (bitsOf b).length = 8 := by simp [bitsOf]

theorem ofBits_bitsOf (b : Byte) : ofBits (bitsOf b) = b := by
  revert b
  decide

theorem bitsOf_ofBits {bits : List Bool} (h : bits.length = 8) : bitsOf (ofBits bits) = bits := by
  have hall : ∀ a b c d e f g i : Bool,
      bitsOf (ofBits [a, b, c, d, e, f, g, i]) = [a, b, c, d, e, f, g, i] := by decide
  match bits, h with
  | [a, b, c, d, e, f, g, i], _ => exact hall a b c d e f g i

theorem ofBits_concat (bits : List Bool) (b : Bool) : ofBits (bits ++ [b]) = pushBit (ofBits bits) b := by
  rw [ofBits, List.foldl_concat, ofBits]

/-! ## What is said on the bus -/

/-- A condition, or a byte with its acknowledge bit: one of the master's, or one of a device's. -/
inductive Item where
  | start
  | stop
  | wrote (b : Byte) (ack : Bool)
  | read (b : Byte) (ack : Bool)
  deriving DecidableEq, Repr

/-- The symbols of an item. -/
def Item.syms : Item → List Sym
  | .start => [.start]
  | .stop => [.stop]
  | .wrote b ack => (bitsOf b).map .bit ++ [.bit !ack]
  | .read b ack => (bitsOf b).map .bit ++ [.bit !ack]

/-- The devices on the bus, together: whether one of them acknowledges a byte of the master's, and the
byte they send, given what was said before. -/
structure Target where
  ack : List Item → Byte → Bool
  next : List Item → Byte

/-! ## A device that follows the symbols -/

/-- Who sends the next byte: nobody; the master, after a start condition; the master; a device. -/
inductive Dir where
  | off
  | first
  | master
  | device
  deriving DecidableEq, Repr

/-- What was said, who sends, and the bits of the byte so far. -/
structure Front where
  items : List Item := []
  dir : Dir := .off
  bits : List Bool := []
  deriving DecidableEq, Repr

/-- The item of a byte. -/
def Dir.item (d : Dir) (b : Byte) (ack : Bool) : Item :=
  if d = .device then .read b ack else .wrote b ack

theorem Dir.syms_item (d : Dir) (b : Byte) (ack : Bool) :
    (d.item b ack).syms = (bitsOf b).map .bit ++ [.bit !ack] := by
  unfold Dir.item
  split_ifs
  · rfl
  · rfl

/-- Who sends after a byte: the last bit of the first byte tells, and a device sends only while it
acknowledges or is acknowledged. -/
def Dir.after (d : Dir) (b : Byte) (ack : Bool) : Dir :=
  match d with
  | .off => .off
  | .first => if b.getLsbD 0 then (if ack then .device else .off) else .master
  | .master => .master
  | .device => if ack then .device else .off

def feed (f : Front) : Sym → Front
  | .start => { items := f.items ++ [.start], dir := .first }
  | .stop => { items := f.items ++ [.stop], dir := .off }
  | .bit b =>
    if f.dir = .off then f
    else if f.bits.length < 8 then { f with bits := f.bits ++ [b] }
    else { items := f.items ++ [f.dir.item (ofBits f.bits) !b], dir := f.dir.after (ofBits f.bits) !b }

/-- What a device makes of the symbols. -/
def decode (syms : List Sym) : Front := syms.foldl feed {}

/-- What the devices leave the data line at. -/
def Front.level (T : Target) (f : Front) : Bool :=
  match f.dir with
  | .off => true
  | .device => if f.bits.length < 8 then (T.next f.items).getMsbD f.bits.length else true
  | _ => if f.bits.length < 8 then true else !T.ack f.items (ofBits f.bits)

/-- The devices as they drive the data line. -/
def Target.pull (T : Target) (syms : List Sym) : Bool := (decode syms).level T

/-- The master sends the next byte. -/
def Dir.sends : Dir → Bool
  | .first => true
  | .master => true
  | _ => false

theorem decode_concat (syms : List Sym) (s : Sym) : decode (syms ++ [s]) = feed (decode syms) s := by
  rw [decode, List.foldl_concat, decode]

section
variable {T : Target} {items : List Item} {dir : Dir} {bits : List Bool}

/-- The devices leave SDA to the master, but for the acknowledge bit. -/
theorem level_sends (hd : dir.sends = true) : Front.level T ⟨items, dir, bits⟩ =
    if bits.length < 8 then true else !T.ack items (ofBits bits) := by
  cases dir with
  | first => rfl
  | master => rfl
  | off => cases hd
  | device => cases hd

/-- A device that sends drives the next bit of its byte. -/
theorem level_device (hl : bits.length < 8) :
    Front.level T ⟨items, .device, bits⟩ = (T.next items).getMsbD bits.length := if_pos hl

/-- Between bytes a device that does not send leaves SDA alone. -/
theorem level_nil (hd : dir ≠ .device) : Front.level T ⟨items, dir, []⟩ = true := by
  cases dir with
  | first => rfl
  | master => rfl
  | off => rfl
  | device => exact absurd rfl hd

theorem feed_bit (hd : dir ≠ .off) (hl : bits.length < 8) (b : Bool) :
    feed ⟨items, dir, bits⟩ (.bit b) = ⟨items, dir, bits ++ [b]⟩ := by
  simp [feed, hd, hl]

theorem feed_ack (hd : dir ≠ .off) (hl : bits.length = 8) (b : Bool) :
    feed ⟨items, dir, bits⟩ (.bit b) =
      ⟨items ++ [dir.item (ofBits bits) !b], dir.after (ofBits bits) !b, []⟩ := by
  simp [feed, hd, hl]

theorem after_first_read {b : Byte} (h : b.getLsbD 0 = true) (ack : Bool) :
    Dir.first.after b ack = if ack then .device else .off := if_pos h

theorem after_first_write {b : Byte} (h : b.getLsbD 0 = false) (ack : Bool) :
    Dir.first.after b ack = .master := if_neg (by rw [h]; exact Bool.false_ne_true)

/-- A device that refuses the first byte does not send. -/
theorem after_first_refused (b : Byte) : Dir.first.after b false ≠ .device := by
  cases h : b.getLsbD 0 with
  | true =>
    rw [after_first_read h]
    exact fun h' => Dir.noConfusion h'
  | false =>
    rw [after_first_write h]
    exact fun h' => Dir.noConfusion h'

theorem Dir.sends_ne_off (hd : dir.sends = true) : dir ≠ .off := by
  rintro rfl
  cases hd

theorem Dir.sends_ne_device (hd : dir.sends = true) : dir ≠ .device := by
  rintro rfl
  cases hd

end

end PipeGallery.Lib.TwoWire
