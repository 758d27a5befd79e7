import Mathlib.Order.Basic
import Mathlib.Algebra.Order.Group.Int
import PipeGallery.I2c.Bytes

set_option autoImplicit false

/-!
# The pins do what the bytes say

The functions of the driver against the transfers byte by byte, when no device holds SCL low for too
long.

* `Talk`, `Quiet`: what the lines have carried;
* `writeb_spec`, `readb_spec`, `bitSendAddress_spec`, …: one lemma for each function of the driver;
* `Msg.Plain`, `xferLoop_spec`, **`xfer_refines_bytes`**.
-/

namespace PipeGallery.I2c

open Lib.TwoWire

/-! ## What the lines have carried -/

/-- SCL is low, and the devices have seen `items` and the bits of a byte. -/
structure Talk (b : Bus) (items : List Item) (dir : Dir) (bits : List Bool) : Prop where
  low : b.lines.scl = false
  seen : decode b.lines.syms = ⟨items, dir, bits⟩
  coded : b.lines.syms = items.flatMap Item.syms ++ bits.map .bit

/-- Both lines are high, and the devices have seen `items`. -/
structure Quiet (b : Bus) (items : List Item) : Prop where
  idle : b.lines.Idle
  seen : decode b.lines.syms = ⟨items, .off, []⟩
  coded : b.lines.syms = items.flatMap Item.syms

/-- The devices follow the symbols, and none of them holds SCL low for too long. -/
structure Follows (E : Env) (T : Target) : Prop where
  pull : E.pull = T.pull
  rises : ∀ n, E.rises n = true

section
variable {E : Env} {T : Target} {b : Bus} {items : List Item} {dir : Dir} {bits : List Bool}

theorem Follows.sclH (hE : Follows E T) (b : Bus) :
    sclH E b = (true, { lines := sclRise b.lines, waits := b.waits + 1 }) := by
  rw [I2c.sclH, if_pos (hE.rises _)]

theorem Talk.sclL (h : Talk b items dir bits) : sclL E b = b := by
  rw [I2c.sclL, sclFall_of_low h.low]

theorem Talk.setSda (h : Talk b items dir bits) (v : Bool) :
    Talk (setSda E v b) items dir bits ∧ (setSda E v b).lines.sda = v := by
  rw [I2c.setSda, setSda_of_low h.low]
  exact ⟨⟨h.low, h.seen, h.coded⟩, rfl⟩

/-- The level of SDA while SCL is high. -/
theorem Talk.getSda (hE : Follows E T) (h : Talk b items dir bits) :
    getSda E (I2c.sclH E b).2 = (b.lines.sda && Front.level T ⟨items, dir, bits⟩) := by
  rw [hE.sclH, sclRise_of_low h.low, I2c.getSda, Lines.wire, hE.pull, Target.pull, h.seen]

/-- A pulse of SCL. -/
theorem Talk.lines (hE : Follows E T) (h : Talk b items dir bits) :
    (I2c.sclL E (I2c.sclH E b).2).lines = { b.lines with
      marked := false
      syms := b.lines.syms ++ [.bit (b.lines.sda && Front.level T ⟨items, dir, bits⟩)] } := by
  rw [hE.sclH, I2c.sclL, sclFall_sclRise h.low, Lines.wire, hE.pull, Target.pull, h.seen]

/-- A bit of a byte. -/
theorem Talk.pulse (hE : Follows E T) (h : Talk b items dir bits) (hd : dir ≠ .off)
    (hl : bits.length < 8) :
    Talk (I2c.sclL E (I2c.sclH E b).2) items dir
      (bits ++ [b.lines.sda && Front.level T ⟨items, dir, bits⟩]) ∧
      (I2c.sclL E (I2c.sclH E b).2).lines.sda = b.lines.sda := by
  have hlines := h.lines hE
  refine ⟨⟨?_, ?_, ?_⟩, ?_⟩
  · rw [hlines]
    exact h.low
  · rw [hlines, decode_concat, h.seen, feed_bit hd hl]
  · rw [hlines, List.map_append, ← List.append_assoc, ← h.coded]
    rfl
  · rw [hlines]

/-- The acknowledge bit. -/
theorem Talk.ackPulse (hE : Follows E T) (h : Talk b items dir bits) (hd : dir ≠ .off)
    (hl : bits.length = 8) {ack : Bool}
    (hack : (b.lines.sda && Front.level T ⟨items, dir, bits⟩) = !ack) :
    Talk (I2c.sclL E (I2c.sclH E b).2) (items ++ [dir.item (ofBits bits) ack])
      (dir.after (ofBits bits) ack) [] := by
  have hlines := h.lines hE
  rw [hack] at hlines
  refine ⟨?_, ?_, ?_⟩
  · rw [hlines]
    exact h.low
  · rw [hlines, decode_concat, h.seen, feed_ack hd hl, Bool.not_not]
  · rw [hlines, List.flatMap_append, List.flatMap_singleton, Dir.syms_item, bitsOf_ofBits hl, h.coded]
    simp

/-! ## One byte -/

/-- The last `i` bits of a byte. -/
def lowBits (data : Byte) : ℕ → List Bool
  | 0 => []
  | i + 1 => data.getLsbD i :: lowBits data i

theorem lowBits_eight (data : Byte) : lowBits data 8 = bitsOf data := by
  revert data
  decide

theorem writeLoop_spec (hE : Follows E T) (data : Byte) (i : ℕ) {b : Bus}
    (h : Talk (sclL E b) items dir bits) (hd : dir.sends = true) (hl : bits.length + i = 8) :
    ∃ b', writeLoop E data i b = (true, b') ∧ Talk (sclL E b') items dir (bits ++ lowBits data i) := by
  induction i generalizing b bits with
  | zero => exact ⟨b, rfl, by simpa [lowBits] using h⟩
  | succ i ih =>
    obtain ⟨hset, hsda⟩ := h.setSda (E := E) (data.getLsbD i)
    have hp := (hset.pulse hE (Dir.sends_ne_off hd) (by omega)).1
    rw [hsda, level_sends hd, if_pos (by omega), Bool.and_true] at hp
    obtain ⟨b', hb', ht⟩ := ih hp (by rw [List.length_append, List.length_singleton]; omega)
    refine ⟨b', ?_, ?_⟩
    · rw [writeLoop, hE.sclH]
      rw [hE.sclH] at hb'
      exact hb'
    · rw [lowBits]
      simpa using ht

/-- **A byte of the master's** and the answer. -/
theorem writeb_spec (hE : Follows E T) (h : Talk b items dir []) (hd : dir.sends = true) (data : Byte) :
    ∃ b', i2cWriteb E data b = (if T.ack items data then 1 else 0, b') ∧
      Talk b' (say T items data) (dir.after data (T.ack items data)) [] := by
  obtain ⟨b₁, h₁, ht₁⟩ := writeLoop_spec hE data 8 (b := b) (by rw [h.sclL]; exact h) hd rfl
  rw [List.nil_append, lowBits_eight] at ht₁
  obtain ⟨hset, hsda⟩ := ht₁.setSda (E := E) true
  have hlevel : ((setSda E true (sclL E b₁)).lines.sda &&
      Front.level T ⟨items, dir, bitsOf data⟩) = !T.ack items data := by
    rw [hsda, level_sends hd, length_bitsOf, ofBits_bitsOf]
    simp
  have hget := hset.getSda hE
  have hp := hset.ackPulse hE (Dir.sends_ne_off hd) (length_bitsOf data) hlevel
  rw [ofBits_bitsOf, Dir.item, if_neg (Dir.sends_ne_device hd)] at hp
  refine ⟨_, ?_, hp⟩
  rw [i2cWriteb, h₁]
  dsimp only
  rw [i2cWaitack, hE.sclH]
  rw [hlevel, hE.sclH] at hget
  dsimp only at hget ⊢
  rw [hget]
  cases T.ack items data <;> rfl

/-- The bits of a device's byte, `n` of them to come. -/
theorem readLoop_spec (hE : Follows E T) (n : ℕ) {b : Bus} (h : Talk b items .device bits)
    (hsda : b.lines.sda = true) (hl : bits.length + n = 8)
    (hbits : bits = (bitsOf (T.next items)).take bits.length) :
    ∃ b', readLoop E n (ofBits bits) b = (some (T.next items), b') ∧
      Talk b' items .device (bitsOf (T.next items)) ∧ b'.lines.sda = true := by
  induction n generalizing b bits with
  | zero =>
    rw [List.take_of_length_le (by rw [length_bitsOf]; omega)] at hbits
    refine ⟨b, ?_, hbits ▸ h, hsda⟩
    rw [readLoop, hbits, ofBits_bitsOf]
  | succ n ih =>
    have hlevel : (b.lines.sda && Front.level T ⟨items, .device, bits⟩) =
        (T.next items).getMsbD bits.length := by
      rw [hsda, Bool.true_and, level_device (by omega)]
    obtain ⟨hp, hsda'⟩ := h.pulse hE (fun h' => Dir.noConfusion h') (by omega)
    have hget := h.getSda hE
    rw [hlevel] at hp hget
    obtain ⟨b', hb', ht⟩ := ih hp (hsda'.trans hsda)
      (by rw [List.length_append, List.length_singleton]; omega) (by
        have hlt : bits.length < (bitsOf (T.next items)).length := by rw [length_bitsOf]; omega
        rw [List.length_append, List.length_singleton, List.take_succ_eq_append_getElem hlt, ← hbits]
        simp [bitsOf])
    refine ⟨b', ?_, ht⟩
    rw [readLoop, hE.sclH]
    rw [hE.sclH] at hget hb'
    dsimp only at hget hb' ⊢
    rw [hget]
    rw [ofBits_concat] at hb'
    exact hb'

/-- **A byte of a device's.** -/
theorem readb_spec (hE : Follows E T) (h : Talk b items .device []) :
    ∃ b', i2cReadb E b = (some (T.next items), b') ∧ Talk b' items .device (bitsOf (T.next items)) ∧
      b'.lines.sda = true := by
  obtain ⟨hset, hsda⟩ := h.setSda (E := E) true
  obtain ⟨b', hb', ht⟩ := readLoop_spec hE 8 hset hsda rfl List.take_zero.symm
  refine ⟨b', ?_, ht⟩
  rw [i2cReadb, ← hb']
  rfl

/-- The master acknowledges a byte, or does not. -/
theorem sendAckOrNack_spec (hE : Follows E T) (h : Talk b items .device bits) (hl : bits.length = 8)
    (hsda : b.lines.sda = true) (ack : Bool) :
    ∃ b', i2cSendAckOrNack E ack b = (true, b') ∧
      Talk b' (items ++ [.read (ofBits bits) ack]) (if ack then .device else .off) [] := by
  have hset : Talk (if ack then setSda E false b else b) items .device bits ∧
      (if ack then setSda E false b else b).lines.sda = !ack := by
    cases ack with
    | true => exact h.setSda false
    | false => exact ⟨h, hsda⟩
  have hlevel : ((if ack then setSda E false b else b).lines.sda &&
      Front.level T ⟨items, .device, bits⟩) = !ack := by
    rw [hset.2, Front.level]
    simp [hl]
  have hp := hset.1.ackPulse hE (fun h' => Dir.noConfusion h') hl hlevel
  refine ⟨_, ?_, hp⟩
  rw [i2cSendAckOrNack, hE.sclH]

/-! ## Conditions -/

theorem start_spec (hE : Follows E T) (h : Quiet b items) :
    Talk (i2cStart E b) (items ++ [.start]) .first [] := by
  obtain ⟨hscl, hsda, hmarked⟩ := h.idle
  have hpull : E.pull b.lines.syms = true := by
    rw [hE.pull, Target.pull, h.seen]
    rfl
  have hlines : (i2cStart E b).lines = { b.lines with
      scl := false, sda := false, marked := true, syms := b.lines.syms ++ [.start] } := by
    rw [i2cStart, sclL, setSda, setSda_start hscl hsda hpull, sclFall_of_marked rfl]
  refine ⟨?_, ?_, ?_⟩
  · rw [hlines]
  · rw [hlines, decode_concat, h.seen]
    rfl
  · rw [hlines, h.coded, List.flatMap_append]
    simp [Item.syms]

/-- SCL is released between bytes. -/
theorem Talk.released (hE : Follows E T) (h : Talk b items dir []) (hd : dir ≠ .device) :
    (I2c.sclH E b).2.lines = { b.lines with scl := true, marked := false } ∧
      E.pull (I2c.sclH E b).2.lines.syms = true := by
  rw [hE.sclH, sclRise_of_low h.low]
  refine ⟨rfl, ?_⟩
  rw [hE.pull, Target.pull, h.seen, level_nil hd]

theorem restart_spec (hE : Follows E T) (h : Talk b items dir []) (hd : dir ≠ .device) :
    Talk (i2cRestart E b) (items ++ [.start]) .first [] := by
  obtain ⟨hset, hsda⟩ := h.setSda (E := E) true
  obtain ⟨hrise, hpull⟩ := hset.released hE hd
  have hlines : (i2cRestart E b).lines = { (setSda E true b).lines with
      scl := false, sda := false, marked := true
      syms := (setSda E true b).lines.syms ++ [.start] } := by
    have hstart := setSda_start (by rw [hrise]) (by rw [hrise]; exact hsda) hpull
    unfold i2cRestart
    rw [sclL, setSda, hstart, sclFall_of_marked rfl, hrise]
  refine ⟨?_, ?_, ?_⟩
  · rw [hlines]
  · rw [hlines, decode_concat, hset.seen]
    rfl
  · rw [hlines, hset.coded, List.flatMap_append]
    simp [Item.syms]

theorem stop_spec (hE : Follows E T) (h : Talk b items dir []) (hd : dir ≠ .device) :
    Quiet (i2cStop E b) (items ++ [.stop]) := by
  obtain ⟨hset, hsda⟩ := h.setSda (E := E) false
  obtain ⟨hrise, hpull⟩ := hset.released hE hd
  have hlines : (i2cStop E b).lines = { (setSda E false b).lines with
      scl := true, sda := true, marked := true
      syms := (setSda E false b).lines.syms ++ [.stop] } := by
    have hstop := setSda_stop (by rw [hrise]) (by rw [hrise]; exact hsda) hpull
    unfold i2cStop
    rw [setSda, hstop, hrise]
  refine ⟨?_, ?_, ?_⟩
  · rw [hlines]
    exact ⟨rfl, rfl, rfl⟩
  · rw [hlines, decode_concat, hset.seen]
    rfl
  · rw [hlines, hset.coded, List.flatMap_append]
    simp [Item.syms]

/-! ## Messages -/

theorem sendBytes_spec (hE : Follows E T) (ignoreNack : Bool) (buf : List Byte) {b : Bus}
    {items : List Item} (h : Talk b items .master []) (bytes : ℕ) :
    ∃ b', i2cSendBytes E ignoreNack bytes buf b =
        (if (payload T ignoreNack buf items).1 then ((bytes + buf.length : ℕ) : ℤ) else 0, b') ∧
      Talk b' (payload T ignoreNack buf items).2 .master [] := by
  induction buf generalizing b items bytes with
  | nil => exact ⟨b, rfl, h⟩
  | cons data rest ih =>
    obtain ⟨b₁, h₁, ht₁⟩ := writeb_spec hE h rfl data
    have ht₁ : Talk b₁ (say T items data) .master [] := ht₁
    rw [i2cSendBytes, h₁, payload]
    dsimp only
    cases hack : T.ack items data with
    | true =>
      obtain ⟨b', h', ht'⟩ := ih ht₁ (bytes + 1)
      refine ⟨b', ?_, ht'⟩
      rw [if_pos (Or.inl (by decide)), h', Bool.true_or, if_pos rfl, List.length_cons]
      congr 3
      omega
    | false =>
      cases hig : ignoreNack with
      | true =>
        rw [hig] at ih
        obtain ⟨b', h', ht'⟩ := ih ht₁ (bytes + 1)
        refine ⟨b', ?_, ht'⟩
        rw [if_pos (Or.inr ⟨rfl, rfl⟩), h', Bool.false_or, if_pos rfl, List.length_cons]
        congr 3
        omega
      | false => exact ⟨b₁, rfl, ht₁⟩

theorem recvBytes_spec (hE : Follows E T) (count : ℕ) {b : Bus} {items : List Item}
    (h : Talk b items (if count = 0 then .off else .device) []) (got : List Byte) :
    ∃ b', i2cRecvBytes E false count got b =
        ((((got.length + count : ℕ) : ℤ), got ++ (fetch T count items).1), b') ∧
      Talk b' (fetch T count items).2 .off [] := by
  induction count generalizing b items got with
  | zero => exact ⟨b, by simp [i2cRecvBytes, fetch], h⟩
  | succ count ih =>
    rw [if_neg (Nat.succ_ne_zero count)] at h
    obtain ⟨b₁, h₁, ht₁, hsda⟩ := readb_spec hE h
    obtain ⟨b₂, h₂, ht₂⟩ := sendAckOrNack_spec hE ht₁ (length_bitsOf _) hsda (count != 0)
    rw [ofBits_bitsOf] at ht₂
    have hdir : (if (count != 0) = true then Dir.device else .off) = if count = 0 then .off else .device := by
      by_cases hc : count = 0 <;> simp [hc]
    rw [hdir] at ht₂
    obtain ⟨b', h', ht'⟩ := ih ht₂ (got ++ [T.next items])
    refine ⟨b', ?_, ht'⟩
    rw [i2cRecvBytes, h₁]
    dsimp only
    rw [h₂]
    simp only [Bool.false_eq_true, if_false]
    rw [h', fetch]
    simp only [List.length_append, List.length_singleton, List.append_assoc, List.singleton_append]
    congr 3
    omega

theorem sendAddress_spec (hE : Follows E T) (a : Byte) (retries : ℕ) {b : Bus} {items : List Item}
    (h : Talk b items .first []) :
    ∃ b', i2cSendAddress E a retries b = (if (address T a retries items).1 then 1 else 0, b') ∧
      Talk b' (address T a retries items).2 (Dir.first.after a (address T a retries items).1) [] := by
  induction retries generalizing b items with
  | zero => exact writeb_spec hE h rfl a
  | succ retries ih =>
    obtain ⟨b₁, h₁, ht₁⟩ := writeb_spec hE h rfl a
    rw [i2cSendAddress, h₁, address]
    dsimp only
    cases hack : T.ack items a with
    | true =>
      rw [hack] at ht₁
      exact ⟨b₁, rfl, ht₁⟩
    | false =>
      rw [hack] at ht₁
      exact ih (start_spec hE (stop_spec hE ht₁ (after_first_refused a)))

/-- The last bit of an address byte is the direction. -/
theorem Msg.getLsbD_addr7 (m : Msg) : m.addr7.getLsbD 0 = m.rd := by
  unfold Msg.addr7
  cases m.rd <;> simp

theorem Msg.getLsbD_addr1 (m : Msg) : m.addr1.getLsbD 0 = false := by simp [Msg.addr1]

theorem Msg.getLsbD_addr1_rd (m : Msg) : (m.addr1 ||| 0x01).getLsbD 0 = true := by simp

/-- The test on the result of an address byte. -/
theorem refused_iff (ack ignoreNack : Bool) :
    ((if ack then (1 : ℤ) else 0) ≠ 1 ∧ (!ignoreNack) = true) ↔ (!ack && !ignoreNack) = true := by
  cases ack <;> cases ignoreNack <;> simp

/-- The address of `m` was sent, with result `r`: what follows is the message's own direction, or the
devices are silent. -/
structure Addressed (m : Msg) (r : Bool × List Item) (x : Bool × Bus) : Prop where
  ret : x.1 = r.1
  ok : r.1 = true → Talk x.2 r.2 (if m.rd then .device else .master) []
  refused : r.1 = false → ∃ dir, dir ≠ .device ∧ Talk x.2 r.2 dir []

/-- The last address byte of a message. -/
theorem addressed_last (hE : Follows E T) {m : Msg} (hm : m.rd = true → m.ignoreNack = false) {a : Byte}
    (ha : a.getLsbD 0 = m.rd) (retries : ℕ) (h : Talk b items .first []) :
    Addressed m ((address T a retries items).1 || m.ignoreNack, (address T a retries items).2)
      (match i2cSendAddress E a retries b with
        | (ret, b) => if ret ≠ 1 ∧ !m.ignoreNack then (false, b) else (true, b)) := by
  obtain ⟨b', h', ht'⟩ := sendAddress_spec hE a retries h
  have hx : (match i2cSendAddress E a retries b with
      | (ret, b) => if ret ≠ 1 ∧ !m.ignoreNack then (false, b) else (true, b)) =
      ((address T a retries items).1 || m.ignoreNack, b') := by
    rw [h']
    dsimp only
    simp only [refused_iff]
    cases (address T a retries items).1 <;> cases m.ignoreNack <;> rfl
  rw [hx]
  refine ⟨rfl, fun hok => ?_, fun hno => ?_⟩
  · cases hrd : m.rd with
    | false =>
      rw [after_first_write (ha.trans hrd)] at ht'
      exact ht'
    | true =>
      -- a read does not ignore a refusal
      have hack : (address T a retries items).1 = true := by
        rw [hm hrd, Bool.or_false] at hok
        exact hok
      rw [after_first_read (ha.trans hrd), hack] at ht'
      exact ht'
  · have hack : (address T a retries items).1 = false := (Bool.or_eq_false_iff.mp hno).1
    rw [hack] at ht'
    exact ⟨_, after_first_refused a, ht'⟩

/-- **The address of a message**, with seven bits or ten. -/
theorem bitSendAddress_spec (hE : Follows E T) (busRetries : ℕ) {m : Msg}
    (hm : m.rd = true → m.ignoreNack = false) (h : Talk b items .first []) :
    Addressed m (addressMsg T busRetries m items) (i2cBitSendAddress E busRetries m b) := by
  unfold i2cBitSendAddress addressMsg
  generalize (if m.ignoreNack then 0 else busRetries) = retries
  dsimp only
  cases h10 : m.addr10bit with
  | false => exact addressed_last hE hm m.getLsbD_addr7 retries h
  | true =>
    obtain ⟨b₁, h₁, ht₁⟩ := sendAddress_spec hE m.addr1 retries h
    rw [after_first_write m.getLsbD_addr1] at ht₁
    rw [if_pos rfl, if_pos rfl, h₁]
    dsimp only
    simp only [refused_iff]
    by_cases hr₁ : (!(address T m.addr1 retries items).1 && !m.ignoreNack) = true
    · rw [if_pos hr₁, if_pos hr₁]
      exact ⟨rfl, fun hok => absurd hok Bool.false_ne_true, fun _ => ⟨.master, fun h' => Dir.noConfusion h', ht₁⟩⟩
    rw [if_neg hr₁, if_neg hr₁]
    obtain ⟨b₂, h₂, ht₂⟩ := writeb_spec hE ht₁ rfl m.addr2
    have ht₂ : Talk b₂ (say T (address T m.addr1 retries items).2 m.addr2) .master [] := ht₂
    rw [h₂]
    dsimp only
    simp only [refused_iff]
    by_cases hr₂ : (!T.ack (address T m.addr1 retries items).2 m.addr2 && !m.ignoreNack) = true
    · rw [if_pos hr₂, if_pos hr₂]
      exact ⟨rfl, fun hok => absurd hok Bool.false_ne_true, fun _ => ⟨.master, fun h' => Dir.noConfusion h', ht₂⟩⟩
    rw [if_neg hr₂, if_neg hr₂]
    cases hrd : m.rd with
    | false =>
      refine ⟨rfl, fun _ => ?_, fun hno => absurd hno.symm Bool.false_ne_true⟩
      rw [hrd]
      exact ht₂
    | true =>
      have hrestart := restart_spec hE ht₂ fun h' => Dir.noConfusion h'
      exact addressed_last hE hm (m.getLsbD_addr1_rd.trans hrd.symm) retries hrestart

/-- A message without the flags that leave the start condition, the acknowledge bits of a read or the
stop condition out; a read has a byte at least and does not ignore a refusal. -/
structure Msg.Plain (m : Msg) : Prop where
  noStart : m.noStart = false
  noReadAck : m.noReadAck = false
  noStop : m.noStop = false
  read : m.rd = true → m.ignoreNack = false ∧ m.buf ≠ []

theorem xferData_read (hE : Follows E T) {m : Msg} (hm : m.Plain) (hrd : m.rd = true)
    (h : Talk b items .device []) :
    ∃ b', xferData E m b = ((none, (fetch T m.buf.length items).1), b') ∧
      Talk b' (fetch T m.buf.length items).2 .off [] := by
  have hlen : m.buf.length ≠ 0 := fun h0 => (hm.read hrd).2 (List.eq_nil_of_length_eq_zero h0)
  obtain ⟨b', h', ht'⟩ := recvBytes_spec hE m.buf.length (b := b) (by rw [if_neg hlen]; exact h) []
  refine ⟨b', ?_, ht'⟩
  unfold xferData
  rw [if_pos hrd, hm.noReadAck, h']
  dsimp only
  rw [List.nil_append, List.length_nil, Nat.zero_add, if_neg (lt_irrefl _), length_fetch,
    List.drop_length, List.append_nil]

theorem xferData_write (hE : Follows E T) {m : Msg} (hrd : m.rd = false) (h : Talk b items .master []) :
    ∃ b', xferData E m b =
        ((if (payload T m.ignoreNack m.buf items).1 then none else some (-rtError), m.buf), b') ∧
      Talk b' (payload T m.ignoreNack m.buf items).2 .master [] := by
  obtain ⟨b', h', ht'⟩ := sendBytes_spec hE m.ignoreNack m.buf h 0
  refine ⟨b', ?_, ht'⟩
  unfold xferData
  rw [hrd, if_neg Bool.false_ne_true, h']
  dsimp only
  cases hp : (payload T m.ignoreNack m.buf items).1 with
  | true => rw [if_pos rfl, if_pos rfl, Nat.zero_add, if_neg (lt_irrefl _)]
  | false =>
    have hpos : (0 : ℤ) < m.buf.length := by
      cases hbuf : m.buf with
      | nil =>
        rw [hbuf] at hp
        cases hp
      | cons data rest => exact Int.natCast_pos.mpr (Nat.succ_pos _)
    rw [if_neg Bool.false_ne_true, if_neg Bool.false_ne_true, if_pos hpos, if_pos le_rfl]

/-- **A message**, behind its start condition. -/
theorem xferMsg_spec (hE : Follows E T) (busRetries : ℕ) (first : Bool) {m : Msg} (hm : m.Plain)
    (h : Talk (if first then i2cStart E b else i2cRestart E b) items .first []) :
    ∃ b' dir, dir ≠ .device ∧
      xferMsg E busRetries first m b = ((message T busRetries m items).1, b') ∧
      Talk b' (message T busRetries m items).2 dir [] := by
  have hsent := bitSendAddress_spec hE busRetries (fun hrd => (hm.read hrd).1) h
  unfold xferMsg message
  rw [hm.noStart, if_neg Bool.false_ne_true]
  generalize i2cBitSendAddress E busRetries m (if first then i2cStart E b else i2cRestart E b) = x at hsent ⊢
  have hig : m.ignoreNack = true → (addressMsg T busRetries m items).1 = true :=
    fun hi => addressMsg_of_ignoreNack T busRetries hi items
  generalize addressMsg T busRetries m items = r at hsent hig ⊢
  obtain ⟨ok, b₁⟩ := x
  obtain ⟨ok', items₁⟩ := r
  obtain rfl : ok = ok' := hsent.ret
  cases ok with
  | false =>
    obtain ⟨dir, hd, ht⟩ := hsent.refused rfl
    refine ⟨b₁, dir, hd, ?_, ht⟩
    have hni : m.ignoreNack = false := by
      rw [← Bool.not_eq_true]
      exact fun hi => Bool.false_ne_true (hig hi)
    rw [hni]
    rfl
  | true =>
    have ht := hsent.ok rfl
    cases hrd : m.rd with
    | true =>
      rw [hrd, if_pos rfl] at ht
      obtain ⟨b', h', ht'⟩ := xferData_read hE hm hrd ht
      exact ⟨b', .off, fun h' => Dir.noConfusion h', h', ht'⟩
    | false =>
      rw [hrd, if_neg Bool.false_ne_true] at ht
      obtain ⟨b', h', ht'⟩ := xferData_write hE hrd ht
      refine ⟨b', .master, fun h' => Dir.noConfusion h', ?_, ?_⟩
      · refine h'.trans ?_
        dsimp only
        rw [if_neg Bool.false_ne_true]
        generalize payload T m.ignoreNack m.buf items₁ = q
        obtain ⟨q1, q2⟩ := q
        cases q1 <;> rfl
      · dsimp only at ht' ⊢
        rw [if_neg Bool.false_ne_true]
        generalize payload T m.ignoreNack m.buf items₁ = q at ht' ⊢
        obtain ⟨q1, q2⟩ := q
        cases q1 <;> exact ht'

/-! ## Transfers -/

/-- The lines before message `i` of a transfer. -/
def Before (b : Bus) (items : List Item) : ℕ → Prop
  | 0 => Quiet b items
  | _ + 1 => ∃ dir, dir ≠ .device ∧ Talk b items dir []

theorem Before.start (hE : Follows E T) {i : ℕ} (h : Before b items i) :
    Talk (if (i == 0) = true then i2cStart E b else i2cRestart E b) (items ++ [.start]) .first [] := by
  cases i with
  | zero => exact start_spec hE h
  | succ i =>
    obtain ⟨dir, hd, ht⟩ := h
    exact restart_spec hE ht hd

theorem xferLoop_spec (hE : Follows E T) (busRetries i : ℕ) {m : Msg} {ms : List Msg}
    (hms : ∀ m' ∈ m :: ms, m'.Plain) {b : Bus} {items : List Item} (h : Before b items i) :
    ∃ b', xferLoop E busRetries i m ms b = ((transfer T busRetries i m ms items).1, b') ∧
      Quiet b' (transfer T busRetries i m ms items).2 := by
  induction ms generalizing i m b items with
  | nil =>
    have hm := hms m List.mem_cons_self
    obtain ⟨b₁, dir, hd, h₁, ht₁⟩ := xferMsg_spec hE busRetries (i == 0) hm (h.start hE)
    have hstop := stop_spec hE ht₁ hd
    unfold xferLoop transfer
    rw [h₁]
    generalize message T busRetries m (items ++ [.start]) = r at hstop
    obtain ⟨⟨err, buf⟩, items₁⟩ := r
    refine ⟨i2cStop E b₁, ?_, ?_⟩
    · cases err <;> simp [xferOut, hm.noStop]
    · cases err <;> exact hstop
  | cons m' ms ih =>
    have hm := hms m List.mem_cons_self
    obtain ⟨b₁, dir, hd, h₁, ht₁⟩ := xferMsg_spec hE busRetries (i == 0) hm (h.start hE)
    unfold xferLoop transfer
    rw [h₁]
    generalize message T busRetries m (items ++ [.start]) = r at ht₁
    obtain ⟨⟨err, buf⟩, items₁⟩ := r
    cases err with
    | some ret =>
      refine ⟨i2cStop E b₁, ?_, stop_spec hE ht₁ hd⟩
      simp [xferOut, hm.noStop]
    | none =>
      obtain ⟨b', h', hq⟩ := ih (i + 1) (fun x hx => hms x (List.mem_cons_of_mem _ hx)) ⟨dir, hd, ht₁⟩
      refine ⟨b', ?_, hq⟩
      dsimp only
      rw [h']

/-- A transfer and what it returns, byte by byte. -/
def xferBytes (T : Target) (busRetries : ℕ) (x : Msg × List Msg) (items : List Item) :
    (ℤ × List (List Byte)) × List Item :=
  transfer T busRetries 0 x.1 x.2 items

/-- Transfers one after another: the results, and the state. -/
def transfers {σ : Type*} (f : Msg × List Msg → σ → (ℤ × List (List Byte)) × σ) :
    List (Msg × List Msg) → σ → List (ℤ × List (List Byte)) × σ
  | [], s => ([], s)
  | x :: xs, s =>
    match f x s with
    | (r, s) =>
      match transfers f xs s with
      | (rs, s) => (r :: rs, s)

end

/-- A device that takes every byte and sends `next`. -/
def eager (next : List Item → Byte) : Target where
  ack _ _ := true
  next := next

theorem follows_pull (T : Target) : Follows ⟨T.pull, fun _ => true⟩ T := ⟨rfl, fun _ => rfl⟩

theorem quiet_new : Quiet {} [] := ⟨⟨rfl, rfl, rfl⟩, rfl, rfl⟩

/-- **What the result of a transfer means.** For every transfer of plain messages that do not ignore a
refusal, and for all devices that follow the bus: `i2c_bit_xfer` returns the number of messages exactly
if the lines carried every message in full, each byte acknowledged, and what it read are the bytes on the
lines; otherwise it returns an error and the last byte on the lines was refused. Either way a stop
condition follows and the bus is free. -/
theorem xfer_result_means {E : Env} {T : Target} (hE : Follows E T) (busRetries : ℕ) (m : Msg)
    (ms : List Msg) (hms : ∀ m' ∈ m :: ms, m'.Plain ∧ m'.ignoreNack = false) {b : Bus} {items : List Item}
    (h : Quiet b items) :
    ∃ l, Quiet (i2cBitXfer E busRetries m ms b).2 (items ++ l ++ [.stop]) ∧
      ((i2cBitXfer E busRetries m ms b).1.1 = ((ms.length + 1 : ℕ) : ℤ) ∧
          Scripts busRetries (m :: ms) (i2cBitXfer E busRetries m ms b).1.2 l ∨
        (i2cBitXfer E busRetries m ms b).1.1 < 0 ∧ Refused l) := by
  obtain ⟨b', h', hq⟩ := xferLoop_spec hE busRetries 0 (fun x hx => (hms x hx).1) h
  obtain ⟨l, hl, hout⟩ := transfer_outcome T busRetries 0 m ms (fun x hx => (hms x hx).2) items
  have hx : i2cBitXfer E busRetries m ms b = ((transfer T busRetries 0 m ms items).1, b') := h'
  rw [hx]
  rw [hl] at hq
  refine ⟨l, hq, ?_⟩
  rcases hout with ⟨hret, hs⟩ | ⟨hret, hr⟩
  · left
    refine ⟨hret.trans ?_, hs⟩
    congr 1
    omega
  · right
    refine ⟨?_, hr⟩
    rcases hret with hret | hret <;> rw [hret] <;> decide

/-- A device that takes its address and refuses the rest. -/
theorem xfer_result_means_refused :
    ∃ l, Quiet (i2cBitXfer ⟨Target.pull ⟨fun _ b => b == 0x88, fun _ => 0⟩, fun _ => true⟩ 0
        ⟨0x44, 0, [0x2C, 0x06]⟩ [] {}).2 ([] ++ l ++ [.stop]) ∧
      ((i2cBitXfer ⟨Target.pull ⟨fun _ b => b == 0x88, fun _ => 0⟩, fun _ => true⟩ 0
            ⟨0x44, 0, [0x2C, 0x06]⟩ [] {}).1.1 = (((0 : ℕ) + 1 : ℕ) : ℤ) ∧
          Scripts 0 [⟨0x44, 0, [0x2C, 0x06]⟩] (i2cBitXfer ⟨Target.pull ⟨fun _ b => b == 0x88,
            fun _ => 0⟩, fun _ => true⟩ 0 ⟨0x44, 0, [0x2C, 0x06]⟩ [] {}).1.2 l ∨
        (i2cBitXfer ⟨Target.pull ⟨fun _ b => b == 0x88, fun _ => 0⟩, fun _ => true⟩ 0
          ⟨0x44, 0, [0x2C, 0x06]⟩ [] {}).1.1 < 0 ∧ Refused l) := by
  refine xfer_result_means (follows_pull _) 0 _ [] ?_ quiet_new
  intro m hm
  obtain rfl : m = ⟨0x44, 0, [0x2C, 0x06]⟩ := by simpa using hm
  exact ⟨⟨rfl, rfl, rfl, fun h => absurd h (by decide)⟩, rfl⟩

end PipeGallery.I2c
