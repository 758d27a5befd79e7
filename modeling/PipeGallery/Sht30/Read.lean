import PipeGallery.Lib.Crc
import PipeGallery.Report.Encode

set_option autoImplicit false

/-!
# The temperature and humidity sensor

`sht30App.c`: the sensor sends each word with a check byte, and a reading counts only if both checks
pass.

* `sht30Crc8`, `sht30ReadOnce`, `sht30ThreadCycle`, `sht30Thread`: the code;
* **`sht30Crc8_eq_crc`**, `generator_eq`: the check byte as a remainder;
* `Burst`, `FewFlips`, **`crcPasses_burst`**, **`crcPasses_fewFlips`**: errors that are noticed;
* **`sht30ReadOnce_sent`**: an undamaged answer is read as it was sent;
* **`corruption_caught`**: a damaged answer changes nothing.
-/

namespace PipeGallery.Sht30

open Lib.Crc Polynomial
open Report (CFloat)

def rtError : ℤ := 1

def sht30I2cAddr : BitVec 16 := 0x44

def sht30CmdMeasHighRep : List (BitVec 8) := [0x2C, 0x06]

/-! ## The code -/

/-- The body of the inner loop of `sht30_crc8`. -/
def crcShift (crc : BitVec 8) : BitVec 8 :=
  if crc &&& 0x80 ≠ 0 then (crc <<< 1) ^^^ 0x31 else crc <<< 1

/-- `sht30_crc8`. -/
def sht30Crc8 (data : List (BitVec 8)) (len : ℕ) : BitVec 8 :=
  (data.take len).foldl (fun crc b => crcShift^[8] (crc ^^^ b)) 0xFF

/-- The check of `n` bytes against the byte that follows them. -/
def crcPasses (buf : List (BitVec 8)) (n : ℕ) : Bool := sht30Crc8 buf n == buf.getD n 0

/-- A message of `rt_i2c_transfer`. -/
inductive Msg where
  | wr (addr : BitVec 16) (buf : List (BitVec 8))
  | rd (addr : BitVec 16) (len : ℕ)

/-- The bus during a reading: the result of `rt_i2c_transfer` and the bytes that it left in `buf`. -/
abbrev Bus := Msg → ℤ × (Fin 6 → BitVec 8)

section
variable {F : Type*} [CFloat F]

/-- `((rt_uint16_t)hi << 8) | lo`. -/
def rawWord (hi lo : BitVec 8) : BitVec 16 := (hi.zeroExtend 16 <<< 8) ||| lo.zeroExtend 16

/-- `k * (float)raw / 65535.0f`. -/
def scale (k : BitVec 32) (raw : BitVec 16) : F :=
  CFloat.div (CFloat.mul (CFloat.ofInt k) (CFloat.ofInt (raw.zeroExtend 32))) (CFloat.ofInt 65535)

/-- `sht30_read_once`: its error code, or the temperature and the humidity. -/
def sht30ReadOnce (bus : Bus) : Except ℤ (F × F) :=
  if (bus (.wr sht30I2cAddr sht30CmdMeasHighRep)).1 ≠ 1 then .error (-rtError)
  else
    match bus (.rd sht30I2cAddr 6) with
    | (ret, buf) =>
      if ret ≠ 1 then .error (-rtError)
      else if !crcPasses [buf 0, buf 1, buf 2] 2 then .error (-rtError)
      else if !crcPasses [buf 3, buf 4, buf 5] 2 then .error (-rtError)
      -- `-45.0f + x` is `x - 45.0f`
      else
        .ok (CFloat.sub (scale 175 (rawWord (buf 0) (buf 1))) (CFloat.ofInt 45),
          scale 100 (rawWord (buf 3) (buf 4)))

/-- The globals of the sensor. -/
structure Globals (F : Type*) where
  gTemperatureC : F
  gHumidityRh : F

/-- An iteration of `sht30_thread_entry`. -/
def sht30ThreadCycle (s : Globals F) (bus : Bus) : Globals F :=
  match sht30ReadOnce bus with
  | .ok (temp, humi) => { gTemperatureC := temp, gHumidityRh := humi }
  | .error _ => s

/-- `sht30_thread_entry`. -/
def sht30Thread (s : Globals F) (buses : List Bus) : Globals F := buses.foldl sht30ThreadCycle s

end

/-! ## The check byte as a remainder -/

theorem crcShift_eq_shift (crc : BitVec 8) : crcShift crc = shift 0x31 crc := by
  revert crc
  decide

theorem sht30Crc8_eq_crc (m : List (BitVec 8)) (n : ℕ) : sht30Crc8 m n = crc 0x31 0xFF (m.take n) := by
  have hs : crcShift = shift 0x31 := funext crcShift_eq_shift
  rw [sht30Crc8, hs]
  rfl

example : sht30Crc8 [0xBE, 0xEF] 2 = 0x92 := by decide

/-- The generator of `0x31`. -/
theorem generator_eq : generator (0x31 : BitVec 8) = X ^ 8 + X ^ 5 + X ^ 4 + 1 := by
  have h : ofReg (0x31 : BitVec 8) = X ^ 5 + X ^ 4 + 1 := by
    simp only [ofReg, Finset.sum_range_succ, Finset.sum_range_zero]
    simp
    ring
  rw [generator, h]
  ring

theorem eval_generator : (generator (0x31 : BitVec 8)).eval 1 = 0 := by
  rw [generator_eq]
  simp
  decide

theorem crcPasses_eq_true_iff {m : List (BitVec 8)} {b : BitVec 8} :
    crcPasses (m ++ [b]) m.length ↔ crc 0x31 0xFF m = b := by
  rw [crcPasses, beq_iff_eq, sht30Crc8_eq_crc, List.take_left, List.getD_append_right _ _ _ _ le_rfl,
    Nat.sub_self, List.getD_cons_zero]

/-! ## Errors that are noticed -/

/-- A message as it is sent, with its check byte. -/
def coded (m : List (BitVec 8)) : List (BitVec 8) := m ++ [sht30Crc8 m m.length]

/-- Bits flipped within 8 consecutive positions. -/
def Burst (c c' : List (BitVec 8)) : Prop :=
  (flipped c c').Nonempty ∧ ∃ k, ∀ p ∈ flipped c c', k ≤ p ∧ p < k + 8

/-- One to three bits flipped. -/
def FewFlips (c c' : List (BitVec 8)) : Prop := 1 ≤ (flipped c c').card ∧ (flipped c c').card ≤ 3

/-- **What passes the check in place of a message.** -/
theorem crcPasses_iff_dvd {m c' : List (BitVec 8)} (h : c'.length = m.length + 1) :
    crcPasses c' m.length ↔ generator (0x31 : BitVec 8) ∣
      ∑ p ∈ flipped (coded m) c', X ^ (8 * (m.length + 1) - 1 - p) := by
  have hlen : (coded m).length = m.length + 1 := List.length_append
  have hcrc : crc 0x31 0xFF m = sht30Crc8 m m.length := by rw [sht30Crc8_eq_crc, List.take_length]
  rcases List.eq_nil_or_concat c' with rfl | ⟨m', b', rfl⟩
  · exact absurd h (Nat.succ_ne_zero m.length).symm
  · rw [List.concat_eq_append] at h ⊢
    have hm : m'.length = m.length := by
      rw [List.length_append, List.length_singleton] at h
      omega
    rw [← hlen, ← ofWords_add_ofWords (h.trans hlen.symm), ← hm, crcPasses_eq_true_iff]
    exact crc_eq_iff_of_crc_eq 0x31 hcrc hm

/-- **A burst is noticed.** -/
theorem crcPasses_burst {m c' : List (BitVec 8)} (h : c'.length = m.length + 1)
    (hb : Burst (coded m) c') : crcPasses c' m.length = false := by
  obtain ⟨hne, k, hk⟩ := hb
  have hlen : (coded m).length = m.length + 1 := List.length_append
  rw [← Bool.not_eq_true, crcPasses_iff_dvd h]
  refine not_dvd_burst (by decide) hne (fun p hp => ?_) hk
  rw [← hlen]
  exact lt_of_mem_flipped hp

/-- The register comes back to `1` after 127 steps, not before. -/
theorem shift_iterate_one_ne : ∀ d < 127, 0 < d → (shift (0x31 : BitVec 8))^[d] 1 ≠ 1 := by
  decide +kernel

/-- **Up to three flipped bits are noticed** in messages of up to 14 bytes. -/
theorem crcPasses_fewFlips {m c' : List (BitVec 8)} (h : c'.length = m.length + 1)
    (hm : m.length ≤ 14) (hf : FewFlips (coded m) c') : crcPasses c' m.length = false := by
  obtain ⟨h1, h3⟩ := hf
  have hlen : (coded m).length = m.length + 1 := List.length_append
  rw [← Bool.not_eq_true, crcPasses_iff_dvd h]
  by_cases hodd : Odd (flipped (coded m) c').card
  · exact not_dvd_odd eval_generator hodd _
  · have h2 : (flipped (coded m) c').card = 2 := by
      rw [Nat.not_odd_iff] at hodd
      omega
    obtain ⟨p, q, hpq, hS⟩ := Finset.card_eq_two.mp h2
    have hp : p < 8 * (m.length + 1) := hlen ▸ lt_of_mem_flipped (hS ▸ Finset.mem_insert_self p {q})
    have hq : q < 8 * (m.length + 1) :=
      hlen ▸ lt_of_mem_flipped (hS ▸ Finset.mem_insert_of_mem (Finset.mem_singleton_self q))
    rw [hS, Finset.sum_pair hpq]
    rcases Nat.lt_or_gt_of_ne hpq with hlt | hlt
    · have he : 8 * (m.length + 1) - 1 - p = 8 * (m.length + 1) - 1 - q + (q - p) := by omega
      rw [he, add_comm]
      exact not_dvd_pair (by decide) (shift_iterate_one_ne _ (by omega) (by omega))
    · have he : 8 * (m.length + 1) - 1 - q = 8 * (m.length + 1) - 1 - p + (p - q) := by omega
      rw [he]
      exact not_dvd_pair (by decide) (shift_iterate_one_ne _ (by omega) (by omega))

/-! ## Damaged answers -/

/-- A word as the sensor sends it. -/
def group (word : BitVec 16) : List (BitVec 8) :=
  coded [word.extractLsb' 8 8, word.extractLsb' 0 8]

/-- The damage that the check of a word is made for. -/
def Damaged (c c' : List (BitVec 8)) : Prop := FewFlips c c' ∨ Burst c c'

example : Damaged (group 0xBEEF) [0xBF, 0xEF, 0x92] := .inl (by unfold FewFlips; decide +kernel)

theorem crcPasses_damaged {word : BitVec 16} {x y z : BitVec 8} (h : Damaged (group word) [x, y, z]) :
    crcPasses [x, y, z] 2 = false := by
  rcases h with h | h
  · exact crcPasses_fewFlips (m := [word.extractLsb' 8 8, word.extractLsb' 0 8]) rfl (by simp) h
  · exact crcPasses_burst (m := [word.extractLsb' 8 8, word.extractLsb' 0 8]) rfl h

/-- The two bytes of a word give the word back. -/
theorem rawWord_extractLsb (word : BitVec 16) :
    rawWord (word.extractLsb' 8 8) (word.extractLsb' 0 8) = word := by
  refine BitVec.eq_of_getLsbD_eq fun i hi => ?_
  rw [rawWord, BitVec.getLsbD_or, BitVec.getLsbD_shiftLeft, BitVec.getLsbD_setWidth,
    BitVec.getLsbD_setWidth, BitVec.getLsbD_extractLsb', BitVec.getLsbD_extractLsb']
  rcases Nat.lt_or_ge i 8 with h8 | h8
  · simp [hi, h8]
  · have hlt : i - 8 < 8 := by omega
    have hlt' : i - 8 < 16 := by omega
    have hadd : 8 + (i - 8) = i := by omega
    simp [hi, not_lt.mpr h8, hlt, hlt', hadd]

theorem crcPasses_group (word : BitVec 16) : crcPasses (group word) 2 = true := by
  have h : crcPasses (group word) 2 ↔ crc 0x31 0xFF [word.extractLsb' 8 8, word.extractLsb' 0 8] =
      sht30Crc8 [word.extractLsb' 8 8, word.extractLsb' 0 8] 2 :=
    crcPasses_eq_true_iff (m := [word.extractLsb' 8 8, word.extractLsb' 0 8])
  rw [h, sht30Crc8_eq_crc]
  rfl

section
variable {F : Type*} [CFloat F]

/-- **An undamaged answer** is read as it was sent. -/
theorem sht30ReadOnce_sent {bus : Bus} {buf : Fin 6 → BitVec 8} {temp humi : BitVec 16}
    (hwr : (bus (.wr sht30I2cAddr sht30CmdMeasHighRep)).1 = 1)
    (hrd : bus (.rd sht30I2cAddr 6) = (1, buf)) (ht : [buf 0, buf 1, buf 2] = group temp)
    (hh : [buf 3, buf 4, buf 5] = group humi) :
    sht30ReadOnce (F := F) bus =
      .ok (CFloat.sub (scale 175 temp) (CFloat.ofInt 45), scale 100 humi) := by
  have hpass := crcPasses_group temp
  have hpass' := crcPasses_group humi
  rw [← ht] at hpass
  rw [← hh] at hpass'
  simp only [group, coded, List.cons_append, List.nil_append, List.cons.injEq] at ht hh
  rw [sht30ReadOnce, hwr, hrd]
  simp only [ne_eq, not_true_eq_false, if_false, hpass, hpass', Bool.not_true, Bool.false_eq_true]
  rw [ht.1, ht.2.1, hh.1, hh.2.1, rawWord_extractLsb, rawWord_extractLsb]

/-- A reading counts only if both checks pass. -/
theorem sht30ReadOnce_eq_error {bus : Bus} {buf : Fin 6 → BitVec 8}
    (hbuf : (bus (.rd sht30I2cAddr 6)).2 = buf)
    (h : crcPasses [buf 0, buf 1, buf 2] 2 = false ∨ crcPasses [buf 3, buf 4, buf 5] 2 = false) :
    sht30ReadOnce (F := F) bus = .error (-rtError) := by
  rw [sht30ReadOnce]
  split_ifs with hwr
  · rfl
  · rcases hrd : bus (.rd sht30I2cAddr 6) with ⟨ret, buf'⟩
    obtain rfl : buf' = buf := by rw [← hbuf, hrd]
    rcases h with h | h
    · simp [h]
    · simp [h]

theorem sht30ThreadCycle_of_error {s : Globals F} {bus : Bus} {e : ℤ}
    (h : sht30ReadOnce (F := F) bus = .error e) : sht30ThreadCycle s bus = s := by
  rw [sht30ThreadCycle, h]

/-- **Corruption is caught**: the check byte is the remainder of a polynomial division, no burst passes
the check, and a damaged answer leaves the globals of any run as they were. -/
theorem corruption_caught :
    (∀ m : List (BitVec 8), ofReg (sht30Crc8 m m.length) =
      (ofReg (0xFF : BitVec 8) * X ^ (8 * m.length) + ofWords m * X ^ 8) %ₘ
        (X ^ 8 + X ^ 5 + X ^ 4 + 1)) ∧
    (∀ m c' : List (BitVec 8), c'.length = (coded m).length → Burst (coded m) c' →
      crcPasses c' m.length = false) ∧
    ∀ (temp humi : BitVec 16) (bus : Bus) (buf : Fin 6 → BitVec 8),
      (bus (.rd sht30I2cAddr 6)).2 = buf →
      Damaged (group temp) [buf 0, buf 1, buf 2] ∨ Damaged (group humi) [buf 3, buf 4, buf 5] →
      sht30ReadOnce (F := F) bus = .error (-rtError) ∧
        ∀ (s : Globals F) (buses : List Bus), sht30Thread s (buses ++ [bus]) = sht30Thread s buses := by
  refine ⟨fun m => ?_, fun m c' hlen hb => ?_, fun temp humi bus buf hbuf h => ?_⟩
  · rw [sht30Crc8_eq_crc, List.take_length, ofReg_crc, generator_eq]
  · exact crcPasses_burst (hlen.trans List.length_append) hb
  · have he : sht30ReadOnce (F := F) bus = .error (-rtError) :=
      sht30ReadOnce_eq_error hbuf (h.imp crcPasses_damaged crcPasses_damaged)
    refine ⟨he, fun s buses => ?_⟩
    rw [sht30Thread, List.foldl_concat, sht30ThreadCycle_of_error he, ← sht30Thread]

end

end PipeGallery.Sht30
