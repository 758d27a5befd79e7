import PipeGallery.Lib.Template
import PipeGallery.Report.Decode

set_option autoImplicit false

/-!
# The LoRa report

`lora_build_text` and `lora_thread_entry` of `loraApp.c`: every period the globals are printed into a buffer
of 256 bytes, and `uart5_send` writes its C string to the transparent radio.

* `cString_rtSnprintf`: what a call of `rt_snprintf` leaves in its buffer, when it fits and when not;
* `loraCall`, `loraBuildText`, `loraTurn`, `loraRun`: the thread;
* `loraFields`, `text_loraCall`: the text as a filled template;
* `length_loraCall_le`: the text fits while the ADC words have 16 bits;
* **`lora_reads_back`**: a receiver that knows the format reads every report of the stream.
-/

namespace PipeGallery.Report

open Lib

/-! ## A buffer that may be too small -/

/-- The characters in front of the end are stored in order. -/
theorem emit_get_of_lt (stop : ℕ) (m : Mem) (str : ℕ) (cs : List Char) {i : ℕ} (hi : i < cs.length)
    (hs : str + i < stop) : (emit stop m str cs).1 (str + i) = cs[i] := by
  induction cs generalizing m str i with
  | nil => exact absurd hi (Nat.not_lt_zero i)
  | cons c cs ih =>
    rw [List.length_cons] at hi
    rw [emit, if_pos (by omega)]
    cases i with
    | zero =>
      rw [emit_frame _ _ _ _ (by omega)]
      exact Function.update_self _ _ _
    | succ i =>
      rw [show str + (i + 1) = str + 1 + i by omega, ih _ _ (by omega) (by omega)]
      rfl

/-- **The C string behind a call** is as much of the text as the buffer has room for. -/
theorem cString_rtSnprintf (m : Mem) {buf size : ℕ} (hw : buf + size < 2 ^ 32) (hs : 0 < size)
    {fmt : List Char} {args : List Arg} (h0 : '\x00' ∉ formatted fmt args) :
    cString (rtSnprintf m buf size fmt args).1 buf size = (formatted fmt args).take (size - 1) := by
  by_cases hfit : (formatted fmt args).length < size
  · obtain ⟨-, h2, h3, -⟩ := rtSnprintf_fits m hw hfit
    rw [List.take_of_length_le (by omega)]
    exact cString_eq h2 h3 h0 hfit
  · have hstop : (if (buf + size) % 2 ^ 32 < buf then 2 ^ 32 - 1 else (buf + size) % 2 ^ 32) = buf + size := by
      rw [Nat.mod_eq_of_lt hw, if_neg (by omega)]
    have hmem : (rtSnprintf m buf size fmt args).1 = Function.update
        (emit (buf + size) m buf (formatted fmt args)).1 (buf + size - 1) '\x00' := by
      simp only [rtSnprintf, hstop, emit_snd]
      rw [if_pos (by omega), if_neg (by omega)]
    have hlen : ((formatted fmt args).take (size - 1)).length = size - 1 := by
      rw [List.length_take]
      omega
    apply cString_eq
    · intro i hi
      rw [hlen] at hi
      rw [hmem, Function.update_of_ne (by omega), emit_get_of_lt _ _ _ _ (by omega) (by omega), List.getElem_take]
    · rw [hlen, hmem, show buf + (size - 1) = buf + size - 1 by omega, Function.update_self]
    · exact fun h => h0 (List.mem_of_mem_take h)
    · rw [hlen]
      omega

/-! ## The thread -/

variable {F : Type*} [CFloat F]

/-- `LORA_TEXT_BUF_SIZE`. -/
def loraTextBufSize : ℕ := 256

def loraFormat : String :=
  "Flame: %u,%u,%u,%u,%u\r\n" ++ "gas: ppm: %u , level: %u%%\r\n" ++
    "voltage_a: %dV,voltage_b: %dV,voltage_c: %dV\r\n" ++
    "current_a: %dA,current_b: %dA,current_c: %dA\r\n" ++ "flow: %d m^3/h\r\n"

/-- The measurements whose integer parts are reported: `Voltage`, `Current` and `Flow`. -/
def loraFloats (s : Snapshot F) : List F := List.ofFn s.voltage ++ (List.ofFn s.current ++ [s.flow])

/-- The call of `rt_snprintf` in `lora_build_text`. -/
def loraCall (s : Snapshot F) : Call :=
  ⟨loraFormat.toList,
    [.num s.gAdcCh0, .num s.gAdcCh1, .num s.gAdcCh3, .num s.gAdcCh4, .num s.gAdcCh5,
      .num (s.gMethanePpm.zeroExtend 32), .num (s.gMethaneLel.zeroExtend 32)] ++
      (loraFloats s).map fun v => .num (intPart v)⟩

/-- `lora_build_text(buf, size)`. -/
def loraBuildText (m : Mem) (buf size : ℕ) (s : Snapshot F) : Mem :=
  (rtSnprintf m buf size (loraCall s).fmt (loraCall s).args).1

/-- The thread's `text_buf`, at address 0, and what went out on UART5. -/
structure Lora where
  textBuf : Mem
  sent : List Char := []

/-- One period. -/
def loraTurn (x : Lora) (s : Snapshot F) : Lora :=
  let m := loraBuildText x.textBuf 0 loraTextBufSize s
  { textBuf := m, sent := x.sent ++ cString m 0 loraTextBufSize }

/-- The periods with these globals. -/
def loraRun (x : Lora) (gs : List (Snapshot F)) : Lora := gs.foldl loraTurn x

/-! ## The text -/

/-- The characters of the numbers. -/
def numeral (c : Char) : Bool := c.isDigit || c == '-'

def loraLead : List Char := "Flame: ".toList

/-- What stands behind each number. -/
def loraLiterals : List (List Char) :=
  [",", ",", ",", ",", "\r\ngas: ppm: ", " , level: ", "%\r\nvoltage_a: ", "V,voltage_b: ", "V,voltage_c: ",
    "V\r\ncurrent_a: ", "A,current_b: ", "A,current_c: ", "A\r\nflow: ", " m^3/h\r\n"].map String.toList

/-- The numbers of a report. -/
def loraFields (s : Snapshot F) : List (List Char) :=
  [udec s.gAdcCh0.toNat, udec s.gAdcCh1.toNat, udec s.gAdcCh3.toNat, udec s.gAdcCh4.toNat,
    udec s.gAdcCh5.toNat, udec s.gMethanePpm.toNat, udec s.gMethaneLel.toNat] ++
    (loraFloats s).map fun v => sdec (intPart v)

/-- The values that they stand for. -/
def loraValues (s : Snapshot F) : List ℤ :=
  [(s.gAdcCh0.toNat : ℤ), s.gAdcCh1.toNat, s.gAdcCh3.toNat, s.gAdcCh4.toNat, s.gAdcCh5.toNat,
    s.gMethanePpm.toNat, s.gMethaneLel.toNat] ++ (loraFloats s).map fun v => (intPart v).toInt

omit [CFloat F] in
/-- There are seven of them. -/
theorem loraFloats_shape (s : Snapshot F) : ∃ a b c d e f g, loraFloats s = [a, b, c, d, e, f, g] :=
  ⟨_, _, _, _, _, _, _, rfl⟩

/-- `%%` prints one `%`. -/
theorem formatted_percent (fmt : List Char) (args : List Arg) :
    formatted ('%' :: '%' :: fmt) args = '%' :: formatted fmt args := by
  change ['%'] ++ formatLoop _ fmt args = _
  rw [formatLoop_eq (by simp)]
  rfl

/-- A number of the template: its conversion, and the literal behind it. -/
def numberPiece (conv : Char) (l : List Char) : List Char := '%' :: conv :: l

theorem formatted_numberPiece_u {l : List Char} (h : '%' ∉ l) (w : BitVec 32) (fmt : List Char)
    (args : List Arg) : formatted (numberPiece 'u' l ++ fmt) (.num w :: args) =
      udec w.toNat ++ (l ++ formatted fmt args) := by
  rw [numberPiece, List.cons_append, List.cons_append, formatted_u, formatted_plain h]

theorem formatted_numberPiece_d {l : List Char} (h : '%' ∉ l) (w : BitVec 32) (fmt : List Char)
    (args : List Arg) : formatted (numberPiece 'd' l ++ fmt) (.num w :: args) =
      sdec w ++ (l ++ formatted fmt args) := by
  rw [numberPiece, List.cons_append, List.cons_append, formatted_d, formatted_plain h]

/-- The number with `%%` behind it. -/
theorem formatted_numberPiece_percent {l : List Char} (h : '%' ∉ l) (w : BitVec 32) (fmt : List Char)
    (args : List Arg) : formatted (numberPiece 'u' ('%' :: '%' :: l) ++ fmt) (.num w :: args) =
      udec w.toNat ++ ('%' :: l ++ formatted fmt args) := by
  rw [numberPiece, List.cons_append, List.cons_append, formatted_u, List.cons_append, List.cons_append,
    formatted_percent, formatted_plain h]
  rfl

/-- The format, cut at its conversions. -/
theorem loraFormat_eq : loraFormat.toList = loraLead ++ (numberPiece 'u' ",".toList ++
    (numberPiece 'u' ",".toList ++ (numberPiece 'u' ",".toList ++ (numberPiece 'u' ",".toList ++
    (numberPiece 'u' "\r\ngas: ppm: ".toList ++ (numberPiece 'u' " , level: ".toList ++
    (numberPiece 'u' ('%' :: '%' :: "\r\nvoltage_a: ".toList) ++ (numberPiece 'd' "V,voltage_b: ".toList ++
    (numberPiece 'd' "V,voltage_c: ".toList ++ (numberPiece 'd' "V\r\ncurrent_a: ".toList ++
    (numberPiece 'd' "A,current_b: ".toList ++ (numberPiece 'd' "A,current_c: ".toList ++
    (numberPiece 'd' "A\r\nflow: ".toList ++ (numberPiece 'd' " m^3/h\r\n".toList ++ [])))))))))))))) := by
  decide +kernel

/-- **The text is the template, filled in.** -/
theorem text_loraCall (s : Snapshot F) : (loraCall s).text = loraLead ++ fill loraLiterals (loraFields s) := by
  obtain ⟨a, b, c, d, e, f, g, hs⟩ := loraFloats_shape s
  rw [Call.text, loraCall, loraFields, hs]
  simp only [List.map_cons, List.map_nil, List.cons_append, List.nil_append]
  rw [loraFormat_eq, formatted_plain (by decide)]
  iterate 6 rw [formatted_numberPiece_u (by decide)]
  rw [formatted_numberPiece_percent (by decide)]
  iterate 7 rw [formatted_numberPiece_d (by decide)]
  rw [formatted_nil, BitVec.toNat_setWidth_of_le (by decide), BitVec.toNat_setWidth_of_le (by decide)]
  rfl

/-! ## What is sent -/

/-- The ADC words are 16-bit readings, as `adc_read_thread_entry` stores them. -/
structure AdcWords (s : Snapshot F) : Prop where
  ch0 : s.gAdcCh0.toNat ≤ 65535
  ch1 : s.gAdcCh1.toNat ≤ 65535
  ch3 : s.gAdcCh3.toNat ≤ 65535
  ch4 : s.gAdcCh4.toNat ≤ 65535
  ch5 : s.gAdcCh5.toNat ≤ 65535

/-- The longest numbers take 110 characters. -/
theorem length_loraFields_le {s : Snapshot F} (hs : AdcWords s) :
    ((loraFields s).map List.length).sum ≤ 110 := by
  have hadc : ∀ n, n ≤ 65535 → (udec n).length ≤ 5 := fun n hn => length_udec_le (by decide) (by omega)
  have h0 := hadc _ hs.ch0
  have h1 := hadc _ hs.ch1
  have h3 := hadc _ hs.ch3
  have h4 := hadc _ hs.ch4
  have h5 := hadc _ hs.ch5
  have hppm := hadc s.gMethanePpm.toNat (Nat.le_of_lt_succ s.gMethanePpm.isLt)
  have hlel : (udec s.gMethaneLel.toNat).length ≤ 3 :=
    length_udec_le (by decide) (s.gMethaneLel.isLt.trans (by decide))
  have hv := fun v : F => length_sdec_le (intPart v)
  obtain ⟨a, b, c, d, e, f, g, hs⟩ := loraFloats_shape s
  simp only [loraFields, hs, List.map_append, List.map_cons, List.map_nil, List.sum_append, List.sum_cons,
    List.sum_nil]
  linarith only [h0, h1, h3, h4, h5, hppm, hlel, hv a, hv b, hv c, hv d, hv e, hv f, hv g]

/-- The longest report takes 240 characters. -/
theorem length_loraCall_le {s : Snapshot F} (hs : AdcWords s) : (loraCall s).text.length ≤ 240 := by
  have hlit : loraLead.length + (loraLiterals.map List.length).sum = 130 := by decide +kernel
  have hfields := length_loraFields_le hs
  have hfill : (fill loraLiterals (loraFields s)).length =
      (loraLiterals.map List.length).sum + ((loraFields s).map List.length).sum := length_fill rfl
  rw [text_loraCall, List.length_append, hfill]
  omega

theorem numeral_loraFields (s : Snapshot F) : ∀ f ∈ loraFields s, ∀ c ∈ f, numeral c = true := by
  have hu : ∀ n, ∀ c ∈ udec n, numeral c = true := by
    intro n c hc
    rw [numeral, isDigit_of_mem_udec hc, Bool.true_or]
  have hd : ∀ w, ∀ c ∈ sdec w, numeral c = true := by
    intro w c hc
    unfold sdec at hc
    split_ifs at hc
    · rcases List.mem_cons.mp hc with rfl | hc
      · decide
      · exact hu _ c hc
    · exact hu _ c hc
  intro f hf
  rw [loraFields, List.mem_append] at hf
  rcases hf with hf | hf
  · revert f
    simp only [List.forall_mem_cons, List.not_mem_nil, false_implies, implies_true, and_true]
    exact ⟨hu _, hu _, hu _, hu _, hu _, hu _, hu _⟩
  · obtain ⟨v, -, rfl⟩ := List.mem_map.mp hf
    exact hd _

theorem nul_not_mem_loraCall (s : Snapshot F) : '\x00' ∉ (loraCall s).text := by
  have hlead : '\x00' ∉ loraLead := by decide +kernel
  have hlit : ∀ l ∈ loraLiterals, '\x00' ∉ l := by decide +kernel
  rw [text_loraCall, List.mem_append, not_or]
  refine ⟨hlead, fun h => ?_⟩
  rcases mem_fill h with ⟨l, hl, hc⟩ | ⟨f, hf, hc⟩
  · exact hlit l hl hc
  · exact absurd (numeral_loraFields s f hf _ hc) (by decide)

/-- Each period sends as much of the text as the buffer has room for. -/
theorem sent_loraTurn (x : Lora) (s : Snapshot F) :
    (loraTurn x s).sent = x.sent ++ (loraCall s).text.take 255 := by
  rw [loraTurn]
  dsimp only
  rw [loraBuildText, cString_rtSnprintf _ (by decide) (by decide) (nul_not_mem_loraCall s)]
  rfl

theorem sent_loraRun (x : Lora) {gs : List (Snapshot F)} (hgs : ∀ s ∈ gs, AdcWords s) :
    (loraRun x gs).sent = x.sent ++ gs.flatMap fun s => loraLead ++ fill loraLiterals (loraFields s) := by
  induction gs generalizing x with
  | nil => rw [List.flatMap_nil, List.append_nil]; rfl
  | cons s gs ih =>
    rw [List.forall_mem_cons] at hgs
    have hturn : (loraTurn x s).sent = x.sent ++ (loraLead ++ fill loraLiterals (loraFields s)) := by
      rw [sent_loraTurn, List.take_of_length_le ((length_loraCall_le hgs.1).trans (by decide)), text_loraCall]
    rw [loraRun, List.foldl_cons, List.flatMap_cons, ← List.append_assoc, ← hturn]
    exact ih (loraTurn x s) hgs.2

/-- A decimal number with a sign. -/
def readInt (cs : List Char) : ℤ := if cs.head? = some '-' then -readNat cs.tail else readNat cs

theorem readInt_udec (n : ℕ) : readInt (udec n) = n := by
  have h : (udec n).head? ≠ some '-' := by
    intro h
    exact absurd (isDigit_of_mem_udec (List.mem_of_mem_head? h)) (by decide)
  rw [readInt, if_neg h, readNat_udec]

theorem readInt_sdec (w : BitVec 32) : readInt (sdec w) = w.toInt := by
  unfold sdec
  split_ifs with h
  · rw [readInt, List.head?_cons, if_pos rfl, List.tail_cons, readNat_udec, toInt_eq_of_isNeg h]
  · rw [readInt_udec, toInt_eq_of_not_isNeg h]

theorem readInt_loraFields (s : Snapshot F) : (loraFields s).map readInt = loraValues s := by
  rw [loraFields, loraValues, List.map_append, List.map_map]
  simp only [List.map_cons, List.map_nil, readInt_udec, Function.comp_def, readInt_sdec]

/-- **Every report is read back.** However long the thread has run, and whatever its buffer held: a receiver
that reads as many messages off the stream as there were periods finds the numbers of each period in order,
and nothing is left. -/
theorem lora_reads_back (m : Mem) (gs : List (Snapshot F)) (hgs : ∀ s ∈ gs, AdcWords s) :
    (unfillMany numeral loraLead loraLiterals gs.length (loraRun { textBuf := m } gs).sent).map
      (fun r => (r.1.map (List.map readInt), r.2)) = some (gs.map loraValues, []) := by
  have hends : ∀ l ∈ loraLiterals, Ends numeral l := by
    have h : ∀ l ∈ loraLiterals, l.head?.any (fun c => !numeral c) = true := by decide +kernel
    intro l hl
    have hl := h l hl
    cases l with
    | nil => cases hl
    | cons c t => exact ⟨c, t, rfl, by simpa using hl⟩
  have h := unfillMany_flatMap loraLead loraFields (fun _ => rfl) hends numeral_loraFields gs []
  rw [sent_loraRun _ hgs, List.nil_append]
  rw [List.append_nil] at h
  rw [h, Option.map_some, List.map_map]
  congr 2
  apply List.map_congr_left
  intro s _
  exact readInt_loraFields s

theorem lora_reads_back_air :
    (unfillMany numeral loraLead loraLiterals 2
        (loraRun { textBuf := fun _ => 'x' } [airSnapshot, airSnapshot]).sent).map
      (fun r => (r.1.map (List.map readInt), r.2)) =
        some ([loraValues airSnapshot, loraValues airSnapshot], []) := by
  have hair : AdcWords airSnapshot :=
    ⟨by decide, by decide, by decide, by decide, by decide⟩
  apply lora_reads_back (fun _ => 'x') [airSnapshot, airSnapshot]
  simp [hair]

end PipeGallery.Report
