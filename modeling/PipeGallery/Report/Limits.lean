import PipeGallery.Report.Single

set_option autoImplicit false

/-!
# Reports — the buffers are large enough

* `length_object`, `length_sensorJson`, `length_properties`: the lengths of the two texts;
* `nul_not_mem_object`: no NUL in a report;
* `Acquired`: the snapshots of the acquisition code;
* **`sensorJson_within_buffer`**, **`properties_length_exact`**, **`encoders_agree`**.
-/

namespace PipeGallery.Report

open PipeGallery.Lib

variable {F : Type*} [CFloat F]

/-! ## Lengths -/

theorem length_member (kv : String × List Char) :
    (member kv).length = kv.1.toList.length + kv.2.length + 3 := by
  simp [member, quoted]
  omega

/-- The keys of a report. -/
def keys : List String :=
  ["ch0", "ch1", "ch3", "ch4", "ch5", "methane_ppm", "methane_lel", "voltage_a", "voltage_b",
    "voltage_c", "current_a", "current_b", "current_c", "flow", "temperature", "humidity", "o2",
    "displacement", "stress", "flame"]

theorem map_fst_members (s : Snapshot F) : (members s).map Prod.fst = keys := rfl

/-- The characters of the values of a report. -/
def valuesLength (s : Snapshot F) : ℕ := ((members s).map fun kv => kv.2.length).sum

theorem length_object {ms : List (String × List Char)} (h : ms ≠ []) : (object ms).length =
    1 + 4 * ms.length + ((ms.map Prod.fst).map fun k => k.toList.length).sum +
      (ms.map fun kv => kv.2.length).sum := by
  obtain ⟨l, x, rfl⟩ : ∃ l x, ms = l ++ [x] := ⟨_, _, (List.dropLast_append_getLast h).symm⟩
  have hl : (l.flatMap fun kv => member kv ++ [',']).length = 4 * l.length +
      ((l.map Prod.fst).map fun k => k.toList.length).sum + (l.map fun kv => kv.2.length).sum := by
    induction l with
    | nil => rfl
    | cons y l ih =>
      specialize ih (by simp)
      simp only [List.flatMap_cons, List.length_append, List.length_cons, List.length_nil,
        List.map_cons, List.sum_cons, ih, length_member]
      omega
  rw [object_concat]
  simp only [List.length_append, List.length_cons, List.length_nil, hl, length_member, List.map_append,
    List.map_cons, List.map_nil, List.sum_append, List.sum_cons, List.sum_nil]
  omega

theorem length_object_members (s : Snapshot F) :
    (object (members s)).length = 220 + valuesLength s := by
  have hk : (keys.map fun k => k.toList.length).sum = 139 := by decide +kernel
  rw [length_object (by simp [members]), map_fst_members, hk]
  rfl

theorem length_sensorJson (s : Snapshot F) :
    ((sensorJsonCalls s).flatMap Call.text).length = 265 + valuesLength s := by
  have ho : sensorJsonOpen.length = 43 := by decide +kernel
  rw [text_sensorJson, List.length_append, List.length_append, length_object_members, ho]
  simp only [List.length_cons, List.length_nil]
  omega

theorem length_properties (s : Snapshot F) :
    ((propertiesCalls s).flatMap Call.text).length = 275 + valuesLength s := by
  have ho : propertiesOpen.length = 52 := by decide +kernel
  rw [text_properties, List.length_append, List.length_append, length_object_members, ho]
  simp only [List.length_cons, List.length_nil]
  omega

/-! ## Values -/

theorem toInt_eq_of_not_isNeg {w : BitVec 32} (h : ¬ isNeg w = true) : w.toInt = w.toNat :=
  BitVec.toInt_eq_toNat_of_lt (by have := toNat_lt_of_not_isNeg h; omega)

theorem toInt_eq_of_isNeg {w : BitVec 32} (h : isNeg w = true) : w.toInt = -((-w).toNat : ℤ) := by
  rw [isNeg, decide_eq_true_eq] at h
  rw [BitVec.toInt_eq_toNat_cond] at h ⊢
  rw [BitVec.toNat_neg]
  have := w.isLt
  split_ifs at h ⊢ <;> omega

/-- A number of at most `k` digits, and of at most `k - 1` when it has a sign. -/
theorem length_sdec_le_of {w : BitVec 32} {k : ℕ} (hk : 2 ≤ k) (hlo : -10 ^ (k - 1) < w.toInt)
    (hhi : w.toInt < 10 ^ k) : (sdec w).length ≤ k := by
  unfold sdec
  split_ifs with h
  · rw [toInt_eq_of_isNeg h] at hlo
    have hn : (-w).toNat < 10 ^ (k - 1) := by exact_mod_cast (by omega : ((-w).toNat : ℤ) < 10 ^ (k - 1))
    have := length_udec_le (by omega) hn
    rw [List.length_cons]
    omega
  · rw [toInt_eq_of_not_isNeg h] at hhi
    exact length_udec_le (by omega) (by exact_mod_cast hhi)

theorem length_sdec02_of_le {w : BitVec 32} (h : w.toNat ≤ 99) : (sdec02 w).length = 2 := by
  have hneg : ¬ isNeg w = true := by
    rw [isNeg, decide_eq_true_eq, BitVec.toInt_eq_toNat_of_lt (by omega)]
    omega
  have h1 := length_udec_pos w.toNat
  have h2 : (udec w.toNat).length ≤ 2 := length_udec_le (by omega) (by omega)
  rw [sdec02, if_neg hneg, List.length_append, List.length_replicate]
  omega

theorem length_floatText_le (val : F) : (floatText val).length ≤ 23 := by
  have h1 := length_sdec_le (intPart val)
  have h2 := length_sdec02_le (decPart val)
  rw [floatText, List.length_append, List.length_cons]
  omega

theorem length_floatText_le_of {val : F} {k : ℕ} (hk : 2 ≤ k) (hlo : -10 ^ (k - 1) < (intPart val).toInt)
    (hhi : (intPart val).toInt < 10 ^ k) (hd : (decPart val).toNat ≤ 99) :
    (floatText val).length ≤ k + 3 := by
  have h1 := length_sdec_le_of hk hlo hhi
  have h2 := length_sdec02_of_le hd
  rw [floatText, List.length_append, List.length_cons]
  omega

/-- The flame detector and the integer sensors within their ranges. -/
structure IntegersInRange (s : Snapshot F) : Prop where
  ch0 : s.gAdcCh0.toNat ≤ 65535
  ch1 : s.gAdcCh1.toNat ≤ 65535
  ch3 : s.gAdcCh3.toNat ≤ 65535
  ch4 : s.gAdcCh4.toNat ≤ 65535
  ch5 : s.gAdcCh5.toNat ≤ 65535
  flame : s.flame = 0 ∨ s.flame = 1

/-- The value texts of the integers take at most 34 characters. -/
theorem valuesLength_le {s : Snapshot F} (hs : IntegersInRange s) :
    valuesLength s ≤ 34 + (((members s).drop 7).dropLast.map fun kv => kv.2.length).sum := by
  have h0 : (udec s.gAdcCh0.toNat).length ≤ 5 := length_udec_le (by omega) (by have := hs.ch0; omega)
  have h1 : (udec s.gAdcCh1.toNat).length ≤ 5 := length_udec_le (by omega) (by have := hs.ch1; omega)
  have h3 : (udec s.gAdcCh3.toNat).length ≤ 5 := length_udec_le (by omega) (by have := hs.ch3; omega)
  have h4 : (udec s.gAdcCh4.toNat).length ≤ 5 := length_udec_le (by omega) (by have := hs.ch4; omega)
  have h5 : (udec s.gAdcCh5.toNat).length ≤ 5 := length_udec_le (by omega) (by have := hs.ch5; omega)
  have hp : (udec s.gMethanePpm.toNat).length ≤ 5 :=
    length_udec_le (by omega) (by have := s.gMethanePpm.isLt; omega)
  have hl : (udec s.gMethaneLel.toNat).length ≤ 3 :=
    length_udec_le (by omega) (by have := s.gMethaneLel.isLt; omega)
  have hf : (sdec s.flame).length = 1 := by
    rcases hs.flame with h | h <;> rw [h] <;> decide +kernel
  simp only [valuesLength, members, List.map_cons, List.map_nil, List.sum_cons, List.sum_nil, hf,
    List.drop_succ_cons, List.drop_zero, List.dropLast_cons_cons, List.dropLast_singleton]
  linarith only [h0, h1, h3, h4, h5, hp, hl]

/-! ## No NUL -/

theorem nul_not_mem_udec (n : ℕ) : '\x00' ∉ udec n := by
  intro h
  exact absurd (isDigit_of_mem_udec h) (by decide)

theorem nul_not_mem_sdec (w : BitVec 32) : '\x00' ∉ sdec w := by
  unfold sdec
  split_ifs
  · exact List.not_mem_cons_of_ne_of_not_mem (by decide) (nul_not_mem_udec _)
  · exact nul_not_mem_udec _

theorem nul_not_mem_sdec02 (w : BitVec 32) : '\x00' ∉ sdec02 w := by
  unfold sdec02
  split_ifs
  · exact List.not_mem_cons_of_ne_of_not_mem (by decide) (nul_not_mem_udec _)
  · rw [List.mem_append, not_or]
    exact ⟨fun h => absurd (List.eq_of_mem_replicate h) (by decide), nul_not_mem_udec _⟩

theorem nul_not_mem_floatText (val : F) : '\x00' ∉ floatText val := by
  rw [floatText, List.mem_append, not_or]
  exact ⟨nul_not_mem_sdec _,
    List.not_mem_cons_of_ne_of_not_mem (by decide) (nul_not_mem_sdec02 _)⟩

theorem nul_not_mem_values (s : Snapshot F) : ∀ kv ∈ members s, '\x00' ∉ kv.2 := by
  simp only [members, List.forall_mem_cons, List.not_mem_nil, false_implies, implies_true,
    nul_not_mem_udec, nul_not_mem_sdec, nul_not_mem_floatText, not_false_eq_true, and_self]

theorem nul_not_mem_object (s : Snapshot F) : '\x00' ∉ object (members s) := by
  have hm : ∀ kv ∈ members s, '\x00' ∉ member kv := by
    intro kv hkv
    have hk : '\x00' ∉ kv.1.toList := by
      have hall : ∀ k ∈ keys, '\x00' ∉ k.toList := by decide +kernel
      exact hall _ (map_fst_members s ▸ List.mem_map_of_mem hkv)
    simp [member, quoted, hk, nul_not_mem_values s kv hkv]
  have hsplit : members s = (members s).dropLast ++ [("flame", sdec s.flame)] := rfl
  rw [hsplit, object_concat]
  simp only [List.cons_append, List.mem_cons, List.mem_append, List.mem_flatMap, not_or,
    not_exists, not_and]
  refine ⟨by decide, ⟨fun kv hkv => ⟨hm kv (List.mem_of_mem_dropLast hkv), by decide⟩, hm _ ?_⟩,
    by decide⟩
  rw [hsplit]
  simp

/-! ## The reports -/

theorem written_nil (m : Mem) (base : ℕ) : Written m base [] := fun _ h => absurd h (by simp)

/-- A report that fits its buffer: every append starts inside, the buffer holds the text, its C
string is the text, and nothing outside is touched. -/
theorem appendAll_report {base cap : ℕ} (hb : base + cap < 2 ^ 32) (m : Mem) {cs : List Call}
    (hne : cs ≠ []) (hnul : '\x00' ∉ cs.flatMap Call.text)
    (hlen : (cs.flatMap Call.text).length < cap) :
    (∀ p ∈ positions base cap { mem := m } cs, p < cap) ∧
      (appendAll base cap { mem := m } cs).pos = (cs.flatMap Call.text).length ∧
      cString (appendAll base cap { mem := m } cs).mem base cap = cs.flatMap Call.text ∧
      ∀ a, a < base ∨ base + cap ≤ a → (appendAll base cap { mem := m } cs).mem a = m a := by
  obtain ⟨h1, h2, h3, h4, h5⟩ :=
    @appendAll_fits base cap hb cs { mem := m } [] rfl (written_nil _ _) (by simpa using hlen)
  rw [List.nil_append] at h1 h2 h3
  exact ⟨h4, h1, cString_eq h2 (h3 (Or.inr hne)) hnul hlen, h5⟩

theorem buildSensorJson_report {base : ℕ} (hb : base + 512 < 2 ^ 32) (m : Mem) {s : Snapshot F}
    (hlen : ((sensorJsonCalls s).flatMap Call.text).length < 512) :
    (∀ p ∈ positions base 512 { mem := m } (sensorJsonCalls s), p < 512) ∧
      (buildSensorJson base m s).pos = ((sensorJsonCalls s).flatMap Call.text).length ∧
      cString (buildSensorJson base m s).mem base 512 = (sensorJsonCalls s).flatMap Call.text ∧
      ∀ a, a < base ∨ base + 512 ≤ a → (buildSensorJson base m s).mem a = m a := by
  refine appendAll_report hb m (by simp [sensorJsonCalls]) ?_ hlen
  have ho : '\x00' ∉ sensorJsonOpen := by decide +kernel
  simp [text_sensorJson, nul_not_mem_object, ho]

theorem buildProperties_report {base : ℕ} (hb : base + 600 < 2 ^ 32) (m : Mem) {s : Snapshot F}
    (hlen : ((propertiesCalls s).flatMap Call.text).length < 600) :
    (∀ p ∈ positions base 600 { mem := m } (propertiesCalls s), p < 600) ∧
      (buildProperties base m s).pos = ((propertiesCalls s).flatMap Call.text).length ∧
      cString (buildProperties base m s).mem base 600 = (propertiesCalls s).flatMap Call.text ∧
      ∀ a, a < base ∨ base + 600 ≤ a → (buildProperties base m s).mem a = m a := by
  refine appendAll_report hb m (by simp [propertiesCalls]) ?_ hlen
  have ho : '\x00' ∉ propertiesOpen := by decide +kernel
  simp [text_properties, nul_not_mem_object, ho]

/-! ## The Ethernet report -/

/-- The snapshots of the acquisition code: the decoders of temperature, humidity, oxygen and
displacement keep to their ranges, the meters may return anything. -/
structure Acquired (s : Snapshot F) : Prop extends IntegersInRange s where
  temperature : -45 ≤ (intPart s.gTemperatureC).toInt ∧ (intPart s.gTemperatureC).toInt ≤ 130
  humidity : 0 ≤ (intPart s.gHumidityRh).toInt ∧ (intPart s.gHumidityRh).toInt ≤ 100
  o2 : ∃ raw : BitVec 32, raw.toNat < 2 ^ 16 ∧ s.gO2Concentration = o2ReadOnce raw
  displacement : 0 ≤ (intPart s.displacement).toInt ∧ (intPart s.displacement).toInt ≤ 1630
  fractions : ∀ val ∈ [s.gTemperatureC, s.gHumidityRh, s.gO2Concentration, s.displacement],
    (decPart val).toNat ≤ 99

/-- The longest report takes 508 characters. -/
theorem length_sensorJson_le (hF : TenthsExact F) {s : Snapshot F} (hs : Acquired s) :
    ((sensorJsonCalls s).flatMap Call.text).length ≤ 508 := by
  have hv := valuesLength_le hs.toIntegersInRange
  have ht : (floatText s.gTemperatureC).length ≤ 3 + 3 := by
    obtain ⟨h0, h1⟩ := hs.temperature
    exact length_floatText_le_of (by omega) (by omega) (by omega) (hs.fractions _ (by simp))
  have hh : (floatText s.gHumidityRh).length ≤ 3 + 3 := by
    obtain ⟨h0, h1⟩ := hs.humidity
    exact length_floatText_le_of (by omega) (by omega) (by omega) (hs.fractions _ (by simp))
  have ho : (floatText s.gO2Concentration).length ≤ 3 + 3 := by
    obtain ⟨raw, hraw, he⟩ := hs.o2
    obtain ⟨h0, h1⟩ := intPart_o2ReadOnce hF hraw
    rw [← he] at h0 h1
    exact length_floatText_le_of (by omega) (by omega) (by omega) (hs.fractions _ (by simp))
  have hd : (floatText s.displacement).length ≤ 4 + 3 := by
    obtain ⟨h0, h1⟩ := hs.displacement
    exact length_floatText_le_of (by omega) (by omega) (by omega) (hs.fractions _ (by simp))
  have hu := fun i => length_floatText_le (s.voltage i)
  have hi := fun i => length_floatText_le (s.current i)
  have hfl := length_floatText_le s.flow
  have hst := length_floatText_le s.gStressValueN
  simp only [members, List.map_cons, List.map_nil, List.sum_cons, List.sum_nil,
    List.drop_succ_cons, List.drop_zero, List.dropLast_cons_cons, List.dropLast_singleton] at hv
  rw [length_sensorJson]
  linarith only [hv, ht, hh, ho, hd, hu 0, hu 1, hu 2, hi 0, hi 1, hi 2, hfl, hst]

/-- **`build_sensor_json` stays inside `eth_json_buf`**: every append starts inside it, nothing
outside it is written, the returned length is the length of its C string, which ends in a newline. -/
theorem sensorJson_within_buffer (hF : TenthsExact F) {base : ℕ} (hb : base + 512 < 2 ^ 32) (m : Mem)
    {s : Snapshot F} (hs : Acquired s) :
    (∀ p ∈ positions base 512 { mem := m } (sensorJsonCalls s), p < 512) ∧
      (∀ a, a < base ∨ base + 512 ≤ a → (buildSensorJson base m s).mem a = m a) ∧
      (buildSensorJson base m s).pos = (cString (buildSensorJson base m s).mem base 512).length ∧
      (cString (buildSensorJson base m s).mem base 512).getLast? = some '\n' := by
  have hlen := length_sensorJson_le hF hs
  obtain ⟨h1, h2, h3, h4⟩ := buildSensorJson_report hb m (lt_of_le_of_lt hlen (by decide))
  refine ⟨h1, h4, by rw [h2, h3], ?_⟩
  rw [h3, text_sensorJson]
  simp

/-- A snapshot with 220 V on each phase, 21 °C and the oxygen of air. -/
def airSnapshot : Snapshot FVal where
  gAdcCh0 := 65535
  gAdcCh1 := 1200
  gAdcCh3 := 1200
  gAdcCh4 := 1200
  gAdcCh5 := 1200
  gMethanePpm := 100
  gMethaneLel := 0
  voltage _ := decode32 0x435C0000
  current _ := decode32 0xFF800000
  flow := decode32 0x7FC00000
  gTemperatureC := decode32 0x41A80000
  gHumidityRh := decode32 0x42480000
  gO2Concentration := o2ReadOnce 2410
  displacement := decode32 0x44CBDD9A
  gStressValueN := decode32 0xC0200000
  flame := 1

theorem acquired_airSnapshot : Acquired airSnapshot where
  ch0 := by decide
  ch1 := by decide
  ch3 := by decide
  ch4 := by decide
  ch5 := by decide
  flame := Or.inr rfl
  temperature := by decide +kernel
  humidity := by decide +kernel
  o2 := ⟨2410, by decide, rfl⟩
  displacement := by decide +kernel
  fractions := by decide +kernel

theorem sensorJson_within_buffer_air :
    (∀ p ∈ positions 0 512 { mem := fun _ => 'x' } (sensorJsonCalls airSnapshot), p < 512) ∧
      (∀ a, a < 0 ∨ 0 + 512 ≤ a → (buildSensorJson 0 (fun _ => 'x') airSnapshot).mem a = 'x') ∧
      (buildSensorJson 0 (fun _ => 'x') airSnapshot).pos =
        (cString (buildSensorJson 0 (fun _ => 'x') airSnapshot).mem 0 512).length ∧
      (cString (buildSensorJson 0 (fun _ => 'x') airSnapshot).mem 0 512).getLast? = some '\n' :=
  sensorJson_within_buffer tenthsExact_binary32 (by decide) _ acquired_airSnapshot

/-! ## The cloud report -/

/-- The longest report takes 585 characters. -/
theorem length_properties_le {s : Snapshot F} (hs : IntegersInRange s) :
    ((propertiesCalls s).flatMap Call.text).length ≤ 585 := by
  have hv := valuesLength_le hs
  have hf : (((members s).drop 7).dropLast.map fun kv => kv.2.length).sum ≤ 12 * 23 := by
    refine List.sum_le_card_nsmul _ 23 fun n hn => ?_
    simp only [members, List.map_cons, List.map_nil, List.drop_succ_cons, List.drop_zero,
      List.dropLast_cons_cons, List.dropLast_singleton, List.mem_cons, List.not_mem_nil, or_false] at hn
    rcases hn with h | h | h | h | h | h | h | h | h | h | h | h <;>
      exact h ▸ length_floatText_le _
  rw [length_properties]
  omega

/-- The announcements of the cloud thread and of the shell commands differ in their ends. -/
theorem formatted_pubraw {tail : List Char} (ht : '%' ∉ tail) {n : ℕ} (hn : n < 2 ^ 31) :
    formatted ("AT+MQTTPUBRAW=0,\"".toList ++ '%' :: 's' :: ("\",".toList ++ '%' :: 'd' :: tail))
      [.str hwMqttTopicReport.toList, .num (BitVec.ofNat 32 n)] =
    "AT+MQTTPUBRAW=0,\"".toList ++ hwMqttTopicReport.toList ++ "\",".toList ++ udec n ++ tail := by
  have hw : (BitVec.ofNat 32 n).toNat = n := by
    rw [BitVec.toNat_ofNat]
    exact Nat.mod_eq_of_lt (by omega)
  have hneg : ¬ isNeg (BitVec.ofNat 32 n) = true := by
    rw [isNeg, decide_eq_true_eq, BitVec.toInt_eq_toNat_of_lt (by omega)]
    omega
  rw [formatted_plain (by decide +kernel), formatted_s, formatted_plain (by decide +kernel),
    formatted_d, ← List.append_nil tail, formatted_plain ht, formatted_nil, sdec, if_neg hneg, hw]
  simp only [List.append_assoc, List.append_nil]

theorem text_pubraw (n : ℕ) (hn : n < 2 ^ 31) : (pubrawCall n).text =
    "AT+MQTTPUBRAW=0,\"".toList ++ hwMqttTopicReport.toList ++ "\",".toList ++ udec n ++
      ",0,0".toList := by
  have hf : "AT+MQTTPUBRAW=0,\"%s\",%d,0,0".toList = "AT+MQTTPUBRAW=0,\"".toList ++
      '%' :: 's' :: ("\",".toList ++ '%' :: 'd' :: ",0,0".toList) := by decide +kernel
  unfold pubrawCall Call.text
  rw [hf]
  exact formatted_pubraw (by decide +kernel) hn

/-- The bytes that `uart4_send` transmits from the buffer of `n` cells at `p`: `strlen` of them. -/
def uart4Send (m : Mem) (p n : ℕ) : List Char := cString m p n

/-- **The announced length is exact**: every append of step 7 starts inside `json_buf` and writes
inside it; the command fits `at_cmd_buf`; its decimal is the number of bytes sent. -/
theorem properties_length_exact {base cmd : ℕ} (hb : base + 600 < 2 ^ 32) (hc : cmd + 256 < 2 ^ 32)
    (hd : cmd + 256 ≤ base ∨ base + 600 ≤ cmd) (m : Mem) {s : Snapshot F} (hs : IntegersInRange s) :
    (∀ p ∈ positions base 600 { mem := m } (propertiesCalls s), p < 600) ∧
      (∀ a, a < base ∨ base + 600 ≤ a → (buildProperties base m s).mem a = m a) ∧
      let b := buildProperties base m s
      let r := rtSnprintf b.mem cmd 256 (pubrawCall b.pos).fmt (pubrawCall b.pos).args
      r.2 < 256 ∧
        cString r.1 cmd 256 = "AT+MQTTPUBRAW=0,\"".toList ++ hwMqttTopicReport.toList ++ "\",".toList ++
          udec (uart4Send r.1 base 600).length ++ ",0,0".toList := by
  have hlen := length_properties_le hs
  obtain ⟨h1, h2, h3, h4⟩ := buildProperties_report hb m (lt_of_le_of_lt hlen (by decide))
  refine ⟨h1, h4, ?_⟩
  intro b r
  have hpos : b.pos ≤ 585 := h2 ▸ hlen
  have htext := text_pubraw b.pos (by omega)
  have hlt : (formatted (pubrawCall b.pos).fmt (pubrawCall b.pos).args).length < 256 := by
    have h17 : "AT+MQTTPUBRAW=0,\"".toList.length = 17 := by decide +kernel
    have h69 : hwMqttTopicReport.toList.length = 69 := by decide +kernel
    have hu : (udec b.pos).length ≤ 3 := length_udec_le (by omega) (by omega)
    change (pubrawCall b.pos).text.length < 256
    rw [htext]
    simp only [List.length_append, h17, h69, show "\",".toList.length = 2 from rfl,
      show ",0,0".toList.length = 4 from rfl]
    omega
  obtain ⟨r1, r2, r3, r4⟩ := rtSnprintf_fits b.mem hc hlt
  have hjson : uart4Send r.1 base 600 = cString b.mem base 600 :=
    cString_congr fun i hi => r4 _ (by omega)
  have hnul : '\x00' ∉ (pubrawCall b.pos).text := by
    have ha : '\x00' ∉ "AT+MQTTPUBRAW=0,\"".toList ++ hwMqttTopicReport.toList ++ "\",".toList := by
      decide +kernel
    rw [htext]
    simp only [List.mem_append, not_or] at ha ⊢
    exact ⟨⟨ha, nul_not_mem_udec _⟩, by decide⟩
  refine ⟨r1 ▸ hlt, ?_⟩
  rw [hjson, h3, ← h2, ← htext]
  exact cString_eq r2 r3 hnul hlt

theorem properties_length_exact_air :
    (∀ p ∈ positions 0 600 { mem := fun _ => 'x' } (propertiesCalls airSnapshot), p < 600) ∧
      (∀ a, a < 0 ∨ 0 + 600 ≤ a → (buildProperties 0 (fun _ => 'x') airSnapshot).mem a = 'x') ∧
      let b := buildProperties 0 (fun _ => 'x') airSnapshot
      let r := rtSnprintf b.mem 600 256 (pubrawCall b.pos).fmt (pubrawCall b.pos).args
      r.2 < 256 ∧
        cString r.1 600 256 = "AT+MQTTPUBRAW=0,\"".toList ++ hwMqttTopicReport.toList ++ "\",".toList ++
          udec (uart4Send r.1 0 600).length ++ ",0,0".toList :=
  properties_length_exact (by decide) (by decide) (by decide) _ acquired_airSnapshot.toIntegersInRange

/-! ## Agreement -/

/-- **The two encoders agree**: when neither buffer is exceeded, both hold the same object, of the
same twenty members in the same order. -/
theorem encoders_agree {base base' : ℕ} (hb : base + 512 < 2 ^ 32) (hb' : base' + 600 < 2 ^ 32)
    (m m' : Mem) {s : Snapshot F} (h : (buildSensorJson base m s).pos < 512)
    (h' : (buildProperties base' m' s).pos < 600) :
    cString (buildSensorJson base m s).mem base 512 =
        sensorJsonOpen ++ object (members s) ++ ['\x7d', '\n'] ∧
      cString (buildProperties base' m' s).mem base' 600 =
        propertiesOpen ++ object (members s) ++ ['\x7d', ']', '\x7d'] ∧
      (members s).map Prod.fst = keys ∧ keys.Nodup ∧ keys.length = 20 := by
  rw [buildSensorJson, appendAll_pos, Nat.zero_add] at h
  rw [buildProperties, appendAll_pos, Nat.zero_add] at h'
  obtain ⟨-, -, h3, -⟩ := buildSensorJson_report hb m h
  obtain ⟨-, -, h3', -⟩ := buildProperties_report hb' m' h'
  rw [h3, h3', text_sensorJson, text_properties]
  exact ⟨rfl, rfl, rfl, by decide +kernel, rfl⟩

theorem encoders_agree_air :
    cString (buildSensorJson 0 (fun _ => 'x') airSnapshot).mem 0 512 =
        sensorJsonOpen ++ object (members airSnapshot) ++ ['\x7d', '\n'] ∧
      cString (buildProperties 0 (fun _ => 'x') airSnapshot).mem 0 600 =
        propertiesOpen ++ object (members airSnapshot) ++ ['\x7d', ']', '\x7d'] ∧
      (members airSnapshot).map Prod.fst = keys ∧ keys.Nodup ∧ keys.length = 20 := by
  refine encoders_agree (by decide) (by decide) _ _ ?_ ?_
  · have := length_sensorJson_le tenthsExact_binary32 acquired_airSnapshot
    rw [buildSensorJson, appendAll_pos, Nat.zero_add]
    omega
  · have := length_properties_le acquired_airSnapshot.toIntegersInRange
    rw [buildProperties, appendAll_pos, Nat.zero_add]
    omega

end PipeGallery.Report
