import PipeGallery.Report.Buffer
import PipeGallery.Report.Format

set_option autoImplicit false

/-!
# Reports — the two encoders

`build_sensor_json` of `ethApp.c` and the JSON part of step 7 of `huawei_cloud_thread_entry`. The
arithmetic of `float` is a parameter.

* `CFloat`, `Snapshot`: the arithmetic and the globals that a report reads;
* `appendFloat`, `appendFloatField`, `sensorJsonCalls`, `buildSensorJson`, `propertiesCalls`,
  `buildProperties`, `pubrawCall`;
* `member`, `members`, `object`: the report as a list of members;
* `text_sensorJson`, `text_properties`: what the two chains print.
-/

namespace PipeGallery.Report

/-- The operations of `float` that the encoders use: the two conversions, `-`, `*` and `/`. -/
class CFloat (F : Type*) where
  ofInt : BitVec 32 → F
  toInt : F → BitVec 32
  sub : F → F → F
  mul : F → F → F
  div : F → F → F

/-- The globals that a report reads. -/
structure Snapshot (F : Type*) where
  gAdcCh0 : BitVec 32
  gAdcCh1 : BitVec 32
  gAdcCh3 : BitVec 32
  gAdcCh4 : BitVec 32
  gAdcCh5 : BitVec 32
  gMethanePpm : BitVec 16
  gMethaneLel : BitVec 8
  voltage : Fin 3 → F
  current : Fin 3 → F
  flow : F
  gTemperatureC : F
  gHumidityRh : F
  gO2Concentration : F
  displacement : F
  gStressValueN : F
  /-- `(int)Flame` -/
  flame : BitVec 32

/-- The twelve float globals of a report. -/
def Snapshot.floats {F : Type*} (s : Snapshot F) : List F :=
  [s.voltage 0, s.voltage 1, s.voltage 2, s.current 0, s.current 1, s.current 2, s.flow,
    s.gTemperatureC, s.gHumidityRh, s.gO2Concentration, s.displacement, s.gStressValueN]

variable {F : Type*} [CFloat F]

/-- `(int)val`. -/
def intPart (val : F) : BitVec 32 := CFloat.toInt val

/-- `(int)((val - i) * 100)`, negated when negative; the negation wraps. -/
def decPart (val : F) : BitVec 32 :=
  let d := CFloat.toInt (CFloat.mul (CFloat.sub val (CFloat.ofInt (intPart val))) (CFloat.ofInt 100))
  if isNeg d then -d else d

/-- The body of `append_float` and `append_float_field`. -/
def floatCall (key : List Char) (val : F) : Call :=
  ⟨"\"%s\":%d.%02d".toList, [.str key, .num (intPart val), .num (decPart val)]⟩

/-- `append_float` of `ethApp.c`. -/
def appendFloat (key : String) (val : F) : Call := floatCall key.toList val

/-- `append_float_field` of `huaweiCloudApp.c`. -/
def appendFloatField (key : String) (val : F) : Call := floatCall key.toList val

/-- `rt_snprintf(…, ",")`. -/
def comma : Call := ⟨",".toList, []⟩

def ethDeviceId : String := "pipe_gallery_node_01"

def serviceIdSensor : String := "Smarthome"

def hwMqttTopicReport : String :=
  "$oc/devices/6abf5210e094d61592745069_1776006881/sys/properties/report"

/-- The format of the seven integer members, the same two lines in both sources. -/
def uintFields : String :=
  "\"ch0\":%u,\"ch1\":%u,\"ch3\":%u,\"ch4\":%u,\"ch5\":%u," ++
    "\"methane_ppm\":%u,\"methane_lel\":%u,"

/-- The seven integer arguments of the first append. -/
def headerArgs (s : Snapshot F) : List Arg :=
  [.num s.gAdcCh0, .num s.gAdcCh1, .num s.gAdcCh3, .num s.gAdcCh4, .num s.gAdcCh5,
    .num (s.gMethanePpm.zeroExtend 32), .num (s.gMethaneLel.zeroExtend 32)]

/-- The first append of `build_sensor_json`. -/
def sensorJsonHead (s : Snapshot F) : Call :=
  ⟨("\x7b\"device_id\":\"%s\",\"data\":\x7b" ++ uintFields).toList,
    .str ethDeviceId.toList :: headerArgs s⟩

/-- The appends of `build_sensor_json`. -/
def sensorJsonCalls (s : Snapshot F) : List Call :=
  [sensorJsonHead s,
    appendFloat "voltage_a" (s.voltage 0), comma,
    appendFloat "voltage_b" (s.voltage 1), comma,
    appendFloat "voltage_c" (s.voltage 2), comma,
    appendFloat "current_a" (s.current 0), comma,
    appendFloat "current_b" (s.current 1), comma,
    appendFloat "current_c" (s.current 2), comma,
    appendFloat "flow" s.flow, comma,
    appendFloat "temperature" s.gTemperatureC, comma,
    appendFloat "humidity" s.gHumidityRh, comma,
    appendFloat "o2" s.gO2Concentration, comma,
    appendFloat "displacement" s.displacement, comma,
    appendFloat "stress" s.gStressValueN,
    ⟨",\"flame\":%d\x7d\x7d\n".toList, [.num s.flame]⟩]

/-- `build_sensor_json`, with `eth_json_buf` at `base`. -/
def buildSensorJson (base : ℕ) (m : Mem) (s : Snapshot F) : Build :=
  appendAll base 512 { mem := m } (sensorJsonCalls s)

/-- The first append of step 7. -/
def propertiesHead (s : Snapshot F) : Call :=
  ⟨("\x7b\"services\":[\x7b\"service_id\":\"%s\",\"properties\":\x7b" ++ uintFields).toList,
    .str serviceIdSensor.toList :: headerArgs s⟩

/-- The appends of step 7. -/
def propertiesCalls (s : Snapshot F) : List Call :=
  [propertiesHead s,
    appendFloatField "voltage_a" (s.voltage 0), comma,
    appendFloatField "voltage_b" (s.voltage 1), comma,
    appendFloatField "voltage_c" (s.voltage 2), comma,
    appendFloatField "current_a" (s.current 0), comma,
    appendFloatField "current_b" (s.current 1), comma,
    appendFloatField "current_c" (s.current 2), comma,
    appendFloatField "flow" s.flow, comma,
    appendFloatField "temperature" s.gTemperatureC, comma,
    appendFloatField "humidity" s.gHumidityRh, comma,
    appendFloatField "o2" s.gO2Concentration, comma,
    appendFloatField "displacement" s.displacement, comma,
    appendFloatField "stress" s.gStressValueN, comma,
    ⟨"\"flame\":%d".toList, [.num s.flame]⟩,
    ⟨"\x7d\x7d]\x7d".toList, []⟩]

/-- The JSON part of step 7, with `json_buf` at `base`. -/
def buildProperties (base : ℕ) (m : Mem) (s : Snapshot F) : Build :=
  appendAll base 600 { mem := m } (propertiesCalls s)

/-- The command that announces `json_len`. -/
def pubrawCall (jsonLen : ℕ) : Call :=
  ⟨"AT+MQTTPUBRAW=0,\"%s\",%d,0,0".toList,
    [.str hwMqttTopicReport.toList, .num (BitVec.ofNat 32 jsonLen)]⟩

/-! ## The texts -/

/-- A key in quotes. -/
def quoted (key : List Char) : List Char := '\x22' :: key ++ ['\x22']

/-- The text of `int.dec`. -/
def floatText (val : F) : List Char := sdec (intPart val) ++ '.' :: sdec02 (decPart val)

/-- **The twenty members**: each key with the text of its global. -/
def members (s : Snapshot F) : List (String × List Char) :=
  [("ch0", udec s.gAdcCh0.toNat), ("ch1", udec s.gAdcCh1.toNat), ("ch3", udec s.gAdcCh3.toNat),
    ("ch4", udec s.gAdcCh4.toNat), ("ch5", udec s.gAdcCh5.toNat),
    ("methane_ppm", udec s.gMethanePpm.toNat), ("methane_lel", udec s.gMethaneLel.toNat),
    ("voltage_a", floatText (s.voltage 0)), ("voltage_b", floatText (s.voltage 1)),
    ("voltage_c", floatText (s.voltage 2)), ("current_a", floatText (s.current 0)),
    ("current_b", floatText (s.current 1)), ("current_c", floatText (s.current 2)),
    ("flow", floatText s.flow), ("temperature", floatText s.gTemperatureC),
    ("humidity", floatText s.gHumidityRh), ("o2", floatText s.gO2Concentration),
    ("displacement", floatText s.displacement), ("stress", floatText s.gStressValueN),
    ("flame", sdec s.flame)]

/-- `"key":value`. -/
def member (kv : String × List Char) : List Char := quoted kv.1.toList ++ ':' :: kv.2

/-- Members between braces, with commas between them. -/
def object (ms : List (String × List Char)) : List Char :=
  '\x7b' :: List.intercalate [','] (ms.map member) ++ ['\x7d']

theorem text_floatCall (key : String) (val : F) :
    (floatCall key.toList val).text = member (key, floatText val) := by
  have hf : (floatCall key.toList val).text = formatted
      (['\x22'] ++ '%' :: 's' :: (['\x22', ':'] ++ '%' :: 'd' :: (['.'] ++ ['%', '0', '2', 'd'])))
      [.str key.toList, .num (intPart val), .num (decPart val)] := rfl
  rw [hf, formatted_plain (by decide), formatted_s, formatted_plain (by decide), formatted_d,
    formatted_plain (by decide), formatted_02d, formatted_nil]
  simp [member, quoted, floatText]

theorem text_comma : comma.text = [','] := rfl

/-- One integer member of a format. -/
def uintField (key : String) : List Char := quoted key.toList ++ ":%u,".toList

theorem formatted_uintField {key : String} (h : '%' ∉ quoted key.toList) (w : BitVec 32)
    (fmt : List Char) (args : List Arg) : formatted (uintField key ++ fmt) (.num w :: args) =
      member (key, udec w.toNat) ++ ',' :: formatted fmt args := by
  have hf : uintField key ++ fmt = quoted key.toList ++ ([':'] ++ '%' :: 'u' :: ([','] ++ fmt)) := by
    rw [uintField, List.append_assoc]
    rfl
  rw [hf, formatted_plain h, formatted_plain (by decide), formatted_u, formatted_plain (by decide)]
  simp [member]

theorem uintFields_eq : uintFields.toList = uintField "ch0" ++ (uintField "ch1" ++
    (uintField "ch3" ++ (uintField "ch4" ++ (uintField "ch5" ++ (uintField "methane_ppm" ++
      (uintField "methane_lel" ++ [])))))) := by
  decide +kernel

/-- The seven integer members, each with a comma behind it. -/
theorem formatted_uintFields (s : Snapshot F) : formatted uintFields.toList (headerArgs s) =
    ((members s).take 7).flatMap fun kv => member kv ++ [','] := by
  rw [uintFields_eq, headerArgs]
  iterate 7 rw [formatted_uintField (by decide)]
  rw [formatted_nil, BitVec.toNat_setWidth_of_le (by decide), BitVec.toNat_setWidth_of_le (by decide)]
  simp [members]

/-- The commas of an object stand behind every member but the last. -/
theorem object_concat (l : List (String × List Char)) (x : String × List Char) :
    object (l ++ [x]) = '\x7b' :: (l.flatMap (fun kv => member kv ++ [',']) ++ member x) ++ ['\x7d'] := by
  have h : List.intercalate [','] ((l ++ [x]).map member) =
      l.flatMap (fun kv => member kv ++ [',']) ++ member x := by
    induction l with
    | nil => simp [List.intercalate]
    | cons y l ih =>
      obtain ⟨z, zs, hz⟩ : ∃ z zs, (l ++ [x]).map member = z :: zs :=
        List.exists_cons_of_ne_nil (by simp)
      rw [hz] at ih
      rw [List.cons_append, List.map_cons, hz, List.intercalate, List.intersperse_cons_cons,
        List.flatten_cons, List.flatten_cons, List.flatMap_cons, List.append_assoc, List.append_assoc,
        ← ih]
      rfl
  rw [object, h]

/-- The members before `flame`, each with a comma behind it. -/
theorem object_members (s : Snapshot F) : object (members s) =
    '\x7b' :: (((members s).take 7).flatMap (fun kv => member kv ++ [',']) ++
      (((members s).drop 7).dropLast.flatMap (fun kv => member kv ++ [',']) ++
        member ("flame", sdec s.flame))) ++ ['\x7d'] := by
  rw [← List.append_assoc, ← List.flatMap_append]
  exact object_concat ((members s).take 7 ++ ((members s).drop 7).dropLast) ("flame", sdec s.flame)

/-- The first append of either chain. -/
theorem text_head {pre suf : List Char} (hp : '%' ∉ pre) (hs : '%' ∉ suf) (name : List Char)
    {lit : String} (hl : lit.toList = pre ++ '%' :: 's' :: suf) (s : Snapshot F) :
    (⟨(lit ++ uintFields).toList, .str name :: headerArgs s⟩ : Call).text =
      pre ++ name ++ suf ++ ((members s).take 7).flatMap fun kv => member kv ++ [','] := by
  rw [Call.text, String.toList_append, hl, List.append_assoc, List.cons_append, List.cons_append,
    formatted_plain hp, formatted_s, formatted_plain hs, formatted_uintFields]
  simp only [List.append_assoc]

/-- The text in front of the object under `"data"`. -/
def sensorJsonOpen : List Char := "\x7b\"device_id\":\"pipe_gallery_node_01\",\"data\":".toList

/-- The text in front of the object under `"properties"`. -/
def propertiesOpen : List Char :=
  "\x7b\"services\":[\x7b\"service_id\":\"Smarthome\",\"properties\":".toList

theorem text_sensorJsonHead (s : Snapshot F) : (sensorJsonHead s).text =
    sensorJsonOpen ++ '\x7b' :: ((members s).take 7).flatMap fun kv => member kv ++ [','] := by
  have hf : "\x7b\"device_id\":\"%s\",\"data\":\x7b".toList =
      "\x7b\"device_id\":\"".toList ++ '%' :: 's' :: "\",\"data\":\x7b".toList := by decide +kernel
  have ho : "\x7b\"device_id\":\"".toList ++ ethDeviceId.toList ++ "\",\"data\":\x7b".toList =
      sensorJsonOpen ++ ['\x7b'] := by decide +kernel
  unfold sensorJsonHead
  refine (text_head (by decide +kernel) (by decide +kernel) ethDeviceId.toList hf s).trans ?_
  rw [ho, List.append_assoc, List.singleton_append]

theorem text_propertiesHead (s : Snapshot F) : (propertiesHead s).text =
    propertiesOpen ++ '\x7b' :: ((members s).take 7).flatMap fun kv => member kv ++ [','] := by
  have hf : "\x7b\"services\":[\x7b\"service_id\":\"%s\",\"properties\":\x7b".toList =
      "\x7b\"services\":[\x7b\"service_id\":\"".toList ++
        '%' :: 's' :: "\",\"properties\":\x7b".toList := by decide +kernel
  have ho : "\x7b\"services\":[\x7b\"service_id\":\"".toList ++ serviceIdSensor.toList ++
      "\",\"properties\":\x7b".toList = propertiesOpen ++ ['\x7b'] := by decide +kernel
  unfold propertiesHead
  refine (text_head (by decide +kernel) (by decide +kernel) serviceIdSensor.toList hf s).trans ?_
  rw [ho, List.append_assoc, List.singleton_append]

/-- **What `build_sensor_json` prints.** -/
theorem text_sensorJson (s : Snapshot F) : (sensorJsonCalls s).flatMap Call.text =
    sensorJsonOpen ++ object (members s) ++ ['\x7d', '\n'] := by
  have ht : (⟨",\"flame\":%d\x7d\x7d\n".toList, [.num s.flame]⟩ : Call).text =
      ',' :: member ("flame", sdec s.flame) ++ ['\x7d', '\x7d', '\n'] := by
    have hf : ",\"flame\":%d\x7d\x7d\n".toList =
        (',' :: quoted "flame".toList ++ [':']) ++ '%' :: 'd' :: (['\x7d', '\x7d', '\n'] ++ []) := by
      decide +kernel
    rw [Call.text, hf, formatted_plain (by decide +kernel), formatted_d, formatted_plain (by decide)]
    simp [member]
  simp only [sensorJsonCalls, appendFloat, List.flatMap_cons, List.flatMap_nil, text_sensorJsonHead,
    text_floatCall, text_comma, ht, object_members]
  simp [members]

/-- **What step 7 prints.** -/
theorem text_properties (s : Snapshot F) : (propertiesCalls s).flatMap Call.text =
    propertiesOpen ++ object (members s) ++ ['\x7d', ']', '\x7d'] := by
  have ht : (⟨"\"flame\":%d".toList, [.num s.flame]⟩ : Call).text =
      member ("flame", sdec s.flame) := by
    have hf : "\"flame\":%d".toList = (quoted "flame".toList ++ [':']) ++ '%' :: 'd' :: [] := by
      decide +kernel
    rw [Call.text, hf, formatted_plain (by decide +kernel), formatted_d]
    simp [member]
  have hc : (⟨"\x7d\x7d]\x7d".toList, []⟩ : Call).text = ['\x7d', '\x7d', ']', '\x7d'] := rfl
  simp only [propertiesCalls, appendFloatField, List.flatMap_cons, List.flatMap_nil,
    text_propertiesHead, text_floatCall, text_comma, ht, hc, object_members]
  simp [members]

end PipeGallery.Report
