import PipeGallery.Lib.Json
import PipeGallery.Report.Limits

set_option autoImplicit false

/-!
# Reports — when they are JSON

* `isNumber_floatText`, `scan_floatText`: `int.dec` is a number exactly when the second part has no
  sign;
* `decPart_ok`, `decPart_wraps`: the negation of the second part fails only for `INT_MIN`;
* `isNeg_decPart_normal`, `isNeg_decPart_subnormal`, **`isNeg_decPart_decode`**: the bit patterns for which it
  does;
* `jsonText_sensorJson_iff`, `jsonText_properties_iff`, **`reports_json_iff`**.
-/

namespace PipeGallery.Report

open PipeGallery.Lib

/-! ## Texts -/

theorem isDigits_udec (n : ℕ) : IsDigits (udec n) :=
  ⟨List.ne_nil_of_length_pos (length_udec_pos n), fun _ => isDigit_of_mem_udec⟩

theorem isInt_udec (n : ℕ) : IsInt (udec n) := by
  rcases udec_shape n with h | ⟨c, cs, h, hc, h0, hcs⟩
  · exact Or.inl h
  · exact Or.inr ⟨c, cs, h, h0, h ▸ isDigits_udec n⟩

theorem isNumber_udec (n : ℕ) : IsNumber (udec n) :=
  ⟨[], udec n, [], [], by simp, by simp, isInt_udec n, Or.inl rfl, Or.inl rfl⟩

/-- `%d` prints an optional minus and an integer. -/
theorem sdec_shape (w : BitVec 32) :
    ∃ minus int, sdec w = minus ++ int ∧ minus ∈ [[], ['-']] ∧ IsInt int := by
  unfold sdec
  split_ifs
  · exact ⟨['-'], _, rfl, by simp, isInt_udec _⟩
  · exact ⟨[], _, rfl, by simp, isInt_udec _⟩

theorem isNumber_sdec (w : BitVec 32) : IsNumber (sdec w) := by
  obtain ⟨minus, int, h, hm, hi⟩ := sdec_shape w
  exact ⟨minus, int, [], [], by simp [h], hm, hi, Or.inl rfl, Or.inl rfl⟩

theorem isDigits_sdec02 {w : BitVec 32} (h : isNeg w = false) : IsDigits (sdec02 w) := by
  obtain ⟨hne, hd⟩ := isDigits_udec w.toNat
  rw [sdec02, if_neg (by simp [h])]
  refine ⟨by simp [hne], fun c hc => ?_⟩
  rcases List.mem_append.mp hc with hc | hc
  · rw [List.eq_of_mem_replicate hc]
    decide
  · exact hd c hc

section
variable {F : Type*} [CFloat F]

theorem isNumber_floatText {val : F} (h : isNeg (decPart val) = false) : IsNumber (floatText val) := by
  obtain ⟨minus, int, hs, hm, hi⟩ := sdec_shape (intPart val)
  refine ⟨minus, int, '.' :: sdec02 (decPart val), [], by simp [floatText, hs], hm, hi, ?_, Or.inl rfl⟩
  exact Or.inr ⟨_, rfl, isDigits_sdec02 h⟩

/-- A sign behind the dot is refused. -/
theorem scan_floatText {val : F} (h : isNeg (decPart val) = true) :
    scan .out (floatText val) = .bad := by
  rw [floatText, scan_append, scan_isNumber (isNumber_sdec _), sdec02, if_pos h]
  exact scan_bad _

end

/-! ## The wrapped negation -/

/-- The negation loses the sign except of `INT_MIN`. -/
theorem isNeg_abs_iff (d : BitVec 32) :
    isNeg (if isNeg d then -d else d) = true ↔ d = BitVec.intMin 32 := by
  have hlt := d.isLt
  have hmin : d = BitVec.intMin 32 ↔ d.toNat = 2 ^ 31 := by
    rw [← BitVec.toNat_inj]
    exact Iff.rfl
  rw [hmin]
  split_ifs with h
  · rw [isNeg, decide_eq_true_eq, BitVec.toInt_eq_toNat_cond] at h ⊢
    rw [BitVec.toNat_neg]
    split_ifs at h ⊢ <;> omega
  · rw [isNeg, decide_eq_true_eq, BitVec.toInt_eq_toNat_cond] at h ⊢
    split_ifs at h ⊢ <;> omega

theorem ofInt32_hundred : binary32.ofInt32 100 = .fin 100 := by decide +kernel

theorem ofInt32_intMin : binary32.ofInt32 (BitVec.intMin 32) = .fin (-2 ^ 31) := by decide +kernel

/-- The integer part as a `float`, and how far below it the value may lie. -/
theorem sub_intPart_ge {q : ℚ} (hq : -2 ^ 31 - 21474816 ≤ q) :
    ∃ y, binary32.ofInt32 (toInt32 (.fin q)) = .fin y ∧ -21474816 ≤ q - y := by
  by_cases hmin : q ≤ -2 ^ 31
  · refine ⟨-2 ^ 31, ?_, by linarith⟩
    rw [(toInt32_eq_intMin_iff q).mpr hmin, ofInt32_intMin]
  · have hi := toInt_toInt32 q
    have ht := truncate_le q
    set i := (toInt32 (.fin q)).toInt with hdef
    have hiq : (i : ℚ) ≤ q + 1 := by
      rcases le_total (-2 ^ 31) (truncate q) with h | h
      · have : i ≤ truncate q := by omega
        have : (i : ℚ) ≤ truncate q := by exact_mod_cast this
        linarith
      · have : i = -2 ^ 31 := by omega
        rw [this]
        push_cast
        linarith
    have habs : |(i : ℚ)| ≤ 2 ^ 31 := by
      exact_mod_cast (show |i| ≤ 2 ^ 31 by rw [abs_le]; omega)
    rcases binary32_round_spec (i : ℚ) with ⟨y, hy, herr⟩ | ⟨-, hbig⟩
    · refine ⟨y, hy, ?_⟩
      rw [abs_le] at herr
      linarith
    · linarith

/-- Above the threshold the second part is not `INT_MIN`. -/
theorem decPart_ok {q : ℚ} (hq : -2 ^ 31 - 21474816 ≤ q) :
    isNeg (decPart (FVal.fin q)) = false := by
  rw [Bool.eq_false_iff, ne_eq, decPart, isNeg_abs_iff]
  change ¬ toInt32 (binary32.mul (binary32.sub (.fin q) (binary32.ofInt32 (toInt32 (.fin q))))
    (binary32.ofInt32 100)) = _
  obtain ⟨y, hy, hge⟩ := sub_intPart_ge hq
  rw [hy, ofInt32_hundred]
  change ¬ toInt32 (binary32.mul (binary32.round (q - y)) (.fin 100)) = _
  rcases binary32_round_ge (by norm_num) (by norm_num) hge with hu | ⟨u, hu, huge⟩
  · rw [hu]
    decide +kernel
  · rw [hu]
    change ¬ toInt32 (binary32.round (u * 100)) = _
    have hmul : -(2147481900 : ℚ) ≤ u * 100 := by linarith
    rcases binary32_round_ge (by norm_num) (by norm_num) hmul with hz | ⟨z, hz, hzge⟩
    · rw [hz]
      decide +kernel
    · rw [hz, toInt32_eq_intMin_iff]
      intro hle
      linarith

/-- Below it, it is. -/
theorem decPart_wraps {q : ℚ} (hq : q ≤ -2 ^ 31 - 21475072) :
    isNeg (decPart (FVal.fin q)) = true := by
  rw [decPart, isNeg_abs_iff]
  change toInt32 (binary32.mul (binary32.sub (.fin q) (binary32.ofInt32 (toInt32 (.fin q))))
    (binary32.ofInt32 100)) = _
  have hi : toInt32 (.fin q) = BitVec.intMin 32 := (toInt32_eq_intMin_iff q).mpr (by linarith)
  rw [hi, ofInt32_intMin, ofInt32_hundred]
  change toInt32 (binary32.mul (binary32.round (q - -2 ^ 31)) (.fin 100)) = _
  have hle : q - -2 ^ 31 ≤ -21475072 := by linarith
  rcases binary32_round_le (by norm_num) hle with hu | ⟨u, hu, hule⟩
  · rw [hu]
    decide +kernel
  · rw [hu]
    change toInt32 (binary32.round (u * 100)) = _
    have hmul : u * 100 ≤ -(2147500000 : ℚ) := by linarith
    rcases binary32_round_le (by norm_num) hmul with hz | ⟨z, hz, hzle⟩
    · rw [hz]
      decide +kernel
    · rw [hz, toInt32_eq_intMin_iff]
      linarith

/-! ## Bit patterns -/

/-- The patterns of `-2168958720` and of the numbers below it, and the pattern of `-∞`. -/
def Wraps (w : BitVec 32) : Prop := 0xCF0147AF ≤ w.toNat ∧ w.toNat ≤ 0xFF800000

instance (w : BitVec 32) : Decidable (Wraps w) := inferInstanceAs (Decidable (_ ∧ _))

/-- The second part of a negative normal number with exponent field `e`. -/
theorem isNeg_decPart_normal {e m : ℕ} (hm : m < 2 ^ 23) :
    isNeg (decPart (FVal.fin (-1 * (2 ^ 23 + (m : ℚ)) * 2 ^ ((e : ℤ) - 150)))) = true ↔
      158 * 2 ^ 23 + 83887 ≤ e * 2 ^ 23 + m := by
  have hmq : (m : ℚ) < 2 ^ 23 := by exact_mod_cast hm
  have hm0 : (0 : ℚ) ≤ m := by positivity
  rcases lt_trichotomy e 158 with h | rfl | h
  · -- smaller than `2 ^ 31`
    have hpow : (2 : ℚ) ^ ((e : ℤ) - 150) ≤ 2 ^ 7 := by
      exact_mod_cast zpow_le_zpow_right₀ (a := (2 : ℚ)) (by norm_num) (show (e : ℤ) - 150 ≤ 7 by omega)
    have hmul : (2 ^ 23 + (m : ℚ)) * 2 ^ ((e : ℤ) - 150) ≤ 2 ^ 24 * 2 ^ 7 :=
      mul_le_mul (by linarith) hpow (by positivity) (by positivity)
    rw [decPart_ok (by linarith)]
    simp only [Bool.false_eq_true, false_iff]
    omega
  · -- the binade of the threshold, in steps of 256
    have hval : -1 * (2 ^ 23 + (m : ℚ)) * 2 ^ (((158 : ℕ) : ℤ) - 150) = -2 ^ 31 - m * 256 := by
      rw [show ((158 : ℕ) : ℤ) - 150 = ((8 : ℕ) : ℤ) by norm_num, zpow_natCast]
      ring
    rw [hval]
    by_cases hk : m ≤ 83886
    · have : (m : ℚ) ≤ 83886 := by exact_mod_cast hk
      rw [decPart_ok (by linarith)]
      simp only [Bool.false_eq_true, false_iff]
      omega
    · have : (83887 : ℚ) ≤ m := by exact_mod_cast (show 83887 ≤ m by omega)
      rw [decPart_wraps (by linarith)]
      simp only [true_iff]
      omega
  · -- at least `2 ^ 32`
    have hpow : (2 : ℚ) ^ 9 ≤ 2 ^ ((e : ℤ) - 150) := by
      exact_mod_cast zpow_le_zpow_right₀ (a := (2 : ℚ)) (by norm_num) (show (9 : ℤ) ≤ e - 150 by omega)
    have hmul : (2 ^ 23 : ℚ) * 2 ^ 9 ≤ (2 ^ 23 + (m : ℚ)) * 2 ^ ((e : ℤ) - 150) :=
      mul_le_mul (by linarith) hpow (by positivity) (by positivity)
    rw [decPart_wraps (by linarith)]
    simp only [true_iff]
    omega

/-- A subnormal number is smaller than 1. -/
theorem isNeg_decPart_subnormal {m : ℕ} (hm : m < 2 ^ 23) {sign : ℚ} (hs : sign = -1 ∨ sign = 1) :
    isNeg (decPart (FVal.fin (sign * m * 2 ^ (-149 : ℤ)))) = false := by
  have hmq : (m : ℚ) ≤ 2 ^ 23 := by exact_mod_cast hm.le
  have htiny : (2 : ℚ) ^ (-149 : ℤ) ≤ 1 := zpow_le_one_of_nonpos₀ (by norm_num) (by norm_num)
  have hmul : (m : ℚ) * 2 ^ (-149 : ℤ) ≤ 2 ^ 23 * 1 :=
    mul_le_mul hmq htiny (by positivity) (by positivity)
  have hnn : (0 : ℚ) ≤ m * 2 ^ (-149 : ℤ) := by positivity
  apply decPart_ok
  rcases hs with rfl | rfl
  · linarith
  · linarith

/-- **The bit patterns whose second part keeps its sign.** -/
theorem isNeg_decPart_decode (w : BitVec 32) : isNeg (decPart (decode32 w)) = true ↔ Wraps w := by
  have hlt := w.isLt
  have hmsb : w.msb = decide (2 ^ 31 ≤ w.toNat) := BitVec.msb_eq_decide w
  generalize he : w.toNat / 2 ^ 23 % 2 ^ 8 = e
  generalize hm : w.toNat % 2 ^ 23 = m
  have hm23 : m < 2 ^ 23 := by omega
  simp only [decode32, Wraps, he, hm, hmsb, decide_eq_true_eq]
  by_cases h255 : e = 255
  · rw [if_pos h255]
    by_cases hm0 : m = 0
    · rw [if_pos hm0]
      by_cases hs : 2 ^ 31 ≤ w.toNat
      · rw [decide_eq_true hs]
        exact iff_of_true (by decide +kernel) (by omega)
      · rw [decide_eq_false hs]
        exact iff_of_false (by decide +kernel) (by omega)
    · rw [if_neg hm0]
      exact iff_of_false (by decide +kernel) (by omega)
  rw [if_neg h255]
  by_cases h0 : e = 0
  · rw [if_pos h0]
    refine iff_of_false ?_ (by omega)
    have hsign : (if 2 ^ 31 ≤ w.toNat then (-1 : ℚ) else 1) = -1 ∨
        (if 2 ^ 31 ≤ w.toNat then (-1 : ℚ) else 1) = 1 := ite_eq_or_eq _ _ _
    rw [isNeg_decPart_subnormal hm23 hsign]
    decide
  rw [if_neg h0]
  by_cases hs : 2 ^ 31 ≤ w.toNat
  · rw [if_pos hs, isNeg_decPart_normal hm23]
    omega
  · rw [if_neg hs]
    refine iff_of_false ?_ (by omega)
    have hnn : (0 : ℚ) ≤ 1 * (2 ^ 23 + (m : ℚ)) * 2 ^ ((e : ℤ) - 150) := by positivity
    rw [decPart_ok (by linarith)]
    decide

/-! ## The reports -/

section
variable {F : Type*} [CFloat F]

theorem isString_quoted {k : String} (h : k ∈ keys) : IsString (quoted k.toList) := by
  have hall : ∀ k ∈ keys, k.toList.all plain = true := by decide +kernel
  exact isString_of_plain (hall k h)

theorem isString_key {s : Snapshot F} {kv : String × List Char} (h : kv ∈ members s) :
    IsString (quoted kv.1.toList) := by
  refine isString_quoted ?_
  rw [← map_fst_members s]
  exact List.mem_map_of_mem h

/-- Without a sign behind a dot, every value is a number. -/
theorem isNumber_values {s : Snapshot F} (h : ∀ v ∈ s.floats, isNeg (decPart v) = false) :
    ∀ kv ∈ members s, IsNumber kv.2 := by
  simp only [Snapshot.floats, List.forall_mem_cons, List.not_mem_nil, false_implies, implies_true,
    and_true] at h
  obtain ⟨h1, h2, h3, h4, h5, h6, h7, h8, h9, h10, h11, h12⟩ := h
  simp only [members, List.forall_mem_cons, List.not_mem_nil, false_implies, implies_true,
    isNumber_udec, isNumber_sdec, isNumber_floatText h1, isNumber_floatText h2, isNumber_floatText h3,
    isNumber_floatText h4, isNumber_floatText h5, isNumber_floatText h6, isNumber_floatText h7,
    isNumber_floatText h8, isNumber_floatText h9, isNumber_floatText h10, isNumber_floatText h11,
    isNumber_floatText h12, and_self]

theorem derives_object {s : Snapshot F} (h : ∀ v ∈ s.floats, isNeg (decPart v) = false) :
    Derives .value (object (members s)) := by
  refine .object (derives_members (by simp [members]) fun l hl => ?_)
  obtain ⟨kv, hkv, rfl⟩ := List.mem_map.mp hl
  exact derives_member (isString_key hkv) (.number (isNumber_values h kv hkv))

/-- A refused value makes a list of members refused. -/
theorem scan_flatMap_member {ms : List (String × List Char)}
    (hk : ∀ kv ∈ ms, IsString (quoted kv.1.toList))
    (hv : ∀ kv ∈ ms, scan .out kv.2 = .out ∨ scan .out kv.2 = .bad)
    (hb : ∃ kv ∈ ms, scan .out kv.2 = .bad) :
    scan .out (ms.flatMap fun kv => member kv ++ [',']) = .bad := by
  induction ms with
  | nil => simp at hb
  | cons kv ms ih =>
    have hkey : scan .out (member kv ++ [',']) = scan (scan .out kv.2) [','] := by
      rw [member, scan_append, scan_append, scan_isString (hk kv List.mem_cons_self)]
      rfl
    rw [List.flatMap_cons, scan_append, hkey]
    rcases hv kv List.mem_cons_self with ho | hbad
    · rw [ho]
      refine ih (fun x hx => hk x (List.mem_cons_of_mem _ hx))
        (fun x hx => hv x (List.mem_cons_of_mem _ hx)) ?_
      obtain ⟨x, hx, hxb⟩ := hb
      rcases List.mem_cons.mp hx with rfl | hx
      · exact absurd (ho.symm.trans hxb) (by decide)
      · exact ⟨x, hx, hxb⟩
    · rw [hbad, scan_bad, scan_bad]

theorem scan_object {s : Snapshot F} (h : ∃ v ∈ s.floats, isNeg (decPart v) = true) :
    scan .out (object (members s)) = .bad := by
  have hsplit : members s = (members s).dropLast ++ [("flame", sdec s.flame)] := rfl
  have hsub {kv : String × List Char} (hkv : kv ∈ (members s).dropLast) : kv ∈ members s :=
    List.mem_of_mem_dropLast hkv
  have hfloat (v : F) : scan .out (floatText v) = .out ∨ scan .out (floatText v) = .bad := by
    cases hd : isNeg (decPart v)
    · exact Or.inl (scan_isNumber (isNumber_floatText hd))
    · exact Or.inr (scan_floatText hd)
  have hvals : ∀ kv ∈ members s, scan .out kv.2 = .out ∨ scan .out kv.2 = .bad := by
    simp only [members, List.forall_mem_cons, List.not_mem_nil, false_implies, implies_true,
      scan_isNumber (isNumber_udec _), scan_isNumber (isNumber_sdec _), hfloat, true_or, and_self]
  have hbad : ∃ kv ∈ (members s).dropLast, scan .out kv.2 = .bad := by
    obtain ⟨v, hv, hneg⟩ := h
    have hmid : (((members s).dropLast).drop 7).map Prod.snd = s.floats.map floatText := rfl
    obtain ⟨kv, hkv, he⟩ := List.mem_map.mp (hmid ▸ List.mem_map_of_mem hv)
    exact ⟨kv, List.mem_of_mem_drop hkv, by rw [he]; exact scan_floatText hneg⟩
  have hflat : scan .out ((members s).dropLast.flatMap fun kv => member kv ++ [',']) = .bad :=
    scan_flatMap_member (fun _ hkv => isString_key (hsub hkv)) (fun _ hkv => hvals _ (hsub hkv)) hbad
  rw [hsplit, object_concat, List.cons_append, scan_cons]
  change scan .out _ = _
  rw [scan_append, scan_append, hflat, scan_bad, scan_bad]

/-- A JSON text around the members: no second part keeps a sign. -/
theorem isNeg_of_jsonText {s : Snapshot F} {pre post : List Char} (hpre : scan .out pre = .out)
    (hj : JsonText (pre ++ object (members s) ++ post)) :
    ∀ v ∈ s.floats, isNeg (decPart v) = false := by
  intro v hv
  by_contra hneg
  have hscan := scan_of_jsonText hj
  rw [scan_append, scan_append, hpre, scan_object ⟨v, hv, by simpa using hneg⟩, scan_bad] at hscan
  exact absurd hscan (by decide)

/-- The text of `build_sensor_json` is JSON when no second part keeps a sign. -/
theorem jsonText_sensorJson_iff (s : Snapshot F) :
    JsonText ((sensorJsonCalls s).flatMap Call.text) ↔ ∀ v ∈ s.floats, isNeg (decPart v) = false := by
  rw [text_sensorJson]
  constructor
  · intro hj
    have hopen : scan .out sensorJsonOpen = .out := by decide +kernel
    exact isNeg_of_jsonText hopen hj
  · intro h
    have hid : IsString (quoted "device_id".toList) := isString_of_plain (by decide +kernel)
    have hname : IsString (quoted ethDeviceId.toList) := isString_of_plain (by decide +kernel)
    have hdata : IsString (quoted "data".toList) := isString_of_plain (by decide +kernel)
    have hopen : sensorJsonOpen = '\x7b' :: (quoted "device_id".toList ++ ':' ::
        quoted ethDeviceId.toList ++ ',' :: (quoted "data".toList ++ [':'])) := by decide +kernel
    refine ⟨[], _, ['\n'], ?_, isWs_nil, .object (.members (derives_member hid (.string hname))
      (derives_member hdata (derives_object h))), by simp [IsWs]⟩
    simp [hopen]

/-- The text of step 7 is JSON when no second part keeps a sign. -/
theorem jsonText_properties_iff (s : Snapshot F) :
    JsonText ((propertiesCalls s).flatMap Call.text) ↔ ∀ v ∈ s.floats, isNeg (decPart v) = false := by
  rw [text_properties]
  constructor
  · intro hj
    have hopen : scan .out propertiesOpen = .out := by decide +kernel
    exact isNeg_of_jsonText hopen hj
  · intro h
    have hsv : IsString (quoted "services".toList) := isString_of_plain (by decide +kernel)
    have hid : IsString (quoted "service_id".toList) := isString_of_plain (by decide +kernel)
    have hname : IsString (quoted serviceIdSensor.toList) := isString_of_plain (by decide +kernel)
    have hprop : IsString (quoted "properties".toList) := isString_of_plain (by decide +kernel)
    have hopen : propertiesOpen = '\x7b' :: (quoted "services".toList ++ ':' :: '[' :: '\x7b' ::
        (quoted "service_id".toList ++ ':' :: quoted serviceIdSensor.toList ++
          ',' :: (quoted "properties".toList ++ [':']))) := by decide +kernel
    have hservice := Derives.object (.members (derives_member hid (.string hname))
      (derives_member hprop (derives_object h)))
    have harray := Derives.array (.element isWs_nil hservice isWs_nil)
    refine ⟨[], _, [], ?_, isWs_nil, .object (derives_member hsv harray), isWs_nil⟩
    simp [hopen]

end

/-- The globals by value. -/
def Snapshot.map {F G : Type*} (f : F → G) (s : Snapshot F) : Snapshot G where
  gAdcCh0 := s.gAdcCh0
  gAdcCh1 := s.gAdcCh1
  gAdcCh3 := s.gAdcCh3
  gAdcCh4 := s.gAdcCh4
  gAdcCh5 := s.gAdcCh5
  gMethanePpm := s.gMethanePpm
  gMethaneLel := s.gMethaneLel
  voltage i := f (s.voltage i)
  current i := f (s.current i)
  flow := f s.flow
  gTemperatureC := f s.gTemperatureC
  gHumidityRh := f s.gHumidityRh
  gO2Concentration := f s.gO2Concentration
  displacement := f s.displacement
  gStressValueN := f s.gStressValueN
  flame := s.flame

theorem floats_map {F G : Type*} (f : F → G) (s : Snapshot F) :
    (s.map f).floats = s.floats.map f := rfl

/-- The globals, as bit patterns, after the meters answered with these registers. -/
def Snapshot.withMeters (s : Snapshot (BitVec 32)) (volts amps : Fin 3 → BitVec 16 × BitVec 16)
    (water : BitVec 16 × BitVec 16) : Snapshot (BitVec 32) :=
  { s with
    voltage := fun i => registersToFloat (volts i).1 (volts i).2
    current := fun i => registersToFloat (amps i).1 (amps i).2
    flow := registersToFloat water.1 water.2 }

theorem forall_floats_iff (s : Snapshot (BitVec 32)) :
    (∀ v ∈ (s.map decode32).floats, isNeg (decPart v) = false) ↔ ∀ w ∈ s.floats, ¬ Wraps w := by
  rw [floats_map, List.forall_mem_map]
  refine forall₂_congr fun w _ => ?_
  rw [← isNeg_decPart_decode, Bool.not_eq_true]

theorem jsonText_buildSensorJson_iff {base : ℕ} (hb : base + 512 < 2 ^ 32) (m : Mem)
    {s : Snapshot (BitVec 32)} (h : (buildSensorJson base m (s.map decode32)).pos < 512) :
    JsonText (cString (buildSensorJson base m (s.map decode32)).mem base 512) ↔
      ∀ w ∈ s.floats, ¬ Wraps w := by
  rw [buildSensorJson, appendAll_pos, Nat.zero_add] at h
  obtain ⟨-, -, h3, -⟩ := buildSensorJson_report hb m h
  rw [h3, jsonText_sensorJson_iff, forall_floats_iff]

theorem jsonText_buildProperties_iff {base : ℕ} (hb : base + 600 < 2 ^ 32) (m : Mem)
    {s : Snapshot (BitVec 32)} (h : (buildProperties base m (s.map decode32)).pos < 600) :
    JsonText (cString (buildProperties base m (s.map decode32)).mem base 600) ↔
      ∀ w ∈ s.floats, ¬ Wraps w := by
  rw [buildProperties, appendAll_pos, Nat.zero_add] at h
  obtain ⟨-, -, h3, -⟩ := buildProperties_report hb m h
  rw [h3, jsonText_properties_iff, forall_floats_iff]

/-- **When the reports are JSON**: within their buffers, both are well formed exactly when no float
global holds a pattern whose second part keeps its sign. -/
theorem reports_json_iff {base base' : ℕ} (hb : base + 512 < 2 ^ 32) (hb' : base' + 600 < 2 ^ 32)
    (m m' : Mem) (s : Snapshot (BitVec 32)) (volts amps : Fin 3 → BitVec 16 × BitVec 16)
    (water : BitVec 16 × BitVec 16)
    (h : (buildSensorJson base m ((s.withMeters volts amps water).map decode32)).pos < 512)
    (h' : (buildProperties base' m' ((s.withMeters volts amps water).map decode32)).pos < 600) :
    JsonText (cString
          (buildSensorJson base m ((s.withMeters volts amps water).map decode32)).mem base 512) ∧
        JsonText (cString
          (buildProperties base' m' ((s.withMeters volts amps water).map decode32)).mem base' 600) ↔
      ∀ w ∈ (s.withMeters volts amps water).floats, ¬ Wraps w := by
  rw [jsonText_buildSensorJson_iff hb m h, jsonText_buildProperties_iff hb' m' h', and_self]

/-- A node with quiet sensors. -/
def quietSnapshot : Snapshot (BitVec 32) where
  gAdcCh0 := 0
  gAdcCh1 := 0
  gAdcCh3 := 0
  gAdcCh4 := 0
  gAdcCh5 := 0
  gMethanePpm := 0
  gMethaneLel := 0
  voltage _ := 0x3F800000
  current _ := 0x3F800000
  flow := 0x3F800000
  gTemperatureC := 0x41A80000
  gHumidityRh := 0x42480000
  gO2Concentration := 0x41A73333
  displacement := 0x3F800000
  gStressValueN := 0xC0200000
  flame := 0

/-- The same node, with these registers for each of the voltages and a NaN for the flow. -/
def quietNode (hi lo : BitVec 16) : Snapshot (BitVec 32) :=
  quietSnapshot.withMeters (fun _ => (hi, lo)) (fun _ => (0x3F80, 0)) (0x7FC0, 0)

theorem fits_of_valuesLength {F : Type*} [CFloat F] (base base' : ℕ) (m m' : Mem) {s : Snapshot F}
    (h : valuesLength s < 247) :
    (buildSensorJson base m s).pos < 512 ∧ (buildProperties base' m' s).pos < 600 := by
  rw [buildSensorJson, appendAll_pos, buildProperties, appendAll_pos, length_sensorJson,
    length_properties, Nat.zero_add, Nat.zero_add]
  omega

theorem reports_json_iff_quiet :
    JsonText (cString (buildSensorJson 0 (fun _ => 'x') ((quietNode 0x435C 0).map decode32)).mem 0 512) ∧
      JsonText
        (cString (buildProperties 0 (fun _ => 'x') ((quietNode 0x435C 0).map decode32)).mem 0 600) := by
  have hv : valuesLength ((quietNode 0x435C 0).map decode32) < 247 := by decide +kernel
  have hl : (quietNode 0x435C 0).floats.Forall fun w => ¬ Wraps w := by decide +kernel
  obtain ⟨h, h'⟩ := fits_of_valuesLength 0 0 (fun _ => 'x') (fun _ => 'x') hv
  exact (@reports_json_iff 0 0 (by decide) (by decide) (fun _ => 'x') (fun _ => 'x') quietSnapshot
    (fun _ => (0x435C, 0)) (fun _ => (0x3F80, 0)) (0x7FC0, 0) h h').mpr
      (List.forall_iff_forall_mem.mp hl)

/-- **Minus infinity on a voltage register pair**: `-2147483648.-2147483648` is printed. -/
theorem not_json_minus_infinity :
    (buildSensorJson 0 (fun _ => 'x') ((quietNode 0xFF80 0).map decode32)).pos < 512 ∧
      (buildProperties 0 (fun _ => 'x') ((quietNode 0xFF80 0).map decode32)).pos < 600 ∧
      ¬ JsonText
        (cString (buildSensorJson 0 (fun _ => 'x') ((quietNode 0xFF80 0).map decode32)).mem 0 512) ∧
      ¬ JsonText
        (cString (buildProperties 0 (fun _ => 'x') ((quietNode 0xFF80 0).map decode32)).mem 0 600) := by
  have hv : valuesLength ((quietNode 0xFF80 0).map decode32) < 247 := by decide +kernel
  have hw : ¬ ∀ w ∈ (quietNode 0xFF80 0).floats, ¬ Wraps w := fun hall =>
    hall 0xFF800000 (by decide +kernel) (by decide +kernel)
  obtain ⟨h, h'⟩ := fits_of_valuesLength 0 0 (fun _ => 'x') (fun _ => 'x') hv
  refine ⟨h, h', ?_, ?_⟩
  · rwa [jsonText_buildSensorJson_iff (by decide) _ h]
  · rwa [jsonText_buildProperties_iff (by decide) _ h']

end PipeGallery.Report
