import PipeGallery.Report.Truth

set_option autoImplicit false

/-!
# Reading a report back

A reader of the reports that knows their frame: it cuts the object at its commas and each member at its
quotes, and reads the numbers.

* `NumberChar`, `numberChar_values`: the characters of the values;
* `readMember`, `readObject`, **`readObject_members`**: the members of a report;
* `reportLine`, `readReport`: the line of a report, without its newline;
* `counts`, **`readDecimal_members`**: its numbers.
-/

namespace PipeGallery.Report

open Lib

section
variable {F : Type*} [CFloat F]

/-! ## The characters of the values -/

/-- A digit, a minus or a dot. -/
def NumberChar (c : Char) : Prop := c.isDigit = true ∨ c = '-' ∨ c = '.'

instance (c : Char) : Decidable (NumberChar c) := inferInstanceAs (Decidable (_ ∨ _))

theorem numberChar_udec {n : ℕ} {c : Char} (h : c ∈ udec n) : NumberChar c :=
  Or.inl (isDigit_of_mem_udec h)

theorem numberChar_sdec {w : BitVec 32} {c : Char} (h : c ∈ sdec w) : NumberChar c := by
  unfold sdec at h
  split_ifs at h
  · rcases List.mem_cons.mp h with rfl | h
    · exact Or.inr (Or.inl rfl)
    · exact numberChar_udec h
  · exact numberChar_udec h

theorem numberChar_sdec02 {w : BitVec 32} {c : Char} (h : c ∈ sdec02 w) : NumberChar c := by
  unfold sdec02 at h
  split_ifs at h
  · rcases List.mem_cons.mp h with rfl | h
    · exact Or.inr (Or.inl rfl)
    · exact numberChar_udec h
  · rcases List.mem_append.mp h with h | h
    · rw [List.eq_of_mem_replicate h]
      exact Or.inl rfl
    · exact numberChar_udec h

theorem numberChar_floatText {val : F} {c : Char} (h : c ∈ floatText val) : NumberChar c := by
  rcases List.mem_append.mp h with h | h
  · exact numberChar_sdec h
  · rcases List.mem_cons.mp h with rfl | h
    · exact Or.inr (Or.inr rfl)
    · exact numberChar_sdec02 h

theorem numberChar_values (s : Snapshot F) : ∀ kv ∈ members s, ∀ c ∈ kv.2, NumberChar c := by
  have hu : ∀ n, ∀ c ∈ udec n, NumberChar c := fun n c => numberChar_udec
  have hf : ∀ val : F, ∀ c ∈ floatText val, NumberChar c := fun val c => numberChar_floatText
  simp only [members, List.forall_mem_cons, List.not_mem_nil, false_implies, implies_true, and_true]
  exact ⟨hu _, hu _, hu _, hu _, hu _, hu _, hu _, hf _, hf _, hf _, hf _, hf _, hf _, hf _, hf _, hf _,
    hf _, hf _, hf _, fun c => numberChar_sdec⟩

/-- A character that stands in no key and in no number stands in no member. -/
theorem not_mem_member {c : Char} (hk : ∀ k ∈ keys, c ∉ quoted k.toList) (hc : c ≠ ':')
    (hn : ¬ NumberChar c) (s : Snapshot F) : ∀ kv ∈ members s, c ∉ member kv := by
  intro kv hkv h
  have hkey : kv.1 ∈ keys := map_fst_members s ▸ List.mem_map_of_mem hkv
  rcases List.mem_append.mp h with h | h
  · exact hk _ hkey h
  · rcases List.mem_cons.mp h with h | h
    · exact hc h
    · exact hn (numberChar_values s kv hkv c h)

/-! ## The members -/

/-- `"key":value`. -/
def readMember (cs : List Char) : List Char × List Char :=
  ((cs.drop 1).takeWhile (· ≠ '\x22'), ((cs.drop 1).dropWhile (· ≠ '\x22')).drop 2)

/-- Members between braces, with commas between them. -/
def readObject (cs : List Char) : List (List Char × List Char) :=
  ((cs.drop 1).dropLast.splitOn ',').map readMember

theorem readMember_member {kv : String × List Char} (h : '\x22' ∉ kv.1.toList) :
    readMember (member kv) = (kv.1.toList, kv.2) := by
  have hdrop : (member kv).drop 1 = kv.1.toList ++ '\x22' :: ':' :: kv.2 := by simp [member, quoted]
  have hne : ∀ c ∈ kv.1.toList, decide (c ≠ '\x22') = true := by
    intro c hc
    apply decide_eq_true
    rintro rfl
    exact h hc
  rw [readMember, hdrop]
  ext1
  · rw [List.takeWhile_append_of_pos hne, List.takeWhile_cons_of_neg (by decide), List.append_nil]
  · rw [List.dropWhile_append_of_pos hne, List.dropWhile_cons_of_neg (by decide)]
    rfl

/-- **The members are read as they were written.** -/
theorem readObject_members (s : Snapshot F) :
    readObject (object (members s)) = (members s).map fun kv => (kv.1.toList, kv.2) := by
  have hinner : ((object (members s)).drop 1).dropLast = [','].intercalate ((members s).map member) := by
    rw [object, List.cons_append, List.drop_succ_cons, List.drop_zero, List.dropLast_concat]
  have hcomma : ∀ l ∈ (members s).map member, ',' ∉ l := by
    intro l hl
    obtain ⟨kv, hkv, rfl⟩ := List.mem_map.mp hl
    exact not_mem_member (by decide +kernel) (by decide) (by decide) s kv hkv
  have hquote : ∀ k ∈ keys, '\x22' ∉ k.toList := by decide +kernel
  rw [readObject, hinner, List.splitOn_intercalate ',' hcomma (by simp [members]), List.map_map]
  apply List.map_congr_left
  intro kv hkv
  apply readMember_member
  exact hquote _ (map_fst_members s ▸ List.mem_map_of_mem hkv)

/-! ## Reports -/

/-- A report as a line, without its newline. -/
def reportLine (s : Snapshot F) : List Char := sensorJsonOpen ++ object (members s) ++ ['\x7d']

theorem text_sensorJson_line (s : Snapshot F) :
    (sensorJsonCalls s).flatMap Call.text = reportLine s ++ ['\n'] := by
  rw [text_sensorJson, reportLine]
  simp

theorem newline_not_mem_reportLine (s : Snapshot F) : '\n' ∉ reportLine s := by
  have hm := not_mem_member (c := '\n') (by decide +kernel) (by decide) (by decide) s
  have hsplit : members s = (members s).dropLast ++ [("flame", sdec s.flame)] := rfl
  have hopen : '\n' ∉ sensorJsonOpen := by decide +kernel
  rw [reportLine, hsplit, object_concat]
  simp only [List.cons_append, List.mem_cons, List.mem_append, List.mem_flatMap, not_or, not_exists,
    not_and, List.not_mem_nil, or_false]
  refine ⟨⟨hopen, by decide, ⟨fun kv hkv => ⟨hm kv (List.mem_of_mem_dropLast hkv), by decide⟩, hm _ ?_⟩,
    by decide⟩, by decide⟩
  rw [hsplit]
  simp

/-- The members of a report. -/
def readReport (line : List Char) : List (List Char × List Char) :=
  readObject ((line.drop sensorJsonOpen.length).dropLast)

theorem readReport_reportLine (s : Snapshot F) :
    readReport (reportLine s) = (members s).map fun kv => (kv.1.toList, kv.2) := by
  rw [readReport, reportLine, List.append_assoc, List.drop_left, List.dropLast_concat, readObject_members]

end

/-! ## The numbers -/

theorem readDecimal_udec_nil (n : ℕ) : readDecimal (udec n) = n := by
  have h := readDecimal_udec n []
  rw [List.append_nil] at h
  have htake : (udec n).takeWhile (fun c => c != '.') = udec n :=
    List.takeWhile_eq_self_iff.mpr fun c => dot_not_mem_udec
  have hdrop : (udec n).dropWhile (fun c => c != '.') = [] :=
    List.dropWhile_eq_nil_iff.mpr fun c => dot_not_mem_udec
  rw [h, readUnsigned, htake, hdrop, readNat_udec]
  simp [readNat]

theorem readDecimal_sdec (w : BitVec 32) : readDecimal (sdec w) = w.toInt := by
  unfold sdec
  split_ifs with h
  · have hu := readDecimal_udec_nil (-w).toNat
    have hplus := readDecimal_udec (-w).toNat []
    rw [List.append_nil] at hplus
    rw [readDecimal, if_pos rfl, ← hplus, hu, toInt_eq_of_isNeg h]
    push_cast
    ring
  · rw [readDecimal_udec_nil, toInt_eq_of_not_isNeg h]
    push_cast
    rfl

/-- The counts of a report, in its order. -/
def counts {F : Type*} (s : Snapshot F) : List ℚ :=
  [(s.gAdcCh0.toNat : ℚ), s.gAdcCh1.toNat, s.gAdcCh3.toNat, s.gAdcCh4.toNat, s.gAdcCh5.toNat,
    s.gMethanePpm.toNat, s.gMethaneLel.toNat]

/-- **The numbers of a report**, as they are read. -/
theorem readDecimal_members {F : Type*} [CFloat F] (s : Snapshot F) :
    (members s).map (fun kv => readDecimal kv.2) =
      counts s ++ s.floats.map (fun v => readDecimal (floatText v)) ++ [(s.flame.toInt : ℚ)] := by
  simp only [members, Snapshot.floats, counts, List.map_cons, List.map_nil, readDecimal_udec_nil,
    readDecimal_sdec, List.cons_append, List.nil_append]

end PipeGallery.Report
