import Mathlib.Data.List.TakeWhile
import PipeGallery.Report.Decimal

set_option autoImplicit false

/-!
# Reports — chained appends to a buffer

Both reports are built by `pos += rt_snprintf(buf + pos, sizeof(buf) - pos, …)`, with the untruncated
length added each time and `sizeof(buf) - pos` computed in 32 unsigned bits.

* `Call`, `Build`, `append`, `appendAll`, `positions`: the chain;
* `emit_get`, `rtSnprintf_fits`: one call that fits;
* **`appendAll_fits`**: when the whole text fits, every append starts inside the buffer, the buffer
  holds the text and a NUL, and nothing outside it is touched;
* `appendAll_pos`: what `pos` counts;
* `cString_eq`, `cString_congr`: its C string is the text.
-/

namespace PipeGallery.Report

/-- A call of `rt_snprintf`: its format and its arguments. -/
structure Call where
  fmt : List Char
  args : List Arg

/-- The untruncated output of a call. -/
def Call.text (c : Call) : List Char := formatted c.fmt c.args

/-- The memory and `pos`. -/
structure Build where
  mem : Mem
  pos : ℕ := 0

/-- `pos += rt_snprintf(buf + pos, sizeof(buf) - pos, …)` on the buffer of `cap` bytes at `base`. -/
def append (base cap : ℕ) (b : Build) (c : Call) : Build :=
  let r := rtSnprintf b.mem ((base + b.pos) % 2 ^ 32) ((2 ^ 32 + cap - b.pos) % 2 ^ 32) c.fmt c.args
  ⟨r.1, b.pos + r.2⟩

/-- The appends in order. -/
def appendAll (base cap : ℕ) (b : Build) (cs : List Call) : Build := cs.foldl (append base cap) b

/-- The value of `pos` at each append. -/
def positions (base cap : ℕ) : Build → List Call → List ℕ
  | _, [] => []
  | b, c :: cs => b.pos :: positions base cap (append base cap b c) cs

/-! ## One call -/

theorem emit_snd (stop : ℕ) (m : Mem) (str : ℕ) (cs : List Char) :
    (emit stop m str cs).2 = str + cs.length := by
  induction cs generalizing m str with
  | nil => rfl
  | cons c cs ih => rw [emit, ih, List.length_cons]; omega

/-- Nothing outside `[str, stop)` is touched. -/
theorem emit_frame (stop : ℕ) (m : Mem) (str : ℕ) (cs : List Char) {a : ℕ} (h : a < str ∨ stop ≤ a) :
    (emit stop m str cs).1 a = m a := by
  induction cs generalizing m str with
  | nil => rfl
  | cons c cs ih =>
    rw [emit, ih _ _ (by omega)]
    split_ifs with hs
    · exact Function.update_of_ne (by omega) _ _
    · rfl

/-- The characters that fit are stored in order. -/
theorem emit_get (stop : ℕ) (m : Mem) (str : ℕ) (cs : List Char) (h : str + cs.length ≤ stop) {i : ℕ}
    (hi : i < cs.length) : (emit stop m str cs).1 (str + i) = cs[i] := by
  induction cs generalizing m str i with
  | nil => simp at hi
  | cons c cs ih =>
    rw [List.length_cons] at h hi
    rw [emit]
    cases i with
    | zero =>
      rw [if_pos (by omega), emit_frame _ _ _ _ (by omega)]
      exact Function.update_self _ _ _
    | succ i =>
      rw [show str + (i + 1) = str + 1 + i by omega, ih _ _ (by omega) (by omega)]
      rfl

/-- A call whose output fits: it is stored with a NUL behind it, inside the field. -/
theorem rtSnprintf_fits (m : Mem) {buf size : ℕ} {fmt : List Char} {args : List Arg}
    (hw : buf + size < 2 ^ 32) (h : (formatted fmt args).length < size) :
    (rtSnprintf m buf size fmt args).2 = (formatted fmt args).length ∧
      (∀ i (hi : i < (formatted fmt args).length),
        (rtSnprintf m buf size fmt args).1 (buf + i) = (formatted fmt args)[i]) ∧
      (rtSnprintf m buf size fmt args).1 (buf + (formatted fmt args).length) = '\x00' ∧
      ∀ a, a < buf ∨ buf + size ≤ a → (rtSnprintf m buf size fmt args).1 a = m a := by
  have hstop : (if (buf + size) % 2 ^ 32 < buf then 2 ^ 32 - 1 else (buf + size) % 2 ^ 32) = buf + size := by
    rw [Nat.mod_eq_of_lt hw, if_neg (by omega)]
  have hmem : (rtSnprintf m buf size fmt args).1 = Function.update
      (emit (buf + size) m buf (formatted fmt args)).1 (buf + (formatted fmt args).length) '\x00' := by
    simp only [rtSnprintf, hstop, emit_snd]
    rw [if_pos (by omega), if_pos (by omega)]
  refine ⟨?_, fun i hi => ?_, ?_, fun a ha => ?_⟩
  · simp only [rtSnprintf, emit_snd]
    omega
  · rw [hmem, Function.update_of_ne (by omega)]
    exact emit_get _ _ _ _ (by omega) hi
  · rw [hmem, Function.update_self]
  · rw [hmem, Function.update_of_ne (by omega)]
    exact emit_frame _ _ _ _ ha

/-! ## The chain -/

/-- The memory at `base` starts with `t`. -/
def Written (m : Mem) (base : ℕ) (t : List Char) : Prop := ∀ i (h : i < t.length), m (base + i) = t[i]

/-- One append that fits. -/
theorem append_fits {base cap : ℕ} (hb : base + cap < 2 ^ 32) {b : Build} {c : Call} {t : List Char}
    (hp : b.pos = t.length) (hw : Written b.mem base t) (h : t.length + c.text.length < cap) :
    (append base cap b c).pos = (t ++ c.text).length ∧
      Written (append base cap b c).mem base (t ++ c.text) ∧
      (append base cap b c).mem (base + (t ++ c.text).length) = '\x00' ∧
      ∀ a, a < base ∨ base + cap ≤ a → (append base cap b c).mem a = b.mem a := by
  have e1 : (base + b.pos) % 2 ^ 32 = base + t.length := by rw [hp, Nat.mod_eq_of_lt (by omega)]
  have e2 : (2 ^ 32 + cap - b.pos) % 2 ^ 32 = cap - t.length := by rw [hp]; omega
  have hsize : (formatted c.fmt c.args).length < cap - t.length := by
    change c.text.length < _
    omega
  have hend : base + t.length + (cap - t.length) < 2 ^ 32 := by omega
  obtain ⟨h1, h2, h3, h4⟩ := rtSnprintf_fits b.mem hend hsize
  simp only [append, e1, e2]
  refine ⟨?_, fun i hi => ?_, ?_, fun a ha => h4 a (by omega)⟩
  · rw [h1, hp, List.length_append]
    rfl
  · by_cases hit : i < t.length
    · rw [h4 _ (by omega), List.getElem_append_left hit]
      exact hw i hit
    · rw [List.length_append] at hi
      rw [List.getElem_append_right (by omega),
        show base + i = base + t.length + (i - t.length) by omega]
      exact h2 _ (show i - t.length < c.text.length by omega)
  · rw [List.length_append, ← Nat.add_assoc]
    exact h3

/-- **A chain whose whole text fits.** -/
theorem appendAll_fits {base cap : ℕ} (hb : base + cap < 2 ^ 32) {cs : List Call} {b : Build}
    {t : List Char} (hp : b.pos = t.length) (hw : Written b.mem base t)
    (h : t.length + (cs.flatMap Call.text).length < cap) :
    (appendAll base cap b cs).pos = (t ++ cs.flatMap Call.text).length ∧
      Written (appendAll base cap b cs).mem base (t ++ cs.flatMap Call.text) ∧
      (b.mem (base + t.length) = '\x00' ∨ cs ≠ [] →
        (appendAll base cap b cs).mem (base + (t ++ cs.flatMap Call.text).length) = '\x00') ∧
      (∀ p ∈ positions base cap b cs, p < cap) ∧
      ∀ a, a < base ∨ base + cap ≤ a → (appendAll base cap b cs).mem a = b.mem a := by
  induction cs generalizing b t with
  | nil =>
    simp only [List.flatMap_nil, List.append_nil]
    exact ⟨hp, hw, fun h => h.resolve_right (fun hne => hne rfl), by simp [positions], fun _ _ => rfl⟩
  | cons c cs ih =>
    rw [List.flatMap_cons, List.length_append] at h
    obtain ⟨a1, a2, a3, a4⟩ := append_fits hb hp hw (c := c) (by omega)
    obtain ⟨i1, i2, i3, i4, i5⟩ := ih a1 a2 (by rw [List.length_append]; omega)
    rw [List.flatMap_cons, ← List.append_assoc]
    refine ⟨i1, i2, fun _ => i3 (Or.inl a3), fun p hmem => ?_, fun a ha => (i5 a ha).trans (a4 a ha)⟩
    rcases List.mem_cons.mp hmem with rfl | hmem
    · omega
    · exact i4 p hmem

/-- `pos` counts the untruncated texts, whether they fit or not. -/
theorem appendAll_pos (base cap : ℕ) (b : Build) (cs : List Call) :
    (appendAll base cap b cs).pos = b.pos + (cs.flatMap Call.text).length := by
  induction cs generalizing b with
  | nil => rfl
  | cons c cs ih =>
    have hc : (append base cap b c).pos = b.pos + c.text.length := by
      simp only [append, rtSnprintf, emit_snd, Call.text]
      omega
    rw [List.flatMap_cons, List.length_append, ← Nat.add_assoc, ← hc]
    exact ih _

/-- The C string of a buffer that holds `t` and a NUL. -/
theorem cString_eq {m : Mem} {base n : ℕ} {t : List Char} (hw : Written m base t)
    (h0 : m (base + t.length) = '\x00') (ht : '\x00' ∉ t) (hn : t.length < n) :
    cString m base n = t := by
  have hmap : (List.range t.length).map (fun i => m (base + i)) = t := by
    refine List.ext_getElem (by simp) fun i h1 h2 => ?_
    rw [List.getElem_map, List.getElem_range]
    exact hw i h2
  obtain ⟨k, rfl⟩ : ∃ k, n = t.length + 1 + k := ⟨n - t.length - 1, by omega⟩
  rw [cString, List.range_add, List.range_succ, List.map_append, List.map_append, hmap,
    List.append_assoc, List.takeWhile_append_of_pos]
  · simp [h0]
  · intro c hc
    exact decide_eq_true fun e => ht (e ▸ hc)

/-- A C string depends on its own cells. -/
theorem cString_congr {m m' : Mem} {p n : ℕ} (h : ∀ i < n, m (p + i) = m' (p + i)) :
    cString m p n = cString m' p n := by
  rw [cString, cString]
  refine congrArg _ (List.map_congr_left fun i hi => ?_)
  exact h i (List.mem_range.mp hi)

end PipeGallery.Report
