import Mathlib.Data.List.Chain
import Mathlib.Data.List.Infix
import PipeGallery.Shell.Editor

set_option autoImplicit false

/-!
# Sessions at the console

What the keys of a session do to the shell, once it is an editor.

* **`console_refines_editor`**: a session is the editor's, as long as its text stays below 80 characters;
* `Renders`, **`words_of_renders`**, **`typed_line_runs`**: the arguments that are typed arrive;
* `remember_lines`, **`recalled_line_runs`**: the last lines are there to be run again;
* **`tab_completes`**;
* **`full_line_leaves_buffer`**: a line of 80 characters is not what the editor makes of it.
-/

namespace PipeGallery.Shell

open Lib

variable {s : FinshShell} {e : Editor} {names : List (List Char)}

/-! ## Sessions -/

theorem session_refines (hn : ∀ w ∈ names, Clean w) (h : Shows s e) (keys : List Char)
    (hroom : ∀ p, p <+: keys → (p.foldl (Editor.key names) e).text.length < finshCmdSize) :
    Refines (run (FinshShell.key names) s keys) (keys.foldl (Editor.key names) e) := by
  induction keys generalizing s e with
  | nil => exact h.refines
  | cons c keys ih =>
    obtain ⟨s', hs', h'⟩ := key_refines hn h c (hroom [c] (List.prefix_append [c] keys))
    rw [run_cons, hs', Option.bind_some, List.foldl_cons]
    exact ih h' fun p hp => hroom (c :: p) (List.cons_prefix_cons.mpr ⟨rfl, hp⟩)

theorem shows_boot : Shows {} {} where
  stat := rfl
  line := rfl
  position := rfl
  curpos := rfl
  clean := clean_nil
  count := rfl
  few := Nat.zero_le _
  rows _ := rfl
  lines := by simp
  current := rfl
  recent := le_rfl
  outcomes := rfl

/-- **A session is the editor's**, as long as its text stays below 80 characters. -/
theorem console_refines_editor (names : List (List Char)) (hn : ∀ w ∈ names, Clean w) (keys : List Char)
    (hroom : ∀ p, p <+: keys → (p.foldl (Editor.key names) {}).text.length < finshCmdSize) :
    ∃ s, run (FinshShell.key names) {} keys = some s ∧ Shows s (keys.foldl (Editor.key names) {}) :=
  session_refines hn shows_boot keys hroom

theorem console_refines_editor_corrected :
    ∃ s, run (FinshShell.key [['p', 's']]) {} ['p', 'd', '\x7f', 's', ' ', 'x', '\r'] = some s ∧
      s.outcomes = [.ran ['p', 's'] [['p', 's'], ['x']]] := by
  have hroom : ∀ p ∈ List.inits ['p', 'd', '\x7f', 's', ' ', 'x', '\r'],
      (p.foldl (Editor.key [['p', 's']]) {}).text.length < finshCmdSize := by decide
  obtain ⟨s, hs, h⟩ := console_refines_editor [['p', 's']] (by decide) ['p', 'd', '\x7f', 's', ' ', 'x', '\r']
    fun p hp => hroom p ((List.mem_inits _ _).mpr hp)
  exact ⟨s, hs, h.outcomes.trans (by decide)⟩

/-! ## Typing -/

/-- A key that stands for itself. -/
def Ordinary (c : Char) : Prop := c ∉ [nul, '\xff', '\t', '\x7f', '\x08', '\r', '\n', '\x1b']

instance (c : Char) : Decidable (Ordinary c) := inferInstanceAs (Decidable (c ∉ _))

theorem key_ordinary (names : List (List Char)) {c : Char} (hstat : e.stat = .waitNormal) (hc : Ordinary c) :
    e.key names c = { e with before := e.before ++ [c] } := by
  simp only [Ordinary, List.mem_cons, List.not_mem_nil, or_false, not_or] at hc
  obtain ⟨h1, h2, h3, h4, h5, h6, h7, h8⟩ := hc
  rw [Editor.key, if_neg h8, hstat]
  dsimp only
  rw [Editor.typed, if_neg (not_or.mpr ⟨h1, h2⟩), if_neg h3, if_neg (not_or.mpr ⟨h4, h5⟩),
    if_neg (not_or.mpr ⟨h6, h7⟩), hstat]

theorem typing (hn : ∀ w ∈ names, Clean w) (h : Shows s e) (hstat : e.stat = .waitNormal) {t : List Char}
    (ht : ∀ c ∈ t, Ordinary c) (hroom : e.text.length + t.length < finshCmdSize) :
    Refines (run (FinshShell.key names) s t) { e with before := e.before ++ t } := by
  induction t generalizing s e with
  | nil =>
    rw [List.append_nil]
    exact h.refines
  | cons c t ih =>
    rw [List.forall_mem_cons] at ht
    rw [List.length_cons] at hroom
    have hkey := key_ordinary names hstat ht.1
    have hlen : ({ e with before := e.before ++ [c] } : Editor).text.length = e.text.length + 1 := by
      simp only [Editor.text, List.length_append, List.length_cons, List.length_nil]
      omega
    obtain ⟨s', hs', h'⟩ := key_refines hn h c (by rw [hkey, hlen]; omega)
    rw [hkey] at h'
    obtain ⟨s'', hs'', h''⟩ := ih h' hstat ht.2 (by rw [hlen]; omega)
    refine ⟨s'', ?_, ?_⟩
    · rw [run_cons, hs', Option.bind_some, hs'']
    · rwa [List.append_assoc, List.singleton_append] at h''

theorem key_return (hstat : e.stat = .waitNormal) : e.key names '\r' = e.enter names := by
  rw [Editor.key, if_neg (by decide), hstat]
  rfl

theorem returning (hn : ∀ w ∈ names, Clean w) (h : Shows s e) (hstat : e.stat = .waitNormal) :
    Refines (s.key names '\r') (e.enter names) := by
  have hroom : (e.key names '\r').text.length < finshCmdSize := by
    rw [key_return hstat]
    exact clean_nil.short
  have := key_refines hn h '\r' hroom
  rwa [key_return hstat] at this

/-- The editor after a line was typed and run. -/
def Editor.ran (names : List (List Char)) (e : Editor) (t : List Char) : Editor :=
  ({ e with before := t, after := [] } : Editor).enter names

theorem line_runs (hn : ∀ w ∈ names, Clean w) (h : Shows s e) (hstat : e.stat = .waitNormal) (hempty : e.text = [])
    {t : List Char} (ht : ∀ c ∈ t, Ordinary c) (hshort : t.length < finshCmdSize) :
    Refines (run (FinshShell.key names) s (t ++ ['\r'])) (e.ran names t) := by
  obtain ⟨hbefore, hafter⟩ := List.append_eq_nil_iff.mp hempty
  obtain ⟨s', hs', h'⟩ := typing hn h hstat ht (by rw [hempty, List.length_nil]; omega)
  have hsame : { e with before := e.before ++ t } = ({ e with before := t, after := [] } : Editor) := by
    rw [hbefore, hafter, List.nil_append]
  rw [hsame] at h'
  rw [run_concat, hs', Option.bind_some]
  exact returning hn h' hstat

/-! ## The arguments -/

/-- An argument that needs no quotes. -/
structure Plain (w : List Char) : Prop where
  bare : w.head? ≠ some '"'
  ne_nil : w ≠ []
  solid : ∀ c ∈ w, isBlank c = false

/-- An argument that can stand in quotes: with a backslash before each quote, and none at the end. -/
def Quotable : List Char → Prop
  | [] => True
  | '\\' :: '"' :: w => Quotable w
  | c :: w => c ≠ '"' ∧ (c = '\\' → w ≠ []) ∧ Quotable w

/-- The line `t` is written with the arguments `ws`. -/
inductive Renders : List (List Char) → List Char → Prop
  | done {b : List Char} (hb : ∀ c ∈ b, isBlank c = true) : Renders [] b
  | plain {b w t : List Char} {ws : List (List Char)} (hb : ∀ c ∈ b, isBlank c = true) (hw : Plain w)
      (ht : ∀ c ∈ t.head?, isBlank c = true) (h : Renders ws t) : Renders (w :: ws) (b ++ w ++ t)
  | quoted {b w t : List Char} {ws : List (List Char)} (hb : ∀ c ∈ b, isBlank c = true) (hw : Quotable w)
      (h : Renders ws t) : Renders (w :: ws) (b ++ '"' :: w ++ '"' :: t)

theorem dropWhile_blanks {b t : List Char} (hb : ∀ c ∈ b, isBlank c = true) :
    (b ++ t).dropWhile isBlank = t.dropWhile isBlank := by
  rw [List.dropWhile_append_of_pos hb]

theorem Plain.cut {w t : List Char} (hw : Plain w) (ht : ∀ c ∈ t.head?, isBlank c = true) :
    (w ++ t).takeWhile (fun c => !isBlank c) = w ∧ (w ++ t).dropWhile (fun c => !isBlank c) = t := by
  have hsolid : ∀ c ∈ w, (!isBlank c) = true := fun c hc => by rw [hw.solid c hc]; rfl
  rw [List.takeWhile_append_of_pos hsolid, List.dropWhile_append_of_pos hsolid]
  cases t with
  | nil => exact ⟨List.append_nil w, rfl⟩
  | cons c t =>
    have hc : ¬ (!isBlank c) = true := by simp [ht c rfl]
    rw [List.takeWhile_cons_of_neg (p := fun c => !isBlank c) hc,
      List.dropWhile_cons_of_neg (p := fun c => !isBlank c) hc, List.append_nil]
    exact ⟨rfl, rfl⟩

theorem quoted_of_quotable {w : List Char} (hw : Quotable w) (t : List Char) :
    quoted (w ++ '"' :: t) = (w, '"' :: t) := by
  induction w using Quotable.induct with
  | case1 => rw [List.nil_append, quoted, if_pos rfl]; simp
  | case2 w ih =>
    rw [Quotable] at hw
    rw [List.cons_append, List.cons_append, quoted, ih hw]
  | case3 c w hq ih =>
    rw [Quotable] at hw
    · obtain ⟨hc, hend, hw⟩ := hw
      rw [List.cons_append, quoted, if_neg hc, ih hw]
      intro t' hback ht'
      cases w with
      | nil => exact hend hback rfl
      | cons d w =>
        rw [List.cons_append, List.cons.injEq] at ht'
        exact hq w hback (by rw [ht'.1])
    · exact hq

/-- **The words of a line are what it is written with.** -/
theorem words_of_renders {ws : List (List Char)} {t : List Char} (h : Renders ws t) (k : ℕ) :
    words k t = ws.take k := by
  induction h generalizing k with
  | done hb =>
    rename_i b
    rw [List.take_nil]
    apply words_of_dropWhile_nil
    exact List.dropWhile_eq_nil_iff.mpr hb
  | plain hb hw ht h ih =>
    rename_i b w t ws
    cases k with
    | zero => rfl
    | succ k =>
      obtain ⟨htake, hdrop⟩ := hw.cut ht
      cases w with
      | nil => exact absurd rfl hw.ne_nil
      | cons c w =>
        have hc : ¬ isBlank c = true := by simp [hw.solid c List.mem_cons_self]
        have hcut : (b ++ (c :: w) ++ t).dropWhile isBlank = c :: (w ++ t) := by
          rw [List.append_assoc, dropWhile_blanks hb, List.cons_append, List.dropWhile_cons_of_neg hc]
        rw [words_plain hcut fun hq => hw.bare (by rw [hq]; rfl), ← List.cons_append, htake, hdrop, ih,
          List.take_succ_cons]
  | quoted hb hw h ih =>
    rename_i b w t ws
    cases k with
    | zero => rfl
    | succ k =>
      have hcut : (b ++ '"' :: w ++ '"' :: t).dropWhile isBlank = '"' :: (w ++ '"' :: t) := by
        rw [List.append_assoc, dropWhile_blanks hb, List.cons_append, List.dropWhile_cons_of_neg (by decide)]
      rw [words_quoted hcut, quoted_of_quotable hw, List.tail_cons, ih, List.take_succ_cons]

/-- A line that calls `name` with the arguments `args`. -/
def Calls (name : List Char) (args : List (List Char)) (line : List Char) : Prop :=
  ∃ b t, (∀ c ∈ b, isBlank c = true) ∧ Plain name ∧ (∀ c ∈ t.head?, isBlank c = true) ∧ Renders args t ∧
    line = b ++ name ++ t

theorem runLine_of_calls {name line : List Char} {args : List (List Char)} (h : Calls name args line)
    (hname : name ∈ names) : runLine names line = .ran name ((name :: args).take finshArgMax) := by
  obtain ⟨b, t, hb, hw, ht, h, rfl⟩ := h
  obtain ⟨htake, -⟩ := hw.cut ht
  have hwords := words_of_renders (Renders.plain hb hw ht h) finshArgMax
  have hcut : (b ++ name ++ t).dropWhile isBlank = name ++ t := by
    rw [List.append_assoc, dropWhile_blanks hb]
    cases hn : name with
    | nil => exact absurd hn hw.ne_nil
    | cons c w =>
      rw [List.cons_append, List.dropWhile_cons_of_neg]
      simp [hw.solid c (hn ▸ List.mem_cons_self)]
  have hsame : words finshArgMax (name ++ t) = words finshArgMax (b ++ name ++ t) := by
    rw [hwords]
    exact words_of_renders (Renders.plain (b := []) (by simp) hw ht h) finshArgMax
  rw [runLine, hcut, htake, if_neg fun hnil => hw.ne_nil (List.append_eq_nil_iff.mp hnil).1, if_pos hname, hsame,
    hwords]

/-- **The arguments that are typed arrive**, the name and nine of them at most. -/
theorem typed_line_runs {names : List (List Char)} (hn : ∀ w ∈ names, Clean w) {s : FinshShell} {e : Editor}
    (h : Shows s e) (hstat : e.stat = .waitNormal) (hempty : e.text = []) {name line : List Char}
    {args : List (List Char)} (hcall : Calls name args line) (hname : name ∈ names)
    (hkeys : ∀ c ∈ line, Ordinary c) (hshort : line.length < finshCmdSize) :
    ∃ s', run (FinshShell.key names) s (line ++ ['\r']) = some s' ∧
      s'.outcomes = s.outcomes ++ [.ran name ((name :: args).take finshArgMax)] := by
  obtain ⟨s', hs', h'⟩ := line_runs hn h hstat hempty hkeys hshort
  have htext : ({ e with before := line, after := [] } : Editor).text = line := List.append_nil line
  refine ⟨s', hs', ?_⟩
  rw [h'.outcomes, h.outcomes, Editor.ran, Editor.enter, htext, runLine_of_calls hcall hname]

theorem typed_line_runs_quoted :
    ∃ s, run (FinshShell.key [['p', 's']]) {} (['p', 's', ' ', '"', 'a', ' ', 'b', '"'] ++ ['\r']) = some s ∧
      s.outcomes = [.ran ['p', 's'] [['p', 's'], ['a', ' ', 'b']]] := by
  have hargs : Renders [['a', ' ', 'b']] [' ', '"', 'a', ' ', 'b', '"'] :=
    .quoted (b := [' ']) (w := ['a', ' ', 'b']) (by simp [isBlank]) (by simp [Quotable]) (.done (b := []) (by simp))
  have hcall : Calls ['p', 's'] [['a', ' ', 'b']] ['p', 's', ' ', '"', 'a', ' ', 'b', '"'] :=
    ⟨[], _, by simp, ⟨by decide, by decide, by simp [isBlank]⟩, by simp [isBlank], hargs, rfl⟩
  have hnames : ∀ w ∈ [['p', 's']], Clean w := by decide
  obtain ⟨s, hs, h⟩ := typed_line_runs hnames shows_boot rfl rfl hcall (by decide) (by simp [Ordinary, nul]) (by decide)
  exact ⟨s, hs, h⟩

/-! ## The last lines -/

/-- The up key, so many times. -/
def ups : ℕ → List Char
  | 0 => []
  | k + 1 => '\x1b' :: '[' :: 'A' :: ups k

theorem run_up (s : FinshShell) (keys : List Char) : run (FinshShell.key names) s ('\x1b' :: '[' :: 'A' :: keys) =
    ({ s with stat := .waitNormal } : FinshShell).up.bind fun s' => run (FinshShell.key names) s' keys := rfl

theorem up_key (h : Shows s e) (hstat : e.stat = .waitNormal) :
    Refines ({ s with stat := .waitNormal } : FinshShell).up e.up := by
  have hsame : ({ e with stat := .waitNormal } : Editor) = e := by rw [← hstat]
  have := refines_up (h.setStat .waitNormal)
  rwa [hsame] at this

/-- At the oldest line the key does nothing. -/
theorem oldest (h : Shows s e) (hstat : e.stat = .waitNormal) (h0 : e.current = 0) (k : ℕ) :
    Refines (run (FinshShell.key names) s (ups k)) e := by
  induction k generalizing s with
  | zero => exact h.refines
  | succ k ih =>
    obtain ⟨s', hs', h'⟩ := up_key h hstat
    rw [Editor.up, h0, if_neg (Nat.lt_irrefl 0)] at h'
    rw [ups, run_up, hs', Option.bind_some]
    exact ih h'

theorem recalling (names : List (List Char)) (h : Shows s e) (hstat : e.stat = .waitNormal)
    (hpos : 0 < e.current) (k : ℕ) :
    Refines (run (FinshShell.key names) s (ups (k + 1))) (e.recallLine (e.current - (k + 1))) := by
  induction k generalizing s e with
  | zero =>
    have hup := up_key h hstat
    rw [Editor.up, if_pos hpos] at hup
    obtain ⟨s', hs', h'⟩ := hup
    exact ⟨s', by rw [ups, run_up, hs']; rfl, h'⟩
  | succ k ih =>
    obtain ⟨s', hs', h'⟩ := up_key h hstat
    rw [Editor.up, if_pos hpos] at h'
    rw [ups, run_up, hs', Option.bind_some]
    rcases Nat.eq_zero_or_pos (e.current - 1) with hzero | hmore
    · have hlast : e.current - (k + 1 + 1) = e.current - 1 := by omega
      rw [hlast]
      exact oldest h' hstat hzero (k + 1)
    · have := ih h' hstat hmore
      rwa [show (e.recallLine (e.current - 1)).current - (k + 1) = e.current - (k + 1 + 1) from Nat.sub_sub _ _ _ |>.trans
        (congrArg _ (Nat.add_comm _ _))] at this

/-- What is left of the lines: the last five. -/
theorem remember_lines (ts : List (List Char)) (hne : ∀ t ∈ ts, t ≠ []) (hnew : ts.IsChain (· ≠ ·)) :
    ts.foldl remember [] = ts.drop (ts.length - finshHistoryLines) := by
  induction ts using List.reverseRecOn with
  | nil => rfl
  | append_singleton ts t ih =>
    obtain ⟨hchain, -, hlast⟩ := List.isChain_append.mp hnew
    have ht : t ≠ [] := hne t (List.mem_append_right ts List.mem_cons_self)
    have hlen : (ts ++ [t]).length = ts.length + 1 := List.length_append
    rw [List.foldl_append, List.foldl_cons, List.foldl_nil, ih (fun u hu => hne u (List.mem_append_left _ hu)) hchain]
    have hother : (ts.drop (ts.length - finshHistoryLines)).getLast? ≠ some t := by
      intro hsame
      have hmem : ts.getLast? = some t := by
        rw [← hsame, List.getLast?_drop, if_neg]
        intro hle
        rw [List.drop_eq_nil_of_le hle] at hsame
        cases hsame
      exact hlast t hmem t rfl rfl
    rw [remember_new ht hother, ← List.drop_append_of_le_length (Nat.sub_le _ _), List.drop_drop,
      List.length_drop, hlen]
    congr 1
    omega

/-! ## Sessions of lines -/

theorem Editor.ran_eq (e : Editor) (t : List Char) : e.ran names t =
    { stat := e.stat, history := remember e.history t, current := (remember e.history t).length,
      outcomes := e.outcomes ++ [runLine names t] } := by
  have htext : ({ e with before := t, after := [] } : Editor).text = t := List.append_nil t
  rw [Editor.ran, Editor.enter, htext]

/-- Some lines, each with its end. -/
def returned (ts : List (List Char)) : List Char := ts.flatMap (· ++ ['\r'])

theorem lines_run (hn : ∀ w ∈ names, Clean w) (h : Shows s e) (hstat : e.stat = .waitNormal) (hempty : e.text = [])
    {ts : List (List Char)} (hkeys : ∀ t ∈ ts, ∀ c ∈ t, Ordinary c) (hshort : ∀ t ∈ ts, t.length < finshCmdSize) :
    Refines (run (FinshShell.key names) s (returned ts)) (ts.foldl (Editor.ran names) e) := by
  induction ts generalizing s e with
  | nil => exact h.refines
  | cons t ts ih =>
    rw [List.forall_mem_cons] at hkeys hshort
    obtain ⟨s', hs', h'⟩ := line_runs hn h hstat hempty hkeys.1 hshort.1
    rw [returned, List.flatMap_cons, run_append, hs', Option.bind_some, List.foldl_cons]
    refine ih h' ?_ ?_ hkeys.2 hshort.2
    · rw [Editor.ran_eq]
      exact hstat
    · rw [Editor.ran_eq]
      rfl

theorem foldl_ran (names : List (List Char)) (e : Editor) (hstat : e.stat = .waitNormal) (ts : List (List Char)) :
    (ts.foldl (Editor.ran names) e).stat = .waitNormal ∧
      (ts.foldl (Editor.ran names) e).history = ts.foldl remember e.history ∧
      (ts.foldl (Editor.ran names) e).outcomes = e.outcomes ++ ts.map (runLine names) ∧
      (ts ≠ [] → (ts.foldl (Editor.ran names) e).current = (ts.foldl remember e.history).length) := by
  induction ts using List.reverseRecOn with
  | nil => exact ⟨hstat, rfl, (List.append_nil _).symm, fun h => absurd rfl h⟩
  | append_singleton ts t ih =>
    obtain ⟨ihstat, ihhistory, ihoutcomes, -⟩ := ih
    rw [List.foldl_append, List.foldl_cons, List.foldl_nil, Editor.ran_eq, List.foldl_append, List.foldl_cons,
      List.foldl_nil, List.map_append, ← List.append_assoc, ← ihoutcomes, ← ihhistory]
    exact ⟨ihstat, rfl, rfl, fun _ => rfl⟩

/-- The last five lines, counted from the newest. -/
theorem getD_last (ts : List (List Char)) (hsome : ts ≠ []) (k : ℕ) :
    (ts.drop (ts.length - finshHistoryLines)).getD (min ts.length finshHistoryLines - (k + 1)) [] =
      ts.reverse.getD (min k (min ts.length finshHistoryLines - 1)) [] := by
  have hpos := List.length_pos_iff.mpr hsome
  rw [List.getD_eq_getElem?_getD, List.getD_eq_getElem?_getD, List.getElem?_drop, List.getElem?_reverse (by omega)]
  congr 2
  rw [finshHistoryLines]
  omega

/-- **The last lines are there to be run again**: so many times the up key, and the line so far back, or the
oldest of the last five. -/
theorem recalled_line_runs {names : List (List Char)} (hn : ∀ w ∈ names, Clean w) {ts : List (List Char)}
    (hkeys : ∀ t ∈ ts, ∀ c ∈ t, Ordinary c) (hshort : ∀ t ∈ ts, t.length < finshCmdSize) (hne : ∀ t ∈ ts, t ≠ [])
    (hnew : ts.IsChain (· ≠ ·)) (hsome : ts ≠ []) (k : ℕ) :
    ∃ s, run (FinshShell.key names) {} (returned ts ++ ups (k + 1) ++ ['\r']) = some s ∧
      s.outcomes = ts.map (runLine names) ++
        [runLine names (ts.reverse.getD (min k (min ts.length finshHistoryLines - 1)) [])] := by
  obtain ⟨s₁, hs₁, h₁⟩ := lines_run hn shows_boot rfl rfl hkeys hshort
  obtain ⟨hstat, hhistory, houtcomes, hcurrent⟩ := foldl_ran names {} rfl ts
  have hlast := remember_lines ts hne hnew
  have hpos := List.length_pos_iff.mpr hsome
  rw [hlast] at hhistory hcurrent
  have hfive : (ts.foldl (Editor.ran names) {}).current = min ts.length finshHistoryLines := by
    rw [hcurrent hsome, List.length_drop]
    omega
  obtain ⟨s₂, hs₂, h₂⟩ := recalling names h₁ hstat (by rw [hfive, finshHistoryLines]; omega) k
  obtain ⟨s₃, hs₃, h₃⟩ := returning hn h₂ hstat
  rw [hfive] at h₃
  refine ⟨s₃, ?_, ?_⟩
  · rw [run_concat, run_append, hs₁, Option.bind_some, hs₂, Option.bind_some, hs₃]
  · have htext : ∀ j, ((ts.foldl (Editor.ran names) {}).recallLine j).text =
        (ts.drop (ts.length - finshHistoryLines)).getD j [] := by
      intro j
      rw [← hhistory]
      exact List.append_nil _
    have hsame : ∀ j, ((ts.foldl (Editor.ran names) {}).recallLine j).outcomes = ts.map (runLine names) :=
      fun _ => houtcomes
    rw [h₃.outcomes, Editor.enter, htext, hsame, getD_last ts hsome]

theorem recalled_line_runs_second :
    ∃ s, run (FinshShell.key [['p', 's']]) {} (returned [['p', 's'], ['x']] ++ ups 2 ++ ['\r']) = some s ∧
      s.outcomes = [.ran ['p', 's'] [['p', 's']], .notFound ['x']] ++ [.ran ['p', 's'] [['p', 's']]] :=
  recalled_line_runs (by decide) (by simp [Ordinary, nul]) (by decide) (by decide) (by simp) (by decide) 1

/-! ## The tab key -/

theorem key_typed {c : Char} (hstat : s.stat = .waitNormal) (hc : c ≠ '\x1b') : s.key names c = s.typed names c := by
  rw [FinshShell.key, if_neg hc, hstat]

/-- **The tab key makes the line the longest common beginning** of the commands that it begins. -/
theorem tab_completes {names : List (List Char)} (hn : ∀ w ∈ names, Clean w) {s : FinshShell} {e : Editor}
    (h : Shows s e) (hstat : e.stat = .waitNormal) (hsome : e.text ≠ []) {w : List Char} (hw : w ∈ names)
    (hbegins : e.text <+: w) :
    ∃ s' t, s.key names '\t' = some s' ∧ s'.line = padded nul t ∧ s'.linePosition = t.length ∧
      s'.lineCurpos = t.length ∧ (∀ x ∈ names, e.text <+: x → t <+: x) ∧
      ∀ p, (∀ x ∈ names, e.text <+: x → p <+: x) → p <+: t := by
  obtain ⟨s', hs', h'⟩ := refines_tab hn h
  have htext : (e.become (complete names e.text)).text = complete names e.text := List.append_nil _
  refine ⟨s', complete names e.text, ?_, ?_, ?_, h'.curpos, ?_, ?_⟩
  · rw [key_typed (h.stat.trans hstat) (by decide)]
    exact hs'
  · rw [h'.line, htext]
  · rw [h'.position, htext]
  · exact fun x hx htx => complete_begins hx htx
  · exact fun p hp => prefix_complete hsome hw hbegins hp

theorem tab_completes_list :
    ∃ s' t, FinshShell.key [['l', 'i', 's', 't'], ['l', 'i', 'f']]
        { line := padded nul ['l'], linePosition := 1, lineCurpos := 1 } '\t' = some s' ∧ s'.line = padded nul t ∧
      s'.linePosition = t.length ∧ s'.lineCurpos = t.length ∧
      (∀ x ∈ [['l', 'i', 's', 't'], ['l', 'i', 'f']], ['l'] <+: x → t <+: x) ∧
      ∀ p, (∀ x ∈ [['l', 'i', 's', 't'], ['l', 'i', 'f']], ['l'] <+: x → p <+: x) → p <+: t :=
  tab_completes (by decide) (shows_boot.edit (b := ['l']) (a := []) (n := 1) (by decide) rfl) rfl (by decide)
    (w := ['l', 'i', 'f']) (by decide) (by decide)

/-! ## A full line -/

theorem Ordinary.typed {c : Char} (hc : Ordinary c) : s.typed names c = s.insert c := by
  simp only [Ordinary, List.mem_cons, List.not_mem_nil, or_false, not_or] at hc
  obtain ⟨h1, h2, h3, h4, h5, h6, h7, -⟩ := hc
  rw [FinshShell.typed, if_neg (not_or.mpr ⟨h1, h2⟩), if_neg h3, if_neg (not_or.mpr ⟨h4, h5⟩),
    if_neg (not_or.mpr ⟨h6, h7⟩)]

theorem Ordinary.ne_escape {c : Char} (hc : Ordinary c) : c ≠ '\x1b' := by
  rintro rfl
  exact hc (by decide)

theorem Ordinary.ne_nul {c : Char} (hc : Ordinary c) : c ≠ nul := by
  rintro rfl
  exact hc (by decide)

/-- The last key of a full line: the position starts again, the cells stay. -/
theorem last_key (names : List (List Char)) (h : Shows s e) (hstat : s.stat = .waitNormal) (hafter : e.after = [])
    (hlen : e.before.length + 1 = finshCmdSize) {d : Char} (hd : Ordinary d) :
    ∃ s', s.key names d = some s' ∧ s'.stat = .waitNormal ∧ s'.line = padded nul (e.before ++ [d]) := by
  have hpos := h.position
  have hcur := h.curpos
  have hline := h.line
  rw [Editor.text, hafter, List.append_nil] at hpos hline
  have hroom : e.before.length < lineSize := by
    rw [lineSize]
    rw [finshCmdSize] at hlen
    omega
  have hwhole : ¬ finshCmdSize ≤ e.before.length := by omega
  rw [key_typed hstat hd.ne_escape, hd.typed, FinshShell.insert]
  dsimp only
  rw [hpos, hcur, if_neg hwhole, if_neg (Nat.lt_irrefl _), hline, wr_eq hroom, Option.bind_eq_bind, Option.bind_some,
    if_pos hlen.ge, padded_concat]
  exact ⟨_, rfl, hstat, rfl⟩

/-- The tab key brings it back. -/
theorem tab_full (hn : ∀ w ∈ names, Clean w) (hstat : s.stat = .waitNormal) {t : List Char} (ht : nul ∉ t)
    (hlen : t.length = finshCmdSize) (hline : s.line = padded nul t) :
    ∃ s', s.key names '\t' = some s' ∧ s'.stat = .waitNormal ∧ s'.linePosition = finshCmdSize ∧
      s'.lineCurpos = finshCmdSize := by
  have hfit : t.length < lineSize := by rw [hlen]; decide
  have hnone : ∀ w ∈ names, ¬ t <+: w := by
    intro w hw htw
    have hshort := (hn w hw).short
    have hle := htw.length_le
    omega
  have htab : s.typed names '\t' = s.tab names := rfl
  rw [key_typed hstat (by decide), htab, FinshShell.tab, hline, mshAutoComplete_eq hn ht hfit, complete_of_none hnone,
    Option.bind_eq_bind, Option.bind_some, strlen_padded ht hfit]
  exact ⟨_, rfl, hstat, hlen, hlen⟩

/-- From there a key starts the line again, with the cursor far behind it. -/
theorem restart (names : List (List Char)) (hstat : s.stat = .waitNormal) (hpos : s.linePosition = finshCmdSize)
    (hcur : s.lineCurpos = finshCmdSize) {c : Char} (hc : Ordinary c) :
    ∃ s', s.key names c = some s' ∧ s'.stat = .waitNormal ∧ s'.linePosition = 1 ∧
      s'.lineCurpos = finshCmdSize + 1 := by
  rw [key_typed hstat hc.ne_escape, hc.typed, FinshShell.insert]
  dsimp only
  rw [if_pos hpos.ge, if_neg (Nat.not_lt_zero _), wr_eq (by decide), Option.bind_eq_bind, Option.bind_some,
    if_neg (by decide), hcur]
  exact ⟨_, rfl, hstat, rfl, rfl⟩

theorem key_backspace (hstat : s.stat = .waitNormal) : s.key names '\x7f' = s.backspace := by
  rw [key_typed hstat (by decide)]
  rfl

/-- The first backspace takes the position back to 0, and the second one behind it. -/
theorem two_backspaces (hstat : s.stat = .waitNormal) (hpos : s.linePosition = 1) (hcur : 1 < s.lineCurpos) :
    run (FinshShell.key names) s ['\x7f', '\x7f'] = none := by
  obtain ⟨s', hs', hstat', hpos', hcur'⟩ : ∃ s', s.key names '\x7f' = some s' ∧ s'.stat = .waitNormal ∧
      s'.linePosition = 0 ∧ s'.lineCurpos = s.lineCurpos - 1 := by
    rw [key_backspace hstat, FinshShell.backspace, if_neg (by omega), if_neg (by omega), hpos]
    dsimp only
    rw [if_neg (Nat.not_lt_zero _), Option.bind_eq_bind, Option.bind_some, wr_eq (by decide)]
    exact ⟨_, rfl, hstat, rfl, rfl⟩
  rw [run_cons, hs', Option.bind_some, run_cons, key_backspace hstat', FinshShell.backspace, if_neg (by omega),
    if_pos hpos']
  rfl

/-- **A line of 80 characters is not dropped but comes back with the tab key**, and then the next key and two
backspaces leave the buffer. -/
theorem full_line_leaves_buffer {names : List (List Char)} (hn : ∀ w ∈ names, Clean w) {s : FinshShell} {e : Editor}
    (h : Shows s e) (hstat : e.stat = .waitNormal) (hempty : e.text = []) {t : List Char}
    (hkeys : ∀ c ∈ t, Ordinary c) (hlen : t.length = finshCmdSize) {c : Char} (hc : Ordinary c) :
    run (FinshShell.key names) s (t ++ ['\t', c, '\x7f', '\x7f']) = none := by
  rcases List.eq_nil_or_concat' t with rfl | ⟨u, d, rfl⟩
  · cases hlen
  have hnul : nul ∉ u ++ [d] := fun hmem => (hkeys nul hmem).ne_nul rfl
  obtain ⟨hbefore, hafter⟩ := List.append_eq_nil_iff.mp hempty
  have hlast : u.length + 1 = finshCmdSize := by rwa [List.length_append] at hlen
  have hd := hkeys d (List.mem_append_right u List.mem_cons_self)
  obtain ⟨s₁, hs₁, h₁⟩ := typing hn h hstat (fun c hc => hkeys c (List.mem_append_left _ hc))
    (by rw [hempty, List.length_nil]; omega)
  rw [hbefore, List.nil_append] at h₁
  obtain ⟨s₂, hs₂, hstat₂, hline₂⟩ := last_key names h₁ (h₁.stat.trans hstat) hafter hlast hd
  obtain ⟨s₃, hs₃, hstat₃, hpos₃, hcur₃⟩ := tab_full hn hstat₂ hnul hlen hline₂
  obtain ⟨s₄, hs₄, hstat₄, hpos₄, hcur₄⟩ := restart names hstat₃ hpos₃ hcur₃ hc
  rw [List.append_assoc, run_append, hs₁, Option.bind_some, List.singleton_append, run_cons, hs₂, Option.bind_some,
    run_cons, hs₃, Option.bind_some, run_cons, hs₄, Option.bind_some]
  exact two_backspaces hstat₄ hpos₄ (by rw [hcur₄]; decide)

theorem full_line_leaves_buffer_same :
    run (FinshShell.key [['p', 's']]) {} (List.replicate 80 'a' ++ ['\t', 'b', '\x7f', '\x7f']) = none :=
  full_line_leaves_buffer (by decide) shows_boot rfl rfl
    (fun c hc => by rw [List.eq_of_mem_replicate hc]; decide) List.length_replicate (by decide)

end PipeGallery.Shell
