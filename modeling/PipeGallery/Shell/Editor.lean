import PipeGallery.Lib.Runs
import PipeGallery.Shell.Msh

set_option autoImplicit false

/-!
# The console

`finsh_thread_entry` of `shell.c`: keys are edited into a line of 81 cells, five lines are remembered, the tab
key completes the name of a command, and a finished line is run.

* `FinshShell`, `key`: the thread, key by key; a step that leaves the line or the rows is no result;
* `Editor`, `Editor.key`: the editor that it is meant to be: a text with a cursor in it, and the last lines;
* `complete`, **`complete_begins`**, **`prefix_complete`**: the longest common beginning;
* `Shows`, **`key_refines`**: a key does to the shell what it does to the editor.
-/

namespace PipeGallery.Shell

open Lib

def finshCmdSize : ℕ := 80

def finshHistoryLines : ℕ := 5

inductive InputStat where
  | waitNormal
  | waitSpecKey
  | waitFuncKey
  deriving DecidableEq, Repr

/-- `struct finsh_shell`, and what was done with the lines so far. -/
structure FinshShell where
  stat : InputStat := .waitNormal
  currentHistory : ℕ := 0
  historyCount : ℕ := 0
  cmdHistory : ℕ → Cells := fun _ _ => nul
  line : Cells := fun _ => nul
  linePosition : ℕ := 0
  lineCurpos : ℕ := 0
  outcomes : List Outcome := []

/-! ## Strings and moves -/

/-- `strlen` of the line. -/
def strlen (m : Cells) : Option ℕ := (List.range lineSize).find? fun i => m i = nul

/-- `rt_memmove` within the line. -/
def memmove (m : Cells) (dst src n : ℕ) : Option Cells :=
  if dst + n ≤ lineSize ∧ src + n ≤ lineSize then some (moved m dst src n) else none

/-- `memcmp` finds a difference. -/
def memcmp (n : ℕ) (a b : Cells) : Bool := (List.range n).any fun i => a i != b i

/-- `memset(…, 0, n)`. -/
def memset (n : ℕ) (m : Cells) : Cells := copied n m fun _ => nul

/-- `str_common`. -/
def strCommon : List Char → List Char → ℕ
  | c :: s, d :: t => if c = d then strCommon s t + 1 else 0
  | _, _ => 0

/-! ## The thread -/

/-- One command of the loop of `msh_auto_complete`: `min_length` and `name_ptr`. -/
def completeStep (pre : List Char) (x : ℕ × Option (List Char)) (cmdName : List Char) : ℕ × Option (List Char) :=
  if pre.isPrefixOf cmdName then
    let namePtr := if x.1 = 0 then cmdName else x.2.getD cmdName
    let minLength := if x.1 = 0 then cmdName.length else x.1
    (min minLength (strCommon namePtr cmdName), some namePtr)
  else x

/-- `msh_auto_complete`, without file names. -/
def mshAutoComplete (names : List (List Char)) (m : Cells) : Option Cells :=
  if m 0 = nul then some m
  else do
    let n ← strlen m
    match names.foldl (completeStep ((List.range n).map m)) (0, none) with
    | (_, none) => some m
    | (minLength, some namePtr) =>
      if minLength ≤ lineSize then some (copied minLength m (padded nul namePtr)) else none

namespace FinshShell

/-- The tab key. -/
def tab (names : List (List Char)) (s : FinshShell) : Option FinshShell := do
  let line ← mshAutoComplete names s.line
  let n ← strlen line
  some { s with line := line, linePosition := n, lineCurpos := n }

/-- A row of `cmd_history`. -/
def row (s : FinshShell) (k : ℕ) : Option Cells := if k < finshHistoryLines then some (s.cmdHistory k) else none

/-- Copies a remembered line into the line. -/
def recallLine (s : FinshShell) (k : ℕ) : Option FinshShell := do
  let remembered ← s.row k
  let line := copied finshCmdSize s.line remembered
  let n ← strlen line
  some { s with currentHistory := k, line := line, linePosition := n, lineCurpos := n }

def up (s : FinshShell) : Option FinshShell :=
  if 0 < s.currentHistory then s.recallLine (s.currentHistory - 1) else some s

def down (s : FinshShell) : Option FinshShell :=
  if s.currentHistory + 1 < s.historyCount then s.recallLine (s.currentHistory + 1)
  else if s.historyCount ≠ 0 then s.recallLine (s.historyCount - 1)
  else some s

def left (s : FinshShell) : FinshShell :=
  if s.lineCurpos ≠ 0 then { s with lineCurpos := s.lineCurpos - 1 } else s

def right (s : FinshShell) : FinshShell :=
  if s.lineCurpos < s.linePosition then { s with lineCurpos := s.lineCurpos + 1 } else s

/-- With `line_position` at 0 and `line_curpos` behind it the position wraps, and the move leaves the line. -/
def backspace (s : FinshShell) : Option FinshShell :=
  if s.lineCurpos = 0 then some s
  else if s.linePosition = 0 then none
  else do
    let position := s.linePosition - 1
    let curpos := s.lineCurpos - 1
    let line ← if curpos < position then memmove s.line curpos (curpos + 1) (position - curpos) else some s.line
    let line ← wr line position nul
    some { s with line := line, linePosition := position, lineCurpos := curpos }

/-- `move history`: four rows move up by one. -/
def shiftHistory (rows : ℕ → Cells) : ℕ → Cells :=
  (List.range (finshHistoryLines - 1)).foldl
    (fun rows i => Function.update rows i (copied finshCmdSize (rows i) (rows (i + 1)))) rows

/-- Row `k` is cleared, and the line is copied into it. -/
def setRow (s : FinshShell) (rows : ℕ → Cells) (k : ℕ) : Option (ℕ → Cells) :=
  if k < finshHistoryLines ∧ s.linePosition ≤ finshCmdSize then
    some (Function.update rows k (copied s.linePosition (memset finshCmdSize (rows k)) s.line))
  else none

/-- The line is not that of row `k`. -/
def differs (s : FinshShell) (k : ℕ) : Option Bool := do
  let remembered ← s.row k
  some (memcmp finshCmdSize remembered s.line)

/-- `push history`: the line goes behind the others, unless it is the last one again. -/
def push (s : FinshShell) : Option FinshShell :=
  if s.linePosition = 0 then some s
  else if finshHistoryLines ≤ s.historyCount then
    (s.differs (finshHistoryLines - 1)).bind fun new =>
      if new then
        (s.setRow (shiftHistory s.cmdHistory) (finshHistoryLines - 1)).map fun rows =>
          { s with cmdHistory := rows, historyCount := finshHistoryLines }
      else some s
  else
    (if s.historyCount = 0 then some true else s.differs (s.historyCount - 1)).bind fun new =>
      if new then
        (s.setRow s.cmdHistory s.historyCount).map fun rows =>
          { s with cmdHistory := rows, historyCount := s.historyCount + 1 }
      else some s

/-- `shell_push_history`. -/
def shellPushHistory (s : FinshShell) : Option FinshShell :=
  s.push.map fun s => { s with currentHistory := s.historyCount }

/-- The end of a line. -/
def enter (names : List (List Char)) (s : FinshShell) : Option FinshShell := do
  let s ← s.shellPushHistory
  let outcome ← mshExec names s.line s.linePosition
  some { s with
    line := memset lineSize s.line
    linePosition := 0
    lineCurpos := 0
    outcomes := s.outcomes ++ [outcome] }

/-- A normal character. -/
def insert (s : FinshShell) (ch : Char) : Option FinshShell := do
  -- a large line is discarded, its cells are not
  let position := if finshCmdSize ≤ s.linePosition then 0 else s.linePosition
  let line ←
    if s.lineCurpos < position then
      (memmove s.line (s.lineCurpos + 1) s.lineCurpos (position - s.lineCurpos)).bind fun m => wr m s.lineCurpos ch
    else wr s.line position ch
  if finshCmdSize ≤ position + 1 then some { s with line := line, linePosition := 0, lineCurpos := 0 }
  else some { s with line := line, linePosition := position + 1, lineCurpos := s.lineCurpos + 1 }

/-- A key that is no part of an escape sequence. -/
def typed (names : List (List Char)) (s : FinshShell) (ch : Char) : Option FinshShell :=
  if ch = nul ∨ ch = '\xff' then some s
  else if ch = '\t' then s.tab names
  else if ch = '\x7f' ∨ ch = '\x08' then s.backspace
  else if ch = '\r' ∨ ch = '\n' then s.enter names
  else s.insert ch

/-- A pass of the loop. -/
def key (names : List (List Char)) (s : FinshShell) (ch : Char) : Option FinshShell :=
  if ch = '\x1b' then some { s with stat := .waitSpecKey }
  else
    match s.stat with
    | .waitNormal => s.typed names ch
    | .waitSpecKey =>
      if ch = '[' then some { s with stat := .waitFuncKey }
      else { s with stat := .waitNormal }.typed names ch
    | .waitFuncKey =>
      let s := { s with stat := .waitNormal }
      if ch = 'A' then s.up
      else if ch = 'B' then s.down
      else if ch = 'D' then some s.left
      else if ch = 'C' then some s.right
      else s.typed names ch

end FinshShell

/-! ## The editor -/

/-- The common beginning. -/
def commonPrefix : List Char → List Char → List Char
  | c :: s, d :: t => if c = d then c :: commonPrefix s t else []
  | _, _ => []

/-- What all commands that begin with the text have in common. -/
def complete (names : List (List Char)) (t : List Char) : List Char :=
  if t = [] then t
  else
    match names.filter t.isPrefixOf with
    | [] => t
    | w :: ws => ws.foldl commonPrefix w

/-- The lines that are remembered: the last ones, no line twice in a row. -/
def remember (history : List (List Char)) (t : List Char) : List (List Char) :=
  if t = [] ∨ history.getLast? = some t then history
  else (history ++ [t]).drop ((history ++ [t]).length - finshHistoryLines)

/-- A text with a cursor, the last lines, and what was done with the lines so far. -/
structure Editor where
  stat : InputStat := .waitNormal
  before : List Char := []
  after : List Char := []
  history : List (List Char) := []
  current : ℕ := 0
  outcomes : List Outcome := []

namespace Editor

def text (e : Editor) : List Char := e.before ++ e.after

/-- The line is replaced, with the cursor behind it. -/
def become (e : Editor) (t : List Char) : Editor := { e with before := t, after := [] }

def recallLine (e : Editor) (k : ℕ) : Editor := { e.become (e.history.getD k []) with current := k }

def up (e : Editor) : Editor := if 0 < e.current then e.recallLine (e.current - 1) else e

def down (e : Editor) : Editor :=
  if e.current + 1 < e.history.length then e.recallLine (e.current + 1)
  else if e.history ≠ [] then e.recallLine (e.history.length - 1)
  else e

def left (e : Editor) : Editor :=
  match e.before.getLast? with
  | none => e
  | some c => { e with before := e.before.dropLast, after := c :: e.after }

def right (e : Editor) : Editor :=
  match e.after with
  | [] => e
  | c :: t => { e with before := e.before ++ [c], after := t }

def enter (names : List (List Char)) (e : Editor) : Editor :=
  let history := remember e.history e.text
  { stat := e.stat, history := history, current := history.length,
    outcomes := e.outcomes ++ [runLine names e.text] }

def typed (names : List (List Char)) (e : Editor) (ch : Char) : Editor :=
  if ch = nul ∨ ch = '\xff' then e
  else if ch = '\t' then e.become (complete names e.text)
  else if ch = '\x7f' ∨ ch = '\x08' then { e with before := e.before.dropLast }
  else if ch = '\r' ∨ ch = '\n' then e.enter names
  else { e with before := e.before ++ [ch] }

def key (names : List (List Char)) (e : Editor) (ch : Char) : Editor :=
  if ch = '\x1b' then { e with stat := .waitSpecKey }
  else
    match e.stat with
    | .waitNormal => e.typed names ch
    | .waitSpecKey =>
      if ch = '[' then { e with stat := .waitFuncKey } else { e with stat := .waitNormal }.typed names ch
    | .waitFuncKey =>
      let e := { e with stat := .waitNormal }
      if ch = 'A' then e.up
      else if ch = 'B' then e.down
      else if ch = 'D' then e.left
      else if ch = 'C' then e.right
      else e.typed names ch

end Editor

/-! ## Completion -/

theorem commonPrefix_prefix_left (s t : List Char) : commonPrefix s t <+: s := by
  induction s generalizing t with
  | nil => exact List.nil_prefix
  | cons c s ih =>
    cases t with
    | nil => exact List.nil_prefix
    | cons d t =>
      rw [commonPrefix]
      split_ifs
      · exact List.cons_prefix_cons.mpr ⟨rfl, ih t⟩
      · exact List.nil_prefix

theorem commonPrefix_comm (s t : List Char) : commonPrefix s t = commonPrefix t s := by
  induction s generalizing t with
  | nil => cases t <;> rfl
  | cons c s ih =>
    cases t with
    | nil => rfl
    | cons d t =>
      rw [commonPrefix, commonPrefix, ih t]
      by_cases h : c = d
      · rw [if_pos h, if_pos h.symm, h]
      · rw [if_neg h, if_neg (Ne.symm h)]

theorem prefix_commonPrefix {p s t : List Char} (hs : p <+: s) (ht : p <+: t) : p <+: commonPrefix s t := by
  induction p generalizing s t with
  | nil => exact List.nil_prefix
  | cons c p ih =>
    obtain ⟨s, rfl⟩ := hs
    obtain ⟨t, rfl⟩ := ht
    rw [List.cons_append, List.cons_append, commonPrefix, if_pos rfl]
    exact List.cons_prefix_cons.mpr ⟨rfl, ih (List.prefix_append p s) (List.prefix_append p t)⟩

theorem foldl_commonPrefix_begins (ws : List (List Char)) (w : List Char) :
    ws.foldl commonPrefix w <+: w ∧ ∀ x ∈ ws, ws.foldl commonPrefix w <+: x := by
  induction ws generalizing w with
  | nil => exact ⟨List.prefix_rfl, fun x hx => by cases hx⟩
  | cons y ws ih =>
    obtain ⟨h1, h2⟩ := ih (commonPrefix w y)
    refine ⟨h1.trans (commonPrefix_prefix_left w y), ?_⟩
    rw [List.forall_mem_cons]
    refine ⟨h1.trans ?_, h2⟩
    rw [commonPrefix_comm]
    exact commonPrefix_prefix_left y w

theorem prefix_foldl_commonPrefix {ws : List (List Char)} {w p : List Char} (hw : p <+: w)
    (hws : ∀ x ∈ ws, p <+: x) : p <+: ws.foldl commonPrefix w := by
  induction ws generalizing w with
  | nil => exact hw
  | cons y ws ih =>
    rw [List.forall_mem_cons] at hws
    exact ih (prefix_commonPrefix hw hws.1) hws.2

/-- **A completed line** begins every command that the line began. -/
theorem complete_begins {names : List (List Char)} {t w : List Char} (hw : w ∈ names) (ht : t <+: w) :
    complete names t <+: w := by
  rw [complete]
  split_ifs
  · exact ht
  · have hmem : w ∈ names.filter t.isPrefixOf := List.mem_filter.mpr ⟨hw, List.isPrefixOf_iff_prefix.mpr ht⟩
    split
    · exact ht
    · rename_i x ws hfilter
      rw [hfilter] at hmem
      rcases List.mem_cons.mp hmem with rfl | hmem
      · exact (foldl_commonPrefix_begins ws w).1
      · exact (foldl_commonPrefix_begins ws x).2 w hmem

/-- **No longer text does**, if there is such a command and a line to complete. -/
theorem prefix_complete {names : List (List Char)} {t w p : List Char} (h0 : t ≠ []) (hw : w ∈ names) (ht : t <+: w)
    (hp : ∀ x ∈ names, t <+: x → p <+: x) : p <+: complete names t := by
  rw [complete, if_neg h0]
  have hmem : w ∈ names.filter t.isPrefixOf := List.mem_filter.mpr ⟨hw, List.isPrefixOf_iff_prefix.mpr ht⟩
  have hall : ∀ x ∈ names.filter t.isPrefixOf, p <+: x := by
    intro x hx
    obtain ⟨hx, htx⟩ := List.mem_filter.mp hx
    exact hp x hx (List.isPrefixOf_iff_prefix.mp htx)
  split
  · rename_i hfilter
    rw [hfilter] at hmem
    cases hmem
  · rename_i x ws hfilter
    rw [hfilter, List.forall_mem_cons] at hall
    exact prefix_foldl_commonPrefix hall.1 hall.2

theorem commonPrefix_take (s t : List Char) (n : ℕ) : commonPrefix (s.take n) t = s.take (min n (strCommon s t)) := by
  induction s generalizing t n with
  | nil => cases t <;> simp [commonPrefix]
  | cons c s ih =>
    cases n with
    | zero => cases t <;> simp [commonPrefix]
    | succ n =>
      cases t with
      | nil => simp [commonPrefix, strCommon]
      | cons d t =>
        rw [List.take_succ_cons, commonPrefix, strCommon]
        split_ifs
        · rw [ih, Nat.succ_min_succ, List.take_succ_cons]
        · rfl

theorem strCommon_self (s : List Char) : strCommon s s = s.length := by
  induction s with
  | nil => rfl
  | cons c s ih => rw [strCommon, if_pos rfl, ih, List.length_cons]

/-- The loop over the commands, once one was found. -/
theorem foldl_completeStep_some {t w : List Char} {k : ℕ} (h0 : t ≠ []) (hk : k ≤ w.length) (ht : t <+: w.take k)
    (names : List (List Char)) : names.foldl (completeStep t) (k, some w) =
      (((names.filter t.isPrefixOf).foldl commonPrefix (w.take k)).length, some w) := by
  induction names generalizing k with
  | nil => rw [List.foldl_nil, List.filter_nil, List.foldl_nil, List.length_take, Nat.min_eq_left hk]
  | cons x names ih =>
    rw [List.foldl_cons, completeStep]
    by_cases hx : t.isPrefixOf x = true
    · have hkpos : k ≠ 0 := by
        rintro rfl
        exact h0 (List.prefix_nil.mp ht)
      have hnext : t <+: w.take (min k (strCommon w x)) := by
        rw [← commonPrefix_take]
        exact prefix_commonPrefix ht (List.isPrefixOf_iff_prefix.mp hx)
      rw [if_pos hx, List.filter_cons_of_pos hx, List.foldl_cons, commonPrefix_take,
        ← ih ((min_le_left _ _).trans hk) hnext]
      dsimp only
      rw [if_neg hkpos, if_neg hkpos, Option.getD_some]
    · rw [if_neg hx, List.filter_cons_of_neg hx]
      exact ih hk ht

/-- **The loop over the commands.** -/
theorem foldl_completeStep {t : List Char} (h0 : t ≠ []) (names : List (List Char)) :
    names.foldl (completeStep t) (0, none) =
      match names.filter t.isPrefixOf with
      | [] => (0, none)
      | w :: ws => ((ws.foldl commonPrefix w).length, some w) := by
  induction names with
  | nil => rfl
  | cons x names ih =>
    by_cases hx : t.isPrefixOf x = true
    · have hstep : completeStep t (0, none) x = (x.length, some x) := by
        rw [completeStep, if_pos hx]
        dsimp only
        rw [if_pos rfl, if_pos rfl, strCommon_self, Nat.min_self]
      have hfull : x.take x.length = x := List.take_length
      rw [List.foldl_cons, hstep, List.filter_cons_of_pos hx, foldl_completeStep_some h0 le_rfl, hfull]
      rw [hfull]
      exact List.isPrefixOf_iff_prefix.mp hx
    · have hstep : completeStep t (0, none) x = (0, none) := if_neg hx
      rw [List.foldl_cons, hstep, List.filter_cons_of_neg hx]
      exact ih

/-! ## The line -/

/-- A text for the line: below 80 characters, without a NUL. -/
structure Clean (t : List Char) : Prop where
  short : t.length < finshCmdSize
  noNul : nul ∉ t

instance (t : List Char) : Decidable (Clean t) :=
  decidable_of_iff (t.length < finshCmdSize ∧ nul ∉ t) ⟨fun h => ⟨h.1, h.2⟩, fun h => ⟨h.short, h.noNul⟩⟩

theorem Clean.lt_lineSize {t : List Char} (h : Clean t) : t.length < lineSize :=
  h.short.trans (by decide)

theorem clean_nil : Clean [] := ⟨by decide, by simp⟩

theorem Clean.of_sublist {t w : List Char} (h : Clean w) (ht : t.Sublist w) : Clean t :=
  ⟨ht.length_le.trans_lt h.short, fun hmem => h.noNul (ht.subset hmem)⟩

theorem strlen_padded {t : List Char} (ht : nul ∉ t) (hfit : t.length < lineSize) :
    strlen (padded nul t) = some t.length := by
  rw [strlen, List.find?_range_eq_some]
  refine ⟨decide_eq_true (padded_of_le le_rfl), List.mem_range.mpr hfit, fun j hj => ?_⟩
  have hne : padded nul t j ≠ nul := fun heq => ht (heq ▸ padded_mem hj)
  simp [hne]

theorem memset_padded {n : ℕ} {t : List Char} (h : t.length ≤ n) : memset n (padded nul t) = padded nul [] :=
  copied_padded (u := []) h (Nat.zero_le n)

theorem memcmp_padded {t u : List Char} (ht : Clean t) (hu : Clean u) :
    memcmp finshCmdSize (padded nul t) (padded nul u) = decide (t ≠ u) := by
  rw [memcmp, Bool.eq_iff_iff, List.any_eq_true, decide_eq_true_iff]
  constructor
  · rintro ⟨i, -, hi⟩ rfl
    simp at hi
  · intro hne
    by_contra hall
    apply hne
    apply padded_inj ht.noNul hu.noNul
    funext i
    rcases lt_or_ge i finshCmdSize with hi | hi
    · by_contra hdiff
      exact hall ⟨i, List.mem_range.mpr hi, by simpa using hdiff⟩
    · rw [padded_of_le (ht.short.le.trans hi), padded_of_le (hu.short.le.trans hi)]

theorem mshAutoComplete_eq {names : List (List Char)} (hn : ∀ w ∈ names, Clean w) {t : List Char} (ht : nul ∉ t)
    (hfit : t.length < lineSize) : mshAutoComplete names (padded nul t) = some (padded nul (complete names t)) := by
  by_cases h0 : t = []
  · rw [h0, mshAutoComplete, complete, if_pos rfl]
    exact if_pos rfl
  have hpos := List.length_pos_iff.mpr h0
  have hne : padded nul t 0 ≠ nul := fun heq => ht (heq ▸ padded_mem hpos)
  have hread : (List.range t.length).map (padded nul t) = t := by
    have h := at_padded (d := nul) (t ++ [])
    have := map_range_of_at h
    simp only [List.append_nil, Nat.zero_add] at this
    exact this
  rw [mshAutoComplete, if_neg hne, strlen_padded ht hfit, Option.bind_eq_bind, Option.bind_some, hread,
    foldl_completeStep h0, complete, if_neg h0]
  cases hf : names.filter t.isPrefixOf with
  | nil => rfl
  | cons w ws =>
    have hall : ∀ x ∈ w :: ws, Clean x ∧ t <+: x := by
      intro x hx
      rw [← hf] at hx
      obtain ⟨hx, htx⟩ := List.mem_filter.mp hx
      exact ⟨hn x hx, List.isPrefixOf_iff_prefix.mp htx⟩
    obtain ⟨⟨hw, htw⟩, hws⟩ := List.forall_mem_cons.mp hall
    have hl := (foldl_commonPrefix_begins ws w).1
    have htl := prefix_foldl_commonPrefix htw fun x hx => (hws x hx).2
    dsimp only
    rw [if_pos (hl.length_le.trans hw.lt_lineSize.le), copied_front htl.length_le hl]

/-- Without such a command the line stays. -/
theorem complete_of_none {names : List (List Char)} {t : List Char} (h : ∀ w ∈ names, ¬ t <+: w) :
    complete names t = t := by
  have hf : names.filter t.isPrefixOf = [] :=
    List.filter_eq_nil_iff.mpr fun w hw htw => h w hw (List.isPrefixOf_iff_prefix.mp htw)
  rw [complete, hf]
  exact ite_self t

theorem clean_complete {names : List (List Char)} (hn : ∀ w ∈ names, Clean w) {t : List Char} (ht : Clean t) :
    Clean (complete names t) := by
  by_cases hw : ∃ w ∈ names, t <+: w
  · obtain ⟨w, hw, htw⟩ := hw
    exact (hn w hw).of_sublist (complete_begins hw htw).sublist
  · rw [complete_of_none fun w hmem htw => hw ⟨w, hmem, htw⟩]
    exact ht

/-! ## The shell is an editor -/

/-- The shell holds what the editor has. -/
structure Shows (s : FinshShell) (e : Editor) : Prop where
  stat : s.stat = e.stat
  line : s.line = padded nul e.text
  position : s.linePosition = e.text.length
  curpos : s.lineCurpos = e.before.length
  clean : Clean e.text
  count : s.historyCount = e.history.length
  few : e.history.length ≤ finshHistoryLines
  rows : ∀ k, s.cmdHistory k = padded nul (e.history.getD k [])
  lines : ∀ t ∈ e.history, Clean t
  current : s.currentHistory = e.current
  recent : e.current ≤ e.history.length
  outcomes : s.outcomes = e.outcomes

/-- The step does not leave the line, and what it leads to shows the editor. -/
def Refines (x : Option FinshShell) (e : Editor) : Prop := ∃ s, x = some s ∧ Shows s e

variable {s : FinshShell} {e : Editor} {names : List (List Char)}

theorem Shows.refines (h : Shows s e) : Refines (some s) e := ⟨s, rfl, h⟩

/-- The state of the escape sequences is apart from the rest. -/
theorem Shows.setStat (h : Shows s e) (x : InputStat) : Shows { s with stat := x } { e with stat := x } :=
  { h with stat := rfl }

theorem Shows.clean_getD (h : Shows s e) (k : ℕ) : Clean (e.history.getD k []) := by
  rcases lt_or_ge k e.history.length with hk | hk
  · rw [List.getD_eq_getElem _ _ hk]
    exact h.lines _ (List.getElem_mem hk)
  · rw [List.getD_eq_default _ _ hk]
    exact clean_nil

/-- A line of another text. -/
theorem Shows.edit (h : Shows s e) {b a : List Char} {n : ℕ} (hc : Clean (b ++ a)) (hn : n = (b ++ a).length) :
    Shows { s with line := padded nul (b ++ a), linePosition := n, lineCurpos := b.length }
      { e with before := b, after := a } :=
  { h with line := rfl, position := hn, curpos := rfl, clean := hc }

theorem Shows.become (h : Shows s e) {t : List Char} (ht : Clean t) :
    Shows { s with line := padded nul t, linePosition := t.length, lineCurpos := t.length } (e.become t) := by
  have hnil := List.append_nil t
  have := h.edit (b := t) (a := []) (n := t.length) (by rwa [hnil]) (by rw [hnil])
  rwa [hnil] at this

theorem refines_tab (hn : ∀ w ∈ names, Clean w) (h : Shows s e) :
    Refines (s.tab names) (e.become (complete names e.text)) := by
  have hc := clean_complete hn h.clean
  rw [FinshShell.tab, h.line, mshAutoComplete_eq hn h.clean.noNul h.clean.lt_lineSize, Option.bind_eq_bind,
    Option.bind_some, strlen_padded hc.noNul hc.lt_lineSize]
  exact ⟨_, rfl, h.become hc⟩

theorem Shows.row (h : Shows s e) {k : ℕ} (hk : k < finshHistoryLines) :
    s.row k = some (padded nul (e.history.getD k [])) := by
  rw [FinshShell.row, if_pos hk, h.rows]

theorem refines_recall (h : Shows s e) {k : ℕ} (hk : k < e.history.length) :
    Refines (s.recallLine k) (e.recallLine k) := by
  have hc := h.clean_getD k
  have hcopy : copied finshCmdSize s.line (padded nul (e.history.getD k [])) = padded nul (e.history.getD k []) := by
    rw [h.line]
    exact copied_padded h.clean.short.le hc.short.le
  rw [FinshShell.recallLine, h.row (hk.trans_le h.few), Option.bind_eq_bind, Option.bind_some, hcopy]
  dsimp only
  rw [strlen_padded hc.noNul hc.lt_lineSize]
  exact ⟨_, rfl, { h.become hc with current := rfl, recent := hk.le }⟩

theorem refines_up (h : Shows s e) : Refines s.up e.up := by
  have hrecent := h.recent
  rw [FinshShell.up, Editor.up, h.current]
  split_ifs
  · exact refines_recall h (by omega)
  · exact h.refines

theorem refines_down (h : Shows s e) : Refines s.down e.down := by
  rw [FinshShell.down, Editor.down, h.current, h.count]
  have hnil : e.history.length ≠ 0 ↔ e.history ≠ [] := List.length_eq_zero_iff.not
  split_ifs with h1 h2 h3 h3
  · exact refines_recall h h1
  · exact refines_recall h (by omega)
  · exact absurd (hnil.mp h2) h3
  · exact absurd (hnil.mpr h3) h2
  · exact h.refines

theorem shows_left (h : Shows s e) : Shows s.left e.left := by
  rcases List.eq_nil_or_concat' e.before with hb | ⟨b, c, hb⟩
  · have hleft : e.left = e := by rw [Editor.left, hb]; rfl
    have hcur : s.lineCurpos = 0 := by rw [h.curpos, hb]; rfl
    rw [hleft, FinshShell.left, if_neg (not_not.mpr hcur)]
    exact h
  · have hleft : e.left = { e with before := b, after := c :: e.after } := by
      rw [Editor.left, hb, List.getLast?_append_of_ne_nil _ (List.cons_ne_nil c []), List.getLast?_singleton]
      dsimp only
      rw [List.dropLast_concat]
    have htext : ({ e with before := b, after := c :: e.after } : Editor).text = e.text := by
      rw [Editor.text, Editor.text, hb, List.append_assoc]
      rfl
    have hcur : s.lineCurpos = b.length + 1 := by rw [h.curpos, hb, List.length_append, List.length_singleton]
    rw [hleft, FinshShell.left, if_pos (by omega)]
    exact { h with
      line := by rw [htext]; exact h.line
      position := by rw [htext]; exact h.position
      curpos := by change s.lineCurpos - 1 = b.length; omega
      clean := by rw [htext]; exact h.clean }

theorem shows_right (h : Shows s e) : Shows s.right e.right := by
  have hpos := h.position
  rw [Editor.text, List.length_append] at hpos
  cases ha : e.after with
  | nil =>
    have hright : e.right = e := by rw [Editor.right, ha]
    rw [ha, List.length_nil] at hpos
    rw [hright, FinshShell.right, if_neg (by rw [h.curpos]; omega)]
    exact h
  | cons c t =>
    have hright : e.right = { e with before := e.before ++ [c], after := t } := by rw [Editor.right, ha]
    have htext : ({ e with before := e.before ++ [c], after := t } : Editor).text = e.text := by
      rw [Editor.text, Editor.text, ha, List.append_assoc]
      rfl
    rw [ha, List.length_cons] at hpos
    rw [hright, FinshShell.right, if_pos (by rw [h.curpos]; omega)]
    exact { h with
      line := by rw [htext]; exact h.line
      position := by rw [htext]; exact h.position
      curpos := by
        rw [List.length_append, List.length_singleton]
        exact congrArg (· + 1) h.curpos
      clean := by rw [htext]; exact h.clean }

theorem refines_backspace (h : Shows s e) : Refines s.backspace { e with before := e.before.dropLast } := by
  have hpos := h.position
  have hcur := h.curpos
  have hline := h.line
  have hclean := h.clean
  rw [Editor.text] at hpos hline hclean
  rcases List.eq_nil_or_concat' e.before with hb | ⟨b, c, hb⟩
  · have hsame : { e with before := e.before.dropLast } = e := by rw [hb, List.dropLast_nil, ← hb]
    rw [hb, List.length_nil] at hcur
    rw [hsame, FinshShell.backspace, if_pos hcur]
    exact h.refines
  · rw [hb, List.length_append, List.length_singleton] at hcur
    rw [hb, List.append_assoc, List.singleton_append] at hpos hline hclean
    rw [List.length_append, List.length_cons] at hpos
    have hsize := hclean.lt_lineSize
    rw [List.length_append, List.length_cons] at hsize
    have hless : Clean (b ++ e.after) :=
      hclean.of_sublist ((List.append_sublist_append_left b).mpr (List.sublist_cons_self c e.after))
    have hposition : s.linePosition - 1 = b.length + e.after.length := by omega
    have hcurpos : s.lineCurpos - 1 = b.length := by omega
    have hlen : b.length + e.after.length = (b ++ e.after).length := List.length_append.symm
    rw [hb, List.dropLast_concat, FinshShell.backspace, if_neg (by omega), if_neg (by omega)]
    dsimp only
    rw [hposition, hcurpos, hline]
    by_cases ha : e.after = []
    · -- the cursor is at the end
      rw [ha, List.append_nil] at hlen
      rw [ha, List.length_nil, Nat.add_zero, if_neg (Nat.lt_irrefl _), Option.bind_eq_bind, Option.bind_some,
        wr_eq (by omega), Option.bind_some, padded_dropLast]
      have := h.edit hless (n := b.length) (by rw [ha, List.append_nil])
      rw [ha, List.append_nil] at this
      exact ⟨_, rfl, this⟩
    · have hafter := List.length_pos_iff.mpr ha
      rw [if_pos (by omega), Nat.add_sub_cancel_left, memmove, if_pos (by omega), Option.bind_eq_bind,
        Option.bind_some, wr_eq (by omega), Option.bind_some, padded_erase]
      exact ⟨_, rfl, h.edit hless hlen⟩

theorem refines_insert (h : Shows s e) {c : Char} (hc : Clean (e.before ++ c :: e.after)) :
    Refines (s.insert c) { e with before := e.before ++ [c] } := by
  have hpos := h.position
  have hline := h.line
  have hsize := hc.short
  have htext : e.before ++ [c] ++ e.after = e.before ++ c :: e.after := List.append_assoc _ _ _
  rw [Editor.text, List.length_append] at hpos
  rw [Editor.text] at hline
  rw [List.length_append, List.length_cons] at hsize
  have hlarge : ¬ finshCmdSize ≤ s.linePosition := by omega
  have hroom : s.linePosition < lineSize := (not_le.mp hlarge).trans (by decide)
  have hlength : s.linePosition + 1 = (e.before ++ [c] ++ e.after).length := by
    rw [htext, List.length_append, List.length_cons]
    omega
  have hshow := h.edit (b := e.before ++ [c]) (a := e.after) (by rwa [htext]) hlength
  rw [htext, List.length_append, List.length_singleton, ← h.curpos] at hshow
  have hend : ¬ finshCmdSize ≤ s.linePosition + 1 := by omega
  rw [FinshShell.insert]
  dsimp only
  rw [if_neg hlarge]
  by_cases ha : e.after = []
  · -- the cursor is at the end
    rw [ha, List.length_nil, Nat.add_zero] at hpos
    rw [ha] at hshow
    rw [if_neg (by rw [h.curpos]; omega), wr_eq hroom, Option.bind_eq_bind, Option.bind_some, if_neg hend, hline, ha,
      List.append_nil, hpos, padded_concat]
    rw [hpos] at hshow
    exact ⟨_, rfl, hshow⟩
  · have hafter := List.length_pos_iff.mpr ha
    have hmoved : s.linePosition - e.before.length = e.after.length := by omega
    rw [if_pos (by rw [h.curpos]; omega), h.curpos, hmoved, memmove, if_pos (by omega), Option.bind_eq_bind,
      Option.bind_some, wr_eq (by omega), Option.bind_some, if_neg hend, hline, padded_insert, ← h.curpos]
    exact ⟨_, rfl, hshow⟩

/-! ## The last lines -/

theorem shiftHistory_eq (rows : ℕ → Cells) (k : ℕ) : FinshShell.shiftHistory rows k =
    if k < finshHistoryLines - 1 then copied finshCmdSize (rows k) (rows (k + 1)) else rows k := by
  rw [FinshShell.shiftHistory]
  generalize finshHistoryLines - 1 = n
  induction n generalizing k with
  | zero => rfl
  | succ n ih =>
    rw [List.range_succ, List.foldl_append, List.foldl_cons, List.foldl_nil]
    rcases lt_trichotomy k n with hk | rfl | hk
    · rw [Function.update_of_ne hk.ne, ih, if_pos hk, if_pos (by omega)]
    · rw [Function.update_self, ih, ih, if_neg (Nat.lt_irrefl k), if_neg (by omega), if_pos (Nat.lt_succ_self k)]
    · rw [Function.update_of_ne hk.ne', ih, if_neg (by omega), if_neg (by omega)]

/-- A new row holds the line. -/
theorem Shows.setRow (h : Shows s e) {rows : ℕ → Cells} {k : ℕ} (hk : k < finshHistoryLines) {u : List Char}
    (hu : Clean u) (hrow : rows k = padded nul u) :
    s.setRow rows k = some (Function.update rows k (padded nul e.text)) := by
  have hline : copied s.linePosition (memset finshCmdSize (rows k)) s.line = padded nul e.text := by
    rw [hrow, memset_padded hu.short.le, h.line, h.position]
    exact copied_front (Nat.zero_le _) List.prefix_rfl
  rw [FinshShell.setRow, if_pos ⟨hk, h.position ▸ h.clean.short.le⟩, hline]

/-- Other lines are remembered. -/
theorem Shows.keep (h : Shows s e) {rows : ℕ → Cells} {history : List (List Char)} {n : ℕ}
    (hrows : ∀ k, rows k = padded nul (history.getD k [])) (hn : n = history.length) (hfew : n ≤ finshHistoryLines)
    (hlines : ∀ t ∈ history, Clean t) :
    Shows { s with cmdHistory := rows, historyCount := n, currentHistory := n }
      { e with history := history, current := history.length } :=
  { h with count := hn, few := hn ▸ hfew, rows := hrows, lines := hlines, current := hn, recent := le_rfl }

theorem remember_same {history : List (List Char)} {t : List Char} (h : t = [] ∨ history.getLast? = some t) :
    remember history t = history := if_pos h

theorem remember_new {history : List (List Char)} {t : List Char} (h0 : t ≠ []) (h : history.getLast? ≠ some t) :
    remember history t = (history ++ [t]).drop ((history ++ [t]).length - finshHistoryLines) :=
  if_neg (not_or.mpr ⟨h0, h⟩)

/-- The last row is compared with the line. -/
theorem Shows.differs_last (h : Shows s e) (hne : e.history ≠ []) :
    s.differs (e.history.length - 1) = some (decide (e.history.getLast? ≠ some e.text)) := by
  have hpos := List.length_pos_iff.mpr hne
  have hless := Nat.sub_lt hpos Nat.one_pos
  have hlast : e.history.getLast? = some (e.history.getD (e.history.length - 1) []) := by
    rw [List.getLast?_eq_getElem?, List.getD_eq_getElem _ _ hless, List.getElem?_eq_getElem hless]
  rw [FinshShell.differs, h.row (hless.trans_le h.few), Option.bind_eq_bind, Option.bind_some, h.line,
    memcmp_padded (h.clean_getD _) h.clean, hlast]
  simp

/-- A new row behind the others. -/
theorem Shows.rows_more (h : Shows s e) (k : ℕ) :
    Function.update s.cmdHistory e.history.length (padded nul e.text) k =
      padded nul ((e.history ++ [e.text]).getD k []) := by
  rcases lt_trichotomy k e.history.length with hk | rfl | hk
  · rw [Function.update_of_ne hk.ne, h.rows, List.getD_append _ _ _ _ hk]
  · rw [Function.update_self, List.getD_append_right _ _ _ _ le_rfl, Nat.sub_self]
    rfl
  · rw [Function.update_of_ne hk.ne', h.rows, List.getD_eq_default _ _ hk.le, List.getD_eq_default]
    rw [List.length_append, List.length_singleton]
    exact hk

/-- The rows move up, and the last one is new. -/
theorem Shows.rows_full (h : Shows s e) (hfive : e.history.length = finshHistoryLines) (k : ℕ) :
    Function.update (FinshShell.shiftHistory s.cmdHistory) (finshHistoryLines - 1) (padded nul e.text) k =
      padded nul (((e.history ++ [e.text]).drop 1).getD k []) := by
  have hdrop : ((e.history ++ [e.text]).drop 1).getD k [] = (e.history ++ [e.text]).getD (k + 1) [] := by
    rw [List.getD_eq_getElem?_getD, List.getElem?_drop, Nat.add_comm, ← List.getD_eq_getElem?_getD]
  have hfinsh : finshHistoryLines = 5 := rfl
  rw [hdrop]
  rcases lt_trichotomy k (finshHistoryLines - 1) with hk | rfl | hk
  · rw [Function.update_of_ne hk.ne, shiftHistory_eq, if_pos hk, h.rows, h.rows,
      copied_padded (h.clean_getD _).short.le (h.clean_getD _).short.le, List.getD_append _ _ _ _ (by omega)]
  · rw [Function.update_self, List.getD_append_right _ _ _ _ (by omega), hfive]
    rfl
  · rw [Function.update_of_ne hk.ne', shiftHistory_eq, if_neg (by omega), h.rows, List.getD_eq_default _ _ (by omega),
      List.getD_eq_default]
    rw [List.length_append, List.length_singleton]
    omega

/-- The line is compared with the last one, and goes to row `k` if it is another. -/
theorem Shows.refines_row (h : Shows s e) (h0 : e.text ≠ []) {rows : ℕ → Cells} {k : ℕ} (hk : k < finshHistoryLines)
    {u : List Char} (hu : Clean u) (hrow : rows k = padded nul u) {history : List (List Char)}
    (hnew : history = (e.history ++ [e.text]).drop ((e.history ++ [e.text]).length - finshHistoryLines))
    (hrows : ∀ j, Function.update rows k (padded nul e.text) j = padded nul (history.getD j []))
    (hlength : k + 1 = history.length) :
    Refines ((if decide (e.history.getLast? ≠ some e.text) then
        (s.setRow rows k).map fun rows => { s with cmdHistory := rows, historyCount := k + 1 }
      else some s).map fun s => { s with currentHistory := s.historyCount })
      { e with history := remember e.history e.text, current := (remember e.history e.text).length } := by
  by_cases hlast : e.history.getLast? = some e.text
  · rw [remember_same (Or.inr hlast), if_neg (by simp [hlast])]
    exact ⟨_, rfl, h.keep h.rows h.count (h.count ▸ h.few) h.lines⟩
  have hlines : ∀ t ∈ history, Clean t := by
    intro t ht
    rw [hnew] at ht
    rcases List.mem_append.mp (List.mem_of_mem_drop ht) with ht | ht
    · exact h.lines t ht
    · rw [List.mem_singleton.mp ht]
      exact h.clean
  rw [remember_new h0 hlast, ← hnew, if_pos (by simp [hlast]), h.setRow hk hu hrow]
  exact ⟨_, rfl, h.keep hrows hlength hk hlines⟩

/-- **The lines that are remembered.** -/
theorem refines_push (h : Shows s e) : Refines s.shellPushHistory
    { e with history := remember e.history e.text, current := (remember e.history e.text).length } := by
  have hnew : (e.history ++ [e.text]).length = e.history.length + 1 := List.length_append
  rw [FinshShell.shellPushHistory, FinshShell.push]
  by_cases h0 : e.text = []
  · rw [remember_same (Or.inl h0), if_pos (by rw [h.position, h0, List.length_nil])]
    exact ⟨_, rfl, h.keep h.rows h.count (h.count ▸ h.few) h.lines⟩
  rw [if_neg (by rw [h.position]; exact (List.length_pos_iff.mpr h0).ne')]
  by_cases hfull : finshHistoryLines ≤ s.historyCount
  · have hfive : e.history.length = finshHistoryLines := le_antisymm h.few (h.count ▸ hfull)
    have hne : e.history ≠ [] := by
      intro hnil
      rw [hnil] at hfive
      cases hfive
    have hcmp := h.differs_last hne
    have hrow := (shiftHistory_eq s.cmdHistory (finshHistoryLines - 1)).trans (if_neg (Nat.lt_irrefl _))
    rw [hfive] at hcmp
    rw [if_pos hfull, hcmp, Option.bind_some]
    refine h.refines_row h0 (by decide) (h.clean_getD _) (hrow.trans (h.rows _)) ?_ (h.rows_full hfive) ?_
    · rw [hnew, hfive, Nat.add_sub_cancel_left]
    · rw [List.length_drop, hnew, hfive]
      rfl
  · have hroom : e.history.length < finshHistoryLines := by
      rw [h.count] at hfull
      exact Nat.lt_of_not_le hfull
    have hcmp : (if s.historyCount = 0 then some true else s.differs (s.historyCount - 1)) =
        some (decide (e.history.getLast? ≠ some e.text)) := by
      rw [h.count]
      by_cases hne : e.history = []
      · simp [hne]
      · rw [if_neg (List.length_pos_iff.mpr hne).ne', h.differs_last hne]
    rw [if_neg hfull, hcmp, Option.bind_some, h.count]
    refine h.refines_row h0 hroom (h.clean_getD _) (h.rows _) ?_ h.rows_more hnew.symm
    rw [hnew, Nat.sub_eq_zero_of_le hroom, List.drop_zero]

theorem refines_enter (h : Shows s e) : Refines (s.enter names) (e.enter names) := by
  obtain ⟨s', hs', hpush⟩ := refines_push h
  have hline : s'.line = padded nul e.text := hpush.line
  have hposition : s'.linePosition = e.text.length := hpush.position
  have hclean := h.clean
  rw [FinshShell.enter, hs', Option.bind_eq_bind, Option.bind_some, hline, hposition,
    mshExec_eq names hclean.noNul hclean.lt_lineSize, Option.bind_eq_bind, Option.bind_some,
    memset_padded hclean.lt_lineSize.le]
  exact ⟨_, rfl, { hpush with
    line := rfl
    position := rfl
    curpos := rfl
    clean := clean_nil
    outcomes := congrArg (· ++ [runLine names e.text]) hpush.outcomes }⟩

/-! ## Keys -/

/-- The line has room for what a key makes of it. -/
theorem typed_refines (hn : ∀ w ∈ names, Clean w) (h : Shows s e) (c : Char)
    (hroom : (e.typed names c).text.length < finshCmdSize) : Refines (s.typed names c) (e.typed names c) := by
  rw [FinshShell.typed]
  rw [Editor.typed] at hroom ⊢
  split_ifs at hroom ⊢ with h1 h2 h3 h4
  · exact h.refines
  · exact refines_tab hn h
  · exact refines_backspace h
  · exact refines_enter h
  · have htext : ({ e with before := e.before ++ [c] } : Editor).text = e.before ++ c :: e.after := by
      rw [Editor.text, List.append_assoc]
      rfl
    refine refines_insert h ⟨by rwa [← htext], fun hmem => ?_⟩
    rcases List.mem_append.mp hmem with hmem | hmem
    · exact h.clean.noNul (List.mem_append_left _ hmem)
    · rcases List.mem_cons.mp hmem with hnul | hmem
      · exact h1 (Or.inl hnul.symm)
      · exact h.clean.noNul (List.mem_append_right _ hmem)

/-- **A key does to the shell what it does to the editor.** -/
theorem key_refines (hn : ∀ w ∈ names, Clean w) (h : Shows s e) (c : Char)
    (hroom : (e.key names c).text.length < finshCmdSize) : Refines (s.key names c) (e.key names c) := by
  have hnormal := h.setStat .waitNormal
  rw [FinshShell.key, h.stat]
  rw [Editor.key] at hroom ⊢
  by_cases hesc : c = '\x1b'
  · rw [if_pos hesc, if_pos hesc]
    exact (h.setStat .waitSpecKey).refines
  rw [if_neg hesc] at hroom ⊢
  rw [if_neg hesc]
  cases hstat : e.stat with
  | waitNormal =>
    rw [hstat] at hroom
    exact typed_refines hn h c hroom
  | waitSpecKey =>
    rw [hstat] at hroom
    dsimp only at hroom ⊢
    split_ifs at hroom ⊢
    · exact (h.setStat .waitFuncKey).refines
    · exact typed_refines hn hnormal c hroom
  | waitFuncKey =>
    rw [hstat] at hroom
    dsimp only at hroom ⊢
    split_ifs at hroom ⊢
    · exact refines_up hnormal
    · exact refines_down hnormal
    · exact (shows_left hnormal).refines
    · exact (shows_right hnormal).refines
    · exact typed_refines hn hnormal c hroom

end PipeGallery.Shell
