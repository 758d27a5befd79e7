import Mathlib.Data.List.TakeWhile
import PipeGallery.Lib.Cells

set_option autoImplicit false

/-!
# A command line is run

`msh_exec` of `msh.c` and what it calls, on the line buffer of the shell. A read or write outside of the buffer
is no result.

* `rd`, `wr`: one cell;
* `strip`, `skipWord`, `skipString`, `splitLoop`, `mshSplit`: the line is cut into arguments, in place;
* `mshGetCmd`, `mshExec`, `Outcome`;
* `words`, `runLine`: the same on the text;
* `strip_eq`, `skipWord_eq`, `skipString_eq`, **`splits_all`**, **`mshExec_eq`**.
-/

namespace PipeGallery.Shell

open Lib

abbrev Cells := ℕ → Char

def nul : Char := '\x00'

/-- `FINSH_CMD_SIZE + 1`, the size of `line`. -/
def lineSize : ℕ := 81

def finshArgMax : ℕ := 10

def isBlank (c : Char) : Bool := c == ' ' || c == '\t'

def rd (m : Cells) (i : ℕ) : Option Char := if i < lineSize then some (m i) else none

def wr (m : Cells) (i : ℕ) (c : Char) : Option Cells :=
  if i < lineSize then some (Function.update m i c) else none

/-! ## Cutting the line -/

/-- The loops of the line take fewer passes than this, or leave the buffer. -/
def passes : ℕ := lineSize + 1

/-- `strip bank and tab` of `msh_split`: `ptr` is `cmd + position` throughout. -/
def strip (cmd length : ℕ) : ℕ → Cells → ℕ → Option (Cells × ℕ)
  | 0, _, _ => none
  | n + 1, m, position => do
    let c ← rd m (cmd + position)
    if isBlank c ∧ position < length then
      let m ← wr m (cmd + position) nul
      strip cmd length n m (position + 1)
    else some (m, position)

/-- The end of a word. -/
def skipWord (m : Cells) (cmd length : ℕ) : ℕ → ℕ → Option ℕ
  | 0, _ => none
  | n + 1, position => do
    let c ← rd m (cmd + position)
    if ¬ isBlank c ∧ position < length then skipWord m cmd length n (position + 1) else some position

/-- `skip this string`: to the closing quote; a quote behind a backslash does not close. -/
def skipString (m : Cells) (cmd length : ℕ) : ℕ → ℕ → Option ℕ
  | 0, _ => none
  | n + 1, position => do
    let c ← rd m (cmd + position)
    if c ≠ '"' ∧ position < length then
      if c = '\\' then
        let d ← rd m (cmd + position + 1)
        skipString m cmd length n (if d = '"' then position + 2 else position + 1)
      else skipString m cmd length n (position + 1)
    else some position

/-- The loop of `msh_split`; `argv` holds the addresses found so far. -/
def splitLoop (cmd length : ℕ) : ℕ → Cells → ℕ → List ℕ → Option (Cells × List ℕ)
  | 0, _, _, _ => none
  | n + 1, m, position, argv =>
    if length ≤ position then some (m, argv)
    else do
      let (m, position) ← strip cmd length passes m position
      -- too many arguments
      if finshArgMax ≤ argv.length then some (m, argv)
      else if length ≤ position then some (m, argv)
      else do
        let c ← rd m (cmd + position)
        if c = '"' then
          let stop ← skipString m cmd length passes (position + 1)
          let argv := argv ++ [cmd + (position + 1)]
          if length ≤ stop then some (m, argv)
          else do
            let m ← wr m (cmd + stop) nul
            splitLoop cmd length n m (stop + 1) argv
        else
          let stop ← skipWord m cmd length passes position
          let argv := argv ++ [cmd + position]
          if length ≤ stop then some (m, argv) else splitLoop cmd length n m stop argv

/-- `msh_split`. -/
def mshSplit (m : Cells) (cmd length : ℕ) : Option (Cells × List ℕ) := splitLoop cmd length passes m 0 []

/-! ## Running it -/

/-- A C string in the buffer, as the command reads it. -/
def str (m : Cells) : ℕ → ℕ → Option (List Char)
  | 0, _ => none
  | n + 1, p => do
    let c ← rd m p
    if c = nul then some [] else (str m n (p + 1)).map (c :: ·)

/-- `msh_get_cmd`: the name of the first word. A word with a NUL in it is compared up to the NUL, and then
the name is read behind its end. -/
def mshGetCmd (names : List (List Char)) (word : List Char) : Option (Option (List Char)) :=
  let w := word.takeWhile (· ≠ nul)
  if w ∈ names then (if w = word then some (some w) else none) else some none

/-- What `msh_exec` does with a line. -/
inductive Outcome where
  | empty
  | notFound (cmd : List Char)
  | ran (name : List Char) (argv : List (List Char))
  deriving DecidableEq, Repr

/-- The text of `command not found`, up to the first space. -/
def untilSpace (m : Cells) : ℕ → ℕ → Option (List Char)
  | 0, _ => none
  | n + 1, p => do
    let c ← rd m p
    if c = ' ' ∨ c = nul then some [] else (untilSpace m n (p + 1)).map (c :: ·)

/-- `length--`, of a `rt_size_t`. -/
def sizePred (length : ℕ) : ℕ := (length + (2 ^ 32 - 1)) % 2 ^ 32

/-- `strim the beginning of command`. -/
def trim (m : Cells) : ℕ → ℕ → ℕ → Option (ℕ × ℕ)
  | 0, _, _ => none
  | n + 1, cmd, length => do
    let c ← rd m cmd
    if isBlank c then trim m n (cmd + 1) (sizePred length) else some (cmd, length)

/-- `_msh_exec_cmd`: the command found and its arguments, or nothing to run. -/
def mshExecCmd (names : List (List Char)) (m : Cells) (cmd length : ℕ) :
    Option (Cells × Option (List Char × List ℕ)) := do
  let cmd0Size ← skipWord m cmd length passes 0
  if cmd0Size = 0 then some (m, none)
  else do
    let found ← mshGetCmd names ((List.range cmd0Size).map fun i => m (cmd + i))
    match found with
    | none => some (m, none)
    | some name => do
      let (m, argv) ← mshSplit m cmd length
      if argv = [] then some (m, none) else some (m, some (name, argv))

/-- `msh_exec(line, length)`. -/
def mshExec (names : List (List Char)) (m : Cells) (length : ℕ) : Option Outcome := do
  let (cmd, length) ← trim m passes 0 length
  if length = 0 then some .empty
  else do
    let (m, call) ← mshExecCmd names m cmd length
    match call with
    | some (name, argv) => (argv.mapM (str m passes)).map (.ran name)
    | none => (untilSpace m passes cmd).map .notFound

/-! ## The text -/

/-- The string behind an opening quote, and what follows from the closing one on. -/
def quoted : List Char → List Char × List Char
  | [] => ([], [])
  | '\\' :: '"' :: t => ('\\' :: '"' :: (quoted t).1, (quoted t).2)
  | c :: t => if c = '"' then ([], c :: t) else (c :: (quoted t).1, (quoted t).2)

/-- The first `k` words of a line. -/
def words : ℕ → List Char → List (List Char)
  | 0, _ => []
  | k + 1, t =>
    match t.dropWhile isBlank with
    | [] => []
    | c :: u =>
      if c = '"' then (quoted u).1 :: words k (quoted u).2.tail
      else (c :: u).takeWhile (fun x => !isBlank x) :: words k ((c :: u).dropWhile fun x => !isBlank x)

/-- What becomes of a line. -/
def runLine (names : List (List Char)) (t : List Char) : Outcome :=
  let t := t.dropWhile isBlank
  let name := t.takeWhile fun x => !isBlank x
  if t = [] then .empty
  else if name ∈ names then .ran name (words finshArgMax t)
  else .notFound (t.takeWhile fun x => x ≠ ' ')

/-! ## The loops -/

theorem rd_eq {m : Cells} {i : ℕ} (h : i < lineSize) : rd m i = some (m i) := if_pos h

theorem wr_eq {m : Cells} {i : ℕ} (h : i < lineSize) (c : Char) : wr m i c = some (Function.update m i c) :=
  if_pos h

/-- The part of the line from `position` on: `u`, which ends at `length`. -/
structure Rest (m : Cells) (cmd length position : ℕ) (u : List Char) : Prop where
  holds : At nul m (cmd + position) u
  ends : position + u.length = length
  fits : cmd + length < lineSize

variable {m : Cells} {cmd length position n : ℕ} {u : List Char}

theorem Rest.lt (h : Rest m cmd length position u) : cmd + position < lineSize := by
  have := h.ends
  have := h.fits
  omega

theorem Rest.head {c : Char} {t : List Char} (h : Rest m cmd length position (c :: t)) :
    m (cmd + position) = c ∧ position < length ∧ Rest m cmd length (position + 1) t := by
  have hends := h.ends
  rw [List.length_cons] at hends
  exact ⟨h.holds.1, by omega, h.holds.2, by omega, h.fits⟩

theorem Rest.nil (h : Rest m cmd length position []) : m (cmd + position) = nul ∧ position = length :=
  ⟨h.holds, h.ends⟩

theorem Rest.drop {a b : List Char} (h : Rest m cmd length position (a ++ b)) :
    Rest m cmd length (position + a.length) b where
  holds := by
    have := at_append h.holds
    rwa [Nat.add_assoc] at this
  ends := by
    have := h.ends
    rw [List.length_append] at this
    omega
  fits := h.fits

theorem Rest.congr {m' : Cells} (h : Rest m cmd length position u) (hm : ∀ i, cmd + position ≤ i → m' i = m i) :
    Rest m' cmd length position u := ⟨at_congr hm h.holds, h.ends, h.fits⟩

theorem skipWord_eq (h : Rest m cmd length position u) (hn : u.length < n) :
    skipWord m cmd length n position = some (position + (u.takeWhile fun x => !isBlank x).length) := by
  induction u generalizing position n with
  | nil =>
    obtain ⟨-, hend⟩ := h.nil
    cases n with
    | zero => cases hn
    | succ n =>
      rw [skipWord, rd_eq h.lt]
      exact if_neg (by omega)
  | cons c u ih =>
    obtain ⟨hc, hlt, hrest⟩ := h.head
    cases n with
    | zero => cases hn
    | succ n =>
      rw [skipWord, rd_eq h.lt, hc, Option.bind_eq_bind, Option.bind_some]
      by_cases hb : isBlank c = true
      · rw [if_neg fun hp => hp.1 hb, List.takeWhile_cons_of_neg (by simp [hb])]
        rfl
      · rw [if_pos ⟨hb, hlt⟩, List.takeWhile_cons_of_pos (by simp [hb]), List.length_cons,
          ih hrest (Nat.lt_of_succ_lt_succ hn), Nat.add_assoc, Nat.add_comm 1]

/-- The blanks become NULs. -/
theorem strip_eq (h : Rest m cmd length position u) (hn : u.length < n) :
    ∃ m', strip cmd length n m position = some (m', position + (u.takeWhile isBlank).length) ∧
      (∀ i, i < cmd + position ∨ cmd + (position + (u.takeWhile isBlank).length) ≤ i → m' i = m i) ∧
      (u.takeWhile isBlank ≠ [] → m' (cmd + position) = nul) := by
  induction u generalizing position n m with
  | nil =>
    obtain ⟨-, hend⟩ := h.nil
    cases n with
    | zero => cases hn
    | succ n =>
      refine ⟨m, ?_, fun _ _ => rfl, fun hne => absurd rfl hne⟩
      rw [strip, rd_eq h.lt]
      exact if_neg (by omega)
  | cons c u ih =>
    obtain ⟨hc, hlt, hrest⟩ := h.head
    cases n with
    | zero => cases hn
    | succ n =>
      rw [strip, rd_eq h.lt, hc, Option.bind_eq_bind, Option.bind_some]
      by_cases hb : isBlank c = true
      · have hrest' : Rest (Function.update m (cmd + position) nul) cmd length (position + 1) u :=
          hrest.congr fun i hi => Function.update_of_ne (by omega) _ _
        obtain ⟨m', hrun, hsame, -⟩ := ih hrest' (Nat.lt_of_succ_lt_succ hn)
        rw [if_pos ⟨hb, hlt⟩, wr_eq h.lt, List.takeWhile_cons_of_pos hb, List.length_cons]
        refine ⟨m', ?_, ?_, ?_⟩
        · rw [← Nat.add_assoc, Nat.add_right_comm]
          exact hrun
        · intro i hi
          rw [hsame i (by omega)]
          exact Function.update_of_ne (by omega) _ _
        · intro _
          rw [hsame _ (Or.inl (by omega))]
          exact Function.update_self _ _ _
      · refine ⟨m, ?_, fun _ _ => rfl, fun hne => absurd (List.takeWhile_cons_of_neg hb) hne⟩
        rw [if_neg fun hp => hb hp.1, List.takeWhile_cons_of_neg hb]
        rfl

/-- What stands behind an opening quote: the string, and then the closing quote or the end. -/
theorem quoted_spec (u : List Char) : (quoted u).1 ++ (quoted u).2 = u ∧
    ((quoted u).2 = [] ∨ ∃ t, (quoted u).2 = '"' :: t) := by
  induction u using quoted.induct with
  | case1 => exact ⟨rfl, Or.inl rfl⟩
  | case2 t ih =>
    rw [quoted]
    exact ⟨by rw [List.cons_append, List.cons_append, ih.1], ih.2⟩
  | case3 t h =>
    rw [quoted, if_pos rfl]
    · exact ⟨rfl, Or.inr ⟨t, rfl⟩⟩
    · exact h
  | case4 c t h hc ih =>
    rw [quoted, if_neg hc]
    · exact ⟨by rw [List.cons_append, ih.1], ih.2⟩
    · exact h

theorem skipString_eq (h : Rest m cmd length position u) (hn : u.length < n) :
    skipString m cmd length n position = some (position + (quoted u).1.length) := by
  induction u using quoted.induct generalizing position n with
  | case1 =>
    obtain ⟨-, hend⟩ := h.nil
    cases n with
    | zero => cases hn
    | succ n =>
      rw [skipString, rd_eq h.lt]
      exact if_neg (by omega)
  | case2 t ih =>
    obtain ⟨hc, hlt, hrest⟩ := h.head
    obtain ⟨hd, -, hrest'⟩ := hrest.head
    cases n with
    | zero => cases hn
    | succ n =>
      have hlast := ih (n := n) hrest' (by simp only [List.length_cons] at hn; omega)
      rw [skipString, rd_eq h.lt, hc, Option.bind_eq_bind, Option.bind_some, if_pos ⟨by decide, hlt⟩, if_pos rfl,
        Nat.add_assoc, rd_eq hrest.lt, hd, Option.bind_some, if_pos rfl, quoted, List.length_cons, List.length_cons]
      exact hlast.trans (congrArg some (by omega))
  | case3 t hq =>
    obtain ⟨hc, -, -⟩ := h.head
    cases n with
    | zero => cases hn
    | succ n =>
      rw [skipString, rd_eq h.lt, hc, Option.bind_eq_bind, Option.bind_some, if_neg fun hp => hp.1 rfl, quoted,
        if_pos rfl]
      · rfl
      · exact hq
  | case4 c t hq hc ih =>
    obtain ⟨hm, hlt, hrest⟩ := h.head
    cases n with
    | zero => cases hn
    | succ n =>
      have hlast := ih hrest (Nat.lt_of_succ_lt_succ hn)
      have hquoted : quoted (c :: t) = (c :: (quoted t).1, (quoted t).2) := by
        rw [quoted, if_neg hc]
        exact hq
      rw [skipString, rd_eq h.lt, hm, Option.bind_eq_bind, Option.bind_some, if_pos ⟨hc, hlt⟩, hquoted,
        List.length_cons]
      have hgo : skipString m cmd length n (position + 1) = some (position + ((quoted t).1.length + 1)) :=
        hlast.trans (congrArg some (by omega))
      split_ifs with hback
      · -- a backslash that does not stand before a quote
        have hnext : m (cmd + position + 1) ≠ '"' := by
          rw [Nat.add_assoc]
          cases t with
          | nil =>
            rw [hrest.nil.1]
            decide
          | cons e t =>
            rw [hrest.head.1]
            rintro rfl
            exact hq t hback rfl
        rw [Nat.add_assoc, rd_eq hrest.lt, Option.bind_some, ← Nat.add_assoc, if_neg hnext]
        exact hgo
      · exact hgo

/-! ## Strings -/

/-- A string in the buffer, with a NUL behind it, is read. -/
theorem str_eq {p : ℕ} {w : List Char} (hw : nul ∉ w) (h : At nul m p w) (hfit : p + w.length < lineSize)
    (hn : w.length < n) : str m n p = some w := by
  induction w generalizing p n with
  | nil =>
    cases n with
    | zero => cases hn
    | succ n =>
      rw [str, rd_eq (show p < lineSize from hfit), Option.bind_eq_bind, Option.bind_some]
      exact if_pos h
  | cons c w ih =>
    rw [List.length_cons] at hfit
    cases n with
    | zero => cases hn
    | succ n =>
      have hc : c ≠ nul := fun hc => hw (hc ▸ List.mem_cons_self)
      rw [str, rd_eq (by omega), h.1, Option.bind_eq_bind, Option.bind_some, if_neg hc,
        ih (fun hmem => hw (List.mem_cons_of_mem c hmem)) h.2 (by omega) (Nat.lt_of_succ_lt_succ hn),
        Option.map_some]

/-! ## The arguments -/

/-- The addresses `ps` stand for the strings `ws`. -/
def Reads (m : Cells) (ps : List ℕ) (ws : List (List Char)) : Prop := ps.mapM (str m passes) = some ws

theorem reads_nil : Reads m [] [] := rfl

theorem reads_cons {p : ℕ} {ps : List ℕ} {w : List Char} {ws : List (List Char)} (hw : str m passes p = some w)
    (h : Reads m ps ws) : Reads m (p :: ps) (w :: ws) := by
  rw [Reads] at h ⊢
  rw [List.mapM_cons, hw, h]
  rfl

/-- A word of the rest of the line, after the cells before it were left alone and a NUL was put behind it. -/
theorem Rest.str_left {m' : Cells} {a b : List Char} (h : Rest m cmd length position (a ++ b)) (ha : nul ∉ a)
    (hsame : ∀ i, i < cmd + (position + a.length) → m' i = m i) (hend : m' (cmd + (position + a.length)) = nul) :
    str m' passes (cmd + position) = some a := by
  have hends := h.ends
  have hfits := h.fits
  rw [List.length_append] at hends
  rw [← Nat.add_assoc] at hsame hend
  apply str_eq ha (at_left h.holds hsame hend)
  · omega
  · rw [passes]
    omega

/-- How the loop leaves the buffer: what is before the rest of the line is as it was, and a word that ended
there has its NUL. -/
structure Left (m : Cells) (p : ℕ) (u : List Char) (m' : Cells) : Prop where
  same : ∀ i, i < p → m' i = m i
  mark : (u.takeWhile fun c => !isBlank c) = [] → m' p = nul

theorem strip_rest (h : Rest m cmd length position u) : ∃ m',
    strip cmd length passes m position = some (m', position + (u.takeWhile isBlank).length) ∧
      Rest m' cmd length (position + (u.takeWhile isBlank).length) (u.dropWhile isBlank) ∧
      Left m (cmd + position) u m' := by
  have hends := h.ends
  have hfits := h.fits
  obtain ⟨m', hrun, hsame, hmark⟩ := strip_eq (n := passes) h (by rw [passes]; omega)
  have hrest : Rest m cmd length position (u.takeWhile isBlank ++ u.dropWhile isBlank) := by
    rwa [List.takeWhile_append_dropWhile]
  refine ⟨m', hrun, hrest.drop.congr fun i hi => hsame i (Or.inr hi), fun i hi => hsame i (Or.inl hi), fun hu => ?_⟩
  cases u with
  | nil => exact (hsame _ (Or.inr le_rfl)).trans h.nil.1
  | cons c u =>
    apply hmark
    by_cases hc : isBlank c = true
    · rw [List.takeWhile_cons_of_pos hc]
      exact List.cons_ne_nil _ _
    · rw [List.takeWhile_cons_of_pos (by simp [hc])] at hu
      cases hu

/-- What comes after the blanks touches nothing before. -/
theorem Left.later {m₁ m₂ : Cells} (h : Left m (cmd + position) u m₁) (hu : u.dropWhile isBlank ≠ [])
    (hsame : ∀ i, i < cmd + (position + (u.takeWhile isBlank).length) → m₂ i = m₁ i) :
    Left m (cmd + position) u m₂ := by
  refine ⟨fun i hi => (hsame i (by omega)).trans (h.same i hi), fun hw => ?_⟩
  rw [hsame _ ?_, h.mark hw]
  cases u with
  | nil => exact absurd rfl hu
  | cons c u =>
    by_cases hc : isBlank c = true
    · rw [List.takeWhile_cons_of_pos hc, List.length_cons]
      omega
    · rw [List.takeWhile_cons_of_pos (by simp [hc])] at hw
      cases hw

theorem words_nil (k : ℕ) : words k [] = [] := by
  cases k <;> rfl

theorem words_of_dropWhile_nil {k : ℕ} (h : u.dropWhile isBlank = []) : words k u = [] := by
  cases k with
  | zero => rfl
  | succ k => rw [words, h]

/-- The first word, in quotes. -/
theorem words_quoted {k : ℕ} {t : List Char} (h : u.dropWhile isBlank = '"' :: t) :
    words (k + 1) u = (quoted t).1 :: words k (quoted t).2.tail := by
  rw [words, h]
  exact if_pos rfl

/-- The first word, without quotes. -/
theorem words_plain {k : ℕ} {c : Char} {t : List Char} (h : u.dropWhile isBlank = c :: t) (hc : c ≠ '"') :
    words (k + 1) u =
      (c :: t).takeWhile (fun x => !isBlank x) :: words k ((c :: t).dropWhile fun x => !isBlank x) := by
  rw [words, h]
  exact if_neg hc

theorem splitLoop_end {argv : List ℕ} (h : length ≤ position) :
    splitLoop cmd length (n + 1) m position argv = some (m, argv) := by
  rw [splitLoop, if_pos h]

/-- A pass that finds an argument in quotes. -/
theorem splitLoop_quote (argv : List ℕ) {m' : Cells} {p stop : ℕ} (hpos : position < length)
    (hrun : strip cmd length passes m position = some (m', p)) (hroom : argv.length < finshArgMax) (hp : p < length)
    (hc : rd m' (cmd + p) = some '"') (hstop : skipString m' cmd length passes (p + 1) = some stop) :
    splitLoop cmd length (n + 1) m position argv =
      if length ≤ stop then some (m', argv ++ [cmd + (p + 1)])
      else (wr m' (cmd + stop) nul).bind fun m => splitLoop cmd length n m (stop + 1) (argv ++ [cmd + (p + 1)]) := by
  rw [splitLoop, if_neg (not_le.mpr hpos), hrun, Option.bind_eq_bind, Option.bind_some]
  dsimp only
  rw [if_neg (not_le.mpr hroom), if_neg (not_le.mpr hp), hc, Option.bind_eq_bind, Option.bind_some, if_pos rfl,
    hstop]
  rfl

/-- A pass that finds a plain argument. -/
theorem splitLoop_plain (argv : List ℕ) {m' : Cells} {p stop : ℕ} {c : Char} (hpos : position < length)
    (hrun : strip cmd length passes m position = some (m', p)) (hroom : argv.length < finshArgMax) (hp : p < length)
    (hc : rd m' (cmd + p) = some c) (hquote : c ≠ '"') (hstop : skipWord m' cmd length passes p = some stop) :
    splitLoop cmd length (n + 1) m position argv =
      if length ≤ stop then some (m', argv ++ [cmd + p])
      else splitLoop cmd length n m' stop (argv ++ [cmd + p]) := by
  rw [splitLoop, if_neg (not_le.mpr hpos), hrun, Option.bind_eq_bind, Option.bind_some]
  dsimp only
  rw [if_neg (not_le.mpr hroom), if_neg (not_le.mpr hp), hc, Option.bind_eq_bind, Option.bind_some,
    if_neg hquote, hstop]
  rfl

/-- A pass that finds no room, or nothing behind the blanks. -/
theorem splitLoop_stop {argv : List ℕ} {m' : Cells} {p : ℕ} (hpos : position < length)
    (hrun : strip cmd length passes m position = some (m', p)) (h : finshArgMax ≤ argv.length ∨ length ≤ p) :
    splitLoop cmd length (n + 1) m position argv = some (m', argv) := by
  rw [splitLoop, if_neg (not_le.mpr hpos), hrun, Option.bind_eq_bind, Option.bind_some]
  dsimp only
  split_ifs with h1 h2
  · rfl
  · rfl
  · exact absurd h (not_or.mpr ⟨h1, h2⟩)

theorem Rest.length_lt_passes (h : Rest m cmd length position u) : u.length < passes := by
  have := h.ends
  have := h.fits
  rw [passes]
  omega

theorem Rest.eq_nil_iff (h : Rest m cmd length position u) : u = [] ↔ length ≤ position := by
  have := h.ends
  rw [← List.length_eq_zero_iff]
  omega

/-- The loop cuts a rest of the line into at most `k` words, with `n` passes left. -/
def Splits (cmd length n k : ℕ) : Prop := ∀ (m : Cells) (position : ℕ) (u : List Char) (argv : List ℕ),
  argv.length + k = finshArgMax → Rest m cmd length position u → nul ∉ u →
    ∃ m' ps, splitLoop cmd length n m position argv = some (m', argv ++ ps) ∧ Reads m' ps (words k u) ∧
      Left m (cmd + position) u m'

/-- The first word in quotes and what the loop makes of the rest. -/
theorem splitLoop_words_quoted {k : ℕ} {argv : List ℕ} {m' : Cells} {p : ℕ} {t : List Char}
    (ih : Splits cmd length n k) (hk : argv.length + (k + 1) = finshArgMax) (hpos : position < length)
    (hrun : strip cmd length passes m position = some (m', p)) (h : Rest m' cmd length p ('"' :: t))
    (ht : nul ∉ t) :
    ∃ m₂ ps, splitLoop cmd length (n + 1) m position argv = some (m₂, argv ++ ps) ∧
      Reads m₂ ps ((quoted t).1 :: words k (quoted t).2.tail) ∧ ∀ i, i < cmd + p → m₂ i = m' i := by
  obtain ⟨hc, hp, hrest⟩ := h.head
  obtain ⟨hsplit, htail⟩ := quoted_spec t
  have hstop := skipString_eq hrest hrest.length_lt_passes
  have hloop := splitLoop_quote (n := n) argv hpos hrun (by omega) hp
    (by rw [rd_eq h.lt, hc]) hstop
  have hrest' : Rest m' cmd length (p + 1) ((quoted t).1 ++ (quoted t).2) := by rwa [hsplit]
  have hs : nul ∉ (quoted t).1 := fun hmem => ht (hsplit ▸ List.mem_append_left _ hmem)
  rcases htail with hnil | ⟨r, hr⟩
  · -- the line ends in the string
    have hdone := (hrest'.drop.eq_nil_iff).mp hnil
    refine ⟨m', [cmd + (p + 1)], ?_, ?_, fun i _ => rfl⟩
    · rw [hloop, if_pos hdone]
    · rw [hnil, List.tail_nil, words_nil]
      refine reads_cons (hrest'.str_left hs (fun i _ => rfl) ?_) reads_nil
      have hend := hrest'.drop
      rw [hnil] at hend
      exact hend.nil.1
  · have hclose := hrest'.drop
    rw [hr] at hclose
    obtain ⟨-, hlt, hbehind⟩ := hclose.head
    obtain ⟨m₂, ps, hgo, hreads, hleft⟩ := ih (Function.update m' (cmd + (p + 1 + (quoted t).1.length)) nul)
      (p + 1 + (quoted t).1.length + 1) r (argv ++ [cmd + (p + 1)])
      (by rw [List.length_append, List.length_singleton]; omega)
      (hbehind.congr fun i hi => Function.update_of_ne (by omega) _ _)
      fun hmem => ht (hsplit ▸ List.mem_append_right _ (hr ▸ List.mem_cons_of_mem _ hmem))
    refine ⟨m₂, (cmd + (p + 1)) :: ps, ?_, ?_, fun i hi => ?_⟩
    · rw [hloop, if_neg (not_le.mpr hlt), wr_eq hclose.lt, Option.bind_some, hgo,
        List.append_assoc, List.singleton_append]
    · rw [hr, List.tail_cons]
      refine reads_cons (hrest'.str_left hs (fun i hi => ?_) ?_) hreads
      · rw [hleft.same i (by omega)]
        exact Function.update_of_ne (by omega) _ _
      · rw [hleft.same _ (by omega)]
        exact Function.update_self _ _ _
    · rw [hleft.same i (by omega)]
      exact Function.update_of_ne (by omega) _ _

/-- The same for a first word without quotes. -/
theorem splitLoop_words_plain {k : ℕ} {argv : List ℕ} {m' : Cells} {p : ℕ} {c : Char} {t : List Char}
    (ih : Splits cmd length n k) (hk : argv.length + (k + 1) = finshArgMax) (hpos : position < length)
    (hrun : strip cmd length passes m position = some (m', p)) (h : Rest m' cmd length p (c :: t)) (hquote : c ≠ '"')
    (hb : isBlank c = false) (ht : nul ∉ c :: t) :
    ∃ m₂ ps, splitLoop cmd length (n + 1) m position argv = some (m₂, argv ++ ps) ∧
      Reads m₂ ps ((c :: t).takeWhile (fun x => !isBlank x) :: words k ((c :: t).dropWhile fun x => !isBlank x)) ∧
        ∀ i, i < cmd + p → m₂ i = m' i := by
  obtain ⟨hc, hp, -⟩ := h.head
  have hstop := skipWord_eq h h.length_lt_passes
  have hloop := splitLoop_plain (n := n) argv hpos hrun (by omega) hp (by rw [rd_eq h.lt, hc]) hquote hstop
  have hcut := List.takeWhile_append_dropWhile (p := fun x => !isBlank x) (l := c :: t)
  have hhead := takeWhile_dropWhile (fun x => !isBlank x) (c :: t)
  have hlen : 0 < ((c :: t).takeWhile fun x => !isBlank x).length := by
    rw [List.takeWhile_cons_of_pos (by simp [hb]), List.length_cons]
    omega
  generalize (c :: t).takeWhile (fun x => !isBlank x) = w at hstop hloop hcut hlen ⊢
  generalize (c :: t).dropWhile (fun x => !isBlank x) = v at hcut hhead ⊢
  rw [← hcut] at h ht
  have hw : nul ∉ w := fun hmem => ht (List.mem_append_left _ hmem)
  by_cases hdone : length ≤ p + w.length
  · -- the line ends in the word
    have hv : v = [] := h.drop.eq_nil_iff.mpr hdone
    refine ⟨m', [cmd + p], ?_, ?_, fun i _ => rfl⟩
    · rw [hloop, if_pos hdone]
    · rw [hv, words_nil]
      refine reads_cons (h.str_left hw (fun i _ => rfl) ?_) reads_nil
      have hend := h.drop
      rw [hv] at hend
      exact hend.nil.1
  · obtain ⟨m₂, ps, hgo, hreads, hleft⟩ := ih m' (p + w.length) v (argv ++ [cmd + p])
      (by rw [List.length_append, List.length_singleton]; omega) h.drop
      fun hmem => ht (List.mem_append_right _ hmem)
    refine ⟨m₂, (cmd + p) :: ps, ?_, ?_, fun i hi => hleft.same i (by omega)⟩
    · rw [hloop, if_neg hdone, hgo, List.append_assoc, List.singleton_append]
    · exact reads_cons (h.str_left hw hleft.same (hleft.mark hhead)) hreads

/-- At the end of the line there is nothing to cut. -/
theorem splits_end {k : ℕ} {argv : List ℕ} (hpos : length ≤ position) (h : Rest m cmd length position u) :
    ∃ m' ps, splitLoop cmd length (n + 1) m position argv = some (m', argv ++ ps) ∧ Reads m' ps (words k u) ∧
      Left m (cmd + position) u m' := by
  have hu := h.eq_nil_iff.mpr hpos
  refine ⟨m, [], ?_, ?_, fun i _ => rfl, fun _ => ?_⟩
  · rw [splitLoop_end hpos, List.append_nil]
  · rw [hu, words_nil]
    exact reads_nil
  · rw [hu] at h
    exact h.nil.1

/-- **The loop cuts the line into words**, at most as many as there is room for. -/
theorem splits_all {k : ℕ} (hn : k < n) : Splits cmd length n k := by
  induction k generalizing n with
  | zero =>
    intro m position u argv hk h hu
    cases n with
    | zero => cases hn
    | succ n =>
      rcases le_or_gt length position with hpos | hpos
      · exact splits_end hpos h
      · obtain ⟨m₁, hrun, -, hleft⟩ := strip_rest h
        refine ⟨m₁, [], ?_, reads_nil, hleft⟩
        rw [splitLoop_stop hpos hrun (Or.inl (by omega)), List.append_nil]
  | succ k ih =>
    intro m position u argv hk h hu
    cases n with
    | zero => cases hn
    | succ n =>
      rcases le_or_gt length position with hpos | hpos
      · exact splits_end hpos h
      obtain ⟨m₁, hrun, hrest, hleft⟩ := strip_rest h
      have hne : nul ∉ u.dropWhile isBlank := fun hmem => hu (List.dropWhile_sublist _ |>.mem hmem)
      have hhead := takeWhile_dropWhile isBlank u
      cases hv : u.dropWhile isBlank with
      | nil =>
        rw [hv] at hrest
        refine ⟨m₁, [], ?_, ?_, hleft⟩
        · rw [splitLoop_stop hpos hrun (Or.inr hrest.nil.2.ge), List.append_nil]
        · rw [words_of_dropWhile_nil hv]
          exact reads_nil
      | cons c t =>
        rw [hv] at hrest hne hhead
        have hlater : ∀ m₂ : Cells, (∀ i, i < cmd + (position + (u.takeWhile isBlank).length) → m₂ i = m₁ i) →
            Left m (cmd + position) u m₂ := fun m₂ => hleft.later (by rw [hv]; exact List.cons_ne_nil c t)
        by_cases hq : c = '"'
        · rw [hq] at hv hrest hne
          obtain ⟨m₂, ps, hgo, hreads, hsame⟩ := splitLoop_words_quoted (ih (Nat.lt_of_succ_lt_succ hn)) hk hpos hrun
            hrest fun hmem => hne (List.mem_cons_of_mem _ hmem)
          refine ⟨m₂, ps, hgo, ?_, hlater m₂ hsame⟩
          rw [words_quoted hv]
          exact hreads
        · have hb : isBlank c = false := by
            by_contra hb
            rw [List.takeWhile_cons_of_pos (by simpa using hb)] at hhead
            cases hhead
          obtain ⟨m₂, ps, hgo, hreads, hsame⟩ := splitLoop_words_plain (ih (Nat.lt_of_succ_lt_succ hn)) hk hpos hrun
            hrest hq hb hne
          refine ⟨m₂, ps, hgo, ?_, hlater m₂ hsame⟩
          rw [words_plain hv hq]
          exact hreads

/-! ## The command -/

theorem trim_eq (h : Rest m cmd length 0 u) (hn : u.length < n) :
    trim m n cmd length =
      some (cmd + (u.takeWhile isBlank).length, length - (u.takeWhile isBlank).length) := by
  induction u generalizing cmd length n with
  | nil =>
    cases n with
    | zero => cases hn
    | succ n =>
      have hlt : cmd < lineSize := h.lt
      have hm : m cmd = nul := h.nil.1
      rw [trim, rd_eq hlt, hm]
      rfl
  | cons c u ih =>
    obtain ⟨hc, hlt, hrest⟩ := h.head
    rw [Nat.add_zero] at hc
    have hfits := h.fits
    have hcmd : cmd < lineSize := h.lt
    cases n with
    | zero => cases hn
    | succ n =>
      rw [trim, rd_eq hcmd, hc, Option.bind_eq_bind, Option.bind_some]
      by_cases hb : isBlank c = true
      · have hends := hrest.ends
        have hpred : sizePred length = length - 1 := by
          rw [lineSize] at hfits
          rw [sizePred]
          omega
        have hrest' : Rest m (cmd + 1) (length - 1) 0 u := ⟨hrest.holds, by omega, by omega⟩
        rw [if_pos hb, hpred, ih hrest' (Nat.lt_of_succ_lt_succ hn), List.takeWhile_cons_of_pos hb, List.length_cons]
        generalize (u.takeWhile isBlank).length = j
        rw [Nat.add_assoc, Nat.add_comm 1, Nat.sub_sub, Nat.add_comm 1]
      · rw [if_neg hb, List.takeWhile_cons_of_neg hb]
        rfl

theorem untilSpace_eq {p : ℕ} (hu : nul ∉ u) (h : At nul m p u) (hfit : p + u.length < lineSize) (hn : u.length < n) :
    untilSpace m n p = some (u.takeWhile fun c => c ≠ ' ') := by
  induction u generalizing p n with
  | nil =>
    cases n with
    | zero => cases hn
    | succ n =>
      rw [untilSpace, rd_eq (show p < lineSize from hfit), Option.bind_eq_bind, Option.bind_some]
      exact if_pos (Or.inr h)
  | cons c u ih =>
    rw [List.length_cons] at hfit
    cases n with
    | zero => cases hn
    | succ n =>
      have hc : c ≠ nul := fun hc => hu (hc ▸ List.mem_cons_self)
      rw [untilSpace, rd_eq (by omega), h.1, Option.bind_eq_bind, Option.bind_some]
      by_cases hs : c = ' '
      · rw [if_pos (Or.inl hs), List.takeWhile_cons_of_neg (by simp [hs])]
      · rw [if_neg (not_or.mpr ⟨hs, hc⟩), List.takeWhile_cons_of_pos (by simp [hs]),
          ih (fun hmem => hu (List.mem_cons_of_mem c hmem)) h.2 (by omega) (Nat.lt_of_succ_lt_succ hn),
          Option.map_some]

/-- The cells of a text, read one by one. -/
theorem map_range_of_at {p : ℕ} {a b : List Char} (h : At nul m p (a ++ b)) :
    (List.range a.length).map (fun i => m (p + i)) = a := by
  induction a generalizing p with
  | nil => rfl
  | cons c a ih =>
    rw [List.length_cons, List.range_succ_eq_map, List.map_cons, List.map_map]
    congr 1
    · exact h.1
    · refine Eq.trans ?_ (ih h.2)
      apply List.map_congr_left
      intro i _
      exact congrArg m (by rw [Nat.succ_eq_add_one]; omega)

theorem mshGetCmd_eq (names : List (List Char)) {w : List Char} (hw : nul ∉ w) :
    mshGetCmd names w = some (if w ∈ names then some w else none) := by
  have hall : w.takeWhile (fun c => c ≠ nul) = w :=
    List.takeWhile_eq_self_iff.mpr fun c hc => decide_eq_true fun h => hw (h ▸ hc)
  rw [mshGetCmd, hall]
  split_ifs
  · rfl
  · contradiction
  · rfl

theorem words_ne_nil {k : ℕ} {v : List Char} (h : v.dropWhile isBlank ≠ []) : words (k + 1) v ≠ [] := by
  cases hv : v.dropWhile isBlank with
  | nil => exact absurd hv h
  | cons c t =>
    by_cases hc : c = '"'
    · rw [words_quoted (hc ▸ hv)]
      exact List.cons_ne_nil _ _
    · rw [words_plain hv hc]
      exact List.cons_ne_nil _ _

/-- A command line without leading blanks. -/
theorem mshExecCmd_eq (names : List (List Char)) {v : List Char} (h : Rest m cmd length 0 v) (hv : nul ∉ v)
    (hb : v.dropWhile isBlank = v) (hne : v ≠ []) :
    ∃ m' call, mshExecCmd names m cmd length = some (m', call) ∧
      ((v.takeWhile (fun x => !isBlank x) ∉ names ∧ m' = m ∧ call = none) ∨
        (v.takeWhile (fun x => !isBlank x) ∈ names ∧
          ∃ ps, call = some (v.takeWhile (fun x => !isBlank x), ps) ∧ Reads m' ps (words finshArgMax v))) := by
  have hlen : 0 < (v.takeWhile fun x => !isBlank x).length := by
    cases v with
    | nil => exact absurd rfl hne
    | cons c t =>
      have hc : ¬ isBlank c = true := by
        intro hc
        have := takeWhile_dropWhile isBlank (c :: t)
        rw [hb, List.takeWhile_cons_of_pos hc] at this
        cases this
      rw [List.takeWhile_cons_of_pos (by simp [hc]), List.length_cons]
      omega
  have hsize := skipWord_eq h h.length_lt_passes
  rw [Nat.zero_add] at hsize
  have hcut := List.takeWhile_append_dropWhile (p := fun x => !isBlank x) (l := v)
  have hat : At nul m cmd (v.takeWhile (fun x => !isBlank x) ++ v.dropWhile fun x => !isBlank x) := by
    rw [hcut]
    exact h.holds
  have hname : nul ∉ v.takeWhile fun x => !isBlank x := fun hmem => hv (List.takeWhile_sublist _ |>.mem hmem)
  rw [mshExecCmd, hsize, Option.bind_eq_bind, Option.bind_some, if_neg hlen.ne', map_range_of_at hat,
    mshGetCmd_eq names hname, Option.bind_eq_bind, Option.bind_some]
  split_ifs with hmem
  · obtain ⟨m', ps, hrun, hreads, -⟩ := splits_all (k := 10) (n := passes) (by decide) m 0 v [] rfl h hv
    have hps : ps ≠ [] := by
      rintro rfl
      have hw := words_ne_nil (k := 9) (v := v) (by rwa [hb])
      exact hw (Option.some.inj hreads).symm
    refine ⟨m', some (_, ps), ?_, Or.inr ⟨hmem, ps, rfl, hreads⟩⟩
    rw [mshSplit, hrun, List.nil_append]
    exact if_neg hps
  · exact ⟨m, none, rfl, Or.inl ⟨hmem, rfl, rfl⟩⟩

/-- **`msh_exec` does with the buffer what is to be done with the text.** -/
theorem mshExec_eq (names : List (List Char)) {t : List Char} (ht : nul ∉ t) (hfit : t.length < lineSize) :
    mshExec names (padded nul t) t.length = some (runLine names t) := by
  have h : Rest (padded nul t) 0 t.length 0 t := ⟨at_padded t, Nat.zero_add _, by rwa [Nat.zero_add]⟩
  have hcut := List.takeWhile_append_dropWhile (p := isBlank) (l := t)
  have hlen := congrArg List.length hcut
  rw [List.length_append] at hlen
  have hrest : Rest (padded nul t) (0 + (t.takeWhile isBlank).length) (t.length - (t.takeWhile isBlank).length) 0
      (t.dropWhile isBlank) := by
    refine ⟨?_, by omega, by omega⟩
    rw [Nat.add_zero]
    apply at_append
    rw [hcut]
    exact h.holds
  have hv : nul ∉ t.dropWhile isBlank := fun hmem => ht (List.dropWhile_sublist _ |>.mem hmem)
  have hagain : (t.dropWhile isBlank).dropWhile isBlank = t.dropWhile isBlank := by
    have := List.takeWhile_append_dropWhile (p := isBlank) (l := t.dropWhile isBlank)
    rwa [takeWhile_dropWhile, List.nil_append] at this
  rw [mshExec, trim_eq h h.length_lt_passes, Option.bind_eq_bind, Option.bind_some, runLine]
  dsimp only
  by_cases hnil : t.dropWhile isBlank = []
  · rw [if_pos hnil, if_pos]
    rw [hnil, List.length_nil] at hlen
    omega
  · have hpos := List.length_pos_iff.mpr hnil
    rw [if_neg hnil, if_neg (by omega)]
    obtain ⟨m', call, hrun, hcall⟩ := mshExecCmd_eq names hrest hv hagain hnil
    rw [hrun, Option.bind_eq_bind, Option.bind_some]
    rcases hcall with ⟨hno, rfl, rfl⟩ | ⟨hyes, ps, rfl, hreads⟩
    · rw [if_neg hno]
      dsimp only
      have hat := hrest.holds
      rw [Nat.add_zero] at hat
      rw [untilSpace_eq hv hat (by omega) hrest.length_lt_passes]
      rfl
    · rw [if_pos hyes]
      dsimp only
      rw [Reads] at hreads
      rw [hreads]
      rfl

end PipeGallery.Shell
