import Mathlib.Data.List.Basic
import Mathlib.Data.Char

set_option autoImplicit false

/-!
# The JSON grammar

RFC 8259, over lists of characters.

* `IsWs`, `IsInt`, `IsFrac`, `IsExp`, `IsNumber`, `StringBody`, `IsString`, `Derives`, `JsonText`;
* `isString_of_plain`, `derives_members`: strings without escapes, members joined by commas;
* `scan`: an automaton that follows strings and escapes and refuses a `.` outside a string when no
  digit comes next (`scan_append`, `scan_bad`);
* **`scan_of_jsonText`**: it accepts every JSON text.
-/

namespace PipeGallery.Lib

/-! ## The grammar -/

/-- Insignificant whitespace. -/
def IsWs (l : List Char) : Prop := ∀ c ∈ l, c ∈ [' ', '\t', '\n', '\r']

/-- One or more digits. -/
def IsDigits (l : List Char) : Prop := l ≠ [] ∧ ∀ c ∈ l, c.isDigit = true

/-- `0`, or digits that start with none. -/
def IsInt (l : List Char) : Prop :=
  l = ['0'] ∨ ∃ c ds, l = c :: ds ∧ c ≠ '0' ∧ IsDigits (c :: ds)

def IsFrac (l : List Char) : Prop := ∃ ds, l = '.' :: ds ∧ IsDigits ds

def IsExp (l : List Char) : Prop :=
  ∃ e sign ds, l = e :: sign ++ ds ∧ e ∈ ['e', 'E'] ∧ sign ∈ [[], ['+'], ['-']] ∧ IsDigits ds

def IsNumber (l : List Char) : Prop :=
  ∃ minus int frac exp, l = minus ++ int ++ frac ++ exp ∧ minus ∈ [[], ['-']] ∧ IsInt int ∧
    (frac = [] ∨ IsFrac frac) ∧ (exp = [] ∨ IsExp exp)

def IsHex (c : Char) : Prop := c ∈ "0123456789abcdefABCDEF".toList

/-- The characters between the quotes of a string. -/
inductive StringBody : List Char → Prop where
  | nil : StringBody []
  | unescaped {c : Char} {l : List Char} (h : 0x20 ≤ c.toNat) (hq : c ≠ '\x22') (hb : c ≠ '\x5c')
      (hl : StringBody l) : StringBody (c :: l)
  | escaped {c : Char} {l : List Char} (h : c ∈ ['\x22', '\x5c', '/', 'b', 'f', 'n', 'r', 't'])
      (hl : StringBody l) : StringBody ('\x5c' :: c :: l)
  | unicode {a b c d : Char} {l : List Char} (ha : IsHex a) (hb : IsHex b) (hc : IsHex c)
      (hd : IsHex d) (hl : StringBody l) : StringBody ('\x5c' :: 'u' :: a :: b :: c :: d :: l)

def IsString (l : List Char) : Prop := ∃ b, l = '\x22' :: b ++ ['\x22'] ∧ StringBody b

/-- What is derived: a value, the members of an object, the elements of an array. -/
inductive Kind where
  | value
  | members
  | elements

/-- The derivations; members and elements take the whitespace around them. -/
inductive Derives : Kind → List Char → Prop where
  | false : Derives .value "false".toList
  | null : Derives .value "null".toList
  | true : Derives .value "true".toList
  | number {l : List Char} (h : IsNumber l) : Derives .value l
  | string {l : List Char} (h : IsString l) : Derives .value l
  | emptyObject {w : List Char} (h : IsWs w) : Derives .value ('\x7b' :: w ++ ['\x7d'])
  | object {l : List Char} (h : Derives .members l) : Derives .value ('\x7b' :: l ++ ['\x7d'])
  | emptyArray {w : List Char} (h : IsWs w) : Derives .value ('[' :: w ++ [']'])
  | array {l : List Char} (h : Derives .elements l) : Derives .value ('[' :: l ++ [']'])
  | member {w₁ k w₂ w₃ v w₄ : List Char} (h₁ : IsWs w₁) (hk : IsString k) (h₂ : IsWs w₂)
      (h₃ : IsWs w₃) (hv : Derives .value v) (h₄ : IsWs w₄) :
      Derives .members (w₁ ++ k ++ w₂ ++ ':' :: w₃ ++ v ++ w₄)
  | members {a b : List Char} (ha : Derives .members a) (hb : Derives .members b) :
      Derives .members (a ++ ',' :: b)
  | element {w₁ v w₂ : List Char} (h₁ : IsWs w₁) (hv : Derives .value v) (h₂ : IsWs w₂) :
      Derives .elements (w₁ ++ v ++ w₂)
  | elements {a b : List Char} (ha : Derives .elements a) (hb : Derives .elements b) :
      Derives .elements (a ++ ',' :: b)

/-- A value between whitespace. -/
def JsonText (l : List Char) : Prop :=
  ∃ w₁ v w₂, l = w₁ ++ v ++ w₂ ∧ IsWs w₁ ∧ Derives .value v ∧ IsWs w₂

theorem isWs_nil : IsWs [] := fun _ h => absurd h (by simp)

/-- A character that a string may hold as it is. -/
def plain (c : Char) : Bool := 0x20 ≤ c.toNat && c != '\x22' && c != '\x5c'

/-- A string of plain characters. -/
theorem isString_of_plain {l : List Char} (h : l.all plain = true) :
    IsString ('\x22' :: l ++ ['\x22']) := by
  refine ⟨l, rfl, ?_⟩
  induction l with
  | nil => exact .nil
  | cons c l ih =>
    rw [List.all_cons, Bool.and_eq_true] at h
    obtain ⟨hc, hl⟩ := h
    simp only [plain, Bool.and_eq_true, decide_eq_true_eq, bne_iff_ne] at hc
    exact .unescaped hc.1.1 hc.1.2 hc.2 (ih hl)

/-- A member without whitespace. -/
theorem derives_member {k v : List Char} (hk : IsString k) (hv : Derives .value v) :
    Derives .members (k ++ ':' :: v) := by
  have := Derives.member isWs_nil hk isWs_nil isWs_nil hv isWs_nil
  simpa using this

/-- Members joined by commas. -/
theorem derives_members {ms : List (List Char)} (hne : ms ≠ []) (h : ∀ m ∈ ms, Derives .members m) :
    Derives .members (List.intercalate [','] ms) := by
  induction ms with
  | nil => exact absurd rfl hne
  | cons m ms ih =>
    cases ms with
    | nil => simpa [List.intercalate] using h m (by simp)
    | cons m' ms =>
      have hrest := ih (by simp) fun x hx => h x (List.mem_cons_of_mem _ hx)
      have hcons : List.intercalate [','] (m :: m' :: ms) =
          m ++ ',' :: List.intercalate [','] (m' :: ms) := by
        simp [List.intercalate]
      rw [hcons]
      exact .members (h m (by simp)) hrest

/-! ## Dots -/

/-- Outside strings, in a string, behind a backslash, behind a dot outside strings, refused. -/
inductive Mode where
  | out
  | str
  | esc
  | dot
  | bad
  deriving DecidableEq

def scanStep : Mode → Char → Mode
  | .out, c => if c = '\x22' then .str else if c = '.' then .dot else .out
  | .str, c => if c = '\x22' then .out else if c = '\x5c' then .esc else .str
  | .esc, _ => .str
  | .dot, c => if c.isDigit then .out else .bad
  | .bad, _ => .bad

/-- Read a text. -/
def scan (m : Mode) (l : List Char) : Mode := l.foldl scanStep m

@[simp] theorem scan_nil (m : Mode) : scan m [] = m := rfl

@[simp] theorem scan_cons (m : Mode) (c : Char) (l : List Char) :
    scan m (c :: l) = scan (scanStep m c) l := rfl

@[simp] theorem scan_append (m : Mode) (a b : List Char) :
    scan m (a ++ b) = scan (scan m a) b := List.foldl_append

@[simp] theorem scan_bad (l : List Char) : scan .bad l = .bad := by
  induction l with
  | nil => rfl
  | cons c l ih => exact ih

/-- Characters that mean nothing outside a string. -/
theorem scan_out {l : List Char} (h : ∀ c ∈ l, c ≠ '\x22' ∧ c ≠ '.') : scan .out l = .out := by
  induction l with
  | nil => rfl
  | cons c l ih =>
    obtain ⟨h1, h2⟩ := h c List.mem_cons_self
    rw [scan_cons, scanStep, if_neg h1, if_neg h2]
    exact ih fun d hd => h d (List.mem_cons_of_mem _ hd)

theorem ne_of_isDigit {c : Char} (h : c.isDigit = true) : c ≠ '\x22' ∧ c ≠ '.' :=
  ⟨fun e => absurd (e ▸ h) (by decide), fun e => absurd (e ▸ h) (by decide)⟩

theorem scan_digits {l : List Char} (h : ∀ c ∈ l, c.isDigit = true) : scan .out l = .out :=
  scan_out fun c hc => ne_of_isDigit (h c hc)

theorem scan_isWs {l : List Char} (h : IsWs l) : scan .out l = .out := by
  refine scan_out fun c hc => ?_
  have := h c hc
  simp only [List.mem_cons, List.not_mem_nil, or_false] at this
  rcases this with rfl | rfl | rfl | rfl <;> decide

theorem scan_isInt {l : List Char} (h : IsInt l) : scan .out l = .out := by
  rcases h with rfl | ⟨c, ds, rfl, -, -, hd⟩
  · rfl
  · exact scan_digits hd

theorem scan_isFrac {l : List Char} (h : IsFrac l) : scan .out l = .out := by
  obtain ⟨ds, rfl, hne, hd⟩ := h
  cases ds with
  | nil => exact absurd rfl hne
  | cons c ds =>
    have hc := hd c List.mem_cons_self
    change scan (if c.isDigit then Mode.out else .bad) ds = .out
    rw [if_pos hc]
    exact scan_digits fun d h => hd d (List.mem_cons_of_mem _ h)

theorem scan_isExp {l : List Char} (h : IsExp l) : scan .out l = .out := by
  obtain ⟨e, sign, ds, rfl, he, hs, -, hd⟩ := h
  simp only [List.mem_cons, List.not_mem_nil, or_false] at he hs
  have h1 : scan .out (e :: sign) = .out := by
    rcases he with rfl | rfl <;> rcases hs with rfl | rfl | rfl <;> rfl
  rw [scan_append, h1]
  exact scan_digits hd

theorem scan_isNumber {l : List Char} (h : IsNumber l) : scan .out l = .out := by
  obtain ⟨minus, int, frac, exp, rfl, hm, hi, hf, he⟩ := h
  have h1 : scan .out minus = .out := by
    simp only [List.mem_cons, List.not_mem_nil, or_false] at hm
    rcases hm with rfl | rfl <;> rfl
  have h2 : scan .out frac = .out := by
    rcases hf with rfl | hf
    · rfl
    · exact scan_isFrac hf
  have h3 : scan .out exp = .out := by
    rcases he with rfl | he
    · rfl
    · exact scan_isExp he
  rw [scan_append, scan_append, scan_append, h1, scan_isInt hi, h2, h3]

theorem scan_hex {c : Char} (h : IsHex c) : scanStep .str c = .str := by
  have hall : "0123456789abcdefABCDEF".toList.all (scanStep .str · == .str) = true := by decide
  exact beq_iff_eq.mp (List.all_eq_true.mp hall c h)

theorem scan_stringBody {l : List Char} (h : StringBody l) : scan .str l = .str := by
  induction h with
  | nil => rfl
  | unescaped _ hq hb _ ih =>
    rw [scan_cons, scanStep, if_neg hq, if_neg hb]
    exact ih
  | escaped _ _ ih => exact ih
  | unicode ha hb hc hd _ ih =>
    simp only [scan_cons, show scanStep (scanStep .str '\x5c') 'u' = .str from rfl, scan_hex ha,
      scan_hex hb, scan_hex hc, scan_hex hd]
    exact ih

theorem scan_isString {l : List Char} (h : IsString l) : scan .out l = .out := by
  obtain ⟨b, rfl, hb⟩ := h
  rw [scan_append, scan_cons]
  change scan (scan .str b) ['\x22'] = .out
  rw [scan_stringBody hb]
  rfl

/-- A text between brackets. -/
theorem scan_between {o c : Char} (ho : scanStep .out o = .out) (hc : scanStep .out c = .out)
    {l : List Char} (h : scan .out l = .out) : scan .out (o :: l ++ [c]) = .out := by
  rw [List.cons_append, scan_cons, ho, scan_append, h, scan_cons, hc, scan_nil]

/-- What is derived is accepted. -/
theorem scan_of_derives {k : Kind} {l : List Char} (h : Derives k l) : scan .out l = .out := by
  induction h with
  | false => decide
  | null => decide
  | true => decide
  | number h => exact scan_isNumber h
  | string h => exact scan_isString h
  | emptyObject h | emptyArray h => exact scan_between rfl rfl (scan_isWs h)
  | object _ ih | array _ ih => exact scan_between rfl rfl ih
  | member h₁ hk h₂ h₃ _ h₄ ih =>
    simp only [scan_append, scan_cons, scan_isWs h₁, scan_isString hk, scan_isWs h₂]
    change scan (scan (scan .out _) _) _ = .out
    rw [scan_isWs h₃, ih, scan_isWs h₄]
  | members _ _ iha ihb | elements _ _ iha ihb =>
    rw [scan_append, iha, scan_cons]
    exact ihb
  | element h₁ _ h₂ ih => rw [scan_append, scan_append, scan_isWs h₁, ih, scan_isWs h₂]

/-- **The automaton accepts every JSON text.** -/
theorem scan_of_jsonText {l : List Char} (h : JsonText l) : scan .out l = .out := by
  obtain ⟨w₁, v, w₂, rfl, h₁, hv, h₂⟩ := h
  rw [scan_append, scan_append, scan_isWs h₁, scan_of_derives hv, scan_isWs h₂]

end PipeGallery.Lib
