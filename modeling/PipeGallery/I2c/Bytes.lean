import PipeGallery.I2c.BitOps

set_option autoImplicit false

/-!
# I2C transfers, byte by byte

What a transfer says on the bus and what the devices answer, with no lines and no bits.

* `address`, `addressMsg`, `payload`, `fetch`, `message`, `transfer`: a transfer, byte by byte;
* `script`, `Refused`, **`transfer_outcome`**: what a transfer says, in full or up to a refusal.
-/

namespace PipeGallery.I2c

open Lib.TwoWire

/-! ## Byte by byte -/

section
variable (T : Target)

/-- A byte of the master's. -/
def say (items : List Item) (b : Byte) : List Item := items ++ [.wrote b (T.ack items b)]

/-- An address byte, again after each refusal. -/
def address (a : Byte) : ℕ → List Item → Bool × List Item
  | 0, items => (T.ack items a, say T items a)
  | retries + 1, items =>
    if T.ack items a then (true, say T items a)
    else address a retries (say T items a ++ [.stop] ++ [.start])

/-- The address bytes of a message, behind a start condition. -/
def addressMsg (retries : ℕ) (m : Msg) (items : List Item) : Bool × List Item :=
  let retries := if m.ignoreNack then 0 else retries
  if m.addr10bit then
    match address T m.addr1 retries items with
    | (ack, items) =>
      if !ack && !m.ignoreNack then (false, items)
      else if !T.ack items m.addr2 && !m.ignoreNack then (false, say T items m.addr2)
      else if m.rd then
        match address T (m.addr1 ||| 0x01) retries (say T items m.addr2 ++ [.start]) with
        | (ack, items) => (ack || m.ignoreNack, items)
      else (true, say T items m.addr2)
  else
    match address T m.addr7 retries items with
    | (ack, items) => (ack || m.ignoreNack, items)

/-- The bytes of a write, up to one that is refused. -/
def payload (ignoreNack : Bool) : List Byte → List Item → Bool × List Item
  | [], items => (true, items)
  | b :: rest, items =>
    if T.ack items b || ignoreNack then payload ignoreNack rest (say T items b)
    else (false, say T items b)

/-- The bytes of a read; the last one is not acknowledged. -/
def fetch : ℕ → List Item → List Byte × List Item
  | 0, items => ([], items)
  | count + 1, items =>
    let r := fetch count (items ++ [.read (T.next items) (count != 0)])
    (T.next items :: r.1, r.2)

/-- A message behind a start condition: the error it ends with, if any, and its buffer. -/
def message (retries : ℕ) (m : Msg) (items : List Item) : (Option ℤ × List Byte) × List Item :=
  match addressMsg T retries m items with
  | (false, items) => ((some (-rtEio), m.buf), items)
  | (true, items) =>
    if m.rd then
      let r := fetch T m.buf.length items
      ((none, r.1), r.2)
    else
      match payload T m.ignoreNack m.buf items with
      | (true, items) => ((none, m.buf), items)
      | (false, items) => ((some (-rtError), m.buf), items)

/-- A transfer from message `i` on. -/
def transfer (retries : ℕ) : ℕ → Msg → List Msg → List Item → (ℤ × List (List Byte)) × List Item
  | i, m, ms, items =>
    match message T retries m (items ++ [.start]) with
    | ((some ret, buf), items) => ((ret, buf :: ms.map Msg.buf), items ++ [.stop])
    | ((none, buf), items) =>
      match ms with
      | [] => ((i + 1, [buf]), items ++ [.stop])
      | m' :: ms =>
        let r := transfer retries (i + 1) m' ms items
        ((r.1.1, buf :: r.1.2), r.2)

end

theorem length_fetch (T : Target) (count : ℕ) (items : List Item) : (fetch T count items).1.length = count := by
  induction count generalizing items with
  | zero => rfl
  | succ count ih => rw [fetch, List.length_cons, ih]

/-- A refusal is never reported when it is to be ignored. -/
theorem addressMsg_of_ignoreNack (T : Target) (retries : ℕ) {m : Msg} (h : m.ignoreNack = true)
    (items : List Item) : (addressMsg T retries m items).1 = true := by
  unfold addressMsg
  simp only [h, Bool.not_true, Bool.and_false, Bool.or_true, Bool.false_eq_true, if_false]
  split_ifs <;> rfl

/-! ## What a transfer says -/

/-- `k` refused attempts at an address. -/
def tries (a : Byte) (k : ℕ) : List Item := (List.replicate k [.wrote a false, .stop, .start]).flatten

/-- An address that was taken in the end. -/
def Reached (retries : ℕ) (a : Byte) (l : List Item) : Prop :=
  ∃ k ≤ retries, l = tries a k ++ [.wrote a true]

/-- The address bytes of a message. -/
def AddressScript (retries : ℕ) (m : Msg) (l : List Item) : Prop :=
  if m.addr10bit then
    ∃ l₁, Reached retries m.addr1 l₁ ∧
      if m.rd then
        ∃ l₂, Reached retries (m.addr1 ||| 0x01) l₂ ∧ l = l₁ ++ .wrote m.addr2 true :: .start :: l₂
      else l = l₁ ++ [.wrote m.addr2 true]
  else Reached retries m.addr7 l

/-- The bytes of a read: the last one is not acknowledged. -/
def reads : List Byte → List Item
  | [] => []
  | b :: bs => .read b (bs.length != 0) :: reads bs

/-- A message in full: its start condition, its address, and its bytes, each acknowledged. -/
def Script (retries : ℕ) (m : Msg) (buf : List Byte) (l : List Item) : Prop :=
  buf.length = m.buf.length ∧ (m.rd = false → buf = m.buf) ∧
    ∃ a, AddressScript retries m a ∧
      l = .start :: a ++ if m.rd then reads buf else buf.map fun b => .wrote b true

/-- Messages in full, one after another. -/
def Scripts (retries : ℕ) : List Msg → List (List Byte) → List Item → Prop
  | [], [], l => l = []
  | m :: ms, buf :: bufs, l =>
    ∃ l₁ l₂, Script retries m buf l₁ ∧ Scripts retries ms bufs l₂ ∧ l = l₁ ++ l₂
  | _, _, _ => False

/-- It ends with a refused byte. -/
def Refused (l : List Item) : Prop := ∃ said b, l = said ++ [.wrote b false]

theorem Refused.append_left {l : List Item} (h : Refused l) (k : List Item) : Refused (k ++ l) := by
  obtain ⟨said, b, rfl⟩ := h
  exact ⟨k ++ said, b, (List.append_assoc _ _ _).symm⟩

section
variable (T : Target)

theorem tries_succ (a : Byte) (k : ℕ) : tries a (k + 1) = [.wrote a false, .stop, .start] ++ tries a k := by
  rw [tries, List.replicate_succ, List.flatten_cons, tries]

theorem address_outcome (a : Byte) (retries : ℕ) (items : List Item) :
    ∃ l, (address T a retries items).2 = items ++ l ∧
      if (address T a retries items).1 then Reached retries a l else Refused l := by
  induction retries generalizing items with
  | zero =>
    refine ⟨_, rfl, ?_⟩
    cases hack : T.ack items a with
    | true => simp [address, hack, Reached, tries]
    | false =>
      rw [address, hack]
      exact ⟨[], a, rfl⟩
  | succ retries ih =>
    rw [address]
    cases hack : T.ack items a with
    | true =>
      rw [if_pos rfl]
      refine ⟨_, rfl, ?_⟩
      rw [if_pos rfl, hack]
      exact ⟨0, Nat.zero_le _, rfl⟩
    | false =>
      rw [if_neg Bool.false_ne_true]
      obtain ⟨l, hl, hout⟩ := ih (say T items a ++ [.stop] ++ [.start])
      refine ⟨[.wrote a false, .stop, .start] ++ l, ?_, ?_⟩
      · rw [hl, say, hack]
        simp
      · split_ifs at hout ⊢ with h
        · obtain ⟨k, hk, rfl⟩ := hout
          exact ⟨k + 1, Nat.succ_le_succ hk, by rw [tries_succ, List.append_assoc]⟩
        · exact hout.append_left _

theorem addressMsg_outcome (retries : ℕ) {m : Msg} (hm : m.ignoreNack = false) (items : List Item) :
    ∃ l, (addressMsg T retries m items).2 = items ++ l ∧
      if (addressMsg T retries m items).1 then AddressScript retries m l else Refused l := by
  unfold addressMsg AddressScript
  simp only [hm, Bool.false_eq_true, if_false, Bool.not_false, Bool.and_true, Bool.or_false]
  cases h10 : m.addr10bit with
  | false =>
    simp only [Bool.false_eq_true, if_false]
    exact address_outcome T m.addr7 retries items
  | true =>
    obtain ⟨l₁, hl₁, hout₁⟩ := address_outcome T m.addr1 retries items
    simp only [if_true]
    cases h₁ : (address T m.addr1 retries items).1 with
    | false =>
      rw [h₁] at hout₁
      exact ⟨l₁, hl₁, hout₁⟩
    | true =>
      rw [h₁, if_pos rfl] at hout₁
      simp only [Bool.not_true, Bool.false_eq_true, if_false]
      cases h₂ : T.ack (address T m.addr1 retries items).2 m.addr2 with
      | false =>
        refine ⟨l₁ ++ [.wrote m.addr2 false], ?_, ?_⟩
        · rw [say, h₂, hl₁, List.append_assoc]
          rfl
        · exact ⟨l₁, m.addr2, rfl⟩
      | true =>
        simp only [Bool.not_true, Bool.false_eq_true, if_false]
        cases hrd : m.rd with
        | false =>
          simp only [Bool.false_eq_true, if_false]
          refine ⟨l₁ ++ [.wrote m.addr2 true], ?_, l₁, hout₁, rfl⟩
          rw [say, h₂, hl₁, List.append_assoc]
        | true =>
          simp only [if_true]
          obtain ⟨l₃, hl₃, hout₃⟩ := address_outcome T (m.addr1 ||| 0x01) retries
            (say T (address T m.addr1 retries items).2 m.addr2 ++ [.start])
          refine ⟨l₁ ++ .wrote m.addr2 true :: .start :: l₃, ?_, ?_⟩
          · rw [hl₃, say, h₂, hl₁]
            simp
          · split_ifs at hout₃ ⊢ with h₃
            · exact ⟨l₁, hout₁, l₃, hout₃, rfl⟩
            · have hcons : l₁ ++ Item.wrote m.addr2 true :: .start :: l₃ =
                  (l₁ ++ [.wrote m.addr2 true, .start]) ++ l₃ := by simp
              rw [hcons]
              exact hout₃.append_left _

theorem payload_outcome (buf : List Byte) (items : List Item) :
    ∃ l, (payload T false buf items).2 = items ++ l ∧
      if (payload T false buf items).1 then l = buf.map fun b => .wrote b true else Refused l := by
  induction buf generalizing items with
  | nil => exact ⟨[], (List.append_nil _).symm, rfl⟩
  | cons b rest ih =>
    rw [payload, Bool.or_false]
    cases hack : T.ack items b with
    | false =>
      refine ⟨[.wrote b false], ?_, [], b, rfl⟩
      rw [if_neg Bool.false_ne_true, say, hack]
    | true =>
      rw [if_pos rfl]
      obtain ⟨l, hl, hout⟩ := ih (say T items b)
      refine ⟨.wrote b true :: l, ?_, ?_⟩
      · rw [hl, say, hack, List.append_assoc, List.singleton_append]
      · split_ifs at hout ⊢ with h
        · rw [hout, List.map_cons]
        · exact hout.append_left [.wrote b true]

theorem fetch_outcome (count : ℕ) (items : List Item) :
    (fetch T count items).2 = items ++ reads (fetch T count items).1 := by
  induction count generalizing items with
  | zero => exact (List.append_nil _).symm
  | succ count ih =>
    rw [fetch]
    dsimp only
    rw [ih, reads, length_fetch, List.append_assoc, List.singleton_append]

theorem message_outcome (retries : ℕ) {m : Msg} (hm : m.ignoreNack = false) (items : List Item) :
    ∃ l, (message T retries m (items ++ [.start])).2 = items ++ l ∧
      match (message T retries m (items ++ [.start])).1 with
      | (none, buf) => Script retries m buf l
      | (some ret, _) => (ret = -rtEio ∨ ret = -rtError) ∧ Refused l := by
  obtain ⟨a, ha, hout⟩ := addressMsg_outcome T retries hm (items ++ [.start])
  unfold message
  generalize addressMsg T retries m (items ++ [.start]) = r at ha hout
  obtain ⟨ok, items₁⟩ := r
  dsimp only at ha hout
  subst ha
  cases ok with
  | false => exact ⟨.start :: a, by simp, Or.inl rfl, Refused.append_left hout [.start]⟩
  | true =>
    cases hrd : m.rd with
    | true =>
      refine ⟨.start :: a ++ reads (fetch T m.buf.length (items ++ [.start] ++ a)).1, ?_, ?_⟩
      · simp [fetch_outcome]
      · refine ⟨length_fetch _ _ _, fun h => absurd (h.symm.trans hrd) Bool.false_ne_true, a, hout, ?_⟩
        rw [hrd]
        rfl
    | false =>
      obtain ⟨l, hl, hpay⟩ := payload_outcome T m.buf (items ++ [.start] ++ a)
      dsimp only
      rw [hm, if_neg Bool.false_ne_true]
      generalize payload T false m.buf (items ++ [.start] ++ a) = q at hl hpay
      obtain ⟨q1, q2⟩ := q
      dsimp only at hl hpay
      subst hl
      cases q1 with
      | true =>
        refine ⟨.start :: a ++ l, by simp, rfl, fun _ => rfl, a, hout, ?_⟩
        rw [hrd, show l = _ from hpay]
        rfl
      | false => exact ⟨.start :: a ++ l, by simp, Or.inr rfl, Refused.append_left hpay _⟩

/-- **What a transfer says**: every message in full, or the messages up to a byte that was refused; the
result tells which. -/
theorem transfer_outcome (retries i : ℕ) (m : Msg) (ms : List Msg)
    (hms : ∀ m' ∈ m :: ms, m'.ignoreNack = false) (items : List Item) :
    ∃ l, (transfer T retries i m ms items).2 = items ++ l ++ [.stop] ∧
      ((transfer T retries i m ms items).1.1 = ((i + 1 + ms.length : ℕ) : ℤ) ∧
          Scripts retries (m :: ms) (transfer T retries i m ms items).1.2 l ∨
        ((transfer T retries i m ms items).1.1 = -rtEio ∨ (transfer T retries i m ms items).1.1 = -rtError) ∧
          Refused l) := by
  induction ms generalizing i m items with
  | nil =>
    obtain ⟨l, hl, hout⟩ := message_outcome T retries (hms m List.mem_cons_self) items
    unfold transfer
    generalize message T retries m (items ++ [.start]) = r at hl hout
    obtain ⟨⟨err, buf⟩, items₁⟩ := r
    dsimp only at hl hout
    subst hl
    cases err with
    | none => exact ⟨l, rfl, Or.inl ⟨rfl, l, [], hout, rfl, (List.append_nil l).symm⟩⟩
    | some ret => exact ⟨l, rfl, Or.inr hout⟩
  | cons m' ms ih =>
    obtain ⟨l, hl, hout⟩ := message_outcome T retries (hms m List.mem_cons_self) items
    unfold transfer
    generalize message T retries m (items ++ [.start]) = r at hl hout
    obtain ⟨⟨err, buf⟩, items₁⟩ := r
    dsimp only at hl hout
    subst hl
    cases err with
    | some ret => exact ⟨l, rfl, Or.inr hout⟩
    | none =>
      obtain ⟨l', hl', hout'⟩ := ih (i + 1) m' (fun x hx => hms x (List.mem_cons_of_mem _ hx)) (items ++ l)
      refine ⟨l ++ l', ?_, ?_⟩
      · dsimp only
        rw [hl', List.append_assoc items]
      · rcases hout' with ⟨hret, hs⟩ | ⟨hret, hr⟩
        · left
          refine ⟨?_, l, l', hout, hs, rfl⟩
          dsimp only
          rw [hret, List.length_cons]
          congr 1
          omega
        · exact Or.inr ⟨hret, hr.append_left l⟩

end

end PipeGallery.I2c
