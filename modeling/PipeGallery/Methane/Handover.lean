import PipeGallery.Lib.Runs
import PipeGallery.Methane.Refine
import PipeGallery.Serial.Fifo

set_option autoImplicit false

/-!
# Two readers of UART2

The background loop of `uart2_receive_and_print` and the shell command `uart2_debug` read the same FIFO.
The command sets `methane_debug_active`, waits 20 ms and reads; the loop tests the flag before each of its
reads. Interrupts come at any moment, and the two threads are interleaved in every way.

* `Uart2`, `Event`, `step`: the FIFO, the two threads, the flag;
* `Inv`, `inv_step`: the loop takes at most one byte after the flag is set;
* `Parked`, `Owned`, `owned_step`: one parser at a time;
* **`debug_steals_at_most_one`**, **`handover_refines_scan`**.
-/

namespace PipeGallery.Methane

open Lib Serial

/-! ## The threads -/

/-- `RT_SERIAL_RB_BUFSZ`. -/
def uart2Bufsz : ℕ := 128

/-- Where the loop of `uart2_receive_and_print` stands: before the test of the flag, before
`rt_device_read`, or with a byte. -/
inductive BgPc where
  | check
  | read
  | byte (data : Byte)
  deriving DecidableEq, Repr

/-- Where `uart2_debug` stands: not started, in `rt_thread_mdelay(20)`, before the deadline is tested, or
with a byte. -/
inductive DbgPc where
  | idle
  | delay
  | loop
  | byte (data : Byte)
  deriving DecidableEq, Repr

/-- The FIFO, the flag, the globals and the two threads. Besides: what interrupts brought; the bytes
parsed so far, cut where a parser began anew (`done`, `cur`); how often the command was started; the
bytes the loop read since the flag was set. -/
structure Uart2 where
  fifo : RxFifo Byte
  debugActive : Bool := false
  g : Globals := {}
  bgPc : BgPc := .check
  rx : Rx
  dbgPc : DbgPc := .idle
  dbg : Dbg
  received : List Byte := []
  done : List (List Byte) := []
  cur : List Byte := []
  sessions : ℕ := 0
  stolen : ℕ := 0

/-- The parser begins anew. -/
def Uart2.cut (s : Uart2) : Uart2 :=
  if s.cur = [] then s else { s with done := s.done ++ [s.cur], cur := [] }

/-- `data_index = 0`. -/
def Uart2.resetIndex (s : Uart2) : Uart2 := { s with rx := { s.rx with dataIndex := 0 } }

/-- The next step of the loop, with a negative timeout. -/
def background (s : Uart2) : Uart2 :=
  match s.bgPc with
  | .check =>
    if s.debugActive then
      -- during the delay this ends a frame of the loop's own
      if s.dbgPc = .delay then s.resetIndex.cut else s.resetIndex
    else { s with bgPc := .read }
  | .read =>
    match serialIntRx uart2Bufsz s.fifo 1 with
    | (data :: _, fifo) =>
      { s with fifo, bgPc := .byte data, stolen := if s.debugActive then s.stolen + 1 else s.stolen }
    | ([], fifo) => { s with fifo, bgPc := .check }
  | .byte data =>
    let rx := rxByte { s.rx with g := s.g } data
    { s with rx, g := rx.g, cur := s.cur ++ [data], bgPc := .check }

/-- What can happen: an interrupt; a step of the loop; `uart2_debug` starts, ends its delay with the
results of the set-up and an uninitialised `frame`, makes a step of its loop, finds its deadline over. -/
inductive Event where
  | isr (bs : List Byte)
  | background
  | debug
  | delayOver (u : Setup) (frame : ℕ → Byte)
  | debugLoop
  | deadline

def step (s : Uart2) : Event → Option Uart2
  | .isr bs => some { s with fifo := rxInd uart2Bufsz s.fifo bs, received := s.received ++ bs }
  | .background => some (background s)
  | .debug =>
    match s.dbgPc with
    | .idle => some { s with
        debugActive := true, dbgPc := .delay, sessions := s.sessions + 1, stolen := 0 }
    | _ => none
  | .delayOver u frame =>
    match s.dbgPc with
    | .delay =>
      if !u.found || !u.opened || !u.configured then
        some { s with debugActive := false, dbgPc := .idle }
      else some { s.cut with dbgPc := .loop, dbg := { frame } }
    | _ => none
  | .debugLoop =>
    match s.dbgPc with
    | .loop =>
      match serialIntRx uart2Bufsz s.fifo 1 with
      | (data :: _, fifo) => some { s with fifo, dbgPc := .byte data }
      | ([], fifo) => some { s with fifo }
    | .byte data =>
      let dbg := debugByte { s.dbg with g := s.g } data
      some { s with dbg, g := dbg.g, cur := s.cur ++ [data], dbgPc := .loop }
    | _ => none
  | .deadline =>
    match s.dbgPc with
    | .loop => some { s.cut with debugActive := false, dbgPc := .idle }
    | _ => none

/-- UART2 is open and nothing has come. -/
def start (buffer buf frame : ℕ → Byte) : Uart2 where
  fifo := { buffer }
  rx := { buf }
  dbg := { frame }

namespace Uart2

/-- The bytes in the FIFO. -/
def unread (s : Uart2) : List Byte := s.fifo.contents uart2Bufsz

/-- The byte in the hands of the loop. -/
def bgHand (s : Uart2) : List Byte :=
  match s.bgPc with
  | .byte data => [data]
  | _ => []

/-- The byte in the hands of the command. -/
def dbgHand (s : Uart2) : List Byte :=
  match s.dbgPc with
  | .byte data => [data]
  | _ => []

/-- The pieces in which the bytes were parsed. -/
def pieces (s : Uart2) : List (List Byte) := s.done ++ [s.cur]

/-- The bytes parsed, those in the threads' hands, the unread ones. -/
def held (s : Uart2) : List Byte := s.pieces.flatten ++ s.bgHand ++ s.dbgHand ++ s.unread

/-- Only `done` and `cur` change. -/
theorem cut_eq (s : Uart2) : s.cut = { s with done := s.cut.done, cur := s.cut.cur } := by
  unfold cut
  split_ifs
  · rfl
  · rfl

theorem flatten_pieces (s : Uart2) : s.pieces.flatten = s.done.flatten ++ s.cur := by
  rw [pieces, List.flatten_append, List.flatten_singleton]

theorem flatten_cut (s : Uart2) : s.cut.done.flatten ++ s.cut.cur = s.done.flatten ++ s.cur := by
  unfold cut
  split_ifs
  · rfl
  · simp

end Uart2

open Uart2

/-- What a step does, case by case; a read takes the first unread byte. -/
inductive Move (s : Uart2) : Event → Uart2 → Prop
  | isr (bs : List Byte) :
    Move s (.isr bs) { s with fifo := rxInd uart2Bufsz s.fifo bs, received := s.received ++ bs }
  | park (hb : s.bgPc = .check) (hd : s.dbgPc = .delay) :
    Move s .background s.resetIndex.cut
  | wait (hb : s.bgPc = .check) (ha : s.debugActive = true) (hd : s.dbgPc ≠ .delay) :
    Move s .background s.resetIndex
  | pass (hb : s.bgPc = .check) (ha : s.debugActive = false) : Move s .background { s with bgPc := .read }
  | bgEmpty (hb : s.bgPc = .read) (f : RxFifo Byte) (hv : Valid uart2Bufsz f)
      (hf : f.contents uart2Bufsz = s.unread) : Move s .background { s with fifo := f, bgPc := .check }
  | bgRead (hb : s.bgPc = .read) (f : RxFifo Byte) (data : Byte) (hv : Valid uart2Bufsz f)
      (hf : s.unread = data :: f.contents uart2Bufsz) :
    Move s .background { s with
      fifo := f, bgPc := .byte data, stolen := if s.debugActive then s.stolen + 1 else s.stolen }
  | bgByte (data : Byte) (hb : s.bgPc = .byte data) :
    Move s .background { s with
      rx := rxByte { s.rx with g := s.g } data, g := (rxByte { s.rx with g := s.g } data).g
      cur := s.cur ++ [data], bgPc := .check }
  | debug (hd : s.dbgPc = .idle) :
    Move s .debug { s with debugActive := true, dbgPc := .delay, sessions := s.sessions + 1, stolen := 0 }
  | abort (hd : s.dbgPc = .delay) (u : Setup) (frame : ℕ → Byte) :
    Move s (.delayOver u frame) { s with debugActive := false, dbgPc := .idle }
  | begin (hd : s.dbgPc = .delay) (u : Setup) (frame : ℕ → Byte) :
    Move s (.delayOver u frame) { s.cut with dbgPc := .loop, dbg := { frame } }
  | dbgEmpty (hd : s.dbgPc = .loop) (f : RxFifo Byte) (hv : Valid uart2Bufsz f)
      (hf : f.contents uart2Bufsz = s.unread) : Move s .debugLoop { s with fifo := f }
  | dbgRead (hd : s.dbgPc = .loop) (f : RxFifo Byte) (data : Byte) (hv : Valid uart2Bufsz f)
      (hf : s.unread = data :: f.contents uart2Bufsz) :
    Move s .debugLoop { s with fifo := f, dbgPc := .byte data }
  | dbgByte (data : Byte) (hd : s.dbgPc = .byte data) :
    Move s .debugLoop { s with
      dbg := debugByte { s.dbg with g := s.g } data, g := (debugByte { s.dbg with g := s.g } data).g
      cur := s.cur ++ [data], dbgPc := .loop }
  | deadline (hd : s.dbgPc = .loop) :
    Move s .deadline { s.cut with debugActive := false, dbgPc := .idle }

theorem move_background {s : Uart2} (h : Valid uart2Bufsz s.fifo) : Move s .background (background s) := by
  unfold background
  split
  · next hb =>
    split_ifs with ha hd
    · exact .park hb hd
    · exact .wait hb ha hd
    · exact .pass hb (Bool.eq_false_iff.mpr ha)
  · next hb =>
    rcases serialIntRx_one (by decide) h with ⟨hu, f, hr, hv, hf⟩ | ⟨data, rest, f, hu, hr, hv, rfl⟩
    · rw [hr]
      exact .bgEmpty hb f hv (hf.trans hu.symm)
    · rw [hr]
      exact .bgRead hb f data hv hu
  · next data hb => exact .bgByte data hb

theorem move_of_step {s t : Uart2} {e : Event} (h : Valid uart2Bufsz s.fifo) (ht : step s e = some t) :
    Move s e t := by
  cases e with
  | isr bs =>
    cases ht
    exact .isr bs
  | background =>
    cases ht
    exact move_background h
  | debug =>
    rw [step] at ht
    split at ht
    · next hd =>
      cases ht
      exact .debug hd
    · cases ht
  | delayOver u frame =>
    rw [step] at ht
    split at ht
    · next hd =>
      split_ifs at ht
      · cases ht
        exact .abort hd u frame
      · cases ht
        exact .begin hd u frame
    · cases ht
  | debugLoop =>
    rw [step] at ht
    split at ht
    · next hd =>
      rcases serialIntRx_one (by decide) h with ⟨hu, f, hr, hv, hf⟩ | ⟨data, rest, f, hu, hr, hv, rfl⟩
      · rw [hr] at ht
        cases ht
        exact .dbgEmpty hd f hv (hf.trans hu.symm)
      · rw [hr] at ht
        cases ht
        exact .dbgRead hd f data hv hu
    · next data hd =>
      cases ht
      exact .dbgByte data hd
    · cases ht
  | deadline =>
    rw [step] at ht
    split at ht
    · next hd =>
      cases ht
      exact .deadline hd
    · cases ht

/-! ## At most one byte -/

/-- The flag is set while the command runs, and the loop reads once more at most. -/
structure Inv (s : Uart2) : Prop where
  valid : Valid uart2Bufsz s.fifo
  active : s.debugActive = true ↔ s.dbgPc ≠ .idle
  stolen : s.debugActive = true → s.stolen ≤ 1
  fresh : s.debugActive = true → s.bgPc = .read → s.stolen = 0

theorem inv_start (buffer buf frame : ℕ → Byte) : Inv (start buffer buf frame) where
  valid := valid_new (by decide) buffer
  active := iff_of_false Bool.false_ne_true (not_not.mpr rfl)
  stolen _ := Nat.zero_le 1
  fresh _ _ := rfl

theorem inv_step {s t : Uart2} {e : Event} (h : Inv s) (ht : step s e = some t) : Inv t := by
  cases move_of_step h.valid ht with
  | isr bs => exact ⟨valid_rxInd h.valid bs, h.active, h.stolen, h.fresh⟩
  | park hb hd =>
    rw [cut_eq]
    exact ⟨h.valid, h.active, h.stolen, h.fresh⟩
  | wait hb ha hd => exact ⟨h.valid, h.active, h.stolen, h.fresh⟩
  | pass hb ha => exact ⟨h.valid, h.active, h.stolen, fun h' => absurd h' (Bool.eq_false_iff.mp ha)⟩
  | bgEmpty hb f hv hf => exact ⟨hv, h.active, h.stolen, fun _ h' => BgPc.noConfusion h'⟩
  | bgRead hb f data hv hf =>
    refine ⟨hv, h.active, fun ha => ?_, fun _ h' => BgPc.noConfusion h'⟩
    simp only [show s.debugActive = true from ha, h.fresh ha hb]
    exact le_rfl
  | bgByte data hb => exact ⟨h.valid, h.active, h.stolen, fun _ h' => BgPc.noConfusion h'⟩
  | debug hd =>
    exact ⟨h.valid, iff_of_true rfl (fun h' => DbgPc.noConfusion h'), fun _ => Nat.zero_le 1, fun _ _ => rfl⟩
  | abort hd u frame =>
    exact ⟨h.valid, iff_of_false Bool.false_ne_true (not_not.mpr rfl),
      fun h' => absurd h' Bool.false_ne_true, fun h' => absurd h' Bool.false_ne_true⟩
  | begin hd u frame =>
    have ha : s.debugActive = true := h.active.mpr (by rw [hd]; exact fun h' => DbgPc.noConfusion h')
    rw [cut_eq]
    exact ⟨h.valid, iff_of_true ha (fun h' => DbgPc.noConfusion h'), h.stolen, h.fresh⟩
  | dbgEmpty hd f hv hf => exact ⟨hv, h.active, h.stolen, h.fresh⟩
  | dbgRead hd f data hv hf =>
    have ha : s.debugActive = true := h.active.mpr (by rw [hd]; exact fun h' => DbgPc.noConfusion h')
    exact ⟨hv, iff_of_true ha (fun h' => DbgPc.noConfusion h'), h.stolen, h.fresh⟩
  | dbgByte data hd =>
    have ha : s.debugActive = true := h.active.mpr (by rw [hd]; exact fun h' => DbgPc.noConfusion h')
    exact ⟨h.valid, iff_of_true ha (fun h' => DbgPc.noConfusion h'), h.stolen, h.fresh⟩
  | deadline hd =>
    rw [cut_eq]
    exact ⟨h.valid, iff_of_false Bool.false_ne_true (not_not.mpr rfl),
      fun h' => absurd h' Bool.false_ne_true, fun h' => absurd h' Bool.false_ne_true⟩

/-! ## No byte is lost -/

/-- There is room for the bytes of an interrupt. -/
def RoomFor (s : Uart2) : Event → Prop
  | .isr bs => rxLength uart2Bufsz s.fifo + bs.length < uart2Bufsz
  | _ => True

instance (s : Uart2) (e : Event) : Decidable (RoomFor s e) :=
  match e with
  | .isr bs => inferInstanceAs (Decidable (rxLength uart2Bufsz s.fifo + bs.length < uart2Bufsz))
  | .background => .isTrue trivial
  | .debug => .isTrue trivial
  | .delayOver _ _ => .isTrue trivial
  | .debugLoop => .isTrue trivial
  | .deadline => .isTrue trivial

/-- The bytes an event brings. -/
def Event.brought : Event → List Byte
  | .isr bs => bs
  | _ => []

theorem received_step {s t : Uart2} {e : Event} (h : Inv s) (ht : step s e = some t) :
    t.received = s.received ++ e.brought := by
  cases move_of_step h.valid ht with
  | isr bs => rfl
  | park hb hd =>
    rw [cut_eq]
    exact (List.append_nil _).symm
  | begin hd u frame =>
    rw [cut_eq]
    exact (List.append_nil _).symm
  | deadline hd =>
    rw [cut_eq]
    exact (List.append_nil _).symm
  | _ => exact (List.append_nil _).symm

/-- `uart2_debug` reads UART2. -/
def DbgPc.reading : DbgPc → Bool
  | .loop => true
  | .byte _ => true
  | _ => false

/-- The loop stands before its test of the flag while the command reads. -/
def InTurn (s : Uart2) : Prop := s.dbgPc.reading = true → s.bgPc = .check

theorem dbgHand_of_not_reading {s : Uart2} (h : s.dbgPc.reading ≠ true) : s.dbgHand = [] := by
  unfold dbgHand
  split
  · next hd =>
    rw [hd] at h
    exact absurd rfl h
  · rfl

theorem perm_and_eq {a b : List Byte} {P : Prop} (h : a = b) : List.Perm a b ∧ (P → a = b) :=
  ⟨.of_eq h, fun _ => h⟩

/-- **A step keeps the bytes**, and their order if the threads take turns. -/
theorem held_step {s t : Uart2} {e : Event} (hroom : RoomFor s e) (h : Inv s) (ht : step s e = some t) :
    List.Perm t.held (s.held ++ e.brought) ∧ (InTurn s → t.held = s.held ++ e.brought) := by
  cases move_of_step h.valid ht with
  | isr bs =>
    have hc := contents_rxInd_of_room h.valid hroom
    refine perm_and_eq ?_
    simp only [held, unread, hc, Event.brought, List.append_assoc]
    rfl
  | park hb hd =>
    refine perm_and_eq ?_
    rw [held, flatten_pieces, flatten_cut, cut_eq, ← flatten_pieces]
    exact (List.append_nil _).symm
  | wait hb ha hd => exact perm_and_eq (List.append_nil _).symm
  | pass hb ha =>
    refine perm_and_eq ?_
    simp [held, Event.brought, pieces, bgHand, dbgHand, unread, hb]
  | bgEmpty hb f hv hf =>
    refine perm_and_eq ?_
    simp [held, Event.brought, pieces, bgHand, dbgHand, unread, hb, hf]
  | bgRead hb f data hv hf =>
    rw [unread] at hf
    constructor
    · rw [List.perm_iff_count]
      intro b
      simp only [held, Event.brought, pieces, bgHand, dbgHand, unread, hb, hf, List.count_append,
        List.count_cons, List.count_nil]
      omega
    · intro hturn
      have hh := dbgHand_of_not_reading (s := s) fun hr => BgPc.noConfusion (hb.symm.trans (hturn hr))
      rw [dbgHand] at hh
      simp [held, Event.brought, pieces, bgHand, dbgHand, hh, unread, hb, hf]
  | bgByte data hb =>
    refine perm_and_eq ?_
    simp [held, Event.brought, pieces, bgHand, dbgHand, unread, hb]
  | debug hd =>
    refine perm_and_eq ?_
    simp [held, Event.brought, pieces, bgHand, dbgHand, unread, hd]
  | abort hd u frame =>
    refine perm_and_eq ?_
    simp [held, Event.brought, pieces, bgHand, dbgHand, unread, hd]
  | begin hd u frame =>
    refine perm_and_eq ?_
    rw [cut_eq]
    simp only [held, flatten_pieces, flatten_cut, Event.brought, bgHand, dbgHand, unread, hd,
      List.append_nil]
  | dbgEmpty hd f hv hf =>
    refine perm_and_eq ?_
    simp [held, Event.brought, pieces, bgHand, dbgHand, unread, hd, hf]
  | dbgRead hd f data hv hf =>
    refine perm_and_eq ?_
    rw [unread] at hf
    simp [held, Event.brought, pieces, bgHand, dbgHand, unread, hd, hf]
  | dbgByte data hd =>
    constructor
    · rw [List.perm_iff_count]
      intro b
      simp only [held, Event.brought, pieces, bgHand, dbgHand, unread, hd, List.count_append,
        List.count_cons, List.count_nil, List.flatten_append, List.flatten_singleton]
      omega
    · intro hturn
      have hb : s.bgPc = .check := hturn (by rw [hd]; rfl)
      simp [held, Event.brought, pieces, bgHand, dbgHand, unread, hd, hb]
  | deadline hd =>
    refine perm_and_eq ?_
    rw [cut_eq]
    simp only [held, flatten_pieces, flatten_cut, Event.brought, bgHand, dbgHand, unread, hd,
      List.append_nil]

/-! ## One parser at a time -/

/-- Parser `p` began anew behind the pieces `done` and has parsed `cur` since. -/
def Parses (p : Rx) (done : List (List Byte)) (cur : List Byte) : Prop :=
  ∃ p₀ : Rx, p₀.dataIndex = 0 ∧ p₀.g = done.foldl scan {} ∧ p = rxBytes p₀ cur

theorem Parses.byte {p : Rx} {done : List (List Byte)} {cur : List Byte} (h : Parses p done cur) (b : Byte) :
    Parses (rxByte p b) done (cur ++ [b]) := by
  obtain ⟨p₀, h0, hg, rfl⟩ := h
  refine ⟨p₀, h0, hg, ?_⟩
  rw [rxBytes_append]
  rfl

/-- It has published what the reference scan finds in each piece. -/
theorem Parses.scan {p : Rx} {done : List (List Byte)} {cur : List Byte} (h : Parses p done cur) :
    p.g = (done ++ [cur]).foldl scan {} := by
  obtain ⟨p₀, h0, hg, rfl⟩ := h
  rw [(rxBytes_scan cur h0).1, List.foldl_append, hg]
  rfl

/-- A parser between frames takes over where another one stops. -/
theorem Parses.restart {s : Uart2} {p q : Rx} (h : Parses p s.done s.cur) (hq : q.dataIndex = 0)
    (hg : q.g = p.g) : Parses q s.cut.done s.cut.cur := by
  unfold cut
  split_ifs with hcur
  · refine ⟨q, hq, ?_, ?_⟩
    · rw [hg, h.scan, hcur, List.foldl_append]
      simp [Methane.scan, segments, candidates]
    · rw [hcur]
      rfl
  · exact ⟨q, hq, hg.trans h.scan, rfl⟩

/-- The parser of the thread whose turn it is has parsed every byte read, and the other one has no
frame begun. -/
structure Owned (s : Uart2) : Prop where
  bytes : s.received = s.held
  background : s.dbgPc.reading = false → Parses { s.rx with g := s.g } s.done s.cur
  debug : s.dbgPc.reading = true →
    s.bgPc = .check ∧ s.rx.dataIndex = 0 ∧ Parses (Dbg.toRx { s.dbg with g := s.g }) s.done s.cur

/-- When the delay of `uart2_debug` ends, the loop has tested the flag: it stands before the next test
and has no frame begun. -/
def Parked (s : Uart2) : Event → Prop
  | .delayOver _ _ => s.bgPc = .check ∧ s.rx.dataIndex = 0
  | _ => True

instance (s : Uart2) (e : Event) : Decidable (Parked s e) :=
  match e with
  | .delayOver _ _ => inferInstanceAs (Decidable (s.bgPc = .check ∧ s.rx.dataIndex = 0))
  | .isr _ => .isTrue trivial
  | .background => .isTrue trivial
  | .debug => .isTrue trivial
  | .debugLoop => .isTrue trivial
  | .deadline => .isTrue trivial

theorem owned_start (buffer buf frame : ℕ → Byte) : Owned (start buffer buf frame) where
  bytes := rfl
  background _ := ⟨{ buf }, rfl, rfl, rfl⟩
  debug h := absurd h Bool.false_ne_true

theorem owned_step {s t : Uart2} {e : Event} (hroom : RoomFor s e) (hpark : Parked s e) (hi : Inv s)
    (h : Owned s) (ht : step s e = some t) : Owned t := by
  have hbytes : t.received = t.held := by
    rw [received_step hi ht, h.bytes]
    exact ((held_step hroom hi ht).2 fun hr => (h.debug hr).1).symm
  cases move_of_step hi.valid ht with
  | isr bs => exact ⟨hbytes, h.background, h.debug⟩
  | park hb hd =>
    have hparse : Parses _ s.resetIndex.cut.done s.resetIndex.cut.cur :=
      Parses.restart (q := { s.rx with dataIndex := 0, g := s.g })
        (h.background (by rw [hd]; rfl)) rfl rfl
    refine ⟨hbytes, fun _ => ?_, fun hr => ?_⟩
    · rw [cut_eq]
      exact hparse
    · rw [cut_eq] at hr
      rw [show s.resetIndex.dbgPc = .delay from hd] at hr
      cases hr
  | wait hb ha hd =>
    have hr : s.dbgPc.reading = true := by
      cases hp : s.dbgPc with
      | idle => exact absurd hp (hi.active.mp ha)
      | delay => exact absurd hp hd
      | loop => rfl
      | byte data => rfl
    refine ⟨hbytes, fun hn => ?_, fun _ => ⟨hb, rfl, (h.debug hr).2.2⟩⟩
    rw [show s.resetIndex.dbgPc = s.dbgPc from rfl, hr] at hn
    cases hn
  | pass hb ha =>
    have hidle : s.dbgPc = .idle := not_not.mp fun hne => absurd (hi.active.mpr hne) (Bool.eq_false_iff.mp ha)
    refine ⟨hbytes, h.background, fun hr => ?_⟩
    rw [hidle] at hr
    cases hr
  | bgEmpty hb f hv hf =>
    refine ⟨hbytes, h.background, fun hr => ?_⟩
    exact BgPc.noConfusion (hb.symm.trans (h.debug hr).1)
  | bgRead hb f data hv hf =>
    refine ⟨hbytes, h.background, fun hr => ?_⟩
    exact BgPc.noConfusion (hb.symm.trans (h.debug hr).1)
  | bgByte data hb =>
    refine ⟨hbytes, fun hr => (h.background hr).byte data, fun hr => ?_⟩
    exact BgPc.noConfusion (hb.symm.trans (h.debug hr).1)
  | debug hd =>
    exact ⟨hbytes, fun _ => h.background (by rw [hd]; rfl), fun hr => absurd hr Bool.false_ne_true⟩
  | abort hd u frame =>
    exact ⟨hbytes, fun _ => h.background (by rw [hd]; rfl), fun hr => absurd hr Bool.false_ne_true⟩
  | begin hd u frame =>
    have hparse : Parses (Dbg.toRx { frame, g := s.g }) s.cut.done s.cut.cur :=
      (h.background (by rw [hd]; rfl)).restart rfl rfl
    refine ⟨hbytes, fun hr => absurd hr.symm Bool.false_ne_true, fun _ => ?_⟩
    rw [cut_eq]
    exact ⟨hpark.1, hpark.2, hparse⟩
  | dbgEmpty hd f hv hf => exact ⟨hbytes, h.background, h.debug⟩
  | dbgRead hd f data hv hf =>
    exact ⟨hbytes, fun hr => absurd hr.symm Bool.false_ne_true, fun _ => h.debug (by rw [hd]; rfl)⟩
  | dbgByte data hd =>
    obtain ⟨hb, h0, hparse⟩ := h.debug (by rw [hd]; rfl)
    refine ⟨hbytes, fun hr => absurd hr.symm Bool.false_ne_true, fun _ => ⟨hb, h0, ?_⟩⟩
    have hnext := hparse.byte data
    rw [← toRx_debugByte] at hnext
    exact hnext
  | deadline hd =>
    obtain ⟨hb, h0, hparse⟩ := h.debug (by rw [hd]; rfl)
    have hbg : Parses { s.rx with g := s.g } s.cut.done s.cut.cur := hparse.restart h0 rfl
    refine ⟨hbytes, fun _ => ?_, fun hr => absurd hr Bool.false_ne_true⟩
    rw [cut_eq]
    exact hbg

/-! ## Whole runs -/

/-- How often the parsers will still begin anew in this session: when the loop finds the flag set or
`uart2_debug` takes over, and when it ends. -/
def budget (s : Uart2) : ℕ :=
  match s.dbgPc with
  | .idle => 0
  | .delay => if s.bgPc = .check ∧ s.cur = [] then 1 else 2
  | _ => 1

/-- At most two cuts a session. -/
def CutsBounded (s : Uart2) : Prop := s.done.length + budget s ≤ 2 * s.sessions

theorem budget_of_reading {s : Uart2} (h : s.dbgPc.reading = true) : budget s = 1 := by
  unfold budget
  split
  · next hd =>
    rw [hd] at h
    cases h
  · next hd =>
    rw [hd] at h
    cases h
  · rfl

theorem budget_delay_le {s : Uart2} (h : s.dbgPc = .delay) : 1 ≤ budget s ∧ budget s ≤ 2 := by
  rw [budget, h]
  dsimp only
  split_ifs <;> omega

/-- A loop with a byte, or about to read one, can still be parked. -/
theorem CutsBounded.of_bgPc {s t : Uart2} (hcuts : CutsBounded s) (h : s.bgPc ≠ .check)
    (hd : t.dbgPc = s.dbgPc) (hdone : t.done = s.done) (hn : t.sessions = s.sessions) : CutsBounded t := by
  have hle : budget t ≤ budget s := by
    unfold budget
    rw [hd]
    cases s.dbgPc with
    | delay =>
      simp only [h, false_and, if_false]
      split_ifs <;> omega
    | _ => exact le_rfl
  unfold CutsBounded at hcuts ⊢
  rw [hdone, hn]
  omega

theorem length_done_cut (s : Uart2) :
    s.cut.cur = [] ∧ s.cut.done.length = if s.cur = [] then s.done.length else s.done.length + 1 := by
  unfold cut
  split_ifs with h
  · exact ⟨h, rfl⟩
  · exact ⟨rfl, by simp⟩

theorem cutsBounded_step {s t : Uart2} {e : Event} (hi : Inv s) (h : CutsBounded s)
    (ht : step s e = some t) : CutsBounded t := by
  have hle : s.done.length + budget s ≤ 2 * s.sessions := h
  cases move_of_step hi.valid ht with
  | isr bs => exact h
  | park hb hd =>
    obtain ⟨hcur, hlen⟩ := length_done_cut s.resetIndex
    have hbudget : budget s.resetIndex.cut = 1 := by
      rw [budget, hcur, cut_eq]
      simp [resetIndex, hb, hd]
    have hold : budget s = if s.cur = [] then 1 else 2 := by
      simp [budget, hb, hd]
    have hlen' : s.resetIndex.cut.done.length = if s.cur = [] then s.done.length else s.done.length + 1 :=
      hlen
    have hn : s.resetIndex.cut.sessions = s.sessions := by
      rw [cut_eq]
      rfl
    rw [CutsBounded, hbudget, hlen', hn]
    rw [hold] at hle
    split_ifs at hle ⊢ <;> omega
  | wait hb ha hd => exact h
  | pass hb ha =>
    have hidle : s.dbgPc = .idle := not_not.mp fun hne => absurd (hi.active.mpr hne) (Bool.eq_false_iff.mp ha)
    simpa [CutsBounded, budget, hidle] using hle
  | bgEmpty hb f hv hf =>
    refine h.of_bgPc ?_ rfl rfl rfl
    rw [hb]
    exact fun h' => BgPc.noConfusion h'
  | bgRead hb f data hv hf =>
    refine h.of_bgPc ?_ rfl rfl rfl
    rw [hb]
    exact fun h' => BgPc.noConfusion h'
  | bgByte data hb =>
    refine h.of_bgPc ?_ rfl rfl rfl
    rw [hb]
    exact fun h' => BgPc.noConfusion h'
  | debug hd =>
    have hle := (budget_delay_le (s := { s with
      debugActive := true, dbgPc := .delay, sessions := s.sessions + 1, stolen := 0 }) rfl).2
    unfold CutsBounded
    dsimp only
    omega
  | abort hd u frame => exact le_trans (Nat.add_le_add_left (Nat.zero_le _) _) hle
  | begin hd u frame =>
    obtain ⟨hcur, hlen⟩ := length_done_cut s
    rw [CutsBounded, budget_of_reading rfl, hlen, cut_eq]
    dsimp only
    split_ifs with hc
    · have := (budget_delay_le hd).1
      omega
    · have hold : budget s = 2 := by simp [budget, hd, hc]
      omega
  | dbgEmpty hd f hv hf => exact h
  | dbgRead hd f data hv hf =>
    rw [budget_of_reading (by rw [hd]; rfl)] at hle
    rw [CutsBounded, budget_of_reading rfl]
    exact hle
  | dbgByte data hd =>
    rw [budget_of_reading (by rw [hd]; rfl)] at hle
    rw [CutsBounded, budget_of_reading rfl]
    exact hle
  | deadline hd =>
    obtain ⟨hcur, hlen⟩ := length_done_cut s
    rw [budget_of_reading (by rw [hd]; rfl)] at hle
    have hbudget : budget { s.cut with debugActive := false, dbgPc := .idle } = 0 := rfl
    rw [CutsBounded, hbudget, hlen, cut_eq]
    dsimp only
    split_ifs <;> omega

/-- **The loop takes at most one byte** after `uart2_debug` has set the flag, in every interleaving; and
as long as there is room in the FIFO no byte is lost or parsed twice, whoever takes it. -/
theorem debug_steals_at_most_one (buffer buf frame : ℕ → Byte) {es : List Event} {s : Uart2}
    (h : run step (start buffer buf frame) es = some s) :
    (s.debugActive = true → s.stolen ≤ 1) ∧
      (Along step RoomFor (start buffer buf frame) es → List.Perm s.held s.received) := by
  constructor
  · have hinv : Inv s := run_inv (C := fun _ _ => True) (fun _ _ _ _ hi ht => inv_step hi ht)
      (inv_start buffer buf frame) (along_of_forall (fun _ _ => trivial) _) h
    exact hinv.stolen
  · intro hroom
    have hinv : Inv s ∧ List.Perm s.held s.received := by
      refine run_inv (I := fun s => Inv s ∧ List.Perm s.held s.received) ?_
        ⟨inv_start buffer buf frame, .refl _⟩ hroom h
      rintro s e t hr ⟨hi, hp⟩ ht
      refine ⟨inv_step hi ht, (held_step hr hi ht).1.trans ?_⟩
      rw [received_step hi ht]
      exact hp.append_right _
    exact hinv.2

/-- The flag is set after the loop has tested it: it still takes the first byte. -/
theorem debug_steals_at_most_one_late :
    ∃ s, run step (start (fun _ => 0) (fun _ => 0) fun _ => 0) [.background, .debug, .isr [0xAC, 0xAC],
        .delayOver ⟨true, true, true⟩ fun _ => 0, .background, .debugLoop, .debugLoop] = some s ∧
      s.stolen = 1 ∧ s.cur = [0xAC] ∧ (s.debugActive = true → s.stolen ≤ 1) ∧
      (Along step RoomFor (start (fun _ => 0) (fun _ => 0) fun _ => 0) [.background, .debug,
        .isr [0xAC, 0xAC], .delayOver ⟨true, true, true⟩ fun _ => 0, .background, .debugLoop,
        .debugLoop] → List.Perm s.held s.received) := by
  obtain ⟨s, hs⟩ : ∃ s, run step (start (fun _ => 0) (fun _ => 0) fun _ => 0) [.background, .debug,
      .isr [0xAC, 0xAC], .delayOver ⟨true, true, true⟩ fun _ => 0, .background, .debugLoop,
      .debugLoop] = some s := ⟨_, rfl⟩
  refine ⟨s, hs, ?_, ?_, debug_steals_at_most_one _ _ _ hs⟩
  · cases hs
    rfl
  · cases hs
    rfl

/-- **The two readers compute one reference scan.** In every run in which the FIFO never overflows and
the loop has tested the flag whenever the delay of `uart2_debug` ends, the bytes are parsed in the order
they came, each by one parser; the published values and counters are those of the scan, begun anew at
most twice for each use of the command. -/
theorem handover_refines_scan (buffer buf frame : ℕ → Byte) {es : List Event} {s : Uart2}
    (hC : Along step (fun s e => RoomFor s e ∧ Parked s e) (start buffer buf frame) es)
    (h : run step (start buffer buf frame) es = some s) :
    s.received = s.pieces.flatten ++ s.bgHand ++ s.dbgHand ++ s.unread ∧
      s.g = s.pieces.foldl scan {} ∧ s.pieces.length ≤ 2 * s.sessions + 1 := by
  have hinv : Inv s ∧ Owned s ∧ CutsBounded s := by
    refine run_inv (I := fun s => Inv s ∧ Owned s ∧ CutsBounded s) ?_
      ⟨inv_start buffer buf frame, owned_start buffer buf frame, Nat.zero_le _⟩ hC h
    rintro s e t ⟨hr, hp⟩ ⟨hi, ho, hc⟩ ht
    exact ⟨inv_step hi ht, owned_step hr hp hi ho ht, cutsBounded_step hi hc ht⟩
  obtain ⟨-, ho, hc⟩ := hinv
  refine ⟨ho.bytes, ?_, ?_⟩
  · cases hr : s.dbgPc.reading with
    | false => exact (ho.background hr).scan
    | true => exact (ho.debug hr).2.2.scan
  · have hle : s.done.length + budget s ≤ 2 * s.sessions := hc
    rw [pieces, List.length_append, List.length_singleton]
    omega

/-- A frame begun by the loop, and one byte for `uart2_debug`. -/
theorem handover_refines_scan_session :
    ∃ s, run step (start (fun _ => 0) (fun _ => 0) fun _ => 0) [.isr [0xAC, 0xAC], .background,
        .background, .background, .debug, .background, .delayOver ⟨true, true, true⟩ fun _ => 0,
        .debugLoop, .debugLoop] = some s ∧
      s.pieces = [[0xAC], [0xAC]] ∧
      s.received = s.pieces.flatten ++ s.bgHand ++ s.dbgHand ++ s.unread ∧
      s.g = s.pieces.foldl scan {} ∧ s.pieces.length ≤ 2 * s.sessions + 1 := by
  obtain ⟨s, hs⟩ : ∃ s, run step (start (fun _ => 0) (fun _ => 0) fun _ => 0) [.isr [0xAC, 0xAC],
      .background, .background, .background, .debug, .background,
      .delayOver ⟨true, true, true⟩ fun _ => 0, .debugLoop, .debugLoop] = some s := ⟨_, rfl⟩
  refine ⟨s, hs, ?_, handover_refines_scan _ _ _ (by decide) hs⟩
  cases hs
  rfl

end PipeGallery.Methane
