import PipeGallery.Lib.Ring

set_option autoImplicit false

/-!
# The receive FIFO of the serial devices

`serial.c` of RT-Thread, a device opened with `RT_DEVICE_FLAG_INT_RX`: the interrupt puts bytes into a
ring of `config.bufsz` cells and drops the oldest one when it is full, `rt_device_read` takes them out.

* `RxFifo`, `put`, `rxInd`, `rxLength`: the interrupt;
* `serialIntRx`: `_serial_int_rx`;
* `RxFifo.contents`, `Valid`, `contents_rxInd`, `serialIntRx_eq`, `serialIntRx_one`: the ring as a list;
* `fifoRun`: interrupts and reads in any order;
* **`fifo_refines_queue`**, **`fifo_conserves_iff`**.
-/

namespace PipeGallery.Serial

open Lib

variable {α : Type*}

/-! ## The code -/

/-- `struct rt_serial_rx_fifo`. -/
structure RxFifo (α : Type*) where
  buffer : ℕ → α
  putIndex : ℕ := 0
  getIndex : ℕ := 0
  isFull : Bool := false

/-- An index moved on, and wrapped at `bufsz`. -/
def next (bufsz i : ℕ) : ℕ := if i + 1 ≥ bufsz then 0 else i + 1

/-- One character in the loop of `RT_SERIAL_EVENT_RX_IND`. -/
def put (bufsz : ℕ) (f : RxFifo α) (ch : α) : RxFifo α :=
  let f := { f with buffer := Function.update f.buffer f.putIndex ch, putIndex := next bufsz f.putIndex }
  -- the next position is the read index: discard the oldest character
  if f.putIndex = f.getIndex then { f with getIndex := next bufsz f.getIndex, isFull := true } else f

/-- `RT_SERIAL_EVENT_RX_IND` of `rt_hw_serial_isr`, with the characters that `getc` gives. -/
def rxInd (bufsz : ℕ) (f : RxFifo α) (chs : List α) : RxFifo α := chs.foldl (put bufsz) f

/-- `rx_length`, the argument of the receive callback. -/
def rxLength (bufsz : ℕ) (f : RxFifo α) : ℕ :=
  if f.putIndex ≥ f.getIndex then f.putIndex - f.getIndex else bufsz - (f.getIndex - f.putIndex)

/-- `_serial_int_rx`: the characters read, at most `length`, and the FIFO. -/
def serialIntRx (bufsz : ℕ) (f : RxFifo α) : ℕ → List α × RxFifo α
  | 0 => ([], f)
  | length + 1 =>
    if f.getIndex = f.putIndex ∧ f.isFull = false then ([], f)
    else
      let ch := f.buffer f.getIndex
      let r := serialIntRx bufsz { f with getIndex := next bufsz f.getIndex, isFull := false } length
      (ch :: r.1, r.2)

/-! ## The ring as a list -/

section Contents

variable {bufsz : ℕ}

theorem next_eq {i : ℕ} (h : i < bufsz) : next bufsz i = (i + 1) % bufsz := by
  unfold next
  split_ifs with hw
  · rw [show i + 1 = bufsz by omega, Nat.mod_self]
  · rw [Nat.mod_eq_of_lt (by omega)]

theorem next_lt {i : ℕ} (h : i < bufsz) : next bufsz i < bufsz := by
  rw [next_eq h]
  exact Nat.mod_lt _ (by omega)

/-- The indices are in range and `n` characters apart; a full FIFO holds as many as it can. -/
structure Holds (bufsz : ℕ) (f : RxFifo α) (n : ℕ) : Prop where
  get_lt : f.getIndex < bufsz
  lt : n < bufsz
  put_eq : f.putIndex = (f.getIndex + n) % bufsz
  full : f.isFull = true → n + 1 = bufsz

/-- The characters between the indices. -/
def RxFifo.contents (bufsz : ℕ) (f : RxFifo α) : List α :=
  cells f.buffer bufsz f.getIndex (rxLength bufsz f)

theorem Holds.rxLength {f : RxFifo α} {n : ℕ} (h : Holds bufsz f n) : rxLength bufsz f = n := by
  have hg := h.get_lt
  have hn := h.lt
  rw [Serial.rxLength, h.put_eq]
  by_cases hw : f.getIndex + n < bufsz
  · rw [Nat.mod_eq_of_lt hw, if_pos (by omega)]
    omega
  · rw [Nat.mod_eq_sub_mod (by omega), Nat.mod_eq_of_lt (by omega), if_neg (by omega)]
    omega

theorem Holds.contents {f : RxFifo α} {n : ℕ} (h : Holds bufsz f n) :
    f.contents bufsz = cells f.buffer bufsz f.getIndex n := by
  rw [RxFifo.contents, h.rxLength]

/-- There is a free cell besides the one that tells full from empty. -/
theorem Holds.put_of_lt {f : RxFifo α} {n : ℕ} (h : Holds bufsz f n) (hn : n + 1 < bufsz) (ch : α) :
    Holds bufsz (put bufsz f ch) (n + 1) ∧
      (put bufsz f ch).contents bufsz = f.contents bufsz ++ [ch] := by
  have hg := h.get_lt
  have hput : f.putIndex < bufsz := h.put_eq ▸ Nat.mod_lt _ (by omega)
  have hnext : next bufsz f.putIndex = (f.getIndex + (n + 1)) % bufsz := by
    rw [next_eq hput, h.put_eq, Nat.mod_add_mod, Nat.add_assoc]
  have hne : next bufsz f.putIndex ≠ f.getIndex := by
    rw [hnext]
    by_cases hw : f.getIndex + (n + 1) < bufsz
    · rw [Nat.mod_eq_of_lt hw]
      omega
    · rw [Nat.mod_eq_sub_mod (by omega), Nat.mod_eq_of_lt (by omega)]
      omega
  have hf : put bufsz f ch = { f with
      buffer := Function.update f.buffer f.putIndex ch, putIndex := next bufsz f.putIndex } := if_neg hne
  have hholds : Holds bufsz (put bufsz f ch) (n + 1) := by
    rw [hf]
    exact ⟨hg, hn, hnext, fun hfull => absurd (h.full hfull) (by omega)⟩
  refine ⟨hholds, ?_⟩
  rw [hholds.contents, h.contents, hf, h.put_eq]
  exact cells_concat f.buffer h.lt ch

/-- The last free cell is taken: the oldest character goes. -/
theorem Holds.put_of_eq {f : RxFifo α} {n : ℕ} (h : Holds bufsz f n) (hn : n + 1 = bufsz) (ch : α) :
    Holds bufsz (put bufsz f ch) n ∧
      (put bufsz f ch).contents bufsz = (f.contents bufsz ++ [ch]).tail := by
  have hg := h.get_lt
  have hput : f.putIndex < bufsz := h.put_eq ▸ Nat.mod_lt _ (by omega)
  have hnext : next bufsz f.putIndex = f.getIndex := by
    rw [next_eq hput, h.put_eq, Nat.mod_add_mod, Nat.add_assoc, hn, Nat.add_mod_right,
      Nat.mod_eq_of_lt hg]
  have hf : put bufsz f ch = ⟨Function.update f.buffer f.putIndex ch, next bufsz f.putIndex,
      next bufsz f.getIndex, true⟩ := if_pos hnext
  have hholds : Holds bufsz (put bufsz f ch) n := by
    rw [hf]
    refine ⟨next_lt hg, h.lt, hnext.trans ?_, fun _ => hn⟩
    rw [next_eq hg, Nat.mod_add_mod, Nat.add_assoc, Nat.add_comm 1 n, hn, Nat.add_mod_right,
      Nat.mod_eq_of_lt hg]
  refine ⟨hholds, ?_⟩
  rw [hholds.contents, h.contents, ← cells_concat f.buffer h.lt ch, ← h.put_eq, cells_succ, hf,
    next_eq hg, cells_mod, List.tail_cons]

/-- **A character in the interrupt** joins the queue, which keeps its last `bufsz - 1` characters. -/
theorem Holds.put {f : RxFifo α} {n : ℕ} (h : Holds bufsz f n) (ch : α) :
    Holds bufsz (put bufsz f ch) (min (n + 1) (bufsz - 1)) ∧
      (Serial.put bufsz f ch).contents bufsz = (f.contents bufsz ++ [ch]).rtake (bufsz - 1) := by
  have hlen : (f.contents bufsz).length = n := by rw [h.contents, length_cells]
  rcases Nat.lt_or_ge (n + 1) bufsz with hn | hn
  · obtain ⟨hholds, hc⟩ := h.put_of_lt hn ch
    rw [min_eq_left (by omega), hc, rtake_of_length_le (by simp; omega)]
    exact ⟨hholds, rfl⟩
  · have hn : n + 1 = bufsz := le_antisymm h.lt hn
    obtain ⟨hholds, hc⟩ := h.put_of_eq hn ch
    rw [min_eq_right (by omega), show bufsz - 1 = n by omega, hc]
    refine ⟨hholds, ?_⟩
    rw [List.rtake, List.length_append, hlen, List.length_singleton, Nat.add_sub_cancel_left, List.drop_one]

/-- The indices mark a queue. -/
def Valid (bufsz : ℕ) (f : RxFifo α) : Prop := ∃ n, Holds bufsz f n

theorem valid_rxInd {f : RxFifo α} (h : Valid bufsz f) (chs : List α) :
    Valid bufsz (rxInd bufsz f chs) := by
  induction chs generalizing f with
  | nil => exact h
  | cons ch chs ih =>
    obtain ⟨n, hn⟩ := h
    exact ih ⟨_, (hn.put ch).1⟩

theorem contents_rxInd {f : RxFifo α} (h : Valid bufsz f) (chs : List α) :
    (rxInd bufsz f chs).contents bufsz = (f.contents bufsz ++ chs).rtake (bufsz - 1) := by
  induction chs generalizing f with
  | nil =>
    obtain ⟨n, hn⟩ := h
    have := hn.lt
    rw [List.append_nil, rtake_of_length_le (by rw [hn.contents, length_cells]; omega)]
    rfl
  | cons ch chs ih =>
    obtain ⟨n, hn⟩ := h
    obtain ⟨hput, hc⟩ := hn.put ch
    rw [rxInd, List.foldl_cons, ← rxInd, ih ⟨_, hput⟩, hc, rtake_append_rtake, List.append_assoc,
      List.singleton_append]

/-- **A read** takes the first characters of the queue. -/
theorem serialIntRx_eq (hb : 2 ≤ bufsz) {f : RxFifo α} (h : Valid bufsz f) (length : ℕ) :
    (serialIntRx bufsz f length).1 = (f.contents bufsz).take length ∧
      Valid bufsz (serialIntRx bufsz f length).2 ∧
      (serialIntRx bufsz f length).2.contents bufsz = (f.contents bufsz).drop length := by
  induction length generalizing f with
  | zero => exact ⟨rfl, h, rfl⟩
  | succ length ih =>
    obtain ⟨n, hn⟩ := h
    have hg := hn.get_lt
    rw [serialIntRx, hn.contents]
    cases n with
    | zero =>
      have hempty : f.getIndex = f.putIndex ∧ f.isFull = false := by
        refine ⟨by rw [hn.put_eq, Nat.add_zero, Nat.mod_eq_of_lt hg], ?_⟩
        rw [← Bool.not_eq_true]
        intro hfull
        have := hn.full hfull
        omega
      rw [if_pos hempty]
      exact ⟨by simp [cells], ⟨0, hn⟩, by rw [hn.contents]; simp [cells]⟩
    | succ n =>
      have hlt := hn.lt
      have hne : ¬ (f.getIndex = f.putIndex ∧ f.isFull = false) := by
        rintro ⟨he, -⟩
        have := hn.put_eq
        by_cases hw : f.getIndex + (n + 1) < bufsz
        · rw [Nat.mod_eq_of_lt hw] at this
          omega
        · rw [Nat.mod_eq_sub_mod (by omega), Nat.mod_eq_of_lt (by omega)] at this
          omega
      have hrest : Holds bufsz { f with getIndex := next bufsz f.getIndex, isFull := false } n := by
        refine ⟨next_lt hg, by omega, ?_, fun hfull => absurd hfull Bool.false_ne_true⟩
        rw [next_eq hg, Nat.mod_add_mod, hn.put_eq]
        congr 1
        omega
      obtain ⟨h1, h2, h3⟩ := ih ⟨n, hrest⟩
      rw [if_neg hne, cells_succ, Nat.mod_eq_of_lt hg, List.take_succ_cons, List.drop_succ_cons]
      rw [hrest.contents, next_eq hg, cells_mod] at h1 h3
      dsimp only
      rw [next_eq hg]
      rw [next_eq hg] at h2
      exact ⟨congrArg _ h1, h2, h3⟩

/-- Characters that find room join the queue. -/
theorem contents_rxInd_of_room {f : RxFifo α} {chs : List α} (h : Valid bufsz f)
    (hroom : rxLength bufsz f + chs.length < bufsz) :
    (rxInd bufsz f chs).contents bufsz = f.contents bufsz ++ chs := by
  rw [contents_rxInd h, rtake_of_length_le]
  rw [List.length_append, RxFifo.contents, length_cells]
  omega

/-- A read of one character finds nothing, or takes the first one. -/
theorem serialIntRx_one (hb : 2 ≤ bufsz) {f : RxFifo α} (h : Valid bufsz f) :
    (f.contents bufsz = [] ∧ ∃ f', serialIntRx bufsz f 1 = ([], f') ∧ Valid bufsz f' ∧
        f'.contents bufsz = []) ∨
      ∃ c cs f', f.contents bufsz = c :: cs ∧ serialIntRx bufsz f 1 = ([c], f') ∧ Valid bufsz f' ∧
        f'.contents bufsz = cs := by
  obtain ⟨h1, h2, h3⟩ := serialIntRx_eq hb h 1
  cases hu : f.contents bufsz with
  | nil =>
    rw [hu] at h1 h3
    exact Or.inl ⟨rfl, _, Prod.ext h1 rfl, h2, h3⟩
  | cons c cs =>
    rw [hu] at h1 h3
    exact Or.inr ⟨c, cs, _, rfl, Prod.ext h1 rfl, h2, h3⟩

theorem valid_new (hb : 2 ≤ bufsz) (buffer : ℕ → α) : Valid bufsz ({ buffer } : RxFifo α) :=
  ⟨0, Nat.lt_of_lt_of_le Nat.zero_lt_two hb, by omega, (Nat.zero_mod bufsz).symm,
    fun hfull => absurd hfull Bool.false_ne_true⟩

end Contents

/-! ## Interrupts and reads -/

/-- The characters that reads have returned so far, and the FIFO. -/
structure Line (α : Type*) where
  read : List α := []
  fifo : RxFifo α

/-- An interrupt with its characters, or a read of at most `n`. -/
def lineStep (bufsz : ℕ) (l : Line α) : QOp α → Line α
  | .arrive chs => { l with fifo := rxInd bufsz l.fifo chs }
  | .take n =>
    let r := serialIntRx bufsz l.fifo n
    ⟨l.read ++ r.1, r.2⟩

/-- Interrupts and reads on a new FIFO. -/
def fifoRun (bufsz : ℕ) (buffer : ℕ → α) (ops : List (QOp α)) : Line α :=
  ops.foldl (lineStep bufsz) { fifo := { buffer } }

theorem fifoRun_concat (bufsz : ℕ) (buffer : ℕ → α) (ops : List (QOp α)) (op : QOp α) :
    fifoRun bufsz buffer (ops ++ [op]) = lineStep bufsz (fifoRun bufsz buffer ops) op := by
  rw [fifoRun, List.foldl_concat, fifoRun]

/-- **The FIFO is a bounded queue**: for every buffer of at least two cells and every order of
interrupts and reads, what the reads return and what is left are those of a queue that keeps the last
`bufsz - 1` unread characters. -/
theorem fifo_refines_queue {bufsz : ℕ} (hb : 2 ≤ bufsz) (buffer : ℕ → α) (ops : List (QOp α)) :
    Valid bufsz (fifoRun bufsz buffer ops).fifo ∧
      (fifoRun bufsz buffer ops).read = (queueRun (bufsz - 1) ops).taken ∧
      (fifoRun bufsz buffer ops).fifo.contents bufsz = (queueRun (bufsz - 1) ops).rest := by
  induction ops using List.reverseRecOn with
  | nil =>
    exact ⟨valid_new hb buffer, rfl, rfl⟩
  | append_singleton ops op ih =>
    obtain ⟨hv, hread, hrest⟩ := ih
    rw [fifoRun_concat, queueRun_concat]
    cases op with
    | arrive chs =>
      refine ⟨valid_rxInd hv chs, hread, ?_⟩
      exact (contents_rxInd hv chs).trans (by rw [hrest]; rfl)
    | take n =>
      obtain ⟨h1, h2, h3⟩ := serialIntRx_eq hb hv n
      refine ⟨h2, ?_, ?_⟩
      · simp only [lineStep, queueStep, h1, hread, hrest]
      · exact h3.trans (by rw [hrest]; rfl)

/-- Four cells hold three characters. -/
theorem fifo_refines_queue_four :
    Valid 4 (fifoRun 4 (fun _ => 0) [.arrive [1, 2, 3, 4], .take 2]).fifo ∧
      (fifoRun 4 (fun _ => 0) [.arrive [1, 2, 3, 4], .take 2]).read = [2, 3] ∧
      (fifoRun 4 (fun _ => 0) [.arrive [1, 2, 3, 4], .take 2]).fifo.contents 4 = [4] :=
  fifo_refines_queue (by decide) (fun _ => 0) [.arrive [1, 2, 3, 4], .take 2]

/-- The characters of an interrupt find a free cell each. -/
def HasRoom (bufsz : ℕ) (buffer : ℕ → α) (ops : List (QOp α)) : QOp α → Prop
  | .arrive chs => rxLength bufsz (fifoRun bufsz buffer ops).fifo + chs.length < bufsz
  | .take _ => True

/-- **No character is lost** exactly if fewer than `bufsz` were ever unread, counting those of the
interrupt; whatever is lost, the order is kept. -/
theorem fifo_conserves_iff {bufsz : ℕ} (hb : 2 ≤ bufsz) (buffer : ℕ → α) (ops : List (QOp α)) :
    List.Sublist ((fifoRun bufsz buffer ops).read ++ (fifoRun bufsz buffer ops).fifo.contents bufsz)
        (arrivals ops) ∧
      ((fifoRun bufsz buffer ops).read ++ (fifoRun bufsz buffer ops).fifo.contents bufsz = arrivals ops ↔
        Guarded (HasRoom bufsz buffer) ops) := by
  have hroom : HasRoom bufsz buffer = Room (bufsz - 1) := by
    funext p op
    cases op with
    | take n => rfl
    | arrive chs =>
      obtain ⟨-, -, hrest⟩ := fifo_refines_queue hb buffer p
      rw [HasRoom, Room, ← hrest, RxFifo.contents, length_cells]
      exact propext (by omega)
  obtain ⟨-, hread, hrest⟩ := fifo_refines_queue hb buffer ops
  rw [hread, hrest, hroom]
  exact ⟨queueRun_sublist _ ops, queueRun_conserves_iff _ ops⟩

theorem fifo_conserves_iff_four :
    List.Sublist ((fifoRun 4 (fun _ => 0) [.arrive [1, 2, 3], .take 2]).read ++
        (fifoRun 4 (fun _ => 0) [.arrive [1, 2, 3], .take 2]).fifo.contents 4)
        (arrivals [.arrive [1, 2, 3], .take 2]) ∧
      (fifoRun 4 (fun _ => 0) [.arrive [1, 2, 3], .take 2]).read ++
        (fifoRun 4 (fun _ => 0) [.arrive [1, 2, 3], .take 2]).fifo.contents 4 = [1, 2, 3] ∧
      Guarded (HasRoom 4 fun _ => 0) [.arrive [1, 2, 3], .take 2] :=
  ⟨(fifo_conserves_iff (by decide) _ _).1, by decide, (fifo_conserves_iff (by decide) _ _).2.mp (by decide)⟩

end PipeGallery.Serial
