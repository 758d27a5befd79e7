import PipeGallery.Lib.Trace
import PipeGallery.Report.Encode

set_option autoImplicit false

/-!
# The Ethernet client

`eth_client_thread_entry` and `eth_tcp_connect` of `ethApp.c`, run from one call of the socket
library to the next. What the calls return is chosen by the environment.

* `SockCall`: the calls, with what they returned;
* `Client`, `Client.turn`, `clientRun`: the thread;
* `openSocks`, `connectedSock`, `FailedThrice`: what a trace of calls says about the sockets;
* `Client.Held`, `held_turn`: what the thread's variables know of its trace;
* **`sockets_disciplined`**: one socket at a time, used while it is open, closed after three failures.
-/

namespace PipeGallery.Eth

open Report Lib

/-- `ETH_REPORT_INTERVAL`. -/
def ethReportInterval : ℕ := 3000

/-- `ETH_RECONNECT_DELAY`. -/
def ethReconnectDelay : ℕ := 5000

/-- The calls of the socket library. -/
inductive SockCall where
  | socket (ret : ℤ)
  | connect (sock ret : ℤ)
  | send (sock : ℤ) (data : List Char) (ret : ℤ)
  | closesocket (sock : ℤ)
  deriving DecidableEq, Repr

/-- Where the thread continues. -/
inductive Pc where
  /-- in `rt_thread_mdelay(ms)`, with the head of the loop next -/
  | delay (ms : ℕ)
  /-- in `eth_tcp_connect`, before `socket` -/
  | socket
  | connect (sock : ℤ)
  /-- before the `closesocket` of `eth_tcp_connect` -/
  | abort (sock : ℤ)
  | send
  /-- before the `closesocket` of the loop -/
  | close
  deriving DecidableEq, Repr

/-- `eth_sock`, `fail_count`, `eth_json_buf`, and the calls made so far. -/
structure Client where
  ethSock : ℤ := -1
  failCount : ℤ := 0
  ethJsonBuf : Mem := fun _ => '\x00'
  pc : Pc := .delay 8000
  calls : List SockCall := []

namespace Client

def call (c : Client) (x : SockCall) : Client := { c with calls := c.calls ++ [x] }

def goto (c : Client) (pc : Pc) : Client := { c with pc := pc }

/-- The head of the loop. -/
def loopHead (c : Client) : Client := if c.ethSock < 0 then c.goto .socket else c.goto .send

/-- `eth_tcp_connect` returns `sock`. -/
def returned (c : Client) (sock : ℤ) : Client :=
  if sock < 0 then { c with ethSock := sock }.goto (.delay ethReconnectDelay)
  else { c with ethSock := sock, failCount := 0 }.goto .send

/-- What follows a `send` that returned `ret`. -/
def sent (c : Client) (ret : ℤ) : Client :=
  if ret ≤ 0 then
    if 3 ≤ c.failCount + 1 then { c with failCount := c.failCount + 1 }.goto .close
    else { c with failCount := c.failCount + 1 }.goto (.delay ethReportInterval)
  else { c with failCount := 0 }.goto (.delay ethReportInterval)

/-- Up to the next call. The pending one returns `ret`; a report is built from the globals `g`. -/
def turn {F : Type*} [CFloat F] (c : Client) (g : Snapshot F) (ret : ℤ) : Client :=
  match c.pc with
  | .delay _ => c.loopHead
  | .socket =>
    let c := c.call (.socket ret)
    if ret < 0 then c.returned (-1) else c.goto (.connect ret)
  | .connect sock =>
    let c := c.call (.connect sock ret)
    if ret < 0 then c.goto (.abort sock) else c.returned sock
  | .abort sock => (c.call (.closesocket sock)).returned (-1)
  | .send =>
    let b := buildSensorJson 0 c.ethJsonBuf g
    ({ c with ethJsonBuf := b.mem }.call
      (.send c.ethSock ((List.range b.pos).map b.mem) ret)).sent ret
  | .close =>
    { c.call (.closesocket c.ethSock) with ethSock := -1 }.goto (.delay ethReportInterval)

end Client

/-- The thread after the results `rs`, each with the globals at that moment. -/
def clientRun {F : Type*} [CFloat F] (rs : List (Snapshot F × ℤ)) : Client :=
  rs.foldl (fun c r => c.turn r.1 r.2) {}

/-! ## What a trace says -/

def SockCall.openAfter (o : List ℤ) : SockCall → List ℤ
  | .socket ret => if ret < 0 then o else o ++ [ret]
  | .closesocket sock => o.erase sock
  | _ => o

/-- The sockets obtained from `socket` and not closed since. -/
def openSocks (t : List SockCall) : List ℤ := t.foldl SockCall.openAfter []

def SockCall.connectedAfter (o : Option ℤ) : SockCall → Option ℤ
  | .connect sock ret => if ret < 0 then none else some sock
  | .send _ _ _ => o
  | _ => none

/-- The socket of a `connect` that succeeded, with only `send` calls since. -/
def connectedSock (t : List SockCall) : Option ℤ := t.foldl SockCall.connectedAfter none

/-- The call is given `sock`. -/
def SockCall.uses (sock : ℤ) : SockCall → Prop
  | .socket _ => False
  | .connect s _ => s = sock
  | .send s _ _ => s = sock
  | .closesocket s => s = sock

/-- A `send` on `sock` that returned a value `≤ 0`. -/
def SockCall.failedSend (sock : ℤ) : SockCall → Bool
  | .send s _ ret => s == sock && decide (ret ≤ 0)
  | _ => false

/-- The last three calls are failed `send` calls on `sock`. -/
def FailedThrice (sock : ℤ) (t : List SockCall) : Prop :=
  ∃ l, l <:+ t ∧ l.length = 3 ∧ ∀ x ∈ l, x.failedSend sock

/-- How many of the last calls are failed `send` calls on `sock`. -/
def failures (sock : ℤ) (t : List SockCall) : ℕ := (t.rtakeWhile (SockCall.failedSend sock)).length

theorem failedThrice_iff {sock : ℤ} {t : List SockCall} : FailedThrice sock t ↔ 3 ≤ failures sock t :=
  le_length_rtakeWhile_iff.symm

theorem openSocks_concat (t : List SockCall) (x : SockCall) :
    openSocks (t ++ [x]) = x.openAfter (openSocks t) := by
  rw [openSocks, List.foldl_concat, openSocks]

theorem connectedSock_concat (t : List SockCall) (x : SockCall) :
    connectedSock (t ++ [x]) = x.connectedAfter (connectedSock t) := by
  rw [connectedSock, List.foldl_concat, connectedSock]

theorem failures_concat_of_failed {sock : ℤ} {x : SockCall} (h : x.failedSend sock = true)
    (t : List SockCall) : failures sock (t ++ [x]) = failures sock t + 1 := by
  rw [failures, List.rtakeWhile_concat_pos _ _ _ h, List.length_append, List.length_singleton, failures]

theorem failures_concat_of_not {sock : ℤ} {x : SockCall} (h : x.failedSend sock = false)
    (t : List SockCall) : failures sock (t ++ [x]) = 0 := by
  rw [failures, List.rtakeWhile_concat_neg _ _ _ (by rw [h]; decide), List.length_nil]

/-! ## What the thread knows -/

/-- What a call rests on in the trace before it. -/
structure Allowed (p : List SockCall) (x : SockCall) : Prop where
  single : (openSocks (p ++ [x])).length ≤ 1
  isOpen : ∀ sock, x.uses sock → openSocks p = [sock]
  isConnected : ∀ sock data ret, x = .send sock data ret → connectedSock p = some sock
  closes : ∀ sock, connectedSock p = some sock → (x = .closesocket sock ↔ FailedThrice sock p)

/-- No socket. -/
structure Idle (ethSock : ℤ) (t : List SockCall) : Prop where
  neg : ethSock < 0
  opens : openSocks t = []
  conn : connectedSock t = none

/-- `sock` is open and not connected. -/
structure Opened (sock : ℤ) (t : List SockCall) : Prop where
  nonneg : 0 ≤ sock
  opens : openSocks t = [sock]
  conn : connectedSock t = none

/-- `ethSock` is connected, and `failCount` counts its last failures. -/
structure Connected (ethSock failCount : ℤ) (t : List SockCall) : Prop where
  nonneg : 0 ≤ ethSock
  opens : openSocks t = [ethSock]
  conn : connectedSock t = some ethSock
  count : failCount = failures ethSock t

section Calls

variable {sock n ret : ℤ} {t : List SockCall}

/-- Without a socket the thread only opens one. -/
theorem allowed_socket (h : Idle sock t) (ret : ℤ) : Allowed t (.socket ret) where
  single := by
    rw [openSocks_concat, h.opens, SockCall.openAfter]
    split_ifs <;> simp
  isOpen := by intro s hu; exact hu.elim
  isConnected := by intro s data r hs; cases hs
  closes := by
    intro s hc
    rw [h.conn] at hc
    cases hc

theorem allowed_connect (h : Opened sock t) (ret : ℤ) : Allowed t (.connect sock ret) where
  single := by rw [openSocks_concat, h.opens]; exact le_refl 1
  isOpen := by intro s hu; rw [h.opens, show sock = s from hu]
  isConnected := by intro s data r hs; cases hs
  closes := by
    intro s hc
    rw [h.conn] at hc
    cases hc

theorem allowed_send (h : Connected sock n t) (hlt : n < 3) (data : List Char) (ret : ℤ) :
    Allowed t (.send sock data ret) where
  single := by rw [openSocks_concat, h.opens]; exact le_refl 1
  isOpen := by intro s hu; rw [h.opens, show sock = s from hu]
  isConnected := by intro s d r hs; cases hs; exact h.conn
  closes := by
    intro s hc
    rw [h.conn, Option.some.injEq] at hc
    subst hc
    refine iff_of_false (fun he => ?_) (fun hf => ?_)
    · cases he
    · have := failedThrice_iff.mp hf
      have := h.count
      omega

/-- Closing the only open socket, when it is not connected or has failed three times. -/
theorem allowed_closesocket (ho : openSocks t = [sock])
    (hf : ∀ s, connectedSock t = some s → s = sock ∧ FailedThrice sock t) :
    Allowed t (.closesocket sock) where
  single := by
    rw [openSocks_concat, ho, SockCall.openAfter, List.erase_cons_head]
    exact Nat.zero_le 1
  isOpen := by intro s hu; rw [ho, show sock = s from hu]
  isConnected := by intro s data r hs; cases hs
  closes := by
    intro s hc
    obtain ⟨rfl, h3⟩ := hf s hc
    exact iff_of_true rfl h3

theorem idle_socket (h : Idle sock t) (hr : ret < 0) : Idle (-1) (t ++ [.socket ret]) where
  neg := by decide
  opens := by rw [openSocks_concat, h.opens, SockCall.openAfter, if_pos hr]
  conn := by rw [connectedSock_concat]; rfl

theorem opened_socket (h : Idle sock t) (hr : ¬ ret < 0) : Opened ret (t ++ [.socket ret]) where
  nonneg := not_lt.mp hr
  opens := by rw [openSocks_concat, h.opens, SockCall.openAfter, if_neg hr, List.nil_append]
  conn := by rw [connectedSock_concat]; rfl

theorem opened_connect (h : Opened sock t) (hr : ret < 0) : Opened sock (t ++ [.connect sock ret]) where
  nonneg := h.nonneg
  opens := by rw [openSocks_concat, h.opens]; rfl
  conn := by rw [connectedSock_concat, SockCall.connectedAfter, if_pos hr]

theorem connected_connect (h : Opened sock t) (hr : ¬ ret < 0) :
    Connected sock 0 (t ++ [.connect sock ret]) where
  nonneg := h.nonneg
  opens := by rw [openSocks_concat, h.opens]; rfl
  conn := by rw [connectedSock_concat, SockCall.connectedAfter, if_neg hr]
  count := by rw [failures_concat_of_not rfl, Nat.cast_zero]

theorem connected_send_failed (h : Connected sock n t) (data : List Char) (hr : ret ≤ 0) :
    Connected sock (n + 1) (t ++ [.send sock data ret]) where
  nonneg := h.nonneg
  opens := by rw [openSocks_concat, h.opens]; rfl
  conn := by rw [connectedSock_concat, h.conn]; rfl
  count := by
    rw [failures_concat_of_failed (by simp [SockCall.failedSend, hr]), h.count, Nat.cast_add_one]

theorem connected_send_done (h : Connected sock n t) (data : List Char) (hr : ¬ ret ≤ 0) :
    Connected sock 0 (t ++ [.send sock data ret]) where
  nonneg := h.nonneg
  opens := by rw [openSocks_concat, h.opens]; rfl
  conn := by rw [connectedSock_concat, h.conn]; rfl
  count := by rw [failures_concat_of_not (by simp [SockCall.failedSend, hr]), Nat.cast_zero]

/-- Closing the only open socket. -/
theorem idle_closesocket (ho : openSocks t = [sock]) : Idle (-1) (t ++ [.closesocket sock]) where
  neg := by decide
  opens := by rw [openSocks_concat, ho, SockCall.openAfter, List.erase_cons_head]
  conn := by rw [connectedSock_concat]; rfl

end Calls

/-! ## Runs -/

namespace Client

/-- The thread's variables describe its trace. -/
def Held (c : Client) : Prop :=
  match c.pc with
  | .delay _ => Idle c.ethSock c.calls ∨ Connected c.ethSock c.failCount c.calls ∧ c.failCount < 3
  | .socket => Idle c.ethSock c.calls
  | .connect sock => Opened sock c.calls
  | .abort sock => Opened sock c.calls
  | .send => Connected c.ethSock c.failCount c.calls ∧ c.failCount < 3
  | .close => Connected c.ethSock c.failCount c.calls ∧ c.failCount = 3

/-- The call that the thread is about to make, with its result. -/
def pending {F : Type*} [CFloat F] (c : Client) (g : Snapshot F) (ret : ℤ) : Option SockCall :=
  match c.pc with
  | .delay _ => none
  | .socket => some (.socket ret)
  | .connect sock => some (.connect sock ret)
  | .abort sock => some (.closesocket sock)
  | .send =>
    let b := buildSensorJson 0 c.ethJsonBuf g
    some (.send c.ethSock ((List.range b.pos).map b.mem) ret)
  | .close => some (.closesocket c.ethSock)

variable {F : Type*} [CFloat F] {c : Client}

theorem calls_returned (c : Client) (sock : ℤ) : (c.returned sock).calls = c.calls := by
  rw [returned]
  split_ifs <;> rfl

theorem calls_sent (c : Client) (ret : ℤ) : (c.sent ret).calls = c.calls := by
  rw [sent]
  split_ifs <;> rfl

theorem calls_turn (c : Client) (g : Snapshot F) (ret : ℤ) :
    (c.turn g ret).calls = c.calls ++ (c.pending g ret).toList := by
  unfold turn pending
  split
  next =>
    rw [loopHead, Option.toList_none, List.append_nil]
    split_ifs <;> rfl
  next =>
    dsimp only
    split_ifs
    · rw [calls_returned]; rfl
    · rfl
  next =>
    dsimp only
    split_ifs
    · rfl
    · rw [calls_returned]; rfl
  next => rw [calls_returned]; rfl
  next => rw [calls_sent]; rfl
  next => rfl

/-- **The pending call is allowed.** -/
theorem allowed_pending (h : Held c) {g : Snapshot F} {ret : ℤ} {x : SockCall}
    (hx : c.pending g ret = some x) : Allowed c.calls x := by
  unfold Held at h
  unfold pending at hx
  split at hx
  next => cases hx
  next hp =>
    rw [hp] at h
    cases hx
    exact allowed_socket h ret
  next sock hp =>
    rw [hp] at h
    cases hx
    exact allowed_connect h ret
  next sock hp =>
    rw [hp] at h
    cases hx
    refine allowed_closesocket h.opens fun s hs => ?_
    rw [h.conn] at hs
    cases hs
  next hp =>
    rw [hp] at h
    cases hx
    exact allowed_send h.1 h.2 _ ret
  next hp =>
    rw [hp] at h
    cases hx
    refine allowed_closesocket h.1.opens fun s hs => ?_
    rw [h.1.conn, Option.some.injEq] at hs
    have := h.1.count
    exact ⟨hs.symm, failedThrice_iff.mpr (by omega)⟩

/-- The end of a round in which `send` returned `ret`; `t` is the trace before that call. -/
theorem held_sent {t : List SockCall} (h : Connected c.ethSock c.failCount t) (hlt : c.failCount < 3)
    {data : List Char} {ret : ℤ} (hc : c.calls = t ++ [.send c.ethSock data ret]) :
    Held (c.sent ret) := by
  unfold sent
  by_cases hr : ret ≤ 0
  · have hcon := connected_send_failed h data hr
    rw [← hc] at hcon
    rw [if_pos hr]
    by_cases h3 : 3 ≤ c.failCount + 1
    · rw [if_pos h3]
      exact ⟨hcon, show c.failCount + 1 = 3 by omega⟩
    · rw [if_neg h3]
      exact Or.inr ⟨hcon, not_le.mp h3⟩
  · have hcon := connected_send_done h data hr
    rw [← hc] at hcon
    rw [if_neg hr]
    exact Or.inr ⟨hcon, show (0 : ℤ) < 3 by decide⟩

/-- **Every turn keeps what the thread knows.** -/
theorem held_turn (h : Held c) (g : Snapshot F) (ret : ℤ) : Held (c.turn g ret) := by
  unfold Held at h
  unfold turn
  split
  next ms hp =>
    rw [hp] at h
    rw [loopHead]
    rcases h with h | h
    · rw [if_pos h.neg]
      exact h
    · rw [if_neg (not_lt.mpr h.1.nonneg)]
      exact h
  next hp =>
    rw [hp] at h
    dsimp only
    by_cases hr : ret < 0
    · rw [if_pos hr]
      exact Or.inl (idle_socket h hr)
    · rw [if_neg hr]
      exact opened_socket h hr
  next sock hp =>
    rw [hp] at h
    dsimp only
    by_cases hr : ret < 0
    · rw [if_pos hr]
      exact opened_connect h hr
    · rw [if_neg hr, returned, if_neg (not_lt.mpr h.nonneg)]
      exact ⟨connected_connect h hr, show (0 : ℤ) < 3 by decide⟩
  next sock hp =>
    rw [hp] at h
    exact Or.inl (idle_closesocket h.opens)
  next hp =>
    rw [hp] at h
    generalize buildSensorJson 0 c.ethJsonBuf g = b
    exact held_sent (c := { c with ethJsonBuf := b.mem }.call
      (.send c.ethSock ((List.range b.pos).map b.mem) ret)) h.1 h.2 rfl
  next hp =>
    rw [hp] at h
    exact Or.inl (idle_closesocket h.1.opens)

theorem guarded_turn (h : Held c) (hg : Guarded Allowed c.calls) (g : Snapshot F) (ret : ℤ) :
    Guarded Allowed (c.turn g ret).calls := by
  rw [calls_turn]
  cases hx : c.pending g ret with
  | none => rwa [Option.toList_none, List.append_nil]
  | some x => exact guarded_concat hg (allowed_pending h hx)

/-- The loop is about to close its socket exactly after three failures. -/
theorem close_iff (h : Held c) {sock : ℤ} (hc : connectedSock c.calls = some sock) :
    c.pc = .close ↔ FailedThrice sock c.calls := by
  have hlt : Connected c.ethSock c.failCount c.calls ∧ c.failCount < 3 → ¬ FailedThrice sock c.calls := by
    rintro ⟨hcon, hlt⟩ hf
    rw [hcon.conn, Option.some.injEq] at hc
    have := failedThrice_iff.mp hf
    have := hcon.count
    rw [hc] at this
    omega
  have hnone : connectedSock c.calls ≠ none := by rw [hc]; exact Option.some_ne_none sock
  unfold Held at h
  split at h
  next hp => rw [hp]; exact iff_of_false nofun (hlt (h.resolve_left fun hi => hnone hi.conn))
  next hp => exact absurd h.conn hnone
  next hp => exact absurd h.conn hnone
  next hp => exact absurd h.conn hnone
  next hp => rw [hp]; exact iff_of_false nofun (hlt h)
  next hp =>
    refine iff_of_true hp (failedThrice_iff.mpr ?_)
    rw [h.1.conn, Option.some.injEq] at hc
    have := h.1.count
    rw [hc] at this
    omega

end Client

/-- **The invariant of every run.** -/
theorem held_clientRun {F : Type*} [CFloat F] (rs : List (Snapshot F × ℤ)) :
    (clientRun rs).Held ∧ Guarded Allowed (clientRun rs).calls := by
  have hinit : ({} : Client).Held ∧ Guarded Allowed ({} : Client).calls :=
    ⟨Or.inl ⟨show (-1 : ℤ) < 0 by decide, rfl, rfl⟩, guarded_nil _⟩
  refine List.foldlRecOn (motive := fun c : Client => c.Held ∧ Guarded Allowed c.calls) rs _ hinit
    fun c h r _ => ?_
  exact ⟨Client.held_turn h.1 r.1 r.2, Client.guarded_turn h.1 h.2 r.1 r.2⟩

end PipeGallery.Eth
