import PipeGallery.Esp.Handshake
import PipeGallery.Esp.Publish
import PipeGallery.Lib.Progress

set_option autoImplicit false

/-!
# The cloud thread gets its reports out

Whatever state the cloud thread is in: once the module answers in time, a report of globals that are read
from then on is sent, within a number of turns that depends on the state alone.

* `Watch`, `watchStep`: the system and what an observer keeps;
* `Served`: the module answers within `D k` ms, and the thread runs within `G` ms of being ready;
* `turnsLeft`: how many turns a state is away from the next report;
* `OnTrack`, `onTrack_rx`, `onTrack_elapse`, **`onTrack_turn`**: the invariant, and what a turn takes off;
* **`reports_once_served`**.
-/

namespace PipeGallery.Esp

open Report Lib

/-! ## What an observer keeps -/

/-- The system, with what happened since the observer came. -/
structure Watch where
  sys : Sys
  /-- milliseconds for which the thread has been ready to run -/
  late : ℕ := 0
  /-- the bytes since the index of the buffer was last reset -/
  got : List Char := []
  /-- the globals at the `switch` that began this exchange, if the observer saw it -/
  began : Option (Snapshot FVal) := none

def Pc.resets : Pc → Bool
  | .clearIndex _ => true
  | _ => false

/-- What the observer keeps of an event that led to `s'`. -/
def Watch.next (x : Watch) (s' : Sys) : Event → Watch
  | .cloud g =>
    { sys := s', late := 0, got := if x.sys.pc.resets then [] else x.got,
      began := if x.sys.pc = .dispatch then some g else x.began }
  | .rx c => { x with sys := s', got := x.got ++ [c] }
  | .elapse ms => { x with sys := s', late := x.late + (ms - x.sys.sleep) }

def watchStep (x : Watch) (e : Event) : Option Watch := (step x.sys e).map fun s' => x.next s' e

/-- How long ago the wait began. -/
def Sys.age (s : Sys) (startTick : BitVec 32) : ℕ := (s.tick - startTick).toNat

/-! ## A module that answers -/

/-- The buffer is searched for what arrives now. -/
def Pc.listens : Pc → Bool
  | .sendCmd _ => true
  | .sendCrlf _ => true
  | .startTick _ => true
  | .loop _ _ => true
  | .poll _ _ => true
  | .pollError _ _ => true
  | _ => false

/-- An answer that fits the buffer and reports no error. -/
structure Clean (l : List Char) : Prop where
  fits : l.length ≤ 255
  noNul : '\x00' ∉ l
  noError : ¬ "ERROR".toList <:+: l

instance (l : List Char) : Decidable (Clean l) :=
  decidable_of_iff (l.length ≤ 255 ∧ '\x00' ∉ l ∧ ¬ "ERROR".toList <:+: l)
    ⟨fun ⟨h1, h2, h3⟩ => ⟨h1, h2, h3⟩, fun h => ⟨h.fits, h.noNul, h.noError⟩⟩

/-- The wait whose text is searched next. -/
def Pc.polls : Pc → Option (Job × BitVec 32)
  | .poll k start => some (k, start)
  | _ => none

/-- In an exchange that the observer saw from its beginning the module sends the expected text within `D k`
milliseconds, no error, and nothing inside `uart4_buffer_clear`. The thread runs within `G` milliseconds of
being ready. -/
def Served (D : Job → ℕ) (G : ℕ) (x : Watch) : Event → Prop
  | .cloud _ => ∀ w ∈ x.sys.pc.polls, x.began.isSome → D w.1 ≤ x.sys.age w.2 → w.1.expect <:+: x.got
  | .rx c =>
    x.began.isSome → x.sys.pc.resets = false ∧ (x.sys.pc.listens = true → Clean (x.got ++ [c]))
  | .elapse ms => x.late + (ms - x.sys.sleep) ≤ G

instance (D : Job → ℕ) (G : ℕ) (x : Watch) (e : Event) : Decidable (Served D G x e) :=
  match e with
  | .cloud _ => inferInstanceAs (Decidable (∀ w ∈ x.sys.pc.polls, _ → _ → w.1.expect <:+: x.got))
  | .rx c => inferInstanceAs (Decidable (_ → _ ∧ (_ → Clean (x.got ++ [c]))))
  | .elapse ms => inferInstanceAs (Decidable (x.late + (ms - x.sys.sleep) ≤ G))

/-! ## How far the next report is -/

section
variable (D : Job → ℕ)

/-- Turns from the head of a wait that is `age` old to its answer: three for each search. -/
def answerTurns (k : Job) (age : ℕ) : ℕ := 3 * ((D k - age) / 100 + 1)

/-- Turns from the head of a wait that is `age` old to its timeout. -/
def timeoutTurns (k : Job) (age : ℕ) : ℕ := 3 * ((k.timeout - age + 99) / 100) + 1

/-- The exchanges of the eight steps. -/
def jobs : List Job :=
  [.at, .cwmode, .cwjap, .mqttclean, .mqttusercfg, .mqttclientid, .mqttconn, .mqttpubraw]

/-- Turns from the `switch` in step `n` to the next report, if every exchange succeeds. -/
def stepTurns (n : ℕ) : ℕ :=
  ((jobs.drop n).map fun k => 6 + answerTurns D k 0).sum + (if n ≤ 3 then 1 else 0) + 1

/-- The same for any value of `cloud_task_step`. -/
def dispatchTurns (n : ℕ) : ℕ := if n ≤ 7 then stepTurns D n else 1 + stepTurns D 0

/-- Turns from the success of an exchange to the next report. -/
def successTurns : Job → ℕ
  | .mqttclean => 1 + stepTurns D 4
  | .mqttpubraw => 1
  | .payload => 1 + stepTurns D 0
  | k => stepTurns D (k.step + 1)

/-- Turns from the end of an exchange that the observer did not see from its beginning. -/
def unseenTurns : Job → ℕ
  | .mqttpubraw => 2 + timeoutTurns .payload 0 + (2 + stepTurns D 0)
  | _ => 2 + stepTurns D 0

/-- Turns from the head of a wait that is `age` old. -/
def waitTurns (seen : Bool) (k : Job) (age : ℕ) : ℕ :=
  if seen then answerTurns D k age + successTurns D k else timeoutTurns k age + unseenTurns D k

/-- Turns from a search in a wait that is `age` old by then. -/
def pollTurns (seen : Bool) (k : Job) (age : ℕ) : ℕ :=
  if seen = true ∧ D k ≤ age then 1 + successTurns D k else 2 + waitTurns D seen k age

/-- Turns to the next report of globals that the observer saw. -/
def turnsLeft (x : Watch) : ℕ :=
  match x.sys.pc with
  | .boot => 1 + dispatchTurns D x.sys.cloudTaskStep
  | .dispatch => dispatchTurns D x.sys.cloudTaskStep
  | .clearData k => 5 + waitTurns D x.began.isSome k 0
  | .clearIndex k => 4 + waitTurns D x.began.isSome k 0
  | .sendCmd k => 3 + waitTurns D x.began.isSome k 0
  | .sendCrlf k => 2 + waitTurns D x.began.isSome k 0
  | .startTick k => 1 + waitTurns D x.began.isSome k 0
  | .loop k start => waitTurns D x.began.isSome k (x.sys.age start + x.sys.sleep)
  | .poll k start => pollTurns D x.began.isSome k (x.sys.age start + x.sys.sleep)
  | .pollError k start => 1 + waitTurns D x.began.isSome k (x.sys.age start + x.sys.sleep)
  | .cleaned => 1 + stepTurns D 4
  | .sendPayload => if x.began.isSome then 1 else 2 + timeoutTurns .payload 0 + (2 + stepTurns D 0)
  | .checkDisconnect => 2 + stepTurns D 0

theorem stepTurns_step {k : Job} (hk : k ≠ .payload) :
    stepTurns D k.step = 6 + answerTurns D k 0 + successTurns D k := by
  cases k
  case payload => exact absurd rfl hk
  all_goals
    simp only [stepTurns, successTurns, Job.step, jobs, List.drop_succ_cons, List.drop_zero, List.map_cons,
      List.sum_cons]
    norm_num
    try omega

theorem stepTurns_le (n : ℕ) : stepTurns D n ≤ stepTurns D 0 := by
  have hsum : ((jobs.drop n).map fun k => 6 + answerTurns D k 0).sum ≤
      (jobs.map fun k => 6 + answerTurns D k 0).sum := by
    apply List.Sublist.sum_le_sum
    · exact (List.drop_sublist n jobs).map _
    · exact fun _ _ => Nat.zero_le _
  rw [stepTurns, stepTurns, List.drop_zero, if_pos (Nat.zero_le 3)]
  split_ifs <;> omega

theorem dispatchTurns_le (n : ℕ) : dispatchTurns D n ≤ 1 + stepTurns D 0 := by
  rw [dispatchTurns]
  split_ifs
  · exact (stepTurns_le D n).trans (Nat.le_add_left _ _)
  · exact le_refl _

/-- An older wait is nearer to its end. -/
theorem waitTurns_anti (seen : Bool) (k : Job) {a b : ℕ} (h : a ≤ b) :
    waitTurns D seen k b ≤ waitTurns D seen k a := by
  simp only [waitTurns, answerTurns, timeoutTurns]
  split_ifs <;> omega

theorem pollTurns_anti (seen : Bool) (k : Job) {a b : ℕ} (h : a ≤ b) :
    pollTurns D seen k b ≤ pollTurns D seen k a := by
  have hw := waitTurns_anti D seen k h
  rw [pollTurns, pollTurns]
  split_ifs with hb ha ha
  · exact le_refl _
  · rw [waitTurns, if_pos hb.1]
    omega
  · exact absurd ⟨ha.1, ha.2.trans h⟩ hb
  · exact Nat.add_le_add_left hw 2

/-- A wait that is not over has another search. -/
theorem pollTurns_lt {seen : Bool} {k : Job} {a : ℕ} (ha : a < k.timeout) :
    pollTurns D seen k (a + 100) + 1 ≤ waitTurns D seen k a := by
  simp only [pollTurns, waitTurns, answerTurns, timeoutTurns]
  split_ifs with h1 h2 <;> simp_all <;> omega

end

/-! ## The invariant -/

/-- The buffer shows what arrived since it was cleared. -/
structure Heard (u : Uart4) (got : List Char) : Prop where
  stored : u.stored = got
  clear : ∀ i, u.index ≤ i → u.data i = '\x00'
  clean : Clean got

theorem Heard.text {u : Uart4} {got : List Char} (h : Heard u got) : u.text = got := by
  have hi : u.index ≤ 255 := by
    rw [← u.length_stored, h.stored]
    exact h.clean.fits
  have h1 : got <+: u.text :=
    Uart4.prefix_text (hi.trans (by decide)) (by rw [h.stored]) h.clean.noNul
  have h2 : u.text <+: got := h.stored ▸ Uart4.text_prefix_stored (Nat.lt_succ_of_le hi) h.clear
  exact h2.eq_of_length_le h1.length_le

theorem Heard.receive {u : Uart4} {got : List Char} (h : Heard u got) {c : Char}
    (hc : Clean (got ++ [c])) : Heard (u.receive c) (got ++ [c]) := by
  have hi : u.index < 255 := by
    have := hc.fits
    rw [List.length_append, List.length_singleton, ← h.stored, u.length_stored] at this
    omega
  refine ⟨by rw [Uart4.stored_receive hi, h.stored], fun i hle => ?_, hc⟩
  rw [Uart4.data_receive c hle]
  apply h.clear
  rw [Uart4.receive_of_lt hi] at hle
  exact Nat.le_of_succ_le hle

theorem heard_clear {u : Uart4} (h : ∀ i, u.data i = '\x00') : Heard u.clearIndex [] where
  stored := rfl
  clear := fun i _ => h i
  clean := by decide

/-- The report of the globals `g` as step 7 leaves it in `json_buf`. -/
def reportOf (g : Snapshot FVal) : List Char := cString (buildProperties 0 (fun _ => '\x00') g).mem 0 600

/-- When the wait began, and how old it can be if the thread is never late. -/
def Pc.limit (D : Job → ℕ) (G : ℕ) (seen : Bool) : Pc → Option (BitVec 32 × ℕ)
  | .loop k start => some (start, if seen then D k + G else 2 ^ 31 + 2 * G)
  | .poll _ start => some (start, 2 ^ 31)
  | .pollError k start => some (start, if seen then D k else 2 ^ 31 + G)
  | _ => none

structure OnTrack (D : Job → ℕ) (G : ℕ) (x : Watch) : Prop where
  late : x.late ≤ G
  timely : ∀ w ∈ x.sys.pc.limit D G x.began.isSome, x.sys.age w.1 + x.sys.sleep ≤ w.2 + x.late
  /-- between the two parts of `uart4_buffer_clear` -/
  cleared : x.began.isSome → x.sys.pc.resets = true → ∀ i, x.sys.uart.data i = '\x00'
  heard : x.began.isSome → x.sys.pc.listens = true → Heard x.sys.uart x.got
  built : ∀ g, x.began = some g → x.sys.pc.publishing = true → x.sys.jsonBuf = reportOf g

/-- A report of globals that the observer saw was sent just now. -/
def Reported (x : Watch) : Prop :=
  x.sys.pc = .startTick .payload ∧ ∃ g, x.began = some g ∧ x.sys.sent.getLast? = some (reportOf g)

section
variable {D : Job → ℕ} {G : ℕ} {x : Watch}

/-! ### Bytes and time -/

theorem onTrack_rx (h : OnTrack D G x) {c : Char} (hc : Served D G x (.rx c)) :
    OnTrack D G { x with sys := { x.sys with uart := x.sys.uart.receive c }, got := x.got ++ [c] } where
  late := h.late
  timely := h.timely
  cleared := by
    intro hb hr
    exact absurd hr (by rw [(hc hb).1]; decide)
  heard := by
    intro hb hl
    exact (h.heard hb hl).receive ((hc hb).2 hl)
  built := h.built

theorem age_add {s : Sys} {start : BitVec 32} {ms : ℕ} (h : s.age start + ms < 2 ^ 32) :
    ({ s with tick := s.tick + BitVec.ofNat 32 ms } : Sys).age start = s.age start + ms := by
  have hms : (BitVec.ofNat 32 ms).toNat = ms := by
    rw [BitVec.toNat_ofNat, Nat.mod_eq_of_lt (by omega)]
  have he : s.tick + BitVec.ofNat 32 ms - start = s.tick - start + BitVec.ofNat 32 ms := by
    rw [BitVec.sub_eq_add_neg, BitVec.sub_eq_add_neg]
    ac_rfl
  change (s.tick + BitVec.ofNat 32 ms - start).toNat = _
  rw [he, BitVec.toNat_add, hms]
  exact Nat.mod_eq_of_lt h

theorem limit_le (hG : G ≤ 2 ^ 20) (hD : ∀ k, D k ≤ 2 ^ 20) {seen : Bool} {p : Pc}
    {w : BitVec 32 × ℕ} (hw : w ∈ p.limit D G seen) : w.2 ≤ 2 ^ 31 + 2 ^ 21 := by
  unfold Pc.limit at hw
  split at hw
  next k _ =>
    cases hw
    have := hD k
    dsimp only
    split_ifs <;> omega
  next =>
    cases hw
    exact Nat.le_add_right _ _
  next k _ =>
    cases hw
    have := hD k
    dsimp only
    split_ifs <;> omega
  next => cases hw

/-- A state with older waits is nearer to the next report. -/
theorem turnsLeft_anti {y : Watch} (hp : y.sys.pc = x.sys.pc) (hs : y.sys.cloudTaskStep = x.sys.cloudTaskStep)
    (hb : y.began = x.began) (h : ∀ w ∈ x.sys.pc.limit D G x.began.isSome,
      x.sys.age w.1 + x.sys.sleep ≤ y.sys.age w.1 + y.sys.sleep) : turnsLeft D y ≤ turnsLeft D x := by
  unfold turnsLeft
  rw [hp, hs, hb]
  cases hpc : x.sys.pc <;> rw [hpc] at h
  case loop k start => exact waitTurns_anti D _ k (h _ rfl)
  case poll k start => exact pollTurns_anti D _ k (h _ rfl)
  case pollError k start => exact Nat.add_le_add_left (waitTurns_anti D _ k (h _ rfl)) 1

/-- Time passes. -/
theorem onTrack_elapse (hG : G ≤ 2 ^ 20) (hD : ∀ k, D k ≤ 2 ^ 20) (h : OnTrack D G x) {ms : ℕ}
    (hc : Served D G x (.elapse ms)) {y : Watch}
    (hy : y = { x with
      sys := { x.sys with tick := x.sys.tick + BitVec.ofNat 32 ms, sleep := x.sys.sleep - ms },
      late := x.late + (ms - x.sys.sleep) }) :
    OnTrack D G y ∧ turnsLeft D y ≤ turnsLeft D x := by
  have hlate : x.late + (ms - x.sys.sleep) ≤ G := hc
  have hage : ∀ w ∈ x.sys.pc.limit D G x.began.isSome, y.sys.age w.1 = x.sys.age w.1 + ms := by
    intro w hw
    have h1 := h.timely w hw
    have h2 := limit_le hG hD hw
    rw [hy]
    exact age_add (s := x.sys) (by omega)
  have hsleep : y.sys.sleep = x.sys.sleep - ms := by rw [hy]
  constructor
  · subst hy
    refine ⟨hc, fun w hw => ?_, h.cleared, h.heard, h.built⟩
    have h1 := h.timely w hw
    rw [hage w hw, hsleep]
    dsimp only
    omega
  · apply turnsLeft_anti (G := G) (by rw [hy]) (by rw [hy]) (by rw [hy])
    intro w hw
    rw [hage w hw, hsleep]
    omega

/-! ### Turns of the thread -/

/-- Outside a wait only the report matters. -/
theorem onTrack_of_not_listens {y : Watch} (hl : y.late = 0) (hp : y.sys.pc.listens = false)
    (hr : y.sys.pc.resets = false)
    (hb : ∀ g, y.began = some g → y.sys.pc.publishing = true → y.sys.jsonBuf = reportOf g) :
    OnTrack D G y where
  late := hl ▸ Nat.zero_le G
  timely := by
    intro w hw
    cases hpc : y.sys.pc <;> rw [hpc] at hp hw <;> cases hw <;> cases hp
  cleared := by
    intro _ hr'
    rw [hr] at hr'
    cases hr'
  heard := by
    intro _ hp'
    rw [hp] at hp'
    cases hp'
  built := hb

theorem onTrack_of_quiet {y : Watch} (hl : y.late = 0) (hp : y.sys.pc.listens = false)
    (hr : y.sys.pc.resets = false) (hpub : y.sys.pc.publishing = false) : OnTrack D G y := by
  apply onTrack_of_not_listens hl hp hr
  intro g _ hpub'
  rw [hpub] at hpub'
  cases hpub'

/-- Of an exchange that the observer did not see only its age matters. -/
theorem onTrack_unseen {y : Watch} (hl : y.late ≤ G) (hb : y.began = none)
    (ht : ∀ w ∈ y.sys.pc.limit D G false, y.sys.age w.1 + y.sys.sleep ≤ w.2 + y.late) : OnTrack D G y where
  late := hl
  timely := by
    rw [hb]
    exact ht
  cleared := by
    intro hb'
    rw [hb] at hb'
    cases hb'
  heard := by
    intro hb'
    rw [hb] at hb'
    cases hb'
  built := by
    intro g hb'
    rw [hb] at hb'
    cases hb'

/-- A turn inside an exchange that leaves the buffers alone. -/
theorem OnTrack.goto (h : OnTrack D G x) (s' : Sys) (hl : x.sys.pc.listens = true)
    (hu : s'.uart = x.sys.uart) (hj : s'.jsonBuf = x.sys.jsonBuf) (hr : s'.pc.resets = false)
    (hpub : s'.pc.publishing = true → x.sys.pc.publishing = true)
    (ht : ∀ w ∈ s'.pc.limit D G x.began.isSome, s'.age w.1 + s'.sleep ≤ w.2) :
    OnTrack D G { x with sys := s', late := 0 } where
  late := Nat.zero_le G
  timely := ht
  cleared := by
    intro _ hr'
    rw [hr] at hr'
    cases hr'
  heard := by
    intro hb _
    rw [hu]
    exact h.heard hb hl
  built := by
    intro g hg hp
    rw [hj]
    exact h.built g hg (hpub hp)

/-- The end of an exchange that the observer saw. -/
theorem turnsLeft_success (s : Sys) (k : Job) (got : List Char) {b : Option (Snapshot FVal)}
    (hb : b.isSome = true) : turnsLeft D ⟨finish s k true, 0, got, b⟩ ≤ successTurns D k := by
  cases k
  case payload => exact dispatchTurns_le D s.cloudTaskStep
  case mqttpubraw =>
    change (if b.isSome = true then 1 else _) ≤ 1
    rw [if_pos hb]
  all_goals exact le_refl _

/-- The end of an exchange that it did not see. -/
theorem turnsLeft_unseen (s : Sys) (k : Job) (ok : Bool) (got : List Char) :
    turnsLeft D ⟨finish s k ok, 0, got, none⟩ ≤ unseenTurns D k := by
  have hany : ∀ n, dispatchTurns D n ≤ 2 + stepTurns D 0 := fun n =>
    (dispatchTurns_le D n).trans (Nat.add_le_add_right (by decide) _)
  cases k
  case mqttpubraw =>
    cases ok
    · exact Nat.le_add_left _ _
    · exact le_refl _
  case payload =>
    cases ok
    · exact le_refl _
    · exact hany _
  case mqttclean =>
    have := stepTurns_le D 4
    change 1 + stepTurns D 4 ≤ 2 + stepTurns D 0
    omega
  all_goals cases ok <;> exact hany _

/-- The `switch` begins an exchange. -/
theorem onTrack_dispatch (s : Sys) (got : List Char) (g : Snapshot FVal) :
    OnTrack D G ⟨dispatch s g, 0, got, some g⟩ ∧
      turnsLeft D ⟨dispatch s g, 0, got, some g⟩ + 1 ≤ dispatchTurns D s.cloudTaskStep := by
  -- an exchange of one of the steps 0 to 7
  have hjob : ∀ {k : Job} {n : ℕ} {s' : Sys}, s'.pc = .clearData k → k.step = n → k ≠ .payload →
      turnsLeft D ⟨s', 0, got, some g⟩ + 1 ≤ dispatchTurns D n := by
    intro k n s' hp hn hk
    have h7 : n ≤ 7 := by
      rw [← hn]
      cases k <;> decide
    rw [dispatchTurns, if_pos h7, ← hn, stepTurns_step D hk, turnsLeft, hp]
    change 5 + (answerTurns D k 0 + successTurns D k) + 1 ≤ _
    omega
  unfold dispatch
  split <;> rename_i hn <;> try rw [hn]
  case h_8 =>
    refine ⟨onTrack_of_not_listens rfl rfl rfl fun g' hg' _ => ?_, hjob rfl rfl (by decide)⟩
    obtain rfl : g = g' := Option.some.inj hg'
    simp only [Sys.goto, reportOf]
  case h_9 =>
    refine ⟨onTrack_of_quiet rfl rfl rfl rfl, ?_⟩
    have h7 : ¬ s.cloudTaskStep ≤ 7 := by grind
    rw [dispatchTurns, if_neg h7]
    exact (Nat.add_comm _ _).le
  all_goals exact ⟨onTrack_of_quiet rfl rfl rfl rfl, hjob rfl rfl (by decide)⟩

/-- The end of an exchange: one that the observer saw succeeds. -/
theorem onTrack_finish (h : OnTrack D G x) {k : Job} (hk : x.sys.pc.waits = some k) (ok : Bool)
    (hok : x.began.isSome = true → ok = true) :
    OnTrack D G ⟨finish x.sys k ok, 0, x.got, x.began⟩ ∧
      turnsLeft D ⟨finish x.sys k ok, 0, x.got, x.began⟩ ≤
        if x.began.isSome = true then successTurns D k else unseenTurns D k := by
  constructor
  · have hpub := (publishing_of_waits hk).1
    cases k
    case mqttpubraw =>
      rw [decide_eq_true rfl] at hpub
      cases ok
      · exact onTrack_of_quiet rfl rfl rfl rfl
      · exact onTrack_of_not_listens rfl rfl rfl fun g hg _ => h.built g hg hpub
    all_goals cases ok <;> exact onTrack_of_quiet rfl rfl rfl rfl
  · split_ifs with hb
    · rw [hok hb]
      exact turnsLeft_success x.sys k x.got hb
    · rw [Option.not_isSome_iff_eq_none.mp hb]
      exact turnsLeft_unseen x.sys k ok x.got

/-- Such an end is at hand from any turn of the wait. -/
theorem finish_le_waitTurns (seen : Bool) (k : Job) (a : ℕ) :
    (if seen = true then successTurns D k else unseenTurns D k) + 1 ≤ waitTurns D seen k a := by
  simp only [waitTurns, answerTurns, timeoutTurns]
  split_ifs <;> omega

theorem listens_of_waits {p : Pc} {k : Job} (h : p.waits = some k) : p.listens = true := by
  cases p <;> first | rfl | cases h

/-- The wait goes on at the head of its loop. -/
theorem onTrack_again (h : OnTrack D G x) {k : Job} (start : BitVec 32) (hk : x.sys.pc.waits = some k)
    (ha : x.sys.age start ≤ if x.began.isSome = true then D k + G else 2 ^ 31 + 2 * G) :
    OnTrack D G ⟨x.sys.goto (.loop k start), 0, x.got, x.began⟩ ∧
      turnsLeft D ⟨x.sys.goto (.loop k start), 0, x.got, x.began⟩ =
        waitTurns D x.began.isSome k (x.sys.age start) := by
  refine ⟨h.goto _ (listens_of_waits hk) rfl rfl rfl (fun hpub => ?_) (fun w hw => ?_), rfl⟩
  · rw [(publishing_of_waits hk).1]
    exact hpub
  · cases hw
    exact ha

theorem onTrack_loop (hD : ∀ k, D k + 2 * G < k.timeout) (h : OnTrack D G x) (hs : x.sys.sleep = 0)
    {k : Job} {start : BitVec 32} (hp : x.sys.pc = .loop k start) (g : Snapshot FVal) :
    OnTrack D G ⟨cloudTurn x.sys g, 0, x.got, x.began⟩ ∧
      turnsLeft D ⟨cloudTurn x.sys g, 0, x.got, x.began⟩ + 1 ≤ turnsLeft D x := by
  have ht := h.timely (start, if x.began.isSome = true then D k + G else 2 ^ 31 + 2 * G) (by rw [hp]; rfl)
  have hlate := h.late
  have hleft : turnsLeft D x = waitTurns D x.began.isSome k (x.sys.age start) := by
    rw [turnsLeft, hp]
    dsimp only
    rw [hs, Nat.add_zero]
  have hturn : cloudTurn x.sys g =
      if x.sys.age start < k.timeout then x.sys.goto (.poll k start) 100 else finish x.sys k false := by
    rw [cloudTurn, hp]
    rfl
  rw [hturn, hleft]
  split_ifs with ha
  · constructor
    · apply h.goto (x.sys.goto (.poll k start) 100) (by rw [hp]; rfl) rfl rfl rfl
      · intro hpub
        rw [hp]
        exact hpub
      · intro w hw
        cases hw
        have hmax : k.timeout ≤ 15000 := by cases k <;> decide
        change x.sys.age start + 100 ≤ 2 ^ 31
        omega
    · exact pollTurns_lt D ha
  · have hunseen : x.began.isSome = true → false = true := by
      intro hb
      rw [if_pos hb] at ht
      have := hD k
      dsimp only at ht
      omega
    obtain ⟨h1, h2⟩ := onTrack_finish h (k := k) (by rw [hp]; rfl) false hunseen
    exact ⟨h1, (Nat.add_le_add_right h2 1).trans (finish_le_waitTurns _ k _)⟩

theorem onTrack_poll (h : OnTrack D G x) (hs : x.sys.sleep = 0) {k : Job} {start : BitVec 32}
    (hp : x.sys.pc = .poll k start) {g : Snapshot FVal} (hc : Served D G x (.cloud g)) :
    OnTrack D G ⟨cloudTurn x.sys g, 0, x.got, x.began⟩ ∧
      turnsLeft D ⟨cloudTurn x.sys g, 0, x.got, x.began⟩ + 1 ≤ turnsLeft D x := by
  have ht := h.timely (start, 2 ^ 31) (by rw [hp]; rfl)
  have hlate := h.late
  have hlisten : x.sys.pc.listens = true := by rw [hp]; rfl
  have hleft : turnsLeft D x = pollTurns D x.began.isSome k (x.sys.age start) := by
    rw [turnsLeft, hp]
    dsimp only
    rw [hs, Nat.add_zero]
  have hturn : cloudTurn x.sys g = if strstr x.sys.uart.text k.expect = true then finish x.sys k true
      else if k.stopsOnError = true then x.sys.goto (.pollError k start)
      else x.sys.goto (.loop k start) := by
    rw [cloudTurn, hp]
  rw [hturn, hleft]
  split_ifs with hfound
  · obtain ⟨h1, h2⟩ := onTrack_finish h (k := k) (by rw [hp]; rfl) true fun _ => rfl
    refine ⟨h1, (Nat.add_le_add_right h2 1).trans ?_⟩
    have := finish_le_waitTurns (D := D) x.began.isSome k (x.sys.age start)
    rw [pollTurns]
    split_ifs at this ⊢ <;> simp_all <;> omega
  all_goals
    -- an exchange that the observer saw is not old enough to have its answer
    have hyoung : x.began.isSome = true → x.sys.age start < D k := by
      intro hb
      by_contra hold
      have := hc (k, start) (by rw [hp]; rfl) hb (Nat.not_lt.mp hold)
      rw [← (h.heard hb hlisten).text] at this
      exact hfound (decide_eq_true this)
    have hpoll : pollTurns D x.began.isSome k (x.sys.age start) =
        2 + waitTurns D x.began.isSome k (x.sys.age start) := by
      rw [pollTurns, if_neg]
      rintro ⟨hb, hle⟩
      exact absurd (hyoung hb) (Nat.not_lt.mpr hle)
    rw [hs] at ht
    dsimp only at ht
    rw [hpoll]
  · constructor
    · apply h.goto (x.sys.goto (.pollError k start)) hlisten rfl rfl rfl
      · intro hpub
        rw [hp]
        exact hpub
      · intro w hw
        cases hw
        change x.sys.age start ≤ if x.began.isSome = true then D k else 2 ^ 31 + G
        split_ifs with hb
        · exact (hyoung hb).le
        · omega
    · change 1 + waitTurns D x.began.isSome k (x.sys.age start) + 1 ≤ _
      omega
  · obtain ⟨h1, h2⟩ := onTrack_again h (k := k) start (by rw [hp]; rfl) (by
      split_ifs with hb
      · exact (hyoung hb).le.trans (Nat.le_add_right _ _)
      · omega)
    exact ⟨h1, by omega⟩

theorem onTrack_pollError (h : OnTrack D G x) (hs : x.sys.sleep = 0) {k : Job} {start : BitVec 32}
    (hp : x.sys.pc = .pollError k start) (g : Snapshot FVal) :
    OnTrack D G ⟨cloudTurn x.sys g, 0, x.got, x.began⟩ ∧
      turnsLeft D ⟨cloudTurn x.sys g, 0, x.got, x.began⟩ + 1 ≤ turnsLeft D x := by
  have ht := h.timely (start, if x.began.isSome = true then D k else 2 ^ 31 + G) (by rw [hp]; rfl)
  have hlate := h.late
  have hlisten : x.sys.pc.listens = true := by rw [hp]; rfl
  have hleft : turnsLeft D x = 1 + waitTurns D x.began.isSome k (x.sys.age start) := by
    rw [turnsLeft, hp]
    dsimp only
    rw [hs, Nat.add_zero]
  have hturn : cloudTurn x.sys g =
      if strstr x.sys.uart.text "ERROR".toList = true then finish x.sys k false
      else x.sys.goto (.loop k start) := by
    rw [cloudTurn, hp]
  rw [hturn, hleft]
  split_ifs with herror
  · have hunseen : x.began.isSome = true → false = true := by
      intro hb
      have hheard := h.heard hb hlisten
      rw [hheard.text] at herror
      exact absurd (of_decide_eq_true herror) hheard.clean.noError
    obtain ⟨h1, h2⟩ := onTrack_finish h (k := k) (by rw [hp]; rfl) false hunseen
    have := finish_le_waitTurns (D := D) x.began.isSome k (x.sys.age start)
    exact ⟨h1, by omega⟩
  · obtain ⟨h1, h2⟩ := onTrack_again h (k := k) start (by rw [hp]; rfl) (by
      rw [hs] at ht
      dsimp only at ht
      split_ifs at ht ⊢ <;> omega)
    exact ⟨h1, by omega⟩

/-- The two parts of `uart4_buffer_clear`. -/
theorem onTrack_clearData (h : OnTrack D G x) {k : Job} (hp : x.sys.pc = .clearData k) :
    OnTrack D G ⟨{ x.sys with uart := x.sys.uart.clearData }.goto (.clearIndex k), 0, x.got, x.began⟩ where
  late := Nat.zero_le G
  timely := nofun
  cleared := fun _ _ _ => rfl
  heard := nofun
  built := by
    intro g hg hpub
    apply h.built g hg
    rw [hp]
    exact hpub

theorem onTrack_clearIndex (h : OnTrack D G x) {k : Job} (hp : x.sys.pc = .clearIndex k) :
    OnTrack D G ⟨{ x.sys with uart := x.sys.uart.clearIndex }.goto (.sendCmd k), 0, [], x.began⟩ where
  late := Nat.zero_le G
  timely := nofun
  cleared := nofun
  heard := by
    intro hb _
    exact heard_clear (h.cleared hb (by rw [hp]; rfl))
  built := by
    intro g hg hpub
    apply h.built g hg
    rw [hp]
    exact hpub

/-- A write on the way to the wait. -/
theorem onTrack_send (h : OnTrack D G x) (hl : x.sys.pc.listens = true) (data : List Char) {p : Pc}
    (hr : p.resets = false) (hlim : p.limit D G x.began.isSome = none)
    (hpub : p.publishing = x.sys.pc.publishing) :
    OnTrack D G ⟨(x.sys.send data).goto p, 0, x.got, x.began⟩ := by
  apply h.goto ((x.sys.send data).goto p) hl rfl rfl hr
  · intro hp
    rw [← hpub]
    exact hp
  · intro w hw
    change w ∈ p.limit D G x.began.isSome at hw
    rw [hlim] at hw
    cases hw

/-- **One turn.** The thread sends a report of globals that the observer saw, or it is nearer to it. -/
theorem onTrack_turn (hD : ∀ k, D k + 2 * G < k.timeout) (h : OnTrack D G x) (hs : x.sys.sleep = 0)
    (g : Snapshot FVal) (hc : Served D G x (.cloud g)) :
    Reported (x.next (cloudTurn x.sys g) (.cloud g)) ∨
      OnTrack D G (x.next (cloudTurn x.sys g) (.cloud g)) ∧
        turnsLeft D (x.next (cloudTurn x.sys g) (.cloud g)) + 1 ≤ turnsLeft D x := by
  have hleft := turnsLeft.eq_def D x
  have hturn := cloudTurn.eq_def x.sys g
  -- the observer's notes change at the `switch` and at the index reset only
  have hnext : ∀ s', x.sys.pc ≠ .dispatch → x.sys.pc.resets = false →
      x.next s' (.cloud g) = ⟨s', 0, x.got, x.began⟩ := by
    intro s' hd hr
    rw [Watch.next, hr, if_neg hd]
    rfl
  cases hp : x.sys.pc <;> rw [hp] at hleft hturn
  case dispatch =>
    right
    rw [hleft, hturn, Watch.next, hp]
    exact onTrack_dispatch x.sys x.got g
  case clearIndex k =>
    right
    rw [hleft, hturn, Watch.next, hp]
    exact ⟨onTrack_clearIndex h hp, (Nat.add_right_comm 3 _ 1).le⟩
  all_goals rw [hnext _ (by rw [hp]; nofun) (by rw [hp]; rfl)]
  case loop k start => exact Or.inr (onTrack_loop hD h hs hp g)
  case poll k start => exact Or.inr (onTrack_poll h hs hp hc)
  case pollError k start => exact Or.inr (onTrack_pollError h hs hp g)
  all_goals rw [hleft, hturn]
  case boot => exact Or.inr ⟨onTrack_of_quiet rfl rfl rfl rfl, (Nat.add_comm _ _).le⟩
  case clearData k => exact Or.inr ⟨onTrack_clearData h hp, (Nat.add_right_comm 4 _ 1).le⟩
  case sendCmd k =>
    right
    refine ⟨onTrack_send h (by rw [hp]; rfl) _ rfl rfl (by rw [hp]; rfl), (Nat.add_right_comm 2 _ 1).le⟩
  case sendCrlf k =>
    right
    refine ⟨onTrack_send h (by rw [hp]; rfl) _ rfl rfl (by rw [hp]; rfl), (Nat.add_right_comm 1 _ 1).le⟩
  case startTick k =>
    right
    have hage : x.sys.age x.sys.tick = 0 := by rw [Sys.age, BitVec.sub_self]; rfl
    obtain ⟨h1, h2⟩ := onTrack_again h (k := k) x.sys.tick (by rw [hp]; rfl) (by rw [hage]; exact Nat.zero_le _)
    refine ⟨h1, ?_⟩
    rw [h2, hage]
    exact (Nat.add_comm _ _).le
  case cleaned =>
    exact Or.inr ⟨onTrack_of_quiet rfl rfl rfl rfl, (Nat.add_comm _ _).le⟩
  case sendPayload =>
    cases hb : x.began with
    | some g' =>
      left
      refine ⟨rfl, g', rfl, ?_⟩
      change (x.sys.sent ++ [x.sys.jsonBuf]).getLast? = _
      rw [List.getLast?_concat, h.built g' hb (by rw [hp]; rfl)]
    | none =>
      right
      refine ⟨onTrack_unseen (Nat.zero_le G) rfl fun w hw => ?_, ?_⟩
      · cases hw
      change 1 + (timeoutTurns .payload 0 + (2 + stepTurns D 0)) + 1 ≤
        2 + timeoutTurns .payload 0 + (2 + stepTurns D 0)
      omega
  case checkDisconnect =>
    right
    refine ⟨onTrack_of_quiet rfl rfl rfl rfl, ?_⟩
    exact (Nat.add_le_add_right (dispatchTurns_le D _) 1).trans (Nat.add_right_comm 1 _ 1).le

/-! ## Runs -/

/-- A turn of the cloud thread. -/
def Event.isTurn : Event → Bool
  | .cloud _ => true
  | _ => false

theorem onTrack_watchStep (hG : G ≤ 2 ^ 20) (hD : ∀ k, D k + 2 * G < k.timeout) {e : Event} {y : Watch}
    (hc : Served D G x e) (h : OnTrack D G x) (hs : watchStep x e = some y) :
    Reported y ∨ OnTrack D G y ∧ turnsLeft D y + (if e.isTurn = true then 1 else 0) ≤ turnsLeft D x := by
  obtain ⟨s', hs', rfl⟩ := Option.map_eq_some_iff.mp hs
  cases e with
  | cloud g =>
    rw [eq_cloudTurn_of_step hs']
    rw [step] at hs'
    split_ifs at hs' with hsleep
    exact onTrack_turn hD h hsleep g hc
  | rx c =>
    cases hs'
    exact Or.inr ⟨onTrack_rx h hc, le_refl _⟩
  | elapse ms =>
    cases hs'
    have hmax : ∀ k, D k ≤ 2 ^ 20 := by
      intro k
      have := hD k
      have : k.timeout ≤ 15000 := by cases k <;> decide
      omega
    obtain ⟨h1, h2⟩ := onTrack_elapse hG hmax h hc rfl
    exact Or.inr ⟨h1, h2⟩

end

/-- When the wait of a state began, if it is in one. -/
def Pc.since : Pc → Option (BitVec 32)
  | .loop _ start => some start
  | .poll _ start => some start
  | .pollError _ start => some start
  | _ => none

/-- A wait is at most `2^31` ms old, by the time that the thread runs. -/
def Recent (s : Sys) : Prop := ∀ start ∈ s.pc.since, s.age start + s.sleep ≤ 2 ^ 31

theorem since_of_limit {D : Job → ℕ} {G : ℕ} {p : Pc} {w : BitVec 32 × ℕ} (hw : w ∈ p.limit D G false) :
    w.1 ∈ p.since ∧ 2 ^ 31 ≤ w.2 := by
  cases p <;> cases hw
  · exact ⟨rfl, Nat.le_add_right _ _⟩
  · exact ⟨rfl, le_refl _⟩
  · exact ⟨rfl, Nat.le_add_right _ _⟩

/-- **Once the module answers, reports get out.** Take the cloud thread in any state whose wait is not older than
the clock can tell (`Recent`), and a run from there in which the module answers each exchange that begins within
`D k` ms and the thread runs within `G` ms of being ready. If the run has more turns of the thread than the state
is away from its next report, a report of globals that were read in the run is sent in it. -/
theorem reports_once_served (D : Job → ℕ) (G : ℕ) (hD : ∀ k, D k + 2 * G < k.timeout) (s : Sys)
    (hs : Recent s) (es : List Event) (hes : Along watchStep (Served D G) { sys := s } es)
    (hr : (run watchStep { sys := s } es).isSome)
    (hn : turnsLeft D { sys := s } < es.countP Event.isTurn) :
    Passes watchStep Reported { sys := s } es := by
  have hG : G ≤ 2 ^ 20 := by
    have := hD .at
    change _ < 2000 at this
    omega
  refine passes_of_measure (fun x e y hc h hy => onTrack_watchStep hG hD hc h hy) ?_ hes hr hn
  apply onTrack_unseen (Nat.zero_le G) rfl
  intro w hw
  obtain ⟨hsince, hle⟩ := since_of_limit hw
  exact (hs w.1 hsince).trans (hle.trans (Nat.le_add_right _ _))

/-- A run from the start whose answers come in the first 50 ms, past the first report. -/
def served : List Event :=
  connecting ++ exchange ">" ++ turns 3 ++ bytes "+MQTTPUB:OK" ++ [.elapse 100] ++ turns 1 ++ [.elapse 3000] ++
    turns 7

theorem reports_once_served_from_boot : Passes watchStep Reported { sys := {} } served := by
  apply reports_once_served (fun _ => 50) 20
  · intro k
    cases k <;> decide
  · exact nofun
  · decide +kernel
  · decide +kernel
  · decide +kernel

end PipeGallery.Esp
