import PipeGallery.Esp.Uart
import PipeGallery.Report.Single

set_option autoImplicit false

/-!
# The cloud thread

`huawei_cloud_thread_entry` and the helpers `send_at_cmd` and `wait_response`, as a machine that runs
between the points where another thread may run. One tick is one millisecond; the UART4 receive
thread has the higher priority and may run between any two turns.

* `Job`: an exchange, with its command, the text it waits for and its timeout;
* `Pc`, `Sys`, `finish`, `cloudTurn`: the thread;
* `Event`, `step`: turns of the thread, received bytes, and time;
* **`cloudTurn_of_waits`**, `exists_cloudTurn_eq_of_waits`: what a turn of a wait can do;
* `Turn`, **`turn_cloudTurn`**: what any turn can do to the buffer and to the step;
* `eq_poll_of_credit`: which turn enters the steps 1, 2, 5 and 6.
-/

namespace PipeGallery.Esp

open Report Lib

def hwWifiSsid : String := "dmail"
def hwWifiPassword : String := "edqn8272"
def hwMqttHost : String := "2f49ff4f87.st1.iotda-device.cn-east-3.myhuaweicloud.com"
def hwMqttPort : String := "1883"
def hwMqttClientId : String := "6abf5210e094d61592745069_1776006881_0_0_2026100206"
def hwMqttUsername : String := "6abf5210e094d61592745069_1776006881"
def hwMqttPassword : String := "4c5f30d1439aac277d128a2902f20df4df38636004840eb4a1e3e6a792061916"

/-- `CLOUD_REPORT_INTERVAL`. -/
def cloudReportInterval : ℕ := 3000

/-! ## Exchanges -/

/-- The exchanges with the module: one for each of the steps 0 to 6, two in step 7. -/
inductive Job where
  | at
  | cwmode
  | cwjap
  | mqttclean
  | mqttusercfg
  | mqttclientid
  | mqttconn
  | mqttpubraw
  | payload
  deriving DecidableEq, Repr

namespace Job

/-- The text that ends the wait with success. -/
def expect : Job → List Char
  | .at => "OK".toList
  | .cwmode => "OK".toList
  | .cwjap => "WIFI GOT IP".toList
  | .mqttclean => "OK".toList
  | .mqttusercfg => "OK".toList
  | .mqttclientid => "OK".toList
  | .mqttconn => "MQTTCONNECTED".toList
  | .mqttpubraw => ">".toList
  | .payload => "+MQTTPUB:OK".toList

/-- The timeout in milliseconds. -/
def timeout : Job → ℕ
  | .at => 2000
  | .cwmode => 2000
  | .cwjap => 15000
  | .mqttclean => 2000
  | .mqttusercfg => 3000
  | .mqttclientid => 2000
  | .mqttconn => 10000
  | .mqttpubraw => 3000
  | .payload => 5000

/-- `send_at_cmd` gives up on `ERROR`, `wait_response` does not. -/
def stopsOnError : Job → Bool
  | .at => true
  | .cwmode => true
  | .cwjap => false
  | .mqttclean => true
  | .mqttusercfg => true
  | .mqttclientid => true
  | .mqttconn => false
  | .mqttpubraw => false
  | .payload => false

end Job

/-- `rt_snprintf(at_cmd_buf, sizeof(at_cmd_buf), …)`: the C string left in `at_cmd_buf`. -/
def atCmd (c : Call) : List Char := c.text.take 255

/-! ## The thread -/

/-- Where the thread continues. -/
inductive Pc where
  /-- before the first delay -/
  | boot
  /-- at the `switch` -/
  | dispatch
  /-- before the `memset` of `uart4_buffer_clear` -/
  | clearData (k : Job)
  /-- before its index reset -/
  | clearIndex (k : Job)
  | sendCmd (k : Job)
  | sendCrlf (k : Job)
  /-- before `start_tick = rt_tick_get()` -/
  | startTick (k : Job)
  /-- at the condition of the wait loop -/
  | loop (k : Job) (startTick : BitVec 32)
  /-- before the search for the expected text -/
  | poll (k : Job) (startTick : BitVec 32)
  /-- before the search for `ERROR` -/
  | pollError (k : Job) (startTick : BitVec 32)
  /-- behind the delay of step 3 -/
  | cleaned
  | sendPayload
  /-- before the search for `MQTTDISCONNECTED` -/
  | checkDisconnect
  deriving DecidableEq, Repr

/-- The thread's variables, its two buffers, UART4 and time. -/
structure Sys where
  cloudTaskStep : ℕ := 0
  pc : Pc := .boot
  /-- ticks left of an `rt_thread_mdelay` -/
  sleep : ℕ := 0
  /-- `rt_tick_get()` -/
  tick : BitVec 32 := 0
  uart : Uart4 := {}
  atCmdBuf : List Char := []
  jsonBuf : List Char := []
  /-- what was written to UART4 -/
  sent : List (List Char) := []

namespace Sys

/-- `uart4_send`. -/
def send (s : Sys) (data : List Char) : Sys := { s with sent := s.sent ++ [data] }

/-- Go on at `pc`, after a delay of `ms`. -/
def goto (s : Sys) (pc : Pc) (ms : ℕ := 0) : Sys := { s with pc := pc, sleep := ms }

def setStep (s : Sys) (n : ℕ) : Sys := { s with cloudTaskStep := n }

end Sys

/-- The command of an exchange. -/
def Job.command (s : Sys) : Job → List Char
  | .at => "AT".toList
  | .cwmode => "AT+CWMODE=1".toList
  | .mqttclean => "AT+MQTTCLEAN=0".toList
  | _ => s.atCmdBuf

/-- The `switch` up to the first thing that another thread can see. -/
def dispatch (s : Sys) (g : Snapshot FVal) : Sys :=
  match s.cloudTaskStep with
  | 0 => s.goto (.clearData .at)
  | 1 => s.goto (.clearData .cwmode)
  | 2 =>
    { s with atCmdBuf := atCmd ⟨"AT+CWJAP=\"%s\",\"%s\"".toList,
      [.str hwWifiSsid.toList, .str hwWifiPassword.toList]⟩ }.goto (.clearData .cwjap)
  | 3 => s.goto (.clearData .mqttclean)
  | 4 =>
    { s with atCmdBuf := atCmd ⟨"AT+MQTTUSERCFG=0,1,\"NULL\",\"%s\",\"%s\",0,0,\"\"".toList,
      [.str hwMqttUsername.toList, .str hwMqttPassword.toList]⟩ }.goto (.clearData .mqttusercfg)
  | 5 =>
    { s with atCmdBuf := atCmd ⟨"AT+MQTTCLIENTID=0,\"%s\"".toList,
      [.str hwMqttClientId.toList]⟩ }.goto (.clearData .mqttclientid)
  | 6 =>
    { s with atCmdBuf := atCmd ⟨"AT+MQTTCONN=0,\"%s\",%s,1".toList,
      [.str hwMqttHost.toList, .str hwMqttPort.toList]⟩ }.goto (.clearData .mqttconn)
  | 7 =>
    let b := buildProperties 0 (fun _ => '\x00') g
    { s with jsonBuf := cString b.mem 0 600, atCmdBuf := atCmd (pubrawCall b.pos) }.goto
      (.clearData .mqttpubraw)
  | _ => (s.setStep 0).goto .dispatch

/-- What follows a wait that ended with `ok`. -/
def finish (s : Sys) (k : Job) (ok : Bool) : Sys :=
  match k with
  | .at => if ok then (s.setStep 1).goto .dispatch else s.goto .dispatch 3000
  | .cwmode => if ok then (s.setStep 2).goto .dispatch else s.goto .dispatch 1000
  | .cwjap => if ok then (s.setStep 3).goto .dispatch else s.goto .dispatch 3000
  -- step 3 goes on whatever the outcome
  | .mqttclean => s.goto .cleaned 1000
  | .mqttusercfg => if ok then (s.setStep 5).goto .dispatch else s.goto .dispatch 1000
  | .mqttclientid => if ok then (s.setStep 6).goto .dispatch else (s.setStep 3).goto .dispatch 2000
  | .mqttconn => if ok then (s.setStep 7).goto .dispatch else (s.setStep 3).goto .dispatch 3000
  | .mqttpubraw => if ok then s.goto .sendPayload else s.goto .checkDisconnect
  | .payload => if ok then s.goto .dispatch cloudReportInterval else s.goto .checkDisconnect

/-- A turn of the thread; step 7 reads the globals `g`. -/
def cloudTurn (s : Sys) (g : Snapshot FVal) : Sys :=
  match s.pc with
  | .boot => s.goto .dispatch 1000
  | .dispatch => dispatch s g
  | .clearData k => { s with uart := s.uart.clearData }.goto (.clearIndex k)
  | .clearIndex k => { s with uart := s.uart.clearIndex }.goto (.sendCmd k)
  | .sendCmd k => (s.send (k.command s)).goto (.sendCrlf k)
  | .sendCrlf k => (s.send "\r\n".toList).goto (.startTick k)
  | .startTick k => s.goto (.loop k s.tick)
  | .loop k start =>
    if (s.tick - start).toNat < k.timeout then s.goto (.poll k start) 100 else finish s k false
  | .poll k start =>
    if strstr s.uart.text k.expect then finish s k true
    else if k.stopsOnError then s.goto (.pollError k start)
    else s.goto (.loop k start)
  | .pollError k start =>
    if strstr s.uart.text "ERROR".toList then finish s k false else s.goto (.loop k start)
  | .cleaned => (s.setStep 4).goto .dispatch
  | .sendPayload => (s.send s.jsonBuf).goto (.startTick .payload)
  | .checkDisconnect =>
    let s' := if strstr s.uart.text "MQTTDISCONNECTED".toList then s.setStep 3 else s
    s'.goto .dispatch cloudReportInterval

/-! ## Runs -/

/-- A turn of the cloud thread with the globals at that moment, a byte from the module, or a delay. -/
inductive Event where
  | cloud (g : Snapshot FVal)
  | rx (c : Char)
  | elapse (ms : ℕ)

/-- The thread runs when its delay is over; bytes and time come at any moment. -/
def step (s : Sys) : Event → Option Sys
  | .cloud g => if s.sleep = 0 then some (cloudTurn s g) else none
  | .rx c => some { s with uart := s.uart.receive c }
  | .elapse ms => some { s with tick := s.tick + BitVec.ofNat 32 ms, sleep := s.sleep - ms }

theorem eq_cloudTurn_of_step {s s' : Sys} {g : Snapshot FVal} (h : step s (.cloud g) = some s') :
    s' = cloudTurn s g := by
  rw [step] at h
  split_ifs at h
  exact (Option.some.inj h).symm

/-! ## What a turn can do -/

/-- The exchange whose answer the thread waits for. -/
def Pc.waits : Pc → Option Job
  | .startTick k => some k
  | .loop k _ => some k
  | .poll k _ => some k
  | .pollError k _ => some k
  | _ => none

/-- No exchange is under way. -/
def Pc.between : Pc → Bool
  | .dispatch => true
  | .cleaned => true
  | .clearData _ => true
  | _ => false

/-- The part of a turn that matters to the exchange with the module. -/
inductive Turn (s s' : Sys) : Prop where
  | clearData {k : Job} (hp : s.pc = .clearData k) (hp' : s'.pc = .clearIndex k)
      (hu : s'.uart = s.uart.clearData) (hs : s'.cloudTaskStep = s.cloudTaskStep)
  | clearIndex {k : Job} (hp : s.pc = .clearIndex k) (hp' : s'.pc = .sendCmd k)
      (hu : s'.uart = s.uart.clearIndex) (hs : s'.cloudTaskStep = s.cloudTaskStep)
  | sendCmd {k : Job} (hp : s.pc = .sendCmd k) (hp' : s'.pc = .sendCrlf k)
      (hu : s'.uart = s.uart) (hs : s'.cloudTaskStep = s.cloudTaskStep)
  | sendCrlf {k : Job} (hp : s.pc = .sendCrlf k) (hp' : s'.pc = .startTick k)
      (hu : s'.uart = s.uart) (hs : s'.cloudTaskStep = s.cloudTaskStep)
  | wait {k : Job} (hp : s.pc.waits = some k) (hp' : s'.pc.waits = some k)
      (hu : s'.uart = s.uart) (hs : s'.cloudTaskStep = s.cloudTaskStep)
  | prompt (hp : s.pc.waits = some .mqttpubraw) (hp' : s'.pc = .sendPayload)
      (hu : s'.uart = s.uart) (hs : s'.cloudTaskStep = s.cloudTaskStep)
  | sendPayload (hp : s.pc = .sendPayload) (hp' : s'.pc = .startTick .payload)
      (hu : s'.uart = s.uart) (hs : s'.cloudTaskStep = s.cloudTaskStep)
  | fail {k : Job} (hk : k = .mqttpubraw ∨ k = .payload) (hp : s.pc.waits = some k)
      (hp' : s'.pc = .checkDisconnect) (hu : s'.uart = s.uart)
      (hs : s'.cloudTaskStep = s.cloudTaskStep)
  | leave (hp' : s'.pc.between = true) (hu : s'.uart = s.uart)

/-- **A turn of a wait** goes on waiting or ends the exchange. -/
theorem cloudTurn_of_waits {s : Sys} {k : Job} (h : s.pc.waits = some k) (g : Snapshot FVal) :
    (∃ ok, cloudTurn s g = finish s k ok) ∨
      ∃ pc ms, pc.waits = some k ∧ cloudTurn s g = s.goto pc ms := by
  unfold cloudTurn
  split <;> rename_i hp <;> rw [hp] at h <;> cases h
  case h_7 => exact Or.inr ⟨_, _, rfl, rfl⟩
  case h_8 =>
    split_ifs
    · exact Or.inr ⟨_, _, rfl, rfl⟩
    · exact Or.inl ⟨false, rfl⟩
  case h_9 =>
    split_ifs
    · exact Or.inl ⟨true, rfl⟩
    · exact Or.inr ⟨_, _, rfl, rfl⟩
    · exact Or.inr ⟨_, _, rfl, rfl⟩
  case h_10 =>
    split_ifs
    · exact Or.inl ⟨false, rfl⟩
    · exact Or.inr ⟨_, _, rfl, rfl⟩

/-- Either way nothing changes but the step, the place and the delay. -/
theorem exists_cloudTurn_eq_of_waits {s : Sys} {k : Job} (h : s.pc.waits = some k)
    (g : Snapshot FVal) : ∃ n pc ms, cloudTurn s g = (s.setStep n).goto pc ms := by
  rcases cloudTurn_of_waits h g with ⟨ok, he⟩ | ⟨pc, ms, -, he⟩
  · rw [he]
    cases k <;> cases ok <;> exact ⟨_, _, _, rfl⟩
  · exact ⟨s.cloudTaskStep, pc, ms, he⟩

/-- The end of a wait. -/
theorem turn_finish {s : Sys} {k : Job} (h : s.pc.waits = some k) (ok : Bool) :
    Turn s (finish s k ok) := by
  cases k with
  | mqttpubraw =>
    cases ok
    · exact .fail (Or.inl rfl) h rfl rfl rfl
    · exact .prompt h rfl rfl rfl
  | payload =>
    cases ok
    · exact .fail (Or.inr rfl) h rfl rfl rfl
    · exact .leave rfl rfl
  | _ => cases ok <;> exact .leave rfl rfl

theorem turn_dispatch (s : Sys) (g : Snapshot FVal) : Turn s (dispatch s g) := by
  unfold dispatch
  split <;> exact .leave rfl rfl

/-- **Every turn is one of these.** -/
theorem turn_cloudTurn (s : Sys) (g : Snapshot FVal) : Turn s (cloudTurn s g) := by
  cases hw : s.pc.waits with
  | some k =>
    rcases cloudTurn_of_waits hw g with ⟨ok, h⟩ | ⟨pc, ms, hpc, h⟩
    · rw [h]
      exact turn_finish hw ok
    · rw [h]
      exact .wait hw hpc rfl rfl
  | none =>
    unfold cloudTurn
    split <;> rename_i hp
    case h_1 => exact .leave rfl rfl
    case h_2 => exact turn_dispatch s g
    case h_3 => exact .clearData hp rfl rfl rfl
    case h_4 => exact .clearIndex hp rfl rfl rfl
    case h_5 => exact .sendCmd hp rfl rfl rfl
    case h_6 => exact .sendCrlf hp rfl rfl rfl
    case h_11 => exact .leave rfl rfl
    case h_12 => exact .sendPayload hp rfl rfl rfl
    case h_13 =>
      refine .leave rfl ?_
      dsimp only [Sys.goto]
      split_ifs <;> rfl
    all_goals rw [hp] at hw; cases hw

/-- The step that an exchange leads to on `OK`, for the four exchanges that wait for `OK` and move
on. -/
def Job.credits : Job → Option ℕ
  | .at => some 1
  | .cwmode => some 2
  | .mqttusercfg => some 5
  | .mqttclientid => some 6
  | _ => none

theorem finish_credit {s : Sys} {k k' : Job} {ok : Bool} {n : ℕ} (hk : k.credits = some n)
    (h : (finish s k' ok).cloudTaskStep = n) (hne : s.cloudTaskStep ≠ n) : k' = k ∧ ok = true := by
  cases k <;> cases hk <;> cases k' <;> cases ok <;>
    first
    | exact ⟨rfl, rfl⟩
    | exact absurd h hne
    | simp [finish, Sys.setStep, Sys.goto] at h

theorem dispatch_credit {s : Sys} {g : Snapshot FVal} {k : Job} {n : ℕ} (hk : k.credits = some n)
    (h : (dispatch s g).cloudTaskStep = n) : s.cloudTaskStep = n := by
  unfold dispatch at h
  split at h
  case h_9 =>
    obtain rfl : 0 = n := h
    cases k <;> cases hk
  all_goals exact h

/-- Such a step is entered by the search of its exchange. -/
theorem eq_poll_of_credit {s : Sys} {g : Snapshot FVal} {k : Job} {n : ℕ} (hk : k.credits = some n)
    (h : (cloudTurn s g).cloudTaskStep = n) (hne : s.cloudTaskStep ≠ n) :
    (∃ start, s.pc = .poll k start) ∧ strstr s.uart.text "OK".toList = true := by
  have hexpect : k.expect = "OK".toList := by cases k <;> first | cases hk; rfl | cases hk
  unfold cloudTurn at h
  split at h
  next => exact absurd h hne
  next => exact absurd (dispatch_credit hk h) hne
  next => exact absurd h hne
  next => exact absurd h hne
  next => exact absurd h hne
  next => exact absurd h hne
  next => exact absurd h hne
  next k' start hp =>
    split_ifs at h
    · exact absurd h hne
    · exact absurd (finish_credit hk h hne).2 (by decide)
  next k' start hp =>
    split_ifs at h with hok
    · obtain ⟨rfl, -⟩ := finish_credit hk h hne
      exact ⟨⟨start, hp⟩, hexpect ▸ hok⟩
    · exact absurd h hne
    · exact absurd h hne
  next k' start hp =>
    split_ifs at h
    · exact absurd (finish_credit hk h hne).2 (by decide)
    · exact absurd h hne
  next =>
    obtain rfl : 4 = n := h
    cases k <;> cases hk
  next => exact absurd h hne
  next =>
    dsimp only [Sys.goto] at h
    split_ifs at h
    · obtain rfl : 3 = n := h
      cases k <;> cases hk
    · exact absurd h hne

end PipeGallery.Esp
