import PipeGallery.Esp.Disconnect
import PipeGallery.Report.Limits

set_option autoImplicit false

/-!
# Raw publishes on UART4

The cloud thread and the shell commands `huawei_upload_test` and `huawei_upload` announce the length
of `json_buf` by `AT+MQTTPUBRAW` and send the buffer later. They share `json_buf` and UART4.

* `Write`, `Published`: what the module needs of the writes to UART4;
* `Blocks`, `published_of_blocks`: logs that are made of whole exchanges;
* `ShellCmd`, `Pub`, `pubStep`: the cloud thread, the shell thread and the log of their writes;
* `Apart`: no thread writes while a publish of the other is open;
* **`published_of_apart`**: then every payload is the JSON text that was measured;
* `not_published_upload_in_wait`: a shell command during the wait of the cloud thread.
-/

namespace PipeGallery.Esp

open Report Lib

/-! ## Writes to UART4 -/

/-- The thread that publishes. -/
inductive Owner where
  | cloud
  | shell
  deriving DecidableEq, Repr

/-- A call of `uart4_send`. -/
inductive Write where
  /-- an `AT+MQTTPUBRAW` command, with the JSON text that was measured for it -/
  | pubraw (o : Owner) (json line : List Char)
  /-- another command -/
  | command (line : List Char)
  /-- the end of a command line of the cloud thread -/
  | eol
  | payload (o : Owner) (data : List Char)
  deriving DecidableEq, Repr

def crlf : List Char := "\r\n".toList

namespace Write

def data : Write → List Char
  | .pubraw _ _ line => line
  | .command line => line
  | .eol => crlf
  | .payload _ d => d

def isCommand : Write → Bool
  | .pubraw _ _ _ => true
  | .command _ => true
  | .eol => false
  | .payload _ _ => false

def isPubrawOf (o : Owner) : Write → Bool
  | .pubraw o' _ _ => o' == o
  | _ => false

end Write

/-- What is still to be sent of the command line after the command. -/
def Owner.lineEnd : Owner → List Char
  | .cloud => crlf
  | .shell => []

/-- The command that announces `n` bytes. -/
def announce (n : ℕ) : List Char :=
  "AT+MQTTPUBRAW=0,\"".toList ++ hwMqttTopicReport.toList ++ "\",".toList ++ udec n ++ ",0,0".toList

/-- The writes `q` behind a publish command of `o` hold its payload. -/
def PayloadSent (o : Owner) (q : List Write) : Prop :=
  ∃ d, .payload o d ∈ q.takeWhile fun w => !w.isPubrawOf o

/-- The bytes up to the next command. -/
def between (q : List Write) : List Char := (q.takeWhile fun w => !w.isCommand).flatMap Write.data

/-- Every publish command whose payload is sent announces the length of its JSON text, and exactly
that text follows its line before the next command. -/
def Published (log : List Write) : Prop :=
  ∀ p o json line q, log = p ++ .pubraw o json line :: q → PayloadSent o q →
    line ++ o.lineEnd = announce json.length ++ crlf ∧ between q = o.lineEnd ++ json

/-! ## Logs of whole exchanges -/

/-- A publish command that is not yet followed by anything. -/
inductive Begun : List Write → Prop where
  | command (line : List Char) : Begun [.command line]
  | cloud (json : List Char) : Begun [.pubraw .cloud json (announce json.length)]
  | shell (json : List Char) : Begun [.pubraw .shell json (announce json.length ++ crlf)]

/-- An exchange; a publish of the cloud thread may end without payload. -/
inductive Block : List Write → Prop where
  | command (line : List Char) : Block [.command line, .eol]
  | refused (json : List Char) : Block [.pubraw .cloud json (announce json.length), .eol]
  | cloud (json : List Char) :
      Block [.pubraw .cloud json (announce json.length), .eol, .payload .cloud json]
  | shell (json : List Char) :
      Block [.pubraw .shell json (announce json.length ++ crlf), .payload .shell json]

/-- Whole exchanges. -/
inductive Blocks : List Write → Prop where
  | nil : Blocks []
  | concat {l b : List Write} (hl : Blocks l) (hb : Block b) : Blocks (l ++ b)

/-- A command and writes that are no commands. -/
theorem published_cons {w : Write} {r : List Write} (hr : ∀ x ∈ r, x.isCommand = false)
    (hw : ∀ o json line, w = .pubraw o json line → PayloadSent o r →
      line ++ o.lineEnd = announce json.length ++ crlf ∧ between r = o.lineEnd ++ json) :
    Published (w :: r) := by
  intro p o json line q h hs
  cases p with
  | nil =>
    obtain ⟨rfl, rfl⟩ := List.cons.inj h
    exact hw o json line rfl hs
  | cons x p =>
    obtain ⟨rfl, rfl⟩ := List.cons.inj h
    have := hr (.pubraw o json line) (by simp)
    cases this

theorem mem_takeWhile_append {α : Type*} {P : α → Bool} {l m : List α} {x : α}
    (h : x ∈ (l ++ m).takeWhile P) : x ∈ l.takeWhile P ∨ x ∈ m.takeWhile P := by
  induction l with
  | nil => exact Or.inr h
  | cons y l ih =>
    rw [List.cons_append, List.takeWhile_cons] at h
    rw [List.takeWhile_cons]
    split_ifs at h ⊢
    · rcases List.mem_cons.mp h with rfl | h
      · exact Or.inl List.mem_cons_self
      · exact (ih h).imp_left (List.mem_cons_of_mem y)
    · cases h

theorem takeWhile_append_of_nil {α : Type*} {P : α → Bool} {m : List α} (h : m.takeWhile P = [])
    (l : List α) : (l ++ m).takeWhile P = l.takeWhile P := by
  induction l with
  | nil => exact h
  | cons y l ih => rw [List.cons_append, List.takeWhile_cons, List.takeWhile_cons, ih]

/-- What goes behind a log without disturbing it. -/
theorem published_append {l b : List Write} (hl : Published l) (hb : Published b)
    (hpay : ∀ o, ¬ PayloadSent o b) (hcmd : (b.takeWhile fun w => !w.isCommand) = []) :
    Published (l ++ b) := by
  intro p o json line q h hs
  rcases List.append_eq_append_iff.mp h with ⟨a, rfl, hb'⟩ | ⟨a, rfl, hq⟩
  · exact hb a o json line q hb' hs
  · cases a with
    | nil => exact hb [] o json line q hq.symm hs
    | cons x a =>
      rw [List.cons_append] at hq
      obtain ⟨rfl, rfl⟩ := List.cons.inj hq
      have hsent : PayloadSent o a := by
        obtain ⟨d, hd⟩ := hs
        exact (mem_takeWhile_append hd).elim (fun h => ⟨d, h⟩) fun h => absurd ⟨d, h⟩ (hpay o)
      obtain ⟨h1, h2⟩ := hl p o json line a rfl hsent
      refine ⟨h1, ?_⟩
      rw [between, takeWhile_append_of_nil hcmd]
      exact h2

theorem not_payloadSent_of_begun {b : List Write} (h : Begun b) (o : Owner) : ¬ PayloadSent o b := by
  rintro ⟨d, hd⟩
  cases h with
  | command line => simp [Write.isPubrawOf] at hd
  | cloud json => cases o <;> simp [Write.isPubrawOf] at hd
  | shell json => cases o <;> simp [Write.isPubrawOf] at hd

theorem not_payloadSent_of_block {b : List Write} (h : Block b) (o : Owner) : ¬ PayloadSent o b := by
  rintro ⟨d, hd⟩
  cases h with
  | command line => simp [Write.isPubrawOf] at hd
  | refused json => cases o <;> simp [Write.isPubrawOf] at hd
  | cloud json => cases o <;> simp [Write.isPubrawOf] at hd
  | shell json => cases o <;> simp [Write.isPubrawOf] at hd

theorem published_begun {b : List Write} (h : Begun b) : Published b := by
  cases h <;> refine published_cons nofun fun o json line _ ⟨d, hd⟩ => by cases hd

theorem published_block {b : List Write} (h : Block b) : Published b := by
  cases h with
  | command line => exact published_cons (by simp [Write.isCommand]) fun o json line h => by cases h
  | refused json =>
    refine published_cons (by simp [Write.isCommand]) fun o json' line h ⟨d, hd⟩ => ?_
    simp [Write.isPubrawOf] at hd
  | cloud json =>
    refine published_cons (by simp [Write.isCommand]) fun o json' line h _ => ?_
    cases h
    exact ⟨rfl, by simp [between, Write.isCommand, Write.data, Owner.lineEnd]⟩
  | shell json =>
    refine published_cons (by simp [Write.isCommand]) fun o json' line h _ => ?_
    cases h
    exact ⟨List.append_nil _, by simp [between, Write.isCommand, Write.data, Owner.lineEnd]⟩

/-- **Whole exchanges are published.** -/
theorem published_of_blocks {l : List Write} (h : Blocks l) : Published l := by
  induction h with
  | nil => exact fun p o json line q h => absurd h (by simp)
  | concat hl hb ih =>
    exact published_append ih (published_block hb) (not_payloadSent_of_block hb) (by cases hb <;> rfl)

/-- One of them may have just begun. -/
theorem published_of_begun {l b : List Write} (h : Blocks l) (hb : Begun b) : Published (l ++ b) :=
  published_append (published_of_blocks h) (published_begun hb) (not_payloadSent_of_begun hb)
    (by cases hb <;> rfl)

/-! ## The shell commands -/

/-- The MSH commands, with the arguments of `huawei_upload`. -/
inductive ShellCmd where
  | huaweiUploadTest
  | huaweiUpload (ch0 ch1 methane temp humi : BitVec 32)
  deriving DecidableEq, Repr

/-- `rt_snprintf(json_buf, sizeof(json_buf), …)` of a shell command. -/
def ShellCmd.jsonCall : ShellCmd → Call
  | .huaweiUploadTest =>
    ⟨("\x7b\"services\":[\x7b\"service_id\":\"%s\",\"properties\":\x7b\"ch0\":1234,\"ch1\":5678," ++
      "\"methane_ppm\":100,\"temperature\":25.5,\"humidity\":60.0\x7d\x7d]\x7d").toList,
      [.str serviceIdSensor.toList]⟩
  | .huaweiUpload ch0 ch1 methane temp humi =>
    ⟨("\x7b\"services\":[\x7b\"service_id\":\"%s\",\"properties\":\x7b\"ch0\":%d,\"ch1\":%d," ++
      "\"methane_ppm\":%d,\"temperature\":%d,\"humidity\":%d\x7d\x7d]\x7d").toList,
      [.str serviceIdSensor.toList, .num ch0, .num ch1, .num methane, .num temp, .num humi]⟩

/-- `rt_snprintf(cmd, sizeof(cmd), …, strlen(json_buf))` of a shell command. -/
def shellPubrawCall (n : ℕ) : Call :=
  ⟨"AT+MQTTPUBRAW=0,\"%s\",%d,0,0\r\n".toList,
    [.str hwMqttTopicReport.toList, .num (BitVec.ofNat 32 n)]⟩

/-- Where the shell thread continues. -/
inductive ShellPc where
  | idle
  /-- behind the delay of 500 ms -/
  | sendPayload
  /-- behind the delay of 1000 ms -/
  | done
  deriving DecidableEq, Repr

/-- The cloud thread with its buffers, the shell thread, and the log of the writes to UART4. -/
structure Pub where
  sys : Sys := {}
  shell : ShellPc := .idle
  /-- ticks left of an `rt_thread_mdelay` of the shell thread -/
  shellSleep : ℕ := 0
  /-- the JSON text that the cloud thread measured last -/
  measured : List Char := []
  log : List Write := []

/-- The write of the next turn of the cloud thread. -/
def Pub.cloudWrite (x : Pub) : Option Write :=
  match x.sys.pc with
  | .sendCmd .mqttpubraw => some (.pubraw .cloud x.measured x.sys.atCmdBuf)
  | .sendCmd k => some (.command (k.command x.sys))
  | .sendCrlf _ => some .eol
  | .sendPayload => some (.payload .cloud x.sys.jsonBuf)
  | _ => none

/-- The next turn of the cloud thread builds the JSON text of step 7. -/
def Pub.builds (x : Pub) : Bool := x.sys.pc = .dispatch ∧ x.sys.cloudTaskStep = 7

/-- The thread's events, a command given to the shell, and the further turns of the shell thread. -/
inductive PubEvent where
  | cloud (e : Event)
  | shell (c : ShellCmd)
  | shellGo

def pubStep (x : Pub) : PubEvent → Option Pub
  | .cloud (.cloud g) => (step x.sys (.cloud g)).map fun s =>
    { x with
      sys := s, measured := if x.builds then s.jsonBuf else x.measured,
      log := x.log ++ x.cloudWrite.toList }
  | .cloud (.rx c) => (step x.sys (.rx c)).map fun s => { x with sys := s }
  | .cloud (.elapse ms) => (step x.sys (.elapse ms)).map fun s =>
    { x with sys := s, shellSleep := x.shellSleep - ms }
  | .shell c =>
    if x.shell = .idle then
      let json := c.jsonCall.text.take 599
      let cmd := (shellPubrawCall json.length).text.take 255
      some { x with
        sys := { x.sys with jsonBuf := json }.send cmd, shell := .sendPayload, shellSleep := 500,
        log := x.log ++ [.pubraw .shell json cmd] }
    else none
  | .shellGo =>
    if x.shellSleep = 0 then
      match x.shell with
      | .idle => none
      | .sendPayload => some { x with
        sys := x.sys.send x.sys.jsonBuf, shell := .done, shellSleep := 1000,
        log := x.log ++ [.payload .shell x.sys.jsonBuf] }
      | .done => some { x with shell := .idle }
    else none

/-! ## Runs whose publishes stay apart -/

/-- The cloud thread has built a report and neither sent it nor given up. -/
def Pc.publishing : Pc → Bool
  | .clearData k => k = .mqttpubraw
  | .clearIndex k => k = .mqttpubraw
  | .sendCmd k => k = .mqttpubraw
  | .sendCrlf k => k = .mqttpubraw
  | .startTick k => k = .mqttpubraw
  | .loop k _ => k = .mqttpubraw
  | .poll k _ => k = .mqttpubraw
  | .pollError k _ => k = .mqttpubraw
  | .sendPayload => true
  | _ => false

/-- The next turn writes to UART4. -/
def Pc.writes : Pc → Bool
  | .sendCmd _ => true
  | .sendCrlf _ => true
  | .sendPayload => true
  | _ => false

/-- The cloud thread is between a command and the end of its line. -/
def Pc.midLine : Pc → Bool
  | .sendCrlf _ => true
  | _ => false

instance (g : Snapshot FVal) : Decidable (IntegersInRange g) :=
  decidable_of_iff
    ((g.gAdcCh0.toNat ≤ 65535 ∧ g.gAdcCh1.toNat ≤ 65535 ∧ g.gAdcCh3.toNat ≤ 65535) ∧
      g.gAdcCh4.toNat ≤ 65535 ∧ g.gAdcCh5.toNat ≤ 65535 ∧ (g.flame = 0 ∨ g.flame = 1))
    ⟨fun ⟨⟨h0, h1, h3⟩, h4, h5, hf⟩ => ⟨h0, h1, h3, h4, h5, hf⟩,
      fun h => ⟨⟨h.ch0, h.ch1, h.ch3⟩, h.ch4, h.ch5, h.flame⟩⟩

/-- No thread writes `json_buf` or UART4 while a publish of the other is open, and no shell command
starts inside a command line. The globals of a report are 16-bit readings and a boolean. -/
def Apart (x : Pub) : PubEvent → Prop
  | .cloud (.cloud g) => (x.builds = true → IntegersInRange g) ∧
    (x.shell = .sendPayload → x.sys.pc.writes = false ∧ x.builds = false)
  | .shell _ => x.sys.pc.publishing = false ∧ x.sys.pc.midLine = false
  | _ => True

instance (x : Pub) (e : PubEvent) : Decidable (Apart x e) :=
  match e with
  | .cloud (.cloud g) => inferInstanceAs (Decidable ((x.builds = true → IntegersInRange g) ∧
      (x.shell = .sendPayload → x.sys.pc.writes = false ∧ x.builds = false)))
  | .cloud (.rx _) => .isTrue trivial
  | .cloud (.elapse _) => .isTrue trivial
  | .shell _ => inferInstanceAs (Decidable (x.sys.pc.publishing = false ∧ x.sys.pc.midLine = false))
  | .shellGo => .isTrue trivial

/-! ### The cloud thread -/

theorem finish_of_ne {s : Sys} {k : Job} (hk : k ≠ .mqttpubraw) (ok : Bool) :
    (finish s k ok).pc.publishing = false ∧ (finish s k ok).pc.midLine = false := by
  cases k <;> cases ok <;> first | exact ⟨rfl, rfl⟩ | exact absurd rfl hk

/-- Only the `switch` writes `at_cmd_buf`, and only its step 7 `json_buf`. -/
theorem buffers_cloudTurn {s : Sys} (hd : s.pc ≠ .dispatch) (g : Snapshot FVal) :
    (cloudTurn s g).jsonBuf = s.jsonBuf ∧ (cloudTurn s g).atCmdBuf = s.atCmdBuf := by
  cases hw : s.pc.waits with
  | some k =>
    obtain ⟨n, pc, ms, h⟩ := exists_cloudTurn_eq_of_waits hw g
    rw [h]
    exact ⟨rfl, rfl⟩
  | none =>
    unfold cloudTurn
    split <;> rename_i hp
    case h_2 => exact absurd hp hd
    case h_13 =>
      dsimp only
      split_ifs <;> exact ⟨rfl, rfl⟩
    all_goals first | exact ⟨rfl, rfl⟩ | (rw [hp] at hw; cases hw)

theorem jsonBuf_cloudTurn {s : Sys} (hb : ¬ (s.pc = .dispatch ∧ s.cloudTaskStep = 7))
    (g : Snapshot FVal) : (cloudTurn s g).jsonBuf = s.jsonBuf := by
  by_cases hd : s.pc = .dispatch
  · rw [cloudTurn, hd]
    dsimp only
    unfold dispatch
    split
    case h_8 h7 => exact absurd ⟨hd, h7⟩ hb
    all_goals rfl
  · exact (buffers_cloudTurn hd g).1

theorem publishing_of_waits {p : Pc} {k : Job} (h : p.waits = some k) :
    p.publishing = decide (k = .mqttpubraw) ∧ p.midLine = false := by
  cases p <;> cases h <;> exact ⟨rfl, rfl⟩

/-- A turn that neither builds nor writes does not open a publish or a line. -/
theorem quiet_cloudTurn {s : Sys} (hp : s.pc.publishing = false) (hw : s.pc.writes = false)
    (hb : ¬ (s.pc = .dispatch ∧ s.cloudTaskStep = 7)) (g : Snapshot FVal) :
    (cloudTurn s g).pc.publishing = false ∧ (cloudTurn s g).pc.midLine = false := by
  cases hwait : s.pc.waits with
  | some k =>
    have hk : decide (k = .mqttpubraw) = false := (publishing_of_waits hwait).1 ▸ hp
    rcases cloudTurn_of_waits hwait g with ⟨ok, h⟩ | ⟨pc, ms, hpc, h⟩
    · rw [h]
      exact finish_of_ne (of_decide_eq_false hk) ok
    · rw [h]
      exact ⟨(publishing_of_waits hpc).1.trans hk, (publishing_of_waits hpc).2⟩
  | none =>
    unfold cloudTurn
    split <;> rename_i hpc <;> rw [hpc] at hp hw hwait
    case h_2 =>
      unfold dispatch
      split
      case h_8 h7 => exact absurd ⟨hpc, h7⟩ hb
      all_goals exact ⟨rfl, rfl⟩
    case h_1 => exact ⟨rfl, rfl⟩
    case h_3 => exact ⟨hp, rfl⟩
    case h_4 => exact ⟨hp, rfl⟩
    case h_5 => cases hw
    case h_6 => cases hw
    case h_11 => exact ⟨rfl, rfl⟩
    case h_12 => cases hw
    case h_13 => exact ⟨rfl, rfl⟩
    all_goals cases hwait

/-- The wait for the prompt goes on, ends with it, or is given up. -/
theorem waits_cloudTurn {s : Sys} (h : s.pc.waits = some .mqttpubraw) (g : Snapshot FVal) :
    (cloudTurn s g).pc.waits = some .mqttpubraw ∨ (cloudTurn s g).pc = .sendPayload ∨
    (cloudTurn s g).pc = .checkDisconnect := by
  rcases cloudTurn_of_waits h g with ⟨ok, he⟩ | ⟨pc, ms, hpc, he⟩
  · rw [he]
    cases ok
    · exact Or.inr (Or.inr rfl)
    · exact Or.inr (Or.inl rfl)
  · rw [he]
    exact Or.inl hpc

theorem length_announce_le {n : ℕ} (hn : n ≤ 599) : (announce n).length ≤ 95 := by
  have h17 : "AT+MQTTPUBRAW=0,\"".toList.length = 17 := by decide +kernel
  have h69 : hwMqttTopicReport.toList.length = 69 := by decide +kernel
  have h2 : "\",".toList.length = 2 := by decide +kernel
  have h4 : ",0,0".toList.length = 4 := by decide +kernel
  have hu : (udec n).length ≤ 3 := length_udec_le (by omega) (by omega)
  unfold announce
  rw [List.length_append, List.length_append, List.length_append, List.length_append, h17, h69, h2, h4]
  omega

/-- The command of the cloud thread is not truncated. -/
theorem atCmd_pubraw {n : ℕ} (hn : n ≤ 599) : atCmd (pubrawCall n) = announce n := by
  have htext : (pubrawCall n).text = announce n := by
    unfold announce
    exact text_pubraw n (by omega)
  have := length_announce_le hn
  rw [atCmd, htext]
  exact List.take_of_length_le (by omega)

/-- Nor is that of a shell command. -/
theorem take_shellPubraw {n : ℕ} (hn : n ≤ 599) :
    (shellPubrawCall n).text.take 255 = announce n ++ crlf := by
  have hf : "AT+MQTTPUBRAW=0,\"%s\",%d,0,0\r\n".toList = "AT+MQTTPUBRAW=0,\"".toList ++
      '%' :: 's' :: ("\",".toList ++ '%' :: 'd' :: (",0,0".toList ++ crlf)) := by decide +kernel
  have htext : (shellPubrawCall n).text = announce n ++ crlf := by
    have htail : '%' ∉ ",0,0".toList ++ crlf := by decide +kernel
    have hlt : n < 2 ^ 31 := by omega
    have h := formatted_pubraw htail hlt
    rw [← List.append_assoc _ ",0,0".toList] at h
    unfold shellPubrawCall Call.text announce
    rw [hf]
    exact h
  have := length_announce_le hn
  have h2 : crlf.length = 2 := by decide +kernel
  rw [htext]
  refine List.take_of_length_le ?_
  rw [List.length_append, h2]
  omega

theorem dispatch_seven {s : Sys} (h7 : s.cloudTaskStep = 7) (g : Snapshot FVal) :
    (dispatch s g).pc = .clearData .mqttpubraw ∧
    (dispatch s g).jsonBuf = cString (buildProperties 0 (fun _ => '\x00') g).mem 0 600 ∧
    (dispatch s g).atCmdBuf = atCmd (pubrawCall (buildProperties 0 (fun _ => '\x00') g).pos) := by
  unfold dispatch
  split <;> rename_i h
  case h_8 => simp only [Sys.goto, and_self]
  case h_9 => exact absurd h7 h
  all_goals rw [h7] at h; cases h

/-- **Step 7 announces what it has built.** -/
theorem cloudTurn_build {s : Sys} (hp : s.pc = .dispatch) (h7 : s.cloudTaskStep = 7)
    {g : Snapshot FVal} (hg : IntegersInRange g) :
    (cloudTurn s g).pc = .clearData .mqttpubraw ∧
    (cloudTurn s g).atCmdBuf = announce (cloudTurn s g).jsonBuf.length := by
  have hle : ((propertiesCalls g).flatMap Call.text).length ≤ 599 :=
    (length_properties_le hg).trans (by decide)
  obtain ⟨-, hpos, hstr, -⟩ := buildProperties_report (by decide : 0 + 600 < 2 ^ 32)
    (fun _ => '\x00') (Nat.lt_succ_of_le hle)
  obtain ⟨hpc, hjson, hcmd⟩ := dispatch_seven h7 g
  have hturn : cloudTurn s g = dispatch s g := by rw [cloudTurn, hp]
  rw [hturn, hjson, hcmd, hstr, hpos]
  exact ⟨hpc, atCmd_pubraw hle⟩

/-! ### Both threads -/

/-- The log at every point of the two threads. -/
inductive Pub.Inv (x : Pub) : Prop where
  /-- no publish is open and no line under way -/
  | rest (hp : x.sys.pc.publishing = false) (hm : x.sys.pc.midLine = false)
      (hs : x.shell ≠ .sendPayload) (hl : Blocks x.log)
  /-- the cloud thread in the line of another command -/
  | line {l : List Write} {line : List Char} {k : Job} (hp : x.sys.pc = .sendCrlf k)
      (hk : k ≠ .mqttpubraw) (hs : x.shell ≠ .sendPayload) (hl : Blocks l)
      (he : x.log = l ++ [.command line])
  /-- the cloud thread before its publish command -/
  | built (hp : x.sys.pc = .clearData .mqttpubraw ∨ x.sys.pc = .clearIndex .mqttpubraw ∨
        x.sys.pc = .sendCmd .mqttpubraw)
      (hs : x.shell ≠ .sendPayload) (hl : Blocks x.log) (hj : x.measured = x.sys.jsonBuf)
      (hc : x.sys.atCmdBuf = announce x.sys.jsonBuf.length)
  | announced {l : List Write} (hp : x.sys.pc = .sendCrlf .mqttpubraw) (hs : x.shell ≠ .sendPayload)
      (hl : Blocks l)
      (he : x.log = l ++ [.pubraw .cloud x.sys.jsonBuf (announce x.sys.jsonBuf.length)])
  /-- the cloud thread before its payload -/
  | waiting {l : List Write} (hp : x.sys.pc.waits = some .mqttpubraw ∨ x.sys.pc = .sendPayload)
      (hs : x.shell ≠ .sendPayload) (hl : Blocks l)
      (he : x.log = l ++ [.pubraw .cloud x.sys.jsonBuf (announce x.sys.jsonBuf.length), .eol])
  /-- the shell thread before its payload -/
  | shell {l : List Write} (hp : x.sys.pc.publishing = false) (hm : x.sys.pc.midLine = false)
      (hs : x.shell = .sendPayload) (hl : Blocks l)
      (he : x.log = l ++ [.pubraw .shell x.sys.jsonBuf (announce x.sys.jsonBuf.length ++ crlf)])

/-- The log is published at each of these points. -/
theorem Pub.Inv.published {x : Pub} (h : x.Inv) : Published x.log := by
  cases h with
  | rest _ _ _ hl => exact published_of_blocks hl
  | line _ _ _ hl he => rw [he]; exact published_of_begun hl (.command _)
  | built _ _ hl => exact published_of_blocks hl
  | announced _ _ hl he => rw [he]; exact published_of_begun hl (.cloud _)
  | waiting _ _ hl he => rw [he]; exact published_of_blocks (.concat hl (.refused _))
  | shell _ _ _ hl he => rw [he]; exact published_of_begun hl (.shell _)

/-- A change outside the program counter, the buffers, the shell and the log. -/
theorem Pub.Inv.congr {x y : Pub} (h : x.Inv) (hpc : y.sys.pc = x.sys.pc)
    (hj : y.sys.jsonBuf = x.sys.jsonBuf) (hc : y.sys.atCmdBuf = x.sys.atCmdBuf)
    (hs : y.shell = .sendPayload ↔ x.shell = .sendPayload) (hm : y.measured = x.measured)
    (hl : y.log = x.log) : y.Inv := by
  have hns : x.shell ≠ .sendPayload → y.shell ≠ .sendPayload := fun h' hy => h' (hs.mp hy)
  cases h with
  | rest h1 h2 h3 h4 => exact .rest (hpc ▸ h1) (hpc ▸ h2) (hns h3) (hl ▸ h4)
  | line h1 h2 h3 h4 h5 => exact .line (hpc.trans h1) h2 (hns h3) h4 (hl.trans h5)
  | built h1 h2 h3 h4 h5 =>
    exact .built (hpc ▸ h1) (hns h2) (hl ▸ h3) (by rw [hm, hj, h4]) (by rw [hc, hj, h5])
  | announced h1 h2 h3 h4 => exact .announced (hpc.trans h1) (hns h2) h3 (by rw [hl, hj, h4])
  | waiting h1 h2 h3 h4 => exact .waiting (hpc ▸ h1) (hns h2) h3 (by rw [hl, hj, h4])
  | shell h1 h2 h3 h4 h5 =>
    exact .shell (hpc ▸ h1) (hpc ▸ h2) (hs.mpr h3) h4 (by rw [hl, hj, h5])

theorem not_builds {x : Pub} (h : x.builds = false) :
    ¬ (x.sys.pc = .dispatch ∧ x.sys.cloudTaskStep = 7) := of_decide_eq_false h

theorem builds_of_pc_ne {x : Pub} (h : x.sys.pc ≠ .dispatch) : x.builds = false :=
  decide_eq_false fun hb => h hb.1

/-- A state whose cloud thread has taken a turn. -/
def Pub.turned (x : Pub) (g : Snapshot FVal) : Pub :=
  { x with
    sys := cloudTurn x.sys g, measured := if x.builds then (cloudTurn x.sys g).jsonBuf else x.measured,
    log := x.log ++ x.cloudWrite.toList }

theorem log_turned {x : Pub} (hw : x.sys.pc.writes = false) (g : Snapshot FVal) :
    (x.turned g).log = x.log := by
  have hnone : x.cloudWrite = none := by
    unfold Pub.cloudWrite
    split <;> rename_i hp <;> first | rfl | (rw [hp] at hw; cases hw)
  change x.log ++ x.cloudWrite.toList = x.log
  rw [hnone, Option.toList_none, List.append_nil]

theorem log_turned_some {x : Pub} {w : Write} (h : x.cloudWrite = some w) (g : Snapshot FVal) :
    (x.turned g).log = x.log ++ [w] := by
  change x.log ++ x.cloudWrite.toList = x.log ++ [w]
  rw [h, Option.toList_some]

theorem jsonBuf_turned {x : Pub} (h : x.sys.pc ≠ .dispatch) (g : Snapshot FVal) :
    (x.turned g).sys.jsonBuf = x.sys.jsonBuf := (buffers_cloudTurn h g).1

theorem atCmdBuf_turned {x : Pub} (h : x.sys.pc ≠ .dispatch) (g : Snapshot FVal) :
    (x.turned g).sys.atCmdBuf = x.sys.atCmdBuf := (buffers_cloudTurn h g).2

/-- Back at a place where no publish is open. -/
theorem Pub.Inv.rest_at {x : Pub} {p : Pc} (hpc : x.sys.pc = p) (hp : p.publishing = false)
    (hm : p.midLine = false) (hs : x.shell ≠ .sendPayload) (hl : Blocks x.log) : x.Inv :=
  .rest (hpc ▸ hp) (hpc ▸ hm) hs hl

/-- The cloud thread, with no publish open. -/
theorem inv_turned_rest {x : Pub} (hp : x.sys.pc.publishing = false) (hm : x.sys.pc.midLine = false)
    (hs : x.shell ≠ .sendPayload) (hl : Blocks x.log) {g : Snapshot FVal}
    (hg : x.builds = true → IntegersInRange g) : (x.turned g).Inv := by
  by_cases hb : x.builds = true
  · obtain ⟨hd, h7⟩ := of_decide_eq_true hb
    obtain ⟨hpc, hcmd⟩ := cloudTurn_build hd h7 (hg hb)
    have hw : x.sys.pc.writes = false := by rw [hd]; rfl
    refine .built (Or.inl hpc) hs ?_ (if_pos hb) hcmd
    rw [log_turned hw]
    exact hl
  · rw [Bool.not_eq_true] at hb
    by_cases hw : x.sys.pc.writes = true
    · obtain ⟨k, hk⟩ : ∃ k, x.sys.pc = .sendCmd k := by
        cases hpc : x.sys.pc with
        | sendCmd k => exact ⟨k, rfl⟩
        | sendCrlf k => rw [hpc] at hm; cases hm
        | sendPayload => rw [hpc] at hp; cases hp
        | _ => rw [hpc] at hw; cases hw
      have hne : k ≠ .mqttpubraw := by
        rw [hk] at hp
        exact of_decide_eq_false hp
      have hwrite : x.cloudWrite = some (.command (k.command x.sys)) := by
        unfold Pub.cloudWrite
        rw [hk]
        cases k <;> first | rfl | exact absurd rfl hne
      have hpc : (cloudTurn x.sys g).pc = .sendCrlf k := by rw [cloudTurn, hk]; rfl
      exact .line hpc hne hs hl (by change x.log ++ x.cloudWrite.toList = _; rw [hwrite]; rfl)
    · rw [Bool.not_eq_true] at hw
      obtain ⟨h1, h2⟩ := quiet_cloudTurn hp hw (not_builds hb) g
      refine .rest h1 h2 hs ?_
      rw [log_turned hw]
      exact hl

/-- The cloud thread, up to its publish command. -/
theorem inv_turned_built {x : Pub} (hp : x.sys.pc = .clearData .mqttpubraw ∨
      x.sys.pc = .clearIndex .mqttpubraw ∨ x.sys.pc = .sendCmd .mqttpubraw)
    (hs : x.shell ≠ .sendPayload) (hl : Blocks x.log) (hj : x.measured = x.sys.jsonBuf)
    (hc : x.sys.atCmdBuf = announce x.sys.jsonBuf.length) (g : Snapshot FVal) : (x.turned g).Inv := by
  have hne : x.sys.pc ≠ .dispatch := by rcases hp with h | h | h <;> rw [h] <;> nofun
  have hmeas : (x.turned g).measured = x.measured := if_neg (by rw [builds_of_pc_ne hne]; nofun)
  have hjson := jsonBuf_turned hne g
  have hbuilt : x.sys.pc.writes = false → ((x.turned g).sys.pc = .clearData .mqttpubraw ∨
      (x.turned g).sys.pc = .clearIndex .mqttpubraw ∨ (x.turned g).sys.pc = .sendCmd .mqttpubraw) →
      (x.turned g).Inv := by
    intro hw hpc
    refine .built hpc hs ?_ (by rw [hmeas, hjson, hj]) (by rw [atCmdBuf_turned hne, hjson, hc])
    rw [log_turned hw]
    exact hl
  rcases hp with hp | hp | hp
  · have hpc : (cloudTurn x.sys g).pc = .clearIndex .mqttpubraw := by rw [cloudTurn, hp]; rfl
    exact hbuilt (by rw [hp]; rfl) (Or.inr (Or.inl hpc))
  · have hpc : (cloudTurn x.sys g).pc = .sendCmd .mqttpubraw := by rw [cloudTurn, hp]; rfl
    exact hbuilt (by rw [hp]; rfl) (Or.inr (Or.inr hpc))
  · have hpc : (cloudTurn x.sys g).pc = .sendCrlf .mqttpubraw := by rw [cloudTurn, hp]; rfl
    refine .announced hpc hs hl ?_
    rw [log_turned_some (by rw [Pub.cloudWrite, hp]), hjson, hj, hc]

/-- The cloud thread, waiting for the prompt. -/
theorem inv_turned_waiting {x : Pub} {l : List Write} (hp : x.sys.pc.waits = some .mqttpubraw)
    (hs : x.shell ≠ .sendPayload) (hl : Blocks l)
    (he : x.log = l ++ [.pubraw .cloud x.sys.jsonBuf (announce x.sys.jsonBuf.length), .eol])
    (g : Snapshot FVal) : (x.turned g).Inv := by
  have hne : x.sys.pc ≠ .dispatch := by intro h; rw [h] at hp; cases hp
  have hw : x.sys.pc.writes = false := by
    cases hpc : x.sys.pc <;> first | rfl | (rw [hpc] at hp; cases hp)
  have hlog : (x.turned g).log = l ++ [.pubraw .cloud (x.turned g).sys.jsonBuf
      (announce (x.turned g).sys.jsonBuf.length), .eol] := by
    rw [log_turned hw, jsonBuf_turned hne, he]
  rcases waits_cloudTurn hp g with h | h | h
  · exact .waiting (Or.inl h) hs hl hlog
  · exact .waiting (Or.inr h) hs hl hlog
  · refine .rest_at h rfl rfl hs ?_
    rw [hlog]
    exact hl.concat (.refused _)

/-- **A turn of the cloud thread** that keeps apart. -/
theorem inv_turned {x : Pub} (h : x.Inv) {g : Snapshot FVal} (ha : Apart x (.cloud (.cloud g))) :
    (x.turned g).Inv := by
  obtain ⟨hg, hsh⟩ := ha
  cases h with
  | rest hp hm hs hl => exact inv_turned_rest hp hm hs hl hg
  | @line l line k hp hk hs hl he =>
    have hpc : (cloudTurn x.sys g).pc = .startTick k := by rw [cloudTurn, hp]; rfl
    refine .rest_at hpc (decide_eq_false hk) rfl hs ?_
    rw [log_turned_some (by rw [Pub.cloudWrite, hp]), he, List.append_assoc]
    exact hl.concat (.command line)
  | built hp hs hl hj hc => exact inv_turned_built hp hs hl hj hc g
  | announced hp hs hl he =>
    have hpc : (cloudTurn x.sys g).pc = .startTick .mqttpubraw := by rw [cloudTurn, hp]; rfl
    refine .waiting (Or.inl ?_) hs hl ?_
    · change (cloudTurn x.sys g).pc.waits = some .mqttpubraw
      rw [hpc]
      rfl
    · have hb : x.sys.pc ≠ .dispatch := by
        rw [hp]
        intro hc
        cases hc
      rw [log_turned_some (by rw [Pub.cloudWrite, hp]), he, List.append_assoc, jsonBuf_turned hb]
      rfl
  | waiting hp hs hl he =>
    rcases hp with hp | hp
    · exact inv_turned_waiting hp hs hl he g
    · have hpc : (cloudTurn x.sys g).pc = .startTick .payload := by rw [cloudTurn, hp]; rfl
      refine .rest_at hpc rfl rfl hs ?_
      rw [log_turned_some (by rw [Pub.cloudWrite, hp]), he, List.append_assoc]
      exact hl.concat (.cloud x.sys.jsonBuf)
  | shell hp hm hs hl he =>
    obtain ⟨hw, hb⟩ := hsh hs
    obtain ⟨h1, h2⟩ := quiet_cloudTurn hp hw (not_builds hb) g
    refine .shell h1 h2 hs hl ?_
    rw [log_turned hw, he]
    change _ = _ ++ [Write.pubraw .shell (cloudTurn x.sys g).jsonBuf
      (announce (cloudTurn x.sys g).jsonBuf.length ++ crlf)]
    rw [jsonBuf_cloudTurn (not_builds hb)]

/-- Outside publishes and command lines the log is whole. -/
theorem Pub.Inv.blocks {x : Pub} (h : x.Inv) (hp : x.sys.pc.publishing = false)
    (hm : x.sys.pc.midLine = false) (hs : x.shell ≠ .sendPayload) : Blocks x.log := by
  cases h with
  | rest _ _ _ hl => exact hl
  | line hpc => rw [hpc] at hm; cases hm
  | built hpc => rcases hpc with h | h | h <;> rw [h] at hp <;> cases hp
  | announced hpc => rw [hpc] at hm; cases hm
  | waiting hpc =>
    rcases hpc with h | h
    · cases hpc : x.sys.pc <;> rw [hpc] at h hp <;> cases h <;> cases hp
    · rw [h] at hp; cases hp
  | shell _ _ hsh => exact absurd hsh hs

/-- Before the payload of a shell command. -/
theorem Pub.Inv.shell_open {x : Pub} (h : x.Inv) (hs : x.shell = .sendPayload) :
    x.sys.pc.publishing = false ∧ x.sys.pc.midLine = false ∧ ∃ l, Blocks l ∧
      x.log = l ++ [.pubraw .shell x.sys.jsonBuf (announce x.sys.jsonBuf.length ++ crlf)] := by
  cases h with
  | shell hp hm _ hl he => exact ⟨hp, hm, _, hl, he⟩
  | rest _ _ hn => exact absurd hs hn
  | line _ _ hn => exact absurd hs hn
  | built _ hn => exact absurd hs hn
  | announced _ hn => exact absurd hs hn
  | waiting _ hn => exact absurd hs hn

/-- **Every step** that keeps apart. -/
theorem inv_pubStep {x y : Pub} {e : PubEvent} (ha : Apart x e) (h : x.Inv)
    (hs : pubStep x e = some y) : y.Inv := by
  cases e with
  | cloud e =>
    cases e with
    | cloud g =>
      rw [pubStep, Option.map_eq_some_iff] at hs
      obtain ⟨s, hstep, rfl⟩ := hs
      obtain rfl := eq_cloudTurn_of_step hstep
      exact inv_turned h ha
    | rx c =>
      cases hs
      exact h.congr rfl rfl rfl Iff.rfl rfl rfl
    | elapse ms =>
      cases hs
      exact h.congr rfl rfl rfl Iff.rfl rfl rfl
  | shell c =>
    rw [pubStep] at hs
    split_ifs at hs with hidle
    cases hs
    have hns : x.shell ≠ .sendPayload := by rw [hidle]; nofun
    obtain ⟨hp, hm⟩ := ha
    have hl := h.blocks hp hm hns
    have hlen : (c.jsonCall.text.take 599).length ≤ 599 := List.length_take_le 599 _
    refine .shell hp hm rfl hl ?_
    dsimp only [Sys.send]
    rw [take_shellPubraw hlen]
  | shellGo =>
    rw [pubStep] at hs
    split_ifs at hs
    split at hs
    next => cases hs
    next hsh =>
      cases hs
      obtain ⟨hp, hm, l, hl, he⟩ := h.shell_open hsh
      refine .rest hp hm nofun ?_
      dsimp only
      rw [he, List.append_assoc]
      exact hl.concat (.shell x.sys.jsonBuf)
    next hsh =>
      cases hs
      refine h.congr rfl rfl rfl ?_ rfl rfl
      rw [hsh]
      exact iff_of_false nofun nofun

theorem sent_dispatch (s : Sys) (g : Snapshot FVal) : (dispatch s g).sent = s.sent := by
  unfold dispatch
  split <;> rfl

theorem cloudWrite_of_waits {x : Pub} {k : Job} (h : x.sys.pc.waits = some k) :
    x.cloudWrite = none := by
  unfold Pub.cloudWrite
  cases hpc : x.sys.pc <;> first | rfl | (rw [hpc] at h; cases h)

/-- What a turn of the cloud thread writes. -/
theorem sent_cloudTurn (x : Pub) (g : Snapshot FVal) :
    (cloudTurn x.sys g).sent = x.sys.sent ++ x.cloudWrite.toList.map Write.data := by
  have hnil : ∀ l : List (List Char), l ++ (none : Option Write).toList.map Write.data = l :=
    fun l => List.append_nil l
  cases hw : x.sys.pc.waits with
  | some k =>
    obtain ⟨n, pc, ms, h⟩ := exists_cloudTurn_eq_of_waits hw g
    rw [h, cloudWrite_of_waits hw, hnil]
    rfl
  | none =>
    unfold cloudTurn Pub.cloudWrite
    cases hpc : x.sys.pc with
    | sendCmd k => cases k <;> rfl
    | sendCrlf k => rfl
    | sendPayload => rfl
    | dispatch => rw [hnil]; exact sent_dispatch x.sys g
    | checkDisconnect =>
      rw [hnil]
      dsimp only
      split_ifs <;> rfl
    | boot => exact (hnil _).symm
    | clearData k => exact (hnil _).symm
    | clearIndex k => exact (hnil _).symm
    | cleaned => exact (hnil _).symm
    | _ => rw [hpc] at hw; cases hw

/-- The log is what was written to UART4. -/
theorem sent_pubStep {x y : Pub} {e : PubEvent} (h : x.sys.sent = x.log.map Write.data)
    (hs : pubStep x e = some y) : y.sys.sent = y.log.map Write.data := by
  cases e with
  | cloud e =>
    cases e with
    | cloud g =>
      rw [pubStep, Option.map_eq_some_iff] at hs
      obtain ⟨s, hstep, rfl⟩ := hs
      obtain rfl := eq_cloudTurn_of_step hstep
      rw [sent_cloudTurn, h, ← List.map_append]
    | rx c =>
      cases hs
      exact h
    | elapse ms =>
      cases hs
      exact h
  | shell c =>
    rw [pubStep] at hs
    split_ifs at hs
    cases hs
    dsimp only [Sys.send]
    rw [h, List.map_append]
    rfl
  | shellGo =>
    rw [pubStep] at hs
    split_ifs at hs
    split at hs
    next => cases hs
    next =>
      cases hs
      dsimp only [Sys.send]
      rw [h, List.map_append]
      rfl
    next =>
      cases hs
      exact h

/-- **One raw publish at a time.** The log holds what was written to UART4; and in every run whose
steps keep apart, each publish command whose payload is sent announces the length of the JSON text
measured for it, and exactly that text follows its line before the next command. -/
theorem published_of_apart (now : BitVec 32) (es : List PubEvent) (x : Pub)
    (hr : run pubStep { sys := { tick := now } } es = some x) :
    x.sys.sent = x.log.map Write.data ∧
    (Along pubStep Apart { sys := { tick := now } } es → Published x.log) := by
  constructor
  · refine run_inv (C := fun _ _ => True) (I := fun x : Pub => x.sys.sent = x.log.map Write.data)
      (fun _ _ _ _ => sent_pubStep) rfl ?_ hr
    exact along_of_forall (P := fun _ => True) (fun _ _ => trivial) _
  · intro ha
    refine (run_inv (I := Pub.Inv) (fun _ _ _ => inv_pubStep) ?_ ha hr).published
    exact .rest rfl rfl nofun .nil

/-- A publish of the cloud thread, and `huawei_upload_test` behind it. -/
def uploadBehind : List PubEvent :=
  (connecting ++ exchange ">" ++ turns 1).map .cloud ++
    [.shell .huaweiUploadTest, .cloud (.elapse 500), .shellGo]

theorem published_of_apart_upload_behind :
    ∃ x, run pubStep {} uploadBehind = some x ∧ x.log.length = 19 ∧ Published x.log := by
  obtain ⟨x, hr, hp⟩ := exists_of_any (o := run pubStep {} uploadBehind)
    (p := fun x => x.log.length == 19) (by decide +kernel)
  exact ⟨x, hr, beq_iff_eq.mp hp, (published_of_apart 0 uploadBehind x hr).2 (by decide +kernel)⟩

/-! ## A shell command inside a publish -/

/-- A check that the publish command at `i` is not followed by its JSON text. -/
def broken (log : List Write) (i : ℕ) : Bool :=
  match log[i]? with
  | some (.pubraw o json _) =>
    let q := log.drop (i + 1)
    ((q.takeWhile fun w => !w.isPubrawOf o).any fun w =>
      match w with
      | .payload o' _ => o' == o
      | _ => false) && between q != o.lineEnd ++ json
  | _ => false

theorem not_published_of_broken {log : List Write} {i : ℕ} (h : broken log i = true) :
    ¬ Published log := by
  intro hp
  unfold broken at h
  split at h
  next o json line hi =>
    obtain ⟨hlt, hget⟩ := List.getElem?_eq_some_iff.mp hi
    rw [Bool.and_eq_true, bne_iff_ne] at h
    have hsplit : log = log.take i ++ .pubraw o json line :: log.drop (i + 1) := by
      rw [← hget, List.getElem_cons_drop, List.take_append_drop]
    have hsent : PayloadSent o (log.drop (i + 1)) := by
      obtain ⟨w, hw, hm⟩ := List.any_eq_true.mp h.1
      cases w with
      | payload o' d => exact ⟨d, beq_iff_eq.mp hm ▸ hw⟩
      | _ => cases hm
    exact h.2 (hp _ o json line _ hsplit hsent).2
  next => cases h

/-- `huawei_upload_test` while the cloud thread waits for `>`. -/
def uploadInWait : List PubEvent :=
  (connecting ++ turns 7).map .cloud ++ [.shell .huaweiUploadTest, .cloud (.elapse 500), .shellGo] ++
    (bytes ">" ++ turns 2).map .cloud

/-- **The test report is sent twice for one announcement**, and the report of the cloud thread not at
all. -/
theorem not_published_upload_in_wait :
    ∃ x, run pubStep {} uploadInWait = some x ∧ ¬ Published x.log := by
  obtain ⟨x, hr, hp⟩ := exists_of_any (o := run pubStep {} uploadInWait)
    (p := fun x => broken x.log 16) (by decide +kernel)
  exact ⟨x, hr, not_published_of_broken hp⟩

end PipeGallery.Esp
