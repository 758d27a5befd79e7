import PipeGallery.Esp.Cloud
import PipeGallery.Lib.Trace

set_option autoImplicit false

/-!
# The cloud thread — order of the handshake

The thread runs against a receive buffer whose contents are arbitrary at every turn. Its trace lists
the commands it sent and how each wait ended.

* `Mark`, `mark`, `Traced`, `tracedTurn`, `tracedRun`: runs with their trace;
* `Tried`, `Cleaned`: last attempts that succeeded, in order, and since the last `AT+MQTTCLEAN`;
* `Ready`: the history that each step rests on;
* `Ordered`, `ordered_tracedTurn`: the history at every point of the thread;
* **`handshake_ordered`**: what precedes a publish, and the first `AT+MQTTCLEAN`.
-/

namespace PipeGallery.Esp

open Report Lib

/-! ## Traces -/

/-- What a turn adds to the trace. -/
inductive Mark where
  /-- the command of an exchange, or the payload of a publish -/
  | sent (k : Job) (data : List Char)
  /-- the wait saw the expected text -/
  | saw (k : Job)
  | missed (k : Job)
  deriving DecidableEq, Repr

/-- The mark of the next turn. -/
def mark (s : Sys) : Option Mark :=
  match s.pc with
  | .sendCmd k => some (.sent k (k.command s))
  | .loop k start => if (s.tick - start).toNat < k.timeout then none else some (.missed k)
  | .poll k _ => if strstr s.uart.text k.expect then some (.saw k) else none
  | .pollError k _ => if strstr s.uart.text "ERROR".toList then some (.missed k) else none
  | .sendPayload => some (.sent .payload s.jsonBuf)
  | _ => none

/-- What an event adds to the trace. -/
def Event.marks (s : Sys) : Event → List Mark
  | .cloud _ => (mark s).toList
  | .rx _ => []
  | .elapse _ => []

/-- The system and the trace of its cloud thread. -/
structure Traced where
  sys : Sys := {}
  trace : List Mark := []

/-- An event at a moment when the receive buffer is `u`; a turn before a delay is over does not
happen. -/
def tracedTurn (x : Traced) (u : Uart4) (e : Event) : Traced :=
  match step { x.sys with uart := u } e with
  | none => x
  | some s => ⟨s, x.trace ++ e.marks { x.sys with uart := u }⟩

/-- The events in order, each with the contents of the receive buffer. -/
def tracedRun (es : List (Uart4 × Event)) : Traced := es.foldl (fun x e => tracedTurn x e.1 e.2) {}

/-! ## Histories -/

/-- No attempt at `k`. -/
def NoSent (k : Job) (t : List Mark) : Prop := ∀ d, .sent k d ∉ t

/-- The last attempts at these exchanges, in this order; each of them succeeded. -/
def Tried : List Job → List Mark → Prop
  | [], _ => True
  | k :: ks, t => ∃ p d q, t = p ++ .sent k d :: .saw k :: q ∧ NoSent k q ∧ Tried ks q

/-- The same since the last `AT+MQTTCLEAN`. -/
def Cleaned (ks : List Job) (t : List Mark) : Prop :=
  ∃ p d q, t = p ++ .sent .mqttclean d :: q ∧ NoSent .mqttclean q ∧ Tried ks q

/-- The step of the thread that makes the exchange. -/
def Job.step : Job → ℕ
  | .at => 0
  | .cwmode => 1
  | .cwjap => 2
  | .mqttclean => 3
  | .mqttusercfg => 4
  | .mqttclientid => 5
  | .mqttconn => 6
  | .mqttpubraw => 7
  | .payload => 7

/-- The history that step `n` rests on. -/
structure Ready (n : ℕ) (t : List Mark) : Prop where
  wifi : Tried ([.at, .cwmode, .cwjap].take n) t
  mqtt : 4 ≤ n → Cleaned ([.mqttusercfg, .mqttclientid, .mqttconn].take (n - 4)) t

section History

variable {k : Job} {ks : List Job} {t : List Mark} {m : Mark}

theorem noSent_concat (h : NoSent k t) (hm : ∀ d, m ≠ .sent k d) : NoSent k (t ++ [m]) := by
  intro d hd
  rcases List.mem_append.mp hd with hd | hd
  · exact h d hd
  · exact hm d (List.mem_singleton.mp hd).symm

theorem tried_concat (h : Tried ks t) (hm : ∀ k ∈ ks, ∀ d, m ≠ .sent k d) : Tried ks (t ++ [m]) := by
  induction ks generalizing t with
  | nil => trivial
  | cons k ks ih =>
    obtain ⟨p, d, q, rfl, hk, hq⟩ := h
    refine ⟨p, d, q ++ [m], ?_, ?_, ?_⟩
    · rw [List.append_assoc, List.cons_append, List.cons_append]
    · exact noSent_concat hk (hm k List.mem_cons_self)
    · exact ih hq fun k' hk' => hm k' (List.mem_cons_of_mem k hk')

/-- One more attempt that succeeds. -/
theorem tried_saw (h : Tried ks t) (hk : k ∉ ks) (d : List Char) :
    Tried (ks ++ [k]) (t ++ [.sent k d] ++ [.saw k]) := by
  induction ks generalizing t with
  | nil => exact ⟨t, d, [], List.append_assoc t [_] [_], fun _ => List.not_mem_nil, trivial⟩
  | cons j ks ih =>
    rw [List.mem_cons, not_or] at hk
    obtain ⟨p, d', q, rfl, hj, hq⟩ := h
    refine ⟨p, d', q ++ [.sent k d] ++ [.saw k], ?_, ?_, ih hq hk.2⟩
    · simp only [List.append_assoc, List.cons_append]
    · refine noSent_concat (noSent_concat hj fun e he => ?_) fun e he => ?_
      · exact hk.1 (Mark.sent.inj he).1
      · cases he

theorem cleaned_concat (h : Cleaned ks t) (hc : ∀ d, m ≠ .sent .mqttclean d)
    (hm : ∀ k ∈ ks, ∀ d, m ≠ .sent k d) : Cleaned ks (t ++ [m]) := by
  obtain ⟨p, d, q, rfl, hq, ht⟩ := h
  refine ⟨p, d, q ++ [m], ?_, noSent_concat hq hc, tried_concat ht hm⟩
  rw [List.append_assoc, List.cons_append]

theorem cleaned_saw (h : Cleaned ks t) (hc : k ≠ .mqttclean) (hk : k ∉ ks) (d : List Char) :
    Cleaned (ks ++ [k]) (t ++ [.sent k d] ++ [.saw k]) := by
  obtain ⟨p, d', q, rfl, hq, ht⟩ := h
  refine ⟨p, d', q ++ [.sent k d] ++ [.saw k], ?_, ?_, tried_saw ht hk d⟩
  · simp only [List.append_assoc, List.cons_append]
  · refine noSent_concat (noSent_concat hq fun e he => ?_) fun e he => ?_
    · exact hc (Mark.sent.inj he).1
    · cases he

/-- The exchanges that step `n` rests on belong to earlier steps. -/
theorem step_lt_of_mem_wifi {n : ℕ} (h : k ∈ [Job.at, .cwmode, .cwjap].take n) : k.step < n := by
  match n with
  | 0 => cases h
  | 1 => revert k; decide
  | 2 => revert k; decide
  | n + 3 =>
    have hall : ∀ k ∈ [Job.at, .cwmode, .cwjap], k.step < 3 := by decide
    have := hall k (List.mem_of_mem_take h)
    omega

theorem step_lt_of_mem_mqtt {n : ℕ} (h4 : 4 ≤ n)
    (h : k ∈ [Job.mqttusercfg, .mqttclientid, .mqttconn].take (n - 4)) : k.step < n := by
  obtain ⟨j, rfl⟩ := Nat.exists_eq_add_of_le h4
  rw [Nat.add_sub_cancel_left] at h
  match j with
  | 0 => cases h
  | 1 => revert k; decide
  | 2 => revert k; decide
  | j + 3 =>
    have hall : ∀ k ∈ [Job.mqttusercfg, .mqttclientid, .mqttconn], k.step < 7 := by decide
    have := hall k (List.mem_of_mem_take h)
    omega

/-- A mark that is no attempt of an earlier step. -/
theorem ready_concat {n : ℕ} (h : Ready n t) (hm : ∀ k d, m = .sent k d → n ≤ k.step) :
    Ready n (t ++ [m]) where
  wifi := tried_concat h.wifi fun k hk d he =>
    absurd (hm k d he) (Nat.not_le.mpr (step_lt_of_mem_wifi hk))
  mqtt h4 := by
    refine cleaned_concat (h.mqtt h4) (fun d he => ?_) fun k hk d he => ?_
    · exact absurd (hm _ d he) (Nat.not_le.mpr h4)
    · exact absurd (hm k d he) (Nat.not_le.mpr (step_lt_of_mem_mqtt h4 hk))

/-- Back to step 3. -/
theorem ready_three {n : ℕ} (h : Ready n t) (hn : 3 ≤ n) : Ready 3 t where
  wifi := by
    have hw := h.wifi
    rwa [List.take_of_length_le hn] at hw
  mqtt h4 := absurd h4 (by decide)

/-- A missed attempt of the current step. -/
theorem ready_missed (h : Ready k.step t) (d : List Char) :
    Ready k.step (t ++ [.sent k d] ++ [.missed k]) := by
  refine ready_concat (ready_concat h fun k' d' he => ?_) fun k' d' he => ?_
  · rw [(Mark.sent.inj he).1]
  · cases he

/-- The exchanges of the steps 0 to 2. -/
theorem ready_saw_wifi (hk : k ∈ [Job.at, .cwmode, .cwjap]) (h : Ready k.step t) (d : List Char) :
    Ready (k.step + 1) (t ++ [.sent k d] ++ [.saw k]) where
  wifi := by
    have hlist : ∀ k ∈ [Job.at, .cwmode, .cwjap], k ∉ [Job.at, .cwmode, .cwjap].take k.step ∧
        [Job.at, .cwmode, .cwjap].take (k.step + 1) = [Job.at, .cwmode, .cwjap].take k.step ++ [k] := by
      decide
    rw [(hlist k hk).2]
    exact tried_saw h.wifi (hlist k hk).1 d
  mqtt h4 := by
    have hall : ∀ k ∈ [Job.at, .cwmode, .cwjap], ¬ 4 ≤ k.step + 1 := by decide
    exact absurd h4 (hall k hk)

/-- Step 3, whatever the outcome. -/
theorem ready_cleaned (h : Ready 3 t) (d : List Char) (hm : ∀ k d, m ≠ .sent k d) :
    Ready 4 (t ++ [.sent .mqttclean d] ++ [m]) where
  wifi := by
    refine tried_concat (tried_concat h.wifi fun k hk d' he => ?_) fun k _ d' he => absurd he (hm k d')
    have hall : ∀ k ∈ [Job.at, .cwmode, .cwjap], k ≠ .mqttclean := by decide
    exact hall k hk (Mark.sent.inj he).1.symm
  mqtt _ := by
    refine ⟨t, d, [m], List.append_assoc t [_] [_], fun d' hd' => ?_, trivial⟩
    exact hm _ d' (List.mem_singleton.mp hd').symm

/-- The exchanges of the steps 4 to 6. -/
theorem ready_saw_mqtt (hk : k ∈ [Job.mqttusercfg, .mqttclientid, .mqttconn]) (h : Ready k.step t)
    (d : List Char) : Ready (k.step + 1) (t ++ [.sent k d] ++ [.saw k]) := by
  have h4 : ∀ k ∈ [Job.mqttusercfg, .mqttclientid, .mqttconn], 4 ≤ k.step ∧ k ≠ .mqttclean ∧
      k ∉ [Job.at, .cwmode, .cwjap] := by decide
  have hlist : ∀ k ∈ [Job.mqttusercfg, .mqttclientid, .mqttconn],
      k ∉ [Job.mqttusercfg, .mqttclientid, .mqttconn].take (k.step - 4) ∧
      [Job.mqttusercfg, .mqttclientid, .mqttconn].take (k.step + 1 - 4) =
        [Job.mqttusercfg, .mqttclientid, .mqttconn].take (k.step - 4) ++ [k] := by decide
  obtain ⟨hle, hclean, hwifi⟩ := h4 k hk
  refine ⟨?_, fun _ => ?_⟩
  · have hw := h.wifi
    rw [List.take_of_length_le (show 3 ≤ k.step by omega)] at hw
    rw [List.take_of_length_le (show 3 ≤ k.step + 1 by omega)]
    refine tried_concat (tried_concat hw fun j hj d' he => ?_) fun j _ d' he => ?_
    · exact hwifi ((Mark.sent.inj he).1 ▸ hj)
    · cases he
  · rw [(hlist k hk).2]
    exact cleaned_saw (h.mqtt hle) hclean (hlist k hk).1 d

end History

/-! ## The history at every point -/

/-- What the command of an exchange begins with. -/
def Job.name : Job → List Char
  | .at => "AT".toList
  | .cwmode => "AT+CWMODE=".toList
  | .cwjap => "AT+CWJAP=".toList
  | .mqttclean => "AT+MQTTCLEAN=".toList
  | .mqttusercfg => "AT+MQTTUSERCFG=".toList
  | .mqttclientid => "AT+MQTTCLIENTID=".toList
  | .mqttconn => "AT+MQTTCONN=".toList
  | .mqttpubraw => "AT+MQTTPUBRAW=".toList
  | .payload => []

/-- The last mark is the attempt at `k`. -/
def Waiting (k : Job) (t : List Mark) : Prop := ∃ p d, t = p ++ [.sent k d] ∧ Ready k.step p

/-- The history at a point of the thread. -/
def Ordered (s : Sys) (t : List Mark) : Prop :=
  match s.pc with
  | .boot => s.cloudTaskStep ≤ 7 ∧ Ready s.cloudTaskStep t
  | .dispatch => s.cloudTaskStep ≤ 7 ∧ Ready s.cloudTaskStep t
  | .clearData k => s.cloudTaskStep = k.step ∧ Ready k.step t ∧ k.name <+: k.command s
  | .clearIndex k => s.cloudTaskStep = k.step ∧ Ready k.step t ∧ k.name <+: k.command s
  | .sendCmd k => s.cloudTaskStep = k.step ∧ Ready k.step t ∧ k.name <+: k.command s
  | .sendCrlf k => s.cloudTaskStep = k.step ∧ Waiting k t
  | .startTick k => s.cloudTaskStep = k.step ∧ Waiting k t
  | .loop k _ => s.cloudTaskStep = k.step ∧ Waiting k t
  | .poll k _ => s.cloudTaskStep = k.step ∧ Waiting k t
  | .pollError k _ => s.cloudTaskStep = k.step ∧ Waiting k t
  | .cleaned => s.cloudTaskStep = 3 ∧ Ready 4 t
  | .sendPayload => s.cloudTaskStep = 7 ∧ Ready 7 t
  | .checkDisconnect => s.cloudTaskStep = 7 ∧ Ready 7 t

/-- The end of a wait. -/
theorem ordered_finish {s : Sys} {k : Job} {t : List Mark} (hs : s.cloudTaskStep = k.step)
    (h : Waiting k t) (ok : Bool) :
    Ordered (finish s k ok) (t ++ [if ok then .saw k else .missed k]) := by
  obtain ⟨p, d, rfl, hp⟩ := h
  have hsaw7 : k.step = 7 → Ready 7 (p ++ [.sent k d] ++ [if ok then .saw k else .missed k]) := by
    intro h7
    rw [h7] at hp
    refine ready_concat (ready_concat hp fun k' d' he => ?_) fun k' d' he => ?_
    · rw [← (Mark.sent.inj he).1, h7]
    · cases ok <;> cases he
  have hmiss := ready_missed hp d
  cases k with
  | «at» =>
    cases ok
    · exact ⟨hs.trans_le (by decide), hs ▸ hmiss⟩
    · exact ⟨(by decide : 1 ≤ 7), ready_saw_wifi (by decide) hp d⟩
  | cwmode =>
    cases ok
    · exact ⟨hs.trans_le (by decide), hs ▸ hmiss⟩
    · exact ⟨(by decide : 2 ≤ 7), ready_saw_wifi (by decide) hp d⟩
  | cwjap =>
    cases ok
    · exact ⟨hs.trans_le (by decide), hs ▸ hmiss⟩
    · exact ⟨(by decide : 3 ≤ 7), ready_saw_wifi (by decide) hp d⟩
  | mqttclean =>
    refine ⟨hs, ready_cleaned hp d fun k' d' he => ?_⟩
    cases ok <;> cases he
  | mqttusercfg =>
    cases ok
    · exact ⟨hs.trans_le (by decide), hs ▸ hmiss⟩
    · exact ⟨(by decide : 5 ≤ 7), ready_saw_mqtt (by decide) hp d⟩
  | mqttclientid =>
    cases ok
    · exact ⟨(by decide : 3 ≤ 7), ready_three hmiss (by decide)⟩
    · exact ⟨(by decide : 6 ≤ 7), ready_saw_mqtt (by decide) hp d⟩
  | mqttconn =>
    cases ok
    · exact ⟨(by decide : 3 ≤ 7), ready_three hmiss (by decide)⟩
    · exact ⟨(by decide : 7 ≤ 7), ready_saw_mqtt (by decide) hp d⟩
  | mqttpubraw => cases ok <;> exact ⟨hs, hsaw7 rfl⟩
  | payload =>
    cases ok
    · exact ⟨hs, hsaw7 rfl⟩
    · exact ⟨hs.le, hs ▸ hsaw7 rfl⟩

/-- What a format begins with, its output begins with. -/
theorem prefix_atCmd {l fmt : List Char} (h : l <+: fmt) (hp : '%' ∉ l) (hl : l.length ≤ 255)
    (args : List Arg) : l <+: atCmd ⟨fmt, args⟩ := by
  obtain ⟨r, rfl⟩ := h
  rw [atCmd, Call.text, formatted_plain hp, List.prefix_take_iff]
  exact ⟨List.prefix_append _ _, hl⟩

theorem ordered_dispatch {s : Sys} {t : List Mark} (hs : s.cloudTaskStep ≤ 7)
    (h : Ready s.cloudTaskStep t) (g : Snapshot FVal) : Ordered (dispatch s g) t := by
  unfold dispatch
  split
  next h0 => rw [h0] at h; exact ⟨h0, h, List.prefix_refl _⟩
  next h1 => rw [h1] at h; exact ⟨h1, h, "1".toList, rfl⟩
  next h2 =>
    rw [h2] at h
    exact ⟨h2, h, prefix_atCmd (by decide +kernel) (by decide +kernel) (by decide +kernel) _⟩
  next h3 => rw [h3] at h; exact ⟨h3, h, "0".toList, rfl⟩
  next h4 =>
    rw [h4] at h
    exact ⟨h4, h, prefix_atCmd (by decide +kernel) (by decide +kernel) (by decide +kernel) _⟩
  next h5 =>
    rw [h5] at h
    exact ⟨h5, h, prefix_atCmd (by decide +kernel) (by decide +kernel) (by decide +kernel) _⟩
  next h6 =>
    rw [h6] at h
    exact ⟨h6, h, prefix_atCmd (by decide +kernel) (by decide +kernel) (by decide +kernel) _⟩
  next h7 =>
    rw [h7] at h
    exact ⟨h7, h, prefix_atCmd (by decide +kernel) (by decide +kernel) (by decide +kernel) _⟩
  next =>
    simp only [imp_false] at *
    omega

/-- What a mark rests on in the trace before it. -/
structure Allowed (p : List Mark) (m : Mark) : Prop where
  name : ∀ k d, m = .sent k d → k.name <+: d
  pubraw : ∀ d, m = .sent .mqttpubraw d → Cleaned [.mqttusercfg, .mqttclientid, .mqttconn] p
  clean : ∀ d, m = .sent .mqttclean d → Tried [.at, .cwmode, .cwjap] p

/-- An attempt of a step that its history allows. -/
theorem allowed_sent {k : Job} {t : List Mark} {d : List Char} (h : Ready k.step t)
    (hd : k.name <+: d) : Allowed t (.sent k d) where
  name k' d' he := by
    obtain ⟨rfl, rfl⟩ := Mark.sent.inj he
    exact hd
  pubraw d' he := by
    obtain ⟨rfl, -⟩ := Mark.sent.inj he
    exact h.mqtt (by decide)
  clean d' he := by
    obtain ⟨rfl, -⟩ := Mark.sent.inj he
    exact h.wifi

theorem allowed_saw (t : List Mark) (k : Job) : Allowed t (.saw k) where
  name k' d he := by cases he
  pubraw d he := by cases he
  clean d he := by cases he

theorem allowed_missed (t : List Mark) (k : Job) : Allowed t (.missed k) where
  name k' d he := by cases he
  pubraw d he := by cases he
  clean d he := by cases he

/-- What a turn from `s` to `s'` must show: the history of `s'`, and that its mark is allowed. -/
structure Marked (s s' : Sys) (t : List Mark) : Prop where
  ordered : Ordered s' (t ++ (mark s).toList)
  allowed : ∀ m ∈ mark s, Allowed t m

theorem marked_none {s s' : Sys} {t : List Mark} (hm : mark s = none) (h : Ordered s' t) :
    Marked s s' t where
  ordered := by rwa [hm, Option.toList_none, List.append_nil]
  allowed := by rw [hm]; exact nofun

theorem marked_some {s s' : Sys} {t : List Mark} {m : Mark} (hm : mark s = some m)
    (h : Ordered s' (t ++ [m])) (ha : Allowed t m) : Marked s s' t where
  ordered := by rwa [hm]
  allowed := by
    intro m' hm'
    rw [hm, Option.mem_some_iff] at hm'
    exact hm' ▸ ha

/-- **A turn keeps the history**, and its mark is allowed. -/
theorem marked_cloudTurn {s : Sys} {t : List Mark} (h : Ordered s t) (g : Snapshot FVal) :
    Marked s (cloudTurn s g) t := by
  unfold Ordered at h
  unfold cloudTurn
  split <;> rename_i hp <;> rw [hp] at h
  · exact marked_none (by rw [mark, hp]) h
  · exact marked_none (by rw [mark, hp]) (ordered_dispatch h.1 h.2 g)
  · exact marked_none (by rw [mark, hp]) h
  · exact marked_none (by rw [mark, hp]) h
  · refine marked_some (by rw [mark, hp]) ⟨h.1, t, _, rfl, h.2.1⟩ (allowed_sent h.2.1 h.2.2)
  · exact marked_none (by rw [mark, hp]) h
  · exact marked_none (by rw [mark, hp]) h
  · next k start =>
    split_ifs with ht
    · exact marked_none (by rw [mark, hp]; exact if_pos ht) h
    · refine marked_some (by rw [mark, hp]; exact if_neg ht) ?_ (allowed_missed t k)
      exact ordered_finish h.1 h.2 false
  · next k start =>
    split_ifs with hf he
    · refine marked_some (by rw [mark, hp]; exact if_pos hf) ?_ (allowed_saw t k)
      exact ordered_finish h.1 h.2 true
    · exact marked_none (by rw [mark, hp]; exact if_neg hf) h
    · exact marked_none (by rw [mark, hp]; exact if_neg hf) h
  · next k start =>
    split_ifs with he
    · refine marked_some (by rw [mark, hp]; exact if_pos he) ?_ (allowed_missed t k)
      exact ordered_finish h.1 h.2 false
    · exact marked_none (by rw [mark, hp]; exact if_neg he) h
  · exact marked_none (by rw [mark, hp]) ⟨(by decide : 4 ≤ 7), h.2⟩
  · exact marked_some (by rw [mark, hp]) ⟨h.1, t, _, rfl, h.2⟩
      (allowed_sent (k := .payload) h.2 List.nil_prefix)
  · refine marked_none (by rw [mark, hp]) ?_
    dsimp only
    split_ifs
    · exact ⟨(by decide : 3 ≤ 7), ready_three h.2 (by decide)⟩
    · exact ⟨h.1.le, h.1.symm ▸ h.2⟩

/-! ## Runs -/

theorem cloudTaskStep_le_of_ordered {s : Sys} {t : List Mark} (h : Ordered s t) :
    s.cloudTaskStep ≤ 7 := by
  have hk : ∀ k : Job, k.step ≤ 7 := by intro k; cases k <;> decide
  unfold Ordered at h
  split at h
  next => exact h.1
  next => exact h.1
  all_goals first | exact h.1.le.trans (hk _) | exact h.1.le.trans (by decide)

/-- The receive buffer and the time have no part in the history. -/
theorem ordered_congr {s s' : Sys} {t : List Mark} (h : Ordered s t) (hp : s'.pc = s.pc)
    (hs : s'.cloudTaskStep = s.cloudTaskStep) (hc : s'.atCmdBuf = s.atCmdBuf) : Ordered s' t := by
  have hcmd : ∀ k : Job, k.command s' = k.command s := by
    intro k
    cases k <;> first | rfl | exact hc
  unfold Ordered at h ⊢
  rw [hp, hs]
  simp only [hcmd]
  exact h

theorem ordered_tracedTurn {x : Traced} (h : Ordered x.sys x.trace) (u : Uart4) (e : Event) :
    Ordered (tracedTurn x u e).sys (tracedTurn x u e).trace ∧
    (Guarded Allowed x.trace → Guarded Allowed (tracedTurn x u e).trace) := by
  have hu : Ordered { x.sys with uart := u } x.trace := ordered_congr h rfl rfl rfl
  unfold tracedTurn
  cases hs : step { x.sys with uart := u } e with
  | none => exact ⟨h, id⟩
  | some s =>
    dsimp only
    cases e with
    | cloud g =>
      obtain rfl := eq_cloudTurn_of_step hs
      have hm := marked_cloudTurn hu g
      refine ⟨hm.ordered, fun hg => ?_⟩
      rw [Event.marks]
      cases hmark : mark { x.sys with uart := u } with
      | none => rwa [Option.toList_none, List.append_nil]
      | some m => exact guarded_concat hg (hm.allowed m hmark)
    | rx c =>
      cases hs
      rw [Event.marks, List.append_nil]
      exact ⟨ordered_congr h rfl rfl rfl, id⟩
    | elapse ms =>
      cases hs
      rw [Event.marks, List.append_nil]
      exact ⟨ordered_congr h rfl rfl rfl, id⟩

/-- **Order of the handshake.** Whatever the receive buffer shows at each turn: every command begins
with the name of its exchange; a publish is preceded, since the last `AT+MQTTCLEAN`, by the last
attempts at `MQTTUSERCFG`, `MQTTCLIENTID` and `MQTTCONN`, in this order and each successful; the first
`AT+MQTTCLEAN` is preceded by such attempts at `AT`, `CWMODE` and `CWJAP`; and the step stays in
`0..7`. -/
theorem handshake_ordered (es : List (Uart4 × Event)) :
    (tracedRun es).sys.cloudTaskStep ≤ 7 ∧
    (∀ p k d q, (tracedRun es).trace = p ++ .sent k d :: q → k.name <+: d) ∧
    (∀ p d q, (tracedRun es).trace = p ++ .sent .mqttpubraw d :: q →
      ∃ p' d' r, p = p' ++ .sent .mqttclean d' :: r ∧ NoSent .mqttclean r ∧
        Tried [.mqttusercfg, .mqttclientid, .mqttconn] r) ∧
    (∀ p d q, (tracedRun es).trace = p ++ .sent .mqttclean d :: q → NoSent .mqttclean p →
      Tried [.at, .cwmode, .cwjap] p) := by
  have hinv : Ordered (tracedRun es).sys (tracedRun es).trace ∧
      Guarded Allowed (tracedRun es).trace := by
    refine List.foldlRecOn (motive := fun x : Traced => Ordered x.sys x.trace ∧ Guarded Allowed x.trace)
      es _ ⟨⟨Nat.zero_le 7, trivial, nofun⟩, guarded_nil _⟩ fun x hx e _ => ?_
    obtain ⟨ho, hg⟩ := ordered_tracedTurn hx.1 e.1 e.2
    exact ⟨ho, hg hx.2⟩
  obtain ⟨ho, hg⟩ := hinv
  refine ⟨cloudTaskStep_le_of_ordered ho, ?_, ?_, ?_⟩
  · intro p k d q hq
    exact (hg p _ q hq).name k d rfl
  · intro p d q hq
    exact (hg p _ q hq).pubraw d rfl
  · intro p d q hq _
    exact (hg p _ q hq).clean d rfl

end PipeGallery.Esp
