import PipeGallery.Esp.Disconnect

set_option autoImplicit false

/-!
# The cloud thread — whose reply it was

The module answers the commands in order, each with a reply that ends in `OK` or `ERROR`, after any
delay. The thread looks for `OK` in whatever has arrived since it cleared the buffer.

* `Link`, `LinkEvent`, `linkStep`: the thread, the commands that wait for an answer, the reply bytes
  on their way, and the answers given since the step was entered;
* `Exclusive`: an exchange starts when no reply is outstanding, and a refusal contains no `OK`;
* `Answer`, `LinkInv`: during an exchange the buffer holds a part of its own reply;
* **`credited_of_exclusive`**: then the steps 1, 2, 5 and 6 are entered on an `OK` to a command of
  the step before them;
* **`not_credited_late_reply`**: two attempts of step 0 and one late reply take the thread to step 2.
-/

namespace PipeGallery.Esp

open Report Lib

/-! ## The module -/

/-- The last line of a reply. -/
def lastLine (ok : Bool) : List Char := if ok then "OK\r\n".toList else "ERROR\r\n".toList

/-- The thread and the module. -/
structure Link where
  sys : Sys := {}
  /-- the commands the module has not answered, in order -/
  pending : List Job := []
  /-- reply bytes on their way -/
  wire : List Char := []
  /-- the answers given since the step was entered, `true` for `OK` -/
  answered : List (Job × Bool) := []

/-- A turn of the thread, time, an answer of the module, or the arrival of a byte. -/
inductive LinkEvent where
  | cloud (g : Snapshot FVal)
  | elapse (ms : ℕ)
  | reply (lines : List Char) (ok : Bool)
  | deliver

/-- A command is received with its line end. -/
def Link.received (l : Link) : List Job :=
  match l.sys.pc with
  | .sendCrlf k => l.pending ++ [k]
  | _ => l.pending

def linkStep (l : Link) : LinkEvent → Option Link
  | .cloud g => (step l.sys (.cloud g)).map fun s' =>
    { l with
      sys := s'
      pending := l.received
      answered := if s'.cloudTaskStep = l.sys.cloudTaskStep then l.answered else [] }
  | .elapse ms => (step l.sys (.elapse ms)).map fun s' => { l with sys := s' }
  | .reply lines ok =>
    match l.pending with
    | [] => none
    | k :: ks => some { l with
      pending := ks, wire := l.wire ++ (lines ++ lastLine ok), answered := l.answered ++ [(k, ok)] }
  | .deliver =>
    match l.wire with
    | [] => none
    | c :: w => (step l.sys (.rx c)).map fun s' => { l with sys := s', wire := w }

theorem linkStep_cloud {l l' : Link} {g : Snapshot FVal} (h : linkStep l (.cloud g) = some l') :
    l' = { l with
      sys := cloudTurn l.sys g
      pending := l.received
      answered := if (cloudTurn l.sys g).cloudTaskStep = l.sys.cloudTaskStep then l.answered
        else [] } := by
  obtain ⟨s', hs', rfl⟩ := Option.map_eq_some_iff.mp h
  rw [eq_cloudTurn_of_step hs']

theorem linkStep_reply {l l' : Link} {lines : List Char} {ok : Bool}
    (h : linkStep l (.reply lines ok) = some l') : ∃ k ks, l.pending = k :: ks ∧ l' = { l with
      pending := ks, wire := l.wire ++ (lines ++ lastLine ok), answered := l.answered ++ [(k, ok)] } := by
  cases hp : l.pending with
  | nil => simp [linkStep, hp] at h
  | cons k ks =>
    simp only [linkStep, hp, Option.some.injEq] at h
    exact ⟨k, ks, rfl, h.symm⟩

theorem linkStep_deliver {l l' : Link} (h : linkStep l .deliver = some l') :
    ∃ c w, l.wire = c :: w ∧
      l' = { l with sys := { l.sys with uart := l.sys.uart.receive c }, wire := w } := by
  cases hw : l.wire with
  | nil => simp [linkStep, hw] at h
  | cons c w =>
    simp only [linkStep, hw, step, Option.map_some, Option.some.injEq] at h
    exact ⟨c, w, rfl, h.symm⟩

/-- The exchange that starts with the next turn, if it is one that is credited with an `OK`. -/
def Pc.starts : Pc → Bool
  | .clearData k => k.credits.isSome
  | _ => false

/-- **The condition on an event**: an exchange of step 0, 1, 4 or 5 starts only when every earlier
command is answered and every reply byte has arrived; a reply that ends in `ERROR` does not contain
`OK`. -/
def Exclusive (l : Link) : LinkEvent → Prop
  | .cloud _ => l.sys.pc.starts = true → l.pending = [] ∧ l.wire = []
  | .reply lines ok => ok = false → ¬ "OK".toList <:+: lines ++ lastLine ok
  | _ => True

instance (l : Link) : ∀ e, Decidable (Exclusive l e)
  | .cloud _ => inferInstanceAs (Decidable (_ → _ ∧ _))
  | .reply _ _ => inferInstanceAs (Decidable (_ → _))
  | .elapse _ => inferInstanceAs (Decidable True)
  | .deliver => inferInstanceAs (Decidable True)

/-! ## During an exchange -/

/-- Nothing outstanding, and an empty buffer. -/
structure Quiet (l : Link) : Prop where
  pending : l.pending = []
  wire : l.wire = []
  data : ∀ i, l.sys.uart.data i = '\x00'

/-- A reply to the exchange `k` has arrived in part; the buffer holds this part and nothing else. -/
structure Arriving (k : Job) (l : Link) : Prop where
  pending : l.pending = []
  clear : ∀ i, l.sys.uart.index ≤ i → l.sys.uart.data i = '\x00'
  reply : ∃ arrived lines ok, arrived ++ l.wire = lines ++ lastLine ok ∧
    l.sys.uart.stored = arrived.take 255 ∧ (k, ok) ∈ l.answered ∧
      (ok = false → ¬ "OK".toList <:+: lines ++ lastLine ok)

/-- The command of the exchange is not answered, or its reply is arriving. -/
def Answer (k : Job) (l : Link) : Prop :=
  (l.pending = [k] ∧ l.wire = [] ∧ l.sys.uart.index = 0 ∧ ∀ i, l.sys.uart.data i = '\x00') ∨
    Arriving k l

/-- The phases of an exchange. -/
inductive Phase where
  | cleared (k : Job)
  | ready (k : Job)
  | waiting (k : Job)
  | other

def Pc.phase : Pc → Phase
  | .clearIndex k => .cleared k
  | .sendCmd k => .ready k
  | .sendCrlf k => .ready k
  | .startTick k => .waiting k
  | .loop k _ => .waiting k
  | .poll k _ => .waiting k
  | .pollError k _ => .waiting k
  | _ => .other

/-- What holds in each phase of an exchange that is credited with an `OK`. -/
def PhaseInv (l : Link) : Phase → Prop
  | .cleared k => k.credits.isSome → Quiet l
  | .ready k => k.credits.isSome → Quiet l ∧ l.sys.uart.index = 0
  | .waiting k => k.credits.isSome → Answer k l
  | .other => True

/-- The invariant. -/
def LinkInv (l : Link) : Prop := PhaseInv l l.sys.pc.phase

/-- The invariant is about the buffer and the module. -/
theorem PhaseInv.congr {l : Link} {p : Phase} (h : PhaseInv l p) {s : Sys} (hu : s.uart = l.sys.uart) :
    PhaseInv { l with sys := s } p := by
  cases p with
  | cleared k => exact fun hc => ⟨(h hc).1, (h hc).2, by rw [hu]; exact (h hc).3⟩
  | ready k =>
    intro hc
    obtain ⟨⟨h1, h2, h3⟩, h4⟩ := h hc
    exact ⟨⟨h1, h2, by rw [hu]; exact h3⟩, by rw [hu]; exact h4⟩
  | waiting k =>
    intro hc
    rcases h hc with ⟨h1, h2, h3, h4⟩ | ⟨h1, h2, h3⟩
    · exact Or.inl ⟨h1, h2, by rw [hu]; exact h3, by rw [hu]; exact h4⟩
    · exact Or.inr ⟨h1, by rw [hu]; exact h2, by rw [hu]; exact h3⟩
  | other => trivial

/-- Bytes come only while a reply is arriving. -/
theorem Answer.deliver {k : Job} {l : Link} (h : Answer k l) {c : Char} {w : List Char}
    (hw : l.wire = c :: w) :
    Answer k { l with sys := { l.sys with uart := l.sys.uart.receive c }, wire := w } := by
  rcases h with ⟨-, hnil, -, -⟩ | ⟨hp, hclear, arrived, lines, ok, he, hst, ha, hno⟩
  · rw [hnil] at hw
    cases hw
  · refine Or.inr ⟨hp, fun i hi => ?_, arrived ++ [c], lines, ok, ?_, ?_, ha, hno⟩
    · have hle : l.sys.uart.index ≤ i := by
        refine le_trans ?_ hi
        rw [← Uart4.length_stored, ← Uart4.length_stored]
        exact (Uart4.stored_prefix_receive _ c).length_le
      exact (Uart4.data_receive c hi).trans (hclear i hle)
    · rw [List.append_assoc, List.singleton_append, ← hw]
      exact he
    · exact Uart4.stored_receive_take hst c

/-- The module answers the command of the exchange. -/
theorem Answer.reply {k k' : Job} {ks : List Job} {l : Link} (h : Answer k l)
    (hp : l.pending = k' :: ks) {lines : List Char} {ok : Bool}
    (hno : ok = false → ¬ "OK".toList <:+: lines ++ lastLine ok) :
    Answer k { l with
      pending := ks, wire := l.wire ++ (lines ++ lastLine ok), answered := l.answered ++ [(k', ok)] } := by
  rcases h with ⟨hk, hw, hi, hd⟩ | h
  · rw [hk] at hp
    obtain ⟨rfl, rfl⟩ := List.cons.inj hp
    refine Or.inr ⟨rfl, fun i _ => hd i, [], lines, ok, by simp [hw], ?_, by simp, hno⟩
    rw [Uart4.stored, hi]
    rfl
  · rw [h.pending] at hp
    cases hp

/-- An `OK` in the buffer was the module's answer to the exchange. -/
theorem Answer.credited {k : Job} {l : Link} (h : Answer k l)
    (hok : strstr l.sys.uart.text "OK".toList = true) : (k, true) ∈ l.answered := by
  have hin : "OK".toList <:+: l.sys.uart.text := of_decide_eq_true hok
  rcases h with ⟨-, -, hi, hd⟩ | ⟨-, hclear, arrived, lines, ok, he, hst, ha, hno⟩
  · have hpre := Uart4.text_prefix_stored (u := l.sys.uart) (by rw [hi]; decide) fun i _ => hd i
    have hnil : l.sys.uart.stored = [] := by rw [Uart4.stored, hi]; rfl
    rw [hnil, List.prefix_nil] at hpre
    rw [hpre] at hin
    exact absurd hin (by decide)
  · have hlt : l.sys.uart.index < recivedDataSize := by
      rw [← Uart4.length_stored, hst, List.length_take]
      exact lt_of_le_of_lt (min_le_left _ _) (by decide)
    have hreply : "OK".toList <:+: lines ++ lastLine ok := by
      refine hin.trans ((Uart4.text_prefix_stored hlt hclear).isInfix.trans ?_)
      rw [hst, ← he]
      exact ((List.take_prefix _ _).trans (List.prefix_append _ _)).isInfix
    cases ok with
    | true => exact ha
    | false => exact absurd hreply (hno rfl)

theorem phase_of_waits {pc : Pc} {k : Job} (h : pc.waits = some k) : pc.phase = .waiting k := by
  cases pc <;> cases h <;> rfl

theorem phase_of_between {pc : Pc} (h : pc.between = true) : pc.phase = .other := by
  cases pc <;> first | rfl | exact absurd h Bool.false_ne_true

/-- Only a line end completes a command. -/
theorem received_eq {l : Link} (h : ∀ k, l.sys.pc ≠ .sendCrlf k) : l.received = l.pending := by
  unfold Link.received
  split
  next k hk => exact absurd hk (h k)
  next => rfl

/-- A turn of the thread keeps the invariant. -/
theorem LinkInv.turn {l : Link} {s' : Sys} (h : LinkInv l)
    (hx : l.sys.pc.starts = true → l.pending = [] ∧ l.wire = []) (ht : Turn l.sys s') :
    LinkInv { l with
      sys := s'
      pending := l.received
      answered := if s'.cloudTaskStep = l.sys.cloudTaskStep then l.answered else [] } := by
  unfold LinkInv at h ⊢
  cases ht with
  | @clearData k hp hp' hu hs =>
    have hrec := received_eq (l := l) (by simp [hp])
    rw [hp'] at *
    intro hc
    obtain ⟨h1, h2⟩ := hx (by rw [hp]; exact hc)
    exact ⟨hrec.trans h1, h2, fun i => by rw [hu]; rfl⟩
  | @clearIndex k hp hp' hu hs =>
    have hrec := received_eq (l := l) (by simp [hp])
    rw [hp] at h
    rw [hp']
    intro hc
    obtain ⟨h1, h2, h3⟩ := h hc
    exact ⟨⟨hrec.trans h1, h2, fun i => by rw [hu]; exact h3 i⟩, by rw [hu]; rfl⟩
  | @sendCmd k hp hp' hu hs =>
    have hrec := received_eq (l := l) (by simp [hp])
    rw [hp] at h
    rw [hp']
    intro hc
    obtain ⟨⟨h1, h2, h3⟩, h4⟩ := h hc
    exact ⟨⟨hrec.trans h1, h2, fun i => by rw [hu]; exact h3 i⟩, by rw [hu]; exact h4⟩
  | @sendCrlf k hp hp' hu hs =>
    have hrec : l.received = l.pending ++ [k] := by rw [Link.received, hp]
    rw [hp] at h
    rw [hp']
    intro hc
    obtain ⟨⟨h1, h2, h3⟩, h4⟩ := h hc
    refine Or.inl ⟨by rw [hrec, h1]; rfl, h2, by rw [hu]; exact h4, fun i => by rw [hu]; exact h3 i⟩
  | @wait k hp hp' hu hs =>
    have hrec := received_eq (l := l) (by intro k' hk; rw [hk] at hp; cases hp)
    rw [phase_of_waits hp] at h
    rw [phase_of_waits hp', hrec, if_pos hs]
    exact h.congr hu
  | prompt hp hp' hu hs => rw [hp']; trivial
  | sendPayload hp hp' hu hs => rw [hp']; exact fun hc => absurd hc (by decide)
  | fail hk hp hp' hu hs => rw [hp']; trivial
  | leave hp' hu => rw [phase_of_between hp']; trivial

/-- **One event keeps the invariant.** -/
theorem LinkInv.linkStep {l l' : Link} {e : LinkEvent} (hx : Exclusive l e) (h : LinkInv l)
    (hs : linkStep l e = some l') : LinkInv l' := by
  unfold LinkInv at h
  cases e with
  | cloud g =>
    rw [linkStep_cloud hs]
    exact LinkInv.turn h hx (turn_cloudTurn _ g)
  | elapse ms =>
    obtain rfl := Option.some.inj hs
    exact h.congr rfl
  | reply lines ok =>
    obtain ⟨k', ks, hp, rfl⟩ := linkStep_reply hs
    change PhaseInv _ l.sys.pc.phase
    cases hph : l.sys.pc.phase <;> rw [hph] at h
    case other => trivial
    case waiting k => exact fun hc => (h hc).reply hp hx
    -- nothing is pending before the command is sent
    case cleared k => exact fun hc => absurd (hp.symm.trans (h hc).pending) (List.cons_ne_nil _ _)
    case ready k => exact fun hc => absurd (hp.symm.trans (h hc).1.pending) (List.cons_ne_nil _ _)
  | deliver =>
    obtain ⟨c, w, hw, rfl⟩ := linkStep_deliver hs
    change PhaseInv _ l.sys.pc.phase
    cases hph : l.sys.pc.phase <;> rw [hph] at h
    case other => trivial
    case waiting k => exact fun hc => (h hc).deliver hw
    case cleared k => exact fun hc => absurd (hw.symm.trans (h hc).wire) (List.cons_ne_nil _ _)
    case ready k => exact fun hc => absurd (hw.symm.trans (h hc).1.wire) (List.cons_ne_nil _ _)

theorem linkInv_boot (now : BitVec 32) : LinkInv { sys := { tick := now } } := trivial

/-- Only a turn of the thread changes the step. -/
theorem exists_cloud_of_step_ne {l l' : Link} {e : LinkEvent} (hs : linkStep l e = some l')
    (hne : l'.sys.cloudTaskStep ≠ l.sys.cloudTaskStep) :
    ∃ g, (cloudTurn l.sys g).cloudTaskStep = l'.sys.cloudTaskStep := by
  cases e with
  | cloud g => exact ⟨g, by rw [linkStep_cloud hs]⟩
  | elapse ms =>
    obtain rfl := Option.some.inj hs
    exact absurd rfl hne
  | reply lines ok =>
    obtain ⟨k, ks, -, rfl⟩ := linkStep_reply hs
    exact absurd rfl hne
  | deliver =>
    obtain ⟨c, w, -, rfl⟩ := linkStep_deliver hs
    exact absurd rfl hne

/-- **Replies are credited to their command**: in every run whose events meet the condition, the
steps 1, 2, 5 and 6 are entered only when the module has answered `OK`, since the step before was
entered, to a command of that step. -/
theorem credited_of_exclusive (now : BitVec 32) (es : List LinkEvent) (l l' : Link) (e : LinkEvent)
    (hx : Along linkStep Exclusive { sys := { tick := now } } es)
    (hr : run linkStep { sys := { tick := now } } es = some l) (hs : linkStep l e = some l')
    (k : Job) (n : ℕ) (hk : k.credits = some n) (hn : l.sys.cloudTaskStep ≠ n)
    (hn' : l'.sys.cloudTaskStep = n) : (k, true) ∈ l.answered := by
  have hI : LinkInv l := run_inv (fun _ _ _ hc hI hs => hI.linkStep hc hs) (linkInv_boot now) hx hr
  obtain ⟨g, hg⟩ := exists_cloud_of_step_ne hs (fun he => hn (he.symm.trans hn'))
  obtain ⟨⟨start, hp⟩, hok⟩ := eq_poll_of_credit hk (hg.trans hn') hn
  unfold LinkInv at hI
  rw [hp] at hI
  have hA : Answer k l := hI (by rw [hk]; rfl)
  exact hA.credited hok

/-! ## Two runs -/

def linkTurns (n : ℕ) : List LinkEvent := List.replicate n (.cloud quietGlobals)

/-- An exchange up to its first search: the module answers `OK`, and its reply arrives. -/
def okExchange : List LinkEvent :=
  linkTurns 7 ++ [.reply [] true] ++ List.replicate 4 .deliver ++ [.elapse 100]

/-- The first exchange of step 0, answered at once. -/
def firstOk : List LinkEvent := linkTurns 1 ++ [.elapse 1000] ++ okExchange

/-- The first attempt of step 0 is not answered in time; its reply comes to the second one, and the
reply to the second one comes in step 1. -/
def lateReply : List LinkEvent :=
  linkTurns 1 ++ [.elapse 1000] ++ linkTurns 7 ++
    (List.replicate 20 (.elapse 100 :: linkTurns 3)).flatten ++ [.elapse 3000] ++
    okExchange ++ linkTurns 1 ++ okExchange

/-- The next turn of the thread leads to step `n`. -/
def Link.leadsTo (l : Link) (n : ℕ) : Bool :=
  (linkStep l (.cloud quietGlobals)).any fun l' => decide (l'.sys.cloudTaskStep = n)

theorem Link.exists_of_leadsTo {l : Link} {n : ℕ} (h : l.leadsTo n = true) :
    ∃ l', linkStep l (.cloud quietGlobals) = some l' ∧ l'.sys.cloudTaskStep = n := by
  obtain ⟨l', hs, hn⟩ := exists_of_any h
  exact ⟨l', hs, of_decide_eq_true hn⟩

theorem credited_of_exclusive_first_ok :
    ∃ l l', run linkStep {} firstOk = some l ∧ linkStep l (.cloud quietGlobals) = some l' ∧
      l.sys.cloudTaskStep = 0 ∧ l'.sys.cloudTaskStep = 1 ∧ (Job.at, true) ∈ l.answered := by
  have hrun : (run linkStep {} firstOk).any (fun l =>
      decide (l.sys.cloudTaskStep = 0 ∧ l.leadsTo 1 = true)) = true := by decide +kernel
  obtain ⟨l, hr, hp⟩ := exists_of_any hrun
  obtain ⟨h0, hlead⟩ := of_decide_eq_true hp
  obtain ⟨l', hs, h1⟩ := Link.exists_of_leadsTo hlead
  have hne : l.sys.cloudTaskStep ≠ 1 := by rw [h0]; decide
  exact ⟨l, l', hr, hs, h0, h1,
    credited_of_exclusive 0 firstOk l l' _ (by decide +kernel) hr hs .at 1 rfl hne h1⟩

/-- **A late reply is credited to the next command**: the reply to the second `AT` takes the thread
from step 1 to step 2, with `AT+CWMODE=1` not answered. -/
theorem not_credited_late_reply :
    ∃ l l', run linkStep {} lateReply = some l ∧ linkStep l (.cloud quietGlobals) = some l' ∧
      l.sys.cloudTaskStep = 1 ∧ l'.sys.cloudTaskStep = 2 ∧ l.answered = [(.at, true)] ∧
      l.pending = [.cwmode] := by
  have hrun : (run linkStep {} lateReply).any (fun l => decide (l.sys.cloudTaskStep = 1 ∧
      l.answered = [(.at, true)] ∧ l.pending = [.cwmode] ∧ l.leadsTo 2 = true)) = true := by
    decide +kernel
  obtain ⟨l, hr, hp⟩ := exists_of_any hrun
  obtain ⟨h1, ha, hpend, hlead⟩ := of_decide_eq_true hp
  obtain ⟨l', hs, h2⟩ := Link.exists_of_leadsTo hlead
  exact ⟨l, l', hr, hs, h1, h2, ha, hpend⟩

end PipeGallery.Esp
