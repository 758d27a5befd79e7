import PipeGallery.Esp.Cloud
import PipeGallery.Lib.Occurs
import PipeGallery.Lib.Runs

set_option autoImplicit false

/-!
# The cloud thread — lost disconnect notices

A report cycle that fails looks for `MQTTDISCONNECTED` in the receive buffer, which the same cycle
has cleared before it sent its command. A notice that came earlier is gone.

* `Log`, `logStep`: the thread with the bytes received since it entered step 7;
* `Room`, `Kept`: the last byte of a notice finds room, and no clear takes a notice away;
* `Pc.collects`, `Held`, `Inv`: between the clear and the search, a notice is in the buffer;
* **`reconnects_of_kept`**: then a failed cycle that follows a notice goes back to step 3;
* **`not_reconnects_notice_in_sleep`**: a notice during the 3 s between two cycles is lost.
-/

namespace PipeGallery.Esp

open Report Lib

/-! ## Bytes since step 7 -/

def disconnected : List Char := "MQTTDISCONNECTED".toList

def connected : List Char := "MQTTCONNECTED".toList

/-- The system, with the bytes received since the transition into step 7. -/
structure Log where
  sys : Sys := {}
  since : List Char := []

/-- The bytes since step 7 after an event that led to `s'`. -/
def Log.next (l : Log) (s' : Sys) : Event → List Char
  | .rx c => l.since ++ [c]
  | _ => if l.sys.cloudTaskStep ≠ 7 ∧ s'.cloudTaskStep = 7 then [] else l.since

def logStep (l : Log) (e : Event) : Option Log := (step l.sys e).map fun s' => ⟨s', l.next s' e⟩

/-- The module has told that the connection is gone, and nothing newer. -/
def Log.Gone (l : Log) : Prop := Unanswered disconnected connected l.since

instance (l : Log) : Decidable l.Gone := inferInstanceAs (Decidable (Unanswered _ _ _))

/-- A report cycle has failed, and its search is next. -/
def Log.Failed (l : Log) : Prop := l.sys.pc = .checkDisconnect

instance (l : Log) : Decidable l.Failed := inferInstanceAs (Decidable (_ = _))

/-! ## The buffer during a report cycle -/

/-- The exchanges of step 7. -/
def Job.reports (k : Job) : Bool := k = .mqttpubraw ∨ k = .payload

/-- The thread is about to complete the clear of a report cycle. -/
def Pc.clearsReport : Pc → Bool
  | .clearIndex k => k.reports
  | _ => false

/-- Between the clear of a report cycle and its search. -/
def Pc.collects : Pc → Bool
  | .sendCmd k => k.reports
  | .sendCrlf k => k.reports
  | .startTick k => k.reports
  | .loop k _ => k.reports
  | .poll k _ => k.reports
  | .pollError k _ => k.reports
  | .sendPayload => true
  | .checkDisconnect => true
  | _ => false

/-- The next byte is stored and visible, and a notice that it completes came behind the clear. -/
def Room (u : Uart4) : Prop := disconnected.length ≤ u.index + 1 ∧ u.index < 255 ∧ '\x00' ∉ u.stored

instance (u : Uart4) : Decidable (Room u) := inferInstanceAs (Decidable (_ ∧ _))

/-- **The condition on an event**: during a report cycle the byte that completes `MQTTDISCONNECTED`
finds room; and a report cycle clears the buffer only when no notice is unanswered. -/
def Kept (l : Log) : Event → Prop
  | .rx c => l.sys.pc.collects = true → disconnected <:+ l.since ++ [c] → Room l.sys.uart
  | .cloud _ => l.sys.pc.clearsReport = true → ¬ l.Gone
  | .elapse _ => True

instance (l : Log) : ∀ e, Decidable (Kept l e)
  | .rx _ => inferInstanceAs (Decidable (_ → _ → _))
  | .cloud _ => inferInstanceAs (Decidable (_ → _))
  | .elapse _ => inferInstanceAs (Decidable True)

/-- A word is visible in the buffer. -/
def Visible (w : List Char) (u : Uart4) : Prop := ∃ v, v <+: u.stored ∧ '\x00' ∉ v ∧ w <:+: v

/-- What a report cycle has received: as long as there is room the buffer holds the end of the
stream, and an unanswered notice is visible in it. -/
structure Held (l : Log) : Prop where
  recent : l.sys.uart.index < 255 → l.sys.uart.stored <:+ l.since
  notice : l.Gone → Visible disconnected l.sys.uart

/-- The invariant. -/
def Inv (l : Log) : Prop := l.sys.uart.index ≤ 255 ∧ (l.sys.pc.collects = true → Held l)

theorem Visible.receive {w : List Char} {u : Uart4} (h : Visible w u) (c : Char) :
    Visible w (u.receive c) := by
  obtain ⟨v, hv, h0, hw⟩ := h
  exact ⟨v, hv.trans (u.stored_prefix_receive c), h0, hw⟩

/-- A visible word is found. -/
theorem Visible.strstr {w : List Char} {u : Uart4} (h : Visible w u) (hi : u.index ≤ 255) :
    strstr u.text w = true := by
  obtain ⟨v, hv, h0, hw⟩ := h
  exact decide_eq_true (hw.trans (u.prefix_text (by unfold recivedDataSize; omega) hv h0).isInfix)

/-- A notice that is completed where there is room is visible. -/
theorem Held.complete {l : Log} (h : Held l) {c : Char} (hroom : Room l.sys.uart)
    (hnew : disconnected <:+ l.since ++ [c]) : Visible disconnected (l.sys.uart.receive c) := by
  obtain ⟨hlen, hlt, h0⟩ := hroom
  have hstored := Uart4.stored_receive hlt c
  have hc : c ≠ '\x00' := by
    obtain ⟨p, hp⟩ : ∃ p, disconnected = p ++ [c] := by
      rcases List.suffix_concat_iff.mp hnew with hnil | ⟨p, hp, -⟩
      · exact absurd hnil (by decide)
      · exact ⟨p, hp⟩
    have hmem : c ∈ disconnected := by rw [hp]; simp
    rintro rfl
    exact absurd hmem (by decide)
  have hsuf : disconnected <:+ l.sys.uart.stored ++ [c] := by
    refine List.suffix_of_suffix_length_le hnew (List.suffix_append_self_iff.mpr (h.recent hlt)) ?_
    rwa [List.length_append, Uart4.length_stored]
  refine ⟨l.sys.uart.stored ++ [c], hstored ▸ List.prefix_refl _, ?_, hsuf.isInfix⟩
  simp [h0, hc.symm]

/-- A byte during a report cycle. -/
theorem Held.rx {l : Log} (h : Held l) {c : Char}
    (hroom : disconnected <:+ l.since ++ [c] → Room l.sys.uart) :
    Held ⟨{ l.sys with uart := l.sys.uart.receive c }, l.since ++ [c]⟩ := by
  refine ⟨fun hlt => ?_, fun hgone => ?_⟩
  · have hi : l.sys.uart.index < 255 := by
      by_contra hfull
      rw [Uart4.receive_of_le (Nat.not_lt.mp hfull)] at hlt
      exact hfull hlt
    rw [Uart4.stored_receive hi]
    exact List.suffix_append_self_iff.mpr (h.recent hi)
  · rcases unanswered_concat (by decide) hgone with hold | hnew
    · exact (h.notice hold).receive c
    · exact h.complete (hroom hnew) hnew

/-- A turn inside a report cycle comes from its clear, or from inside it with the same buffer. -/
theorem collects_turn {s s' : Sys} (h : Turn s s') (hc : s'.pc.collects = true) :
    s'.cloudTaskStep = s.cloudTaskStep ∧
      (s.pc.clearsReport = true ∧ s'.uart = s.uart.clearIndex ∨
        s.pc.collects = true ∧ s'.uart = s.uart) := by
  have hwaits {pc : Pc} {k : Job} (hw : pc.waits = some k) : pc.collects = k.reports := by
    cases pc <;> cases hw <;> rfl
  cases h with
  | clearData hp hp' hu hs =>
    rw [hp'] at hc
    exact absurd hc Bool.false_ne_true
  | clearIndex hp hp' hu hs =>
    rw [hp'] at hc
    exact ⟨hs, Or.inl ⟨by rw [hp]; exact hc, hu⟩⟩
  | sendCmd hp hp' hu hs | sendCrlf hp hp' hu hs =>
    rw [hp'] at hc
    exact ⟨hs, Or.inr ⟨by rw [hp]; exact hc, hu⟩⟩
  | wait hp hp' hu hs =>
    rw [hwaits hp', ← hwaits hp] at hc
    exact ⟨hs, Or.inr ⟨hc, hu⟩⟩
  | prompt hp hp' hu hs => exact ⟨hs, Or.inr ⟨by rw [hwaits hp]; rfl, hu⟩⟩
  | sendPayload hp hp' hu hs => exact ⟨hs, Or.inr ⟨by rw [hp]; rfl, hu⟩⟩
  | fail hk hp hp' hu hs => exact ⟨hs, Or.inr ⟨by rw [hwaits hp]; exact decide_eq_true hk, hu⟩⟩
  | leave hp' hu =>
    exfalso
    revert hc hp'
    cases s'.pc <;> simp [Pc.between, Pc.collects]

/-- The index stays below 256 over a turn. -/
theorem index_turn_le {s s' : Sys} (h : Turn s s') (hi : s.uart.index ≤ 255) :
    s'.uart.index ≤ 255 := by
  cases h with
  | clearIndex _ _ hu _ => rw [hu]; exact Nat.zero_le _
  | clearData _ _ hu _ | sendCmd _ _ hu _ | sendCrlf _ _ hu _ | wait _ _ hu _ | prompt _ _ hu _
  | sendPayload _ _ hu _ | fail _ _ _ hu _ | leave _ hu => rw [hu]; exact hi

theorem Held.congr {l l' : Log} (h : Held l) (hu : l'.sys.uart = l.sys.uart)
    (hs : l'.since = l.since) : Held l' := by
  refine ⟨fun hlt => ?_, fun hgone => ?_⟩
  · rw [hu] at hlt ⊢
    rw [hs]
    exact h.recent hlt
  · rw [hu]
    exact h.notice (show Unanswered _ _ _ from hs ▸ hgone)

/-- A buffer that was cleared when no notice was unanswered. -/
theorem held_of_clear {l : Log} {u : Uart4} (hu : l.sys.uart = u.clearIndex) (hg : ¬ l.Gone) : Held l := by
  refine ⟨fun _ => ?_, fun hgone => absurd hgone hg⟩
  rw [hu, Uart4.stored_clearIndex]
  exact List.nil_suffix

theorem ite_since {l : Log} {n : ℕ} (h : n = l.sys.cloudTaskStep) :
    (if l.sys.cloudTaskStep ≠ 7 ∧ n = 7 then [] else l.since) = l.since :=
  if_neg fun hb => hb.1 (h ▸ hb.2)

/-- **One event keeps the invariant.** -/
theorem Inv.logStep {l l' : Log} {e : Event} (hk : Kept l e) (h : Inv l) (hs : logStep l e = some l') :
    Inv l' := by
  obtain ⟨s', hs', rfl⟩ := Option.map_eq_some_iff.mp hs
  cases e with
  | rx c =>
    obtain rfl := Option.some.inj hs'
    exact ⟨Uart4.index_receive_le h.1 c, fun hc => (h.2 hc).rx (hk hc)⟩
  | elapse ms =>
    obtain rfl := Option.some.inj hs'
    exact ⟨h.1, fun hc => (h.2 hc).congr rfl (ite_since rfl)⟩
  | cloud g =>
    have hturn : Turn l.sys s' := eq_cloudTurn_of_step hs' ▸ turn_cloudTurn l.sys g
    refine ⟨index_turn_le hturn h.1, fun hc => ?_⟩
    obtain ⟨hstep, ⟨hclear, hu⟩ | ⟨hcol, hu⟩⟩ := collects_turn hturn hc
    · have hsince : l.next s' (.cloud g) = l.since := ite_since hstep
      exact held_of_clear (l := ⟨s', _⟩) hu (by rw [hsince]; exact hk hclear)
    · exact (h.2 hcol).congr hu (ite_since hstep)

theorem inv_boot (now : BitVec 32) : Inv { sys := { tick := now } } :=
  ⟨Nat.zero_le _, fun h => absurd h Bool.false_ne_true⟩

/-- **Kept notices are acted on**: in every run whose events meet the condition, a report cycle that
fails after a notice goes back to step 3. -/
theorem reconnects_of_kept (now : BitVec 32) (es : List Event) (l : Log)
    (hk : Along logStep Kept { sys := { tick := now } } es)
    (hr : run logStep { sys := { tick := now } } es = some l) (hf : l.Failed) (hg : l.Gone)
    (g : Snapshot FVal) : (cloudTurn l.sys g).cloudTaskStep = 3 := by
  have hI : Inv l := run_inv (fun _ _ _ hc hI hs => hI.logStep hc hs) (inv_boot now) hk hr
  have hpc : l.sys.pc = .checkDisconnect := hf
  have hfound := ((hI.2 (by rw [hpc]; rfl)).notice hg).strstr hI.1
  rw [cloudTurn, hpc]
  change (Sys.goto (if strstr l.sys.uart.text disconnected then _ else _) _ _).cloudTaskStep = 3
  rw [if_pos hfound]
  rfl

/-! ## Two runs -/

/-- Globals of a node with quiet sensors. -/
def quietGlobals : Snapshot FVal where
  gAdcCh0 := 0
  gAdcCh1 := 0
  gAdcCh3 := 0
  gAdcCh4 := 0
  gAdcCh5 := 0
  gMethanePpm := 0
  gMethaneLel := 0
  voltage _ := .fin 0
  current _ := .fin 0
  flow := .fin 0
  gTemperatureC := .fin 21
  gHumidityRh := .fin 50
  gO2Concentration := .fin 21
  displacement := .fin 0
  gStressValueN := .fin 0
  flame := 0

def turns (n : ℕ) : List Event := List.replicate n (.cloud quietGlobals)

def bytes (s : String) : List Event := s.toList.map .rx

/-- An exchange whose answer comes in the first 100 ms. -/
def exchange (reply : String) : List Event := turns 7 ++ bytes reply ++ [.elapse 100] ++ turns 1

/-- The thread reaches step 7. -/
def connecting : List Event :=
  turns 1 ++ [.elapse 1000] ++ exchange "OK" ++ exchange "OK" ++ exchange "WIFI GOT IP" ++
    exchange "OK" ++ [.elapse 1000] ++ turns 1 ++ exchange "OK" ++ exchange "OK" ++
    exchange "MQTTCONNECTED"

/-- `n` searches that find nothing. -/
def silence (n : ℕ) : List Event := (List.replicate n (.elapse 100 :: turns 2)).flatten

/-- A notice while the thread waits for `>`. -/
def noticeInWait : List Event :=
  connecting ++ turns 7 ++ bytes "MQTTDISCONNECTED" ++ silence 30

/-- A report, a notice during the 3 s behind it, and a cycle without `>`. -/
def noticeInSleep : List Event :=
  connecting ++ exchange ">" ++ turns 3 ++ bytes "+MQTTPUB:OK" ++ [.elapse 100] ++ turns 1 ++
    bytes "MQTTDISCONNECTED" ++ [.elapse 3000] ++ turns 7 ++ silence 30

theorem exists_of_any {α : Type*} {o : Option α} {p : α → Bool} (h : o.any p = true) :
    ∃ a, o = some a ∧ p a = true := by
  cases o with
  | none => exact absurd h Bool.false_ne_true
  | some a => exact ⟨a, rfl, h⟩

theorem reconnects_of_kept_notice_in_wait :
    ∃ l, run logStep {} noticeInWait = some l ∧ l.Failed ∧ l.Gone ∧
      (cloudTurn l.sys quietGlobals).cloudTaskStep = 3 := by
  obtain ⟨l, hr, hp⟩ := exists_of_any (o := run logStep {} noticeInWait)
    (p := fun l => decide (l.Failed ∧ l.Gone)) (by decide +kernel)
  obtain ⟨hf, hg⟩ := of_decide_eq_true hp
  exact ⟨l, hr, hf, hg, reconnects_of_kept 0 noticeInWait l (by decide +kernel) hr hf hg quietGlobals⟩

/-- **A notice during the 3 s between two cycles is lost**: the next cycle fails, and the thread
stays in step 7. -/
theorem not_reconnects_notice_in_sleep :
    ∃ l, run logStep {} noticeInSleep = some l ∧ l.Failed ∧ l.Gone ∧
      (cloudTurn l.sys quietGlobals).cloudTaskStep = 7 := by
  obtain ⟨l, hr, hp⟩ := exists_of_any (o := run logStep {} noticeInSleep)
    (p := fun l => decide (l.Failed ∧ l.Gone ∧ (cloudTurn l.sys quietGlobals).cloudTaskStep = 7))
    (by decide +kernel)
  exact ⟨l, hr, of_decide_eq_true hp⟩

end PipeGallery.Esp
