import PipeGallery.Eth.Client
import PipeGallery.Lib.Lines
import PipeGallery.Report.Decode

set_option autoImplicit false

/-!
# The stream of the Ethernet client

The server reads a stream of lines. A `send` that returns less than the length of its report counts as a
success for the client, and the rest of the report is never sent.

* `sends`, `stream`: what the calls of the client put on a connection;
* `Reported`, `reported_turn`: each `send` is given a report;
* **`server_reads_reports_iff`**: when the server reads the reports that were sent in full.
-/

namespace PipeGallery.Eth

open Report Lib

/-! ## What is on a connection -/

def SockCall.sendsAfter (l : List (List Char × ℤ)) : SockCall → List (List Char × ℤ)
  | .send _ data ret => l ++ [(data, ret)]
  | _ => []

/-- The `send` calls since the last other call: those of the connection, if there is one. -/
def sends (t : List SockCall) : List (List Char × ℤ) := t.foldl SockCall.sendsAfter []

/-- What a call of `send` takes: the first `ret` characters, nothing if it failed. -/
def taken (x : List Char × ℤ) : List Char := x.1.take x.2.toNat

/-- What the server receives on the connection. -/
def stream (t : List SockCall) : List Char := (sends t).flatMap taken

theorem sends_concat (t : List SockCall) (x : SockCall) : sends (t ++ [x]) = x.sendsAfter (sends t) := by
  rw [sends, List.foldl_concat, sends]

/-! ## Every `send` is given a report -/

variable {F : Type*} [CFloat F]

/-- The report of a snapshot as `build_sensor_json` leaves it in `eth_json_buf`. -/
theorem data_buildSensorJson (m : Mem) {s : Snapshot F}
    (hs : ((sensorJsonCalls s).flatMap Call.text).length < 512) :
    (List.range (buildSensorJson 0 m s).pos).map (buildSensorJson 0 m s).mem = reportLine s ++ ['\n'] := by
  have hnil : Written m 0 [] := fun i h => absurd h (Nat.not_lt_zero i)
  have hlen : ([] : List Char).length + ((sensorJsonCalls s).flatMap Call.text).length < 512 := by
    rw [List.length_nil, Nat.zero_add]
    exact hs
  obtain ⟨hpos, hw, -⟩ := @appendAll_fits 0 512 (by decide) (sensorJsonCalls s) { mem := m } [] rfl hnil hlen
  rw [List.nil_append, text_sensorJson_line] at hpos hw
  rw [buildSensorJson, hpos]
  apply List.ext_getElem
  · simp
  · intro i h1 h2
    rw [List.getElem_map, List.getElem_range, ← hw i h2, Nat.zero_add]

/-- A `send` call that was given the report of `r.1` and returned `r.2`. -/
def reported (r : Snapshot F × ℤ) : List Char × ℤ := (reportLine r.1 ++ ['\n'], r.2)

/-- The `send` calls of the connection were given reports of the snapshots of the run. -/
def Reported (rs : List (Snapshot F × ℤ)) (t : List SockCall) : Prop :=
  ∃ l : List (Snapshot F × ℤ), l.Sublist rs ∧ sends t = l.map reported

/-- **Every turn gives `send` a report.** -/
theorem reported_turn {rs : List (Snapshot F × ℤ)} {c : Client} (h : Reported rs c.calls)
    {r : Snapshot F × ℤ} (hr : ((sensorJsonCalls r.1).flatMap Call.text).length < 512) :
    Reported (rs ++ [r]) (c.turn r.1 r.2).calls := by
  obtain ⟨l, hl, hsends⟩ := h
  -- every call but `send` starts with an empty connection
  have hother : ∀ x : SockCall, x.sendsAfter (sends c.calls) = [] → Reported (rs ++ [r]) (c.calls ++ [x]) := by
    intro x hx
    refine ⟨[], List.nil_sublist _, ?_⟩
    rw [sends_concat, hx, List.map_nil]
  rw [Client.calls_turn, Client.pending]
  split
  next =>
    rw [Option.toList_none, List.append_nil]
    exact ⟨l, hl.trans (List.sublist_append_left rs [r]), hsends⟩
  next => exact hother _ rfl
  next => exact hother _ rfl
  next => exact hother _ rfl
  next =>
    refine ⟨l ++ [r], hl.append (List.Sublist.refl _), ?_⟩
    rw [Option.toList_some, sends_concat, SockCall.sendsAfter, data_buildSensorJson _ hr, hsends,
      List.map_append, List.map_singleton, reported]
  next => exact hother _ rfl

theorem reported_clientRun {rs : List (Snapshot F × ℤ)}
    (hs : ∀ r ∈ rs, ((sensorJsonCalls r.1).flatMap Call.text).length < 512) :
    Reported rs (clientRun rs).calls := by
  induction rs using List.reverseRecOn with
  | nil => exact ⟨[], List.Sublist.refl _, rfl⟩
  | append_singleton rs r ih =>
    rw [clientRun, List.foldl_concat]
    apply reported_turn
    · exact ih fun r' hr' => hs r' (List.mem_append_left _ hr')
    · exact hs r (by simp)

/-! ## The lines that the server reads -/

/-- The length that `send` is given for the report of a snapshot. -/
def reportLen (s : Snapshot F) : ℤ := (reportLine s).length + 1

/-- The report as a message, and how much of it `send` took. -/
def message (r : Snapshot F × ℤ) : Message Char := ⟨reportLine r.1, r.2.toNat⟩

theorem whole_message (r : Snapshot F × ℤ) : (message r).Whole ↔ reportLen r.1 ≤ r.2 := by
  simp only [Message.Whole, message, reportLen]
  omega

theorem part_message (r : Snapshot F × ℤ) : (message r).Part ↔ 0 < r.2 ∧ r.2 < reportLen r.1 := by
  simp only [Message.Part, message, reportLen]
  omega

/-- The reports of the acquisition code fit the buffer. -/
theorem reportLen_lt (hF : TenthsExact F) {s : Snapshot F} (hs : Acquired s) : reportLen s < 512 := by
  have h := length_sensorJson_le hF hs
  rw [text_sensorJson_line, List.length_append, List.length_singleton] at h
  rw [reportLen]
  omega

/-- **What the server reads.** In every run of the client in which the reports fit the buffer (`reportLen_lt`),
whatever the socket calls return: each `send` of the connection is given the report of a snapshot of the run, in
order; and the lines that the server reads are the reports that were sent in full, exactly if none of those
follows on the connection a report that was sent in part. -/
theorem server_reads_reports_iff (rs : List (Snapshot F × ℤ)) (hs : ∀ r ∈ rs, reportLen r.1 < 512) :
    ∃ l : List (Snapshot F × ℤ), l.Sublist rs ∧ sends (clientRun rs).calls = l.map reported ∧
      (lines '\n' (stream (clientRun rs).calls) =
          (l.filter fun r => reportLen r.1 ≤ r.2).map (fun r => reportLine r.1) ↔
        l.Pairwise fun a b => 0 < a.2 ∧ a.2 < reportLen a.1 → b.2 < reportLen b.1) := by
  have hfit : ∀ r ∈ rs, ((sensorJsonCalls r.1).flatMap Call.text).length < 512 := by
    intro r hr
    have h := hs r hr
    rw [reportLen] at h
    rw [text_sensorJson_line, List.length_append, List.length_singleton]
    omega
  obtain ⟨l, hl, hsends⟩ := reported_clientRun hfit
  refine ⟨l, hl, hsends, ?_⟩
  have hstream : stream (clientRun rs).calls = (l.map message).flatMap (Message.carried '\n') := by
    rw [stream, hsends, List.flatMap_map, List.flatMap_map]
    rfl
  have hwhole : ((l.map message).filter fun m => m.Whole).map Message.body =
      (l.filter fun r => reportLen r.1 ≤ r.2).map fun r => reportLine r.1 := by
    rw [List.filter_map, List.map_map]
    congr 1
    apply List.filter_congr
    intro r _
    simp [whole_message]
  have hbody : ∀ m ∈ l.map message, '\n' ∉ m.body := by
    intro m hm
    obtain ⟨r, -, rfl⟩ := List.mem_map.mp hm
    exact newline_not_mem_reportLine r.1
  rw [hstream, ← hwhole, lines_eq_iff _ hbody, List.pairwise_map]
  apply iff_of_eq
  congr 1
  ext a b
  rw [part_message, whole_message, not_le]

/-- Two reports of one connection, the first of them cut after 10 characters. -/
theorem server_reads_reports_iff_cut : ∃ l : List (Snapshot FVal × ℤ),
    sends (clientRun [(airSnapshot, 0), (airSnapshot, 0), (airSnapshot, 0), (airSnapshot, 10),
      (airSnapshot, 0), (airSnapshot, 500)]).calls = l.map reported ∧
    (lines '\n' (stream (clientRun [(airSnapshot, 0), (airSnapshot, 0), (airSnapshot, 0), (airSnapshot, 10),
      (airSnapshot, 0), (airSnapshot, 500)]).calls) =
        (l.filter fun r => reportLen r.1 ≤ r.2).map (fun r => reportLine r.1) ↔
      l.Pairwise fun a b => 0 < a.2 ∧ a.2 < reportLen a.1 → b.2 < reportLen b.1) := by
  have hair := reportLen_lt tenthsExact_binary32 acquired_airSnapshot
  obtain ⟨l, -, h1, h2⟩ := server_reads_reports_iff
    [(airSnapshot, 0), (airSnapshot, 0), (airSnapshot, 0), (airSnapshot, 10), (airSnapshot, 0),
      (airSnapshot, 500)] (by simp [hair])
  exact ⟨l, h1, h2⟩

end PipeGallery.Eth
