import Mathlib.Tactic.Ring
import Mathlib.Data.List.TakeDrop
import Mathlib.Data.UInt
import PipeGallery.Methane.Model

set_option autoImplicit false

/-!
# Methane sensor — the reference scan

A byte stream is cut, from the left, into skipped bytes, complete 19-byte candidates that start
with `AC AC`, and an incomplete tail; a lone `AC` followed by another byte consumes both. The scan
judges the candidates one after another. This is what the two parsers are for, written over whole
streams; `Refine` shows that they compute it.

* `Segment`, `segments`, `bytes_segments`: the cut, and that it is a cut;
* `Accepted`, `judge`, `verdicts`, `scan`: the judged candidates and the globals they leave.
-/

namespace PipeGallery.Methane

/-- A piece of the stream. -/
inductive Segment where
  | skip (bs : List Byte)
  | candidate (bs : List Byte)
  | tail (bs : List Byte)
  deriving DecidableEq, Repr

/-- The bytes of a piece. -/
def Segment.bytes : Segment → List Byte
  | .skip bs => bs
  | .candidate bs => bs
  | .tail bs => bs

/-- Cut a stream into pieces. -/
def segments : List Byte → List Segment
  | [] => []
  | [a] => if a = 0xAC then [.tail [a]] else [.skip [a]]
  | a :: b :: bs =>
    if a ≠ 0xAC then .skip [a] :: segments (b :: bs)
    else if b ≠ 0xAC then .skip [a, b] :: segments bs
    else if 17 ≤ bs.length then .candidate (a :: b :: bs.take 17) :: segments (bs.drop 17)
    else [.tail (a :: b :: bs)]
  termination_by bs => bs.length
  decreasing_by
    all_goals simp only [List.length_cons, List.length_drop]
    all_goals omega

/-- The pieces are the stream: nothing is lost, nothing is used twice. -/
theorem bytes_segments (bs : List Byte) : (segments bs).flatMap Segment.bytes = bs := by
  induction bs using segments.induct with
  | case1 => simp [segments]
  | case2 => simp [segments, Segment.bytes]
  | case3 a h => simp [segments, Segment.bytes, h]
  | case4 a b bs h ih =>
    rw [segments, if_pos h, List.flatMap_cons, ih]
    rfl
  | case5 a b bs h h' ih =>
    rw [segments, if_neg h, if_pos h', List.flatMap_cons, ih]
    rfl
  | case6 a b bs h h' hl ih =>
    rw [segments, if_neg h, if_neg h', if_pos hl, List.flatMap_cons, ih]
    simp [Segment.bytes]
  | case7 a b bs h h' hl =>
    rw [segments, if_neg h, if_neg h', if_neg hl]
    simp [Segment.bytes]

/-- The complete candidates of a cut. -/
def candidates : List Segment → List (List Byte)
  | [] => []
  | .candidate c :: ss => c :: candidates ss
  | .skip _ :: ss => candidates ss
  | .tail _ :: ss => candidates ss

theorem length_of_mem_candidates {bs c : List Byte} (h : c ∈ candidates (segments bs)) :
    c.length = 19 := by
  induction bs using segments.induct with
  | case1 => simp [segments, candidates] at h
  | case2 => simp [segments, candidates] at h
  | case3 a ha => simp [segments, candidates, ha] at h
  | case4 a b bs ha ih =>
    rw [segments, if_pos ha] at h
    exact ih h
  | case5 a b bs ha hb ih =>
    rw [segments, if_neg ha, if_pos hb] at h
    exact ih h
  | case6 a b bs ha hb hl ih =>
    rw [segments, if_neg ha, if_neg hb, if_pos hl] at h
    rcases List.mem_cons.mp h with rfl | h
    · simp [hl]
    · exact ih h
  | case7 a b bs ha hb hl =>
    rw [segments, if_neg ha, if_neg hb, if_neg hl] at h
    simp [candidates] at h

/-- A candidate is accepted: `AC AC 13 AA` in front, the sum of the first 18 bytes at the end. -/
def Accepted (c : List Byte) : Prop :=
  c.take 4 = [0xAC, 0xAC, 0x13, 0xAA] ∧ c.getD 18 0 = (c.take 18).sum

instance (c : List Byte) : Decidable (Accepted c) := by unfold Accepted; infer_instance

/-- Publish the fields of an accepted candidate, count a rejected one. -/
def judge (g : Globals) (c : List Byte) : Globals :=
  if Accepted c then
    { ppm := (c.getD 11 0).toUInt16 * 256 + (c.getD 10 0).toUInt16
      lel := c.getD 12 0
      status := c.getD 13 0
      dataValid := true
      validFrames := g.validFrames + 1
      invalidFrames := g.invalidFrames }
  else { g with invalidFrames := g.invalidFrames + 1 }

/-- The judged candidates, in order. -/
def verdicts : Globals → List (List Byte) → List Check
  | _, [] => []
  | g, c :: cs => ⟨c, decide (Accepted c), judge g c⟩ :: verdicts (judge g c) cs

/-- **The reference scan**: the globals left by a stream. -/
def scan (g : Globals) (bs : List Byte) : Globals := (candidates (segments bs)).foldl judge g

theorem mem_verdicts_frame {g : Globals} {cs : List (List Byte)} {k : Check}
    (h : k ∈ verdicts g cs) : k.frame ∈ cs ∧ k.accepted = decide (Accepted k.frame) ∧
      ∃ g', k.after = judge g' k.frame := by
  induction cs generalizing g with
  | nil => simp [verdicts] at h
  | cons c cs ih =>
    rcases List.mem_cons.mp h with rfl | h
    · exact ⟨List.mem_cons_self, rfl, g, rfl⟩
    · exact ⟨List.mem_cons_of_mem _ (ih h).1, (ih h).2⟩

theorem exists_mem_verdicts {g : Globals} {cs : List (List Byte)} {c : List Byte} (h : c ∈ cs) :
    ∃ k ∈ verdicts g cs, k.frame = c := by
  induction cs generalizing g with
  | nil => simp at h
  | cons a cs ih =>
    rcases List.mem_cons.mp h with rfl | h
    · exact ⟨_, List.mem_cons_self, rfl⟩
    · obtain ⟨k, hk, hc⟩ := ih (g := judge g a) h
      exact ⟨k, List.mem_cons_of_mem _ hk, hc⟩

/-- The four published values. -/
def Globals.published (g : Globals) : UInt16 × UInt8 × UInt8 × Bool :=
  (g.ppm, g.lel, g.status, g.dataValid)

theorem published_judge_of_not {g : Globals} {c : List Byte} (h : ¬ Accepted c) :
    (judge g c).published = g.published := by
  rw [judge, if_neg h]
  rfl

/-- **Only accepted candidates change a published value.** -/
theorem published_scan_of_rejected {g : Globals} {bs : List Byte}
    (h : ∀ c ∈ candidates (segments bs), ¬ Accepted c) : (scan g bs).published = g.published := by
  unfold scan
  generalize candidates (segments bs) = cs at h
  induction cs generalizing g with
  | nil => rfl
  | cons c cs ih =>
    rw [List.foldl_cons, ih fun c' hc' => h c' (List.mem_cons_of_mem _ hc'),
      published_judge_of_not (h c List.mem_cons_self)]

end PipeGallery.Methane
