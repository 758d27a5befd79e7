import PipeGallery.Lib.Runs
import PipeGallery.Lib.Trace
import PipeGallery.Phy.Model

set_option autoImplicit false

/-!
# The reported link state

A poll reports only a change of its cached `phy_speed`; an initialisation reports a link without
touching the cache.

* `Poll.linked`, `Poll.autonego`, `Poll.up`: the bits of a poll;
* `speedNew_link_iff`, `reported_phyLinkchange`: what a poll does;
* `lastUp`, `initSince`, `LinkSound`: when a poll may be reported as it is;
* `Agrees`, `reported_poll_iff`, `Agrees.poll`, `Agrees.init`: the cache and the report, step by step;
* **`reported_iff`**: over every run.
-/

namespace PipeGallery.Phy

open Lib

/-! ## One poll -/

/-- The link-status bit. -/
def Poll.linked (r : Poll) : Bool := decide (r.status &&& phyLinkedStatusMask ≠ 0)

/-- The bit for a completed auto-negotiation. -/
def Poll.autonego (r : Poll) : Bool := decide (r.status &&& phyAutonegoCompleteMask ≠ 0)

/-- The link as `phy_linkchange` sees it. -/
def Poll.up (r : Poll) : Bool := r.autonego || r.linked

theorem up_eq_true_iff {r : Poll} :
    r.up ↔ r.status &&& (phyAutonegoCompleteMask ||| phyLinkedStatusMask) ≠ 0 := by
  rw [Poll.up, Poll.autonego, Poll.linked, Bool.or_eq_true, decide_eq_true_iff, decide_eq_true_iff,
    BitVec.and_or_distrib_left, ← not_and_or]
  exact not_congr BitVec.or_eq_zero_iff.symm

theorem speedNew_of_not_up {r : Poll} (h : r.up = false) : speedNew r = 0 := by
  rw [speedNew, if_neg]
  rw [← up_eq_true_iff, h]
  exact Bool.false_ne_true

/-- The bit `PHY_LINK` of the new speed. -/
theorem speedNew_link_iff {r : Poll} : speedNew r &&& phyLink ≠ 0 ↔ r.up := by
  by_cases h : r.up
  · rw [speedNew, if_pos (up_eq_true_iff.mp h)]
    refine iff_of_true ?_ h
    split_ifs <;> decide
  · rw [speedNew_of_not_up (Bool.eq_false_iff.mpr h)]
    exact iff_of_false (by decide) h

theorem phySpeed_phyLinkchange (r : Poll) (s : Driver) :
    (phyLinkchange r s).phySpeed = speedNew r := by
  unfold phyLinkchange
  split_ifs with hne
  · rfl
  · rfl
  · exact not_ne_iff.mp hne

theorem reported_concat (s : Driver) (calls : List Bool) (b : Bool) (h : s.calls = calls ++ [b]) :
    s.reported = b := by
  rw [Driver.reported, h, List.getLastD_concat]

/-- **A poll reports a change**, and otherwise leaves the last report. -/
theorem reported_phyLinkchange (r : Poll) (s : Driver) :
    (phyLinkchange r s).reported = if s.phySpeed ≠ speedNew r then r.up else s.reported := by
  unfold phyLinkchange
  split_ifs with hne hlink
  · rw [speedNew_link_iff.mp hlink]
    exact reported_concat _ s.calls true rfl
  · rw [speedNew_link_iff, Bool.not_eq_true] at hlink
    rw [hlink]
    exact reported_concat _ s.calls false rfl
  · rfl

/-! ## The history -/

/-- The last poll read the link-status bit set. -/
def lastUp (p : List Event) : Bool :=
  latest (fun | .poll r => some r.linked | .init _ _ => none) false p

/-- The driver was initialised since the last poll. -/
def initSince (p : List Event) : Bool :=
  latest (fun | .poll _ => some false | .init _ _ => some true) false p

/-- A poll after `up` and `since` whose link-status bit is reported: auto-negotiation is complete only on
a link, and no initialisation stands between two polls of a link that is down. -/
def Poll.Sound (r : Poll) (up since : Bool) : Prop :=
  (r.autonego → r.linked) ∧ (r.linked = false → since → up)

/-- The polls of a run are sound. -/
def LinkSound (p : List Event) (e : Event) : Prop :=
  ∀ r, e = .poll r → r.Sound (lastUp p) (initSince p)

/-- After a poll the link state last reported is the link-status bit it read. -/
def Reports (p : List Event) (e : Event) : Prop :=
  ∀ r s, e = .poll r → run step {} (p ++ [e]) = some s → s.reported = r.linked

/-- Every read over MDIO succeeds. -/
def Event.ReadsSucceed : Event → Prop
  | .init _ h =>
    (∀ i, (h.scan i).isSome) ∧ h.modes.isSome ∧ (∀ k, (h.control k).isSome) ∧ h.last.isSome
  | .poll r => r.bsr.isSome ∧ r.sr.isSome

/-! ## Step by step -/

/-- The cache and the report after a run whose last poll read `up`, with an initialisation `since`. -/
structure Agrees (s : Driver) (up since : Bool) : Prop where
  cache : s.phySpeed &&& phyLink ≠ 0 ↔ up
  down : up = false → s.phySpeed = 0
  reported : s.reported = (since || up)

variable {s s' : Driver} {up since : Bool} {r : Poll}

/-- **What the next poll reports.** -/
theorem reported_poll_iff (ha : Agrees s up since) :
    (phyLinkchange r s).reported = r.linked ↔ r.Sound up since := by
  rw [reported_phyLinkchange, Poll.Sound]
  by_cases hup : r.up
  · -- a link up is reported, or was before
    have hrep : (if s.phySpeed ≠ speedNew r then r.up else s.reported) = true := by
      split_ifs with hne
      · exact hup
      · have hcache := ha.cache.mp (not_ne_iff.mp hne ▸ speedNew_link_iff.mpr hup)
        rw [ha.reported, hcache, Bool.or_true]
    rw [hrep]
    constructor
    · intro hl
      rw [← hl]
      exact ⟨fun _ => rfl, fun h => nomatch h⟩
    · rintro ⟨h1, -⟩
      rw [Poll.up, Bool.or_eq_true] at hup
      exact (hup.elim h1 id).symm
  · have hup' := Bool.eq_false_iff.mpr hup
    obtain ⟨han, hl⟩ := Bool.or_eq_false_iff.mp hup'
    rw [hup', hl, han, speedNew_of_not_up hup', ha.reported]
    cases hu : up with
    | false =>
      rw [ha.down hu]
      cases since <;> simp
    | true =>
      have hne : s.phySpeed ≠ 0 := fun h0 => ha.cache.mpr hu (by rw [h0]; decide)
      rw [if_pos hne]
      simp

theorem Agrees.poll (ha : Agrees s up since) (hs : r.Sound up since) :
    Agrees (phyLinkchange r s) r.linked false := by
  have hup : r.up = r.linked := by
    rw [Poll.up]
    cases h : r.autonego with
    | false => rfl
    | true => rw [hs.1 h, Bool.true_or]
  refine ⟨?_, fun h => ?_, ?_⟩
  · rw [phySpeed_phyLinkchange, speedNew_link_iff, hup]
  · rw [phySpeed_phyLinkchange, speedNew_of_not_up (hup.trans h)]
  · rw [(reported_poll_iff ha).mpr hs, Bool.false_or]

/-- An initialisation that ends reports a link. -/
theorem Agrees.init (ha : Agrees s up since) {fuel : ℕ} {h : Mdio} (hlast : h.last.isSome)
    (hs : step s (.init fuel h) = some s') : Agrees s' up true := by
  obtain ⟨v, hv⟩ := Option.isSome_iff_exists.mp hlast
  obtain ⟨⟨status, t⟩, hinit, rfl⟩ := Option.map_eq_some_iff.mp hs
  rw [rtStm32EthInit] at hinit
  obtain ⟨q, -, hq⟩ := Option.map_eq_some_iff.mp hinit
  rw [hv] at hq
  obtain ⟨-, rfl⟩ := Prod.mk.inj hq
  refine ⟨ha.cache, ha.down, ?_⟩
  rw [Bool.true_or]
  exact reported_concat _ s.calls true rfl

/-! ## Whole runs -/

theorem lastUp_concat (p : List Event) (e : Event) :
    lastUp (p ++ [e]) = match e with | .poll r => r.linked | .init _ _ => lastUp p := by
  rw [lastUp, latest_concat]
  cases e <;> rfl

theorem initSince_concat (p : List Event) (e : Event) :
    initSince (p ++ [e]) = match e with | .poll _ => false | .init _ _ => true := by
  rw [initSince, latest_concat]
  cases e <;> rfl

/-- The cache and the report after a run with sound polls. -/
theorem agrees_of_linkSound {es : List Event} (hreads : ∀ e ∈ es, e.ReadsSucceed)
    (hrun : run step {} es = some s) (hsound : Guarded LinkSound es) :
    Agrees s (lastUp es) (initSince es) := by
  induction es using List.reverseRecOn generalizing s with
  | nil =>
    obtain rfl := Option.some.inj hrun
    exact ⟨by decide, fun _ => rfl, rfl⟩
  | append_singleton p e ih =>
    rw [run_concat, Option.bind_eq_some_iff] at hrun
    obtain ⟨t, ht, hstep⟩ := hrun
    obtain ⟨hp, he⟩ := guarded_concat_iff.mp hsound
    have ha := ih (fun x hx => hreads x (List.mem_append_left _ hx)) ht hp
    rw [lastUp_concat, initSince_concat]
    cases e with
    | init fuel h => exact ha.init (hreads _ (List.mem_append_right _ List.mem_cons_self)).2.2.2 hstep
    | poll r =>
      obtain rfl := Option.some.inj hstep
      exact ha.poll (he r rfl)

/-- **When the reported link state is the PHY's**: exactly if every poll is sound. -/
theorem reported_iff {es : List Event} (hreads : ∀ e ∈ es, e.ReadsSucceed)
    (hrun : run step {} es = some s) : Guarded Reports es ↔ Guarded LinkSound es := by
  induction es using List.reverseRecOn generalizing s with
  | nil => exact iff_of_true (guarded_nil _) (guarded_nil _)
  | append_singleton p e ih =>
    rw [run_concat, Option.bind_eq_some_iff] at hrun
    obtain ⟨t, ht, -⟩ := hrun
    have hreads' : ∀ x ∈ p, x.ReadsSucceed := fun x hx => hreads x (List.mem_append_left _ hx)
    rw [guarded_concat_iff, guarded_concat_iff, ih hreads' ht]
    refine and_congr_right fun hp => ?_
    have ha := agrees_of_linkSound hreads' ht hp
    cases e with
    | init fuel h => exact iff_of_true (fun _ _ h => nomatch h) fun _ h => nomatch h
    | poll r =>
      have hrun' : run step {} (p ++ [.poll r]) = some (phyLinkchange r t) := by
        rw [run_concat, ht]
        rfl
      constructor
      · rintro hrep r' ⟨⟩
        exact (reported_poll_iff ha).mp (hrep r _ rfl hrun')
      · rintro hs r' s' ⟨⟩ hs'
        obtain rfl := Option.some.inj (hrun'.symm.trans hs')
        exact (reported_poll_iff ha).mpr (hs r rfl)

/-- A poll of a link that is up or down. -/
def pollOf (up : Bool) : Event := .poll { bsr := some (if up then 0x24 else 0), sr := some 0 }

theorem readsSucceed_constantPhy (fuel : ℕ) (v : BitVec 32) :
    (Event.init fuel (constantPhy v)).ReadsSucceed := ⟨fun _ => rfl, rfl, fun _ => rfl, rfl⟩

theorem readsSucceed_pollOf (up : Bool) : (pollOf up).ReadsSucceed := ⟨rfl, rfl⟩

/-- A link found up, an initialisation, the cable pulled. -/
def initWhileUp : List Event := [pollOf true, .init 1 (constantPhy 0), pollOf false]

theorem reported_iff_initWhileUp : (run step {} initWhileUp).isSome ∧ Guarded Reports initWhileUp := by
  have hrun : (run step {} initWhileUp).isSome := by decide
  obtain ⟨s, hs⟩ := Option.isSome_iff_exists.mp hrun
  have hreads : ∀ e ∈ initWhileUp, e.ReadsSucceed := by
    simp only [initWhileUp, List.forall_mem_cons, readsSucceed_constantPhy, readsSucceed_pollOf,
      List.not_mem_nil, IsEmpty.forall_iff, implies_true, and_self]
  refine ⟨hrun, (reported_iff hreads hs).mpr ?_⟩
  refine guarded_concat (guarded_concat (guarded_concat (guarded_nil _) ?_) ?_) ?_
  · rintro r ⟨⟩
    exact ⟨fun _ => rfl, fun h => nomatch h⟩
  · exact fun r h => nomatch h
  · rintro r ⟨⟩
    exact ⟨(fun h => nomatch h), fun _ _ => rfl⟩

/-- An initialisation without a cable: the poll finds nothing changed, and the link stays reported. -/
def initUnplugged : List Event := [.init 1 (constantPhy 0), pollOf false]

theorem not_reported_initUnplugged : (∀ e ∈ initUnplugged, e.ReadsSucceed) ∧
    (run step {} initUnplugged).isSome ∧ ¬ Guarded Reports initUnplugged := by
  have hrun : (run step {} initUnplugged).isSome := by decide
  obtain ⟨s, hs⟩ := Option.isSome_iff_exists.mp hrun
  refine ⟨?_, hrun, fun h => ?_⟩
  · simp only [initUnplugged, List.forall_mem_cons, readsSucceed_constantPhy, readsSucceed_pollOf,
      List.not_mem_nil, IsEmpty.forall_iff, implies_true, and_self]
  · have hrep : s.reported = false := h [.init 1 (constantPhy 0)] (pollOf false) [] rfl _ s rfl hs
    have hup : ((run step {} initUnplugged).map Driver.reported) = some true := by decide
    rw [hs, Option.map_some, hrep] at hup
    exact Bool.false_ne_true (Option.some.inj hup)

end PipeGallery.Phy
