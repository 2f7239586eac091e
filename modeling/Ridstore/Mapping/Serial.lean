import Ridstore.Mapping.PersistentSafety

/-
# Ridstore.Mapping.Serial — a group and its proposals one at a time

A group is resolved as a whole before anything of it is published: the changes of its accepted proposals go to an
overlay, and the later proposals are resolved against the overlay over the mapping.  What comes out is what the
proposals would have come to one at a time, each resolved against the mapping that the accepted ones before it have
left; a rejected one leaves the mapping alone and takes no sequence.

A group is published whole or not at all.  So the two ways part where the sequences or the counters of the segments
run out in the middle of the group.
-/

namespace Ridstore.Mapping

open RecordLog (RecordRef)
open Function
open List
open Lib (tally)

/-! ## §1 — The overlay of a group -/

/-- `virtual` of `resolveGroupAt`: an entry without a reference is a deleted identifier. -/
abbrev Virtual := Nat → Option (Option RecordRef)

/-- `lookup` of `resolveGroupAt`: the overlay over the mapping. -/
def Virtual.lookup (base : Entries) (overlay : Virtual) : Entries := fun id => (overlay id).getD (base id)

/-- The loop over the changes of a proposal, with the overlay apart from the mapping. -/
def Virtual.resolveChanges (kind : ProposalKind) (base : Entries) :
    Virtual → List Change → List ResolvedChange × Virtual
  | overlay, [] => ([], overlay)
  | overlay, c :: rest =>
    let r := c.resolve kind (overlay.lookup base)
    let (resolved, overlay') := resolveChanges kind base
      (if r.apply then update overlay c.recordID (some c.result) else overlay) rest
    (r :: resolved, overlay')

/-- One proposal against the overlay. -/
def Virtual.resolve (base : Entries) (overlay : Virtual) (p : Proposal) : ResolvedProposal × Virtual :=
  if p.conditions.all (Condition.holds (overlay.lookup base)) then
    let (resolved, overlay') := overlay.resolveChanges p.kind base p.changes
    (⟨p.kind, true, 0, resolved⟩, overlay')
  else (⟨p.kind, false, 0, []⟩, overlay)

/-- The loop over the proposals. -/
def Virtual.resolveProposals (base : Entries) : Virtual → List Proposal → List ResolvedProposal × Virtual
  | overlay, [] => ([], overlay)
  | overlay, p :: rest =>
    let (resolved, overlay') := overlay.resolve base p
    let (more, overlay'') := resolveProposals base overlay' rest
    (resolved :: more, overlay'')

section Overlay

variable (base : Entries) (overlay : Virtual)

/-- An applied change in the overlay is the change of the mapping. -/
theorem Virtual.lookup_change (kind : ProposalKind) (c : Change) :
    Virtual.lookup base (if (c.resolve kind (overlay.lookup base)).apply then
      update overlay c.recordID (some c.result) else overlay) =
      (c.resolve kind (overlay.lookup base)).applyTo (overlay.lookup base) := by
  unfold ResolvedChange.applyTo
  split
  · funext id
    by_cases hid : id = c.recordID
    · simp [Virtual.lookup, Change.resolve, hid]
    · simp [Virtual.lookup, Change.resolve, hid]
  · rfl

theorem Virtual.resolveChanges_eq (kind : ProposalKind) (changes : List Change) :
    Mapping.resolveChanges kind (overlay.lookup base) changes =
      ((overlay.resolveChanges kind base changes).1, (overlay.resolveChanges kind base changes).2.lookup base) := by
  induction changes generalizing overlay with
  | nil => rfl
  | cons c rest ih => simp only [Mapping.resolveChanges, Virtual.resolveChanges, ← lookup_change, ih]

theorem Virtual.resolve_eq (p : Proposal) :
    p.resolve (overlay.lookup base) = ((overlay.resolve base p).1, (overlay.resolve base p).2.lookup base) := by
  unfold Proposal.resolve Virtual.resolve
  split
  · simp only [resolveChanges_eq]
  · rfl

/-- **The overlay is what the mapping will be.** -/
theorem Virtual.resolveProposals_eq (proposals : List Proposal) :
    Mapping.resolveProposals (overlay.lookup base) proposals =
      ((overlay.resolveProposals base proposals).1, (overlay.resolveProposals base proposals).2.lookup base) := by
  induction proposals generalizing overlay with
  | nil => rfl
  | cons p rest ih => simp only [Mapping.resolveProposals, Virtual.resolveProposals, resolve_eq, ih]

end Overlay

/-! ## §2 — A group at once and its proposals one at a time -/

/-- What becomes of a proposal: the decision, its applied and its skipped changes, and its commit sequence. -/
structure Outcome where
  accepted : Bool
  applied : Nat
  skipped : Nat
  commitSeq : Option Nat
  deriving DecidableEq, Repr

def ResolvedProposal.outcome (p : ResolvedProposal) (seq : Nat) : Outcome :=
  ⟨p.accepted, p.changes.countP fun r => r.apply, p.changes.countP fun r => !r.apply,
    if p.accepted then some seq else none⟩

/-- The accepted proposals of a group have consecutive sequences. -/
def outcomes : Nat → List ResolvedProposal → List Outcome
  | _, [] => []
  | seq, p :: rest => p.outcome seq :: outcomes (if p.accepted then seq + 1 else seq) rest

namespace InMemory

variable (m : InMemory)

/-- The plan of `ResolveGroup`, by the overlay. -/
def groupPlan (proposals : List Proposal) : GroupPlan :=
  assignDeltaEntries ⟨m.covered, (Virtual.resolveProposals m.visible (fun _ => none) proposals).1⟩ fun _ => false

/-- **A group**: it is resolved, and published if a proposal is accepted. -/
def commitGroup (proposals : List Proposal) : InMemory × Except StoreError (List Outcome) :=
  let plan := m.groupPlan proposals
  let out := outcomes (m.covered + 1) plan.proposals
  if plan.acceptedCount = 0 then (m, .ok out)
  else
    let (m', result) := m.publishGroup (m.covered + 1) plan proposals.length
    (m', result.map fun _ => out)

/-- **One at a time**, to the first error. -/
def commitSerially : InMemory → List Proposal → InMemory × Except StoreError (List Outcome)
  | m, [] => (m, .ok [])
  | m, p :: rest =>
    match m.commitGroup [p] with
    | (m', .error err) => (m', .error err)
    | (m', .ok out) =>
      let (m'', more) := commitSerially m' rest
      (m'', more.map (out ++ ·))

end InMemory

theorem outcomes_assignEntries (seen : Nat → Bool) (proposals : List ResolvedProposal) (seq : Nat) :
    outcomes seq (assignEntries seen proposals) = outcomes seq proposals := by
  induction proposals generalizing seen seq with
  | nil => rfl
  | cons p rest ih =>
    simp only [assignEntries]
    split
    · simp only [outcomes, ih]
      rfl
    · simp only [outcomes, ih]

theorem countP_assignEntries (seen : Nat → Bool) (proposals : List ResolvedProposal) :
    (assignEntries seen proposals).countP (fun p => p.accepted) = proposals.countP fun p => p.accepted := by
  induction proposals generalizing seen with
  | nil => rfl
  | cons p rest ih =>
    simp only [assignEntries]
    split <;> simp [countP_cons, ih]

section Spec

variable {m m' : InMemory} {proposals : List Proposal} {out : List Outcome}

/-- The resolved proposals of a group are those against the mapping as it goes. -/
theorem groupPlan_proposals :
    (m.groupPlan proposals).proposals = assignEntries (fun _ => false) (resolveProposals m.visible proposals).1 :=
  congrArg (assignEntries _) (congrArg Prod.fst (Virtual.resolveProposals_eq m.visible (fun _ => none) proposals)).symm

theorem groupPlan_outcomes (seq : Nat) :
    outcomes seq (m.groupPlan proposals).proposals = outcomes seq (resolveProposals m.visible proposals).1 := by
  rw [groupPlan_proposals, outcomes_assignEntries]

theorem groupPlan_acceptedCount :
    (m.groupPlan proposals).acceptedCount = (resolveProposals m.visible proposals).1.countP fun p => p.accepted := by
  rw [GroupPlan.acceptedCount, groupPlan_proposals, countP_assignEntries]

/-- The changes of the plan lead from the mapping to what the proposals leave of it. -/
theorem groupPlan_follows :
    Follows m.visible (m.groupPlan proposals).changes (resolveProposals m.visible proposals).2 := by
  rw [GroupPlan.changes, groupPlan_proposals, assignEntries_changes]
  exact follows_resolveProposals _ _

/-- Without an accepted proposal there is no change. -/
theorem groupPlan_changes_nil (h : (m.groupPlan proposals).acceptedCount = 0) :
    (m.groupPlan proposals).changes = [] := by
  rw [GroupPlan.acceptedCount, countP_eq_zero] at h
  rw [GroupPlan.changes, filter_eq_nil_iff.mpr h]
  rfl

/-- What a publication without an error leaves. -/
theorem publishGroup_eq_ok {first reservations : Nat} {plan : GroupPlan} {result : PublishResult}
    (h : m.publishGroup first plan reservations = (m', .ok result)) : first = m.covered + 1 ∧
      m'.covered = m.covered + plan.acceptedCount ∧
      m'.visible = plan.changes.foldl (fun entries r => r.applyTo entries) m.visible := by
  unfold InMemory.publishGroup at h
  split at h
  · cases h
  split at h
  · cases h
  split at h
  · cases h
  next hseq =>
    obtain ⟨-, hfirst, hcount, -⟩ : _ ∧ _ ∧ _ ∧ _ := by simpa only [not_or, not_not] using hseq
    split at h
    · cases h
    · cases h
      refine ⟨hfirst, ?_, InMemory.visible_record _ _ _ _⟩
      dsimp only
      omega

/-- **What a group comes to.** -/
theorem commitGroup_spec (h : m.commitGroup proposals = (m', .ok out)) :
    out = outcomes (m.covered + 1) (resolveProposals m.visible proposals).1 ∧
      m'.covered = m.covered + (resolveProposals m.visible proposals).1.countP (fun p => p.accepted) ∧
      m'.visible = (resolveProposals m.visible proposals).2 := by
  have hfollows := @groupPlan_follows m proposals
  unfold InMemory.commitGroup at h
  dsimp only at h
  split at h
  next hnone =>
    obtain ⟨rfl, hout⟩ := Prod.mk.inj h
    rw [groupPlan_changes_nil hnone] at hfollows
    rw [← groupPlan_acceptedCount, hnone]
    exact ⟨(Except.ok.inj hout).symm.trans (groupPlan_outcomes _), rfl, hfollows.symm⟩
  next =>
    obtain ⟨hstate, hout⟩ := Prod.mk.inj h
    cases hresult : (m.publishGroup (m.covered + 1) (m.groupPlan proposals) proposals.length).2 with
    | error err =>
      rw [hresult] at hout
      cases hout
    | ok result =>
      rw [hresult] at hout
      obtain ⟨-, hcovered, hvisible⟩ := publishGroup_eq_ok (Prod.ext hstate hresult)
      rw [← groupPlan_acceptedCount]
      exact ⟨(Except.ok.inj hout).symm.trans (groupPlan_outcomes _), hcovered,
        hvisible.trans hfollows.eq_foldl.symm⟩

/-- The sequences go on after the first proposal. -/
theorem outcomes_cons (entries : Entries) (p : Proposal) (rest : List Proposal) (seq : Nat) :
    outcomes seq (resolveProposals entries (p :: rest)).1 = outcomes seq (resolveProposals entries [p]).1 ++
      outcomes (seq + (resolveProposals entries [p]).1.countP fun p => p.accepted)
        (resolveProposals (resolveProposals entries [p]).2 rest).1 := by
  simp only [resolveProposals, outcomes, countP_cons, countP_nil, singleton_append]
  split <;> rfl

/-- **What the proposals come to one at a time.** -/
theorem commitSerially_spec (h : m.commitSerially proposals = (m', .ok out)) :
    out = outcomes (m.covered + 1) (resolveProposals m.visible proposals).1 ∧
      m'.covered = m.covered + (resolveProposals m.visible proposals).1.countP (fun p => p.accepted) ∧
      m'.visible = (resolveProposals m.visible proposals).2 := by
  induction proposals generalizing m out with
  | nil =>
    cases h
    exact ⟨rfl, rfl, rfl⟩
  | cons p rest ih =>
    unfold InMemory.commitSerially at h
    split at h
    · cases h
    next m₁ out₁ hone =>
      obtain ⟨hout₁, hcovered₁, hvisible₁⟩ := commitGroup_spec hone
      obtain ⟨hstate, hout⟩ := Prod.mk.inj h
      cases hmore : (m₁.commitSerially rest).2 with
      | error err =>
        rw [hmore] at hout
        cases hout
      | ok more =>
        rw [hmore] at hout
        obtain ⟨hmore', hcovered, hvisible⟩ := ih (Prod.ext hstate hmore)
        rw [hvisible₁] at hmore' hcovered hvisible
        refine ⟨?_, ?_, hvisible⟩
        · rw [outcomes_cons, ← Except.ok.inj hout, hout₁, hmore', hcovered₁, Nat.add_right_comm]
        · rw [hcovered, hcovered₁, Nat.add_assoc]
          simp only [resolveProposals, countP_cons, countP_nil]
          omega

end Spec

/-! ## §3 — Enough sequences and room in the counters -/

/-- The counters of a mapping in memory are those of its valid references. -/
structure InMemory.Counted (m : InMemory) : Prop where
  valid : ValidEntries m.visible
  exact : Exact m.live m.visible

/-- The bytes that the proposals may bring. -/
def proposedBytes (proposals : List Proposal) : Nat :=
  (proposals.map fun p => (p.changes.map fun c => c.newRef.physicalSize).sum).sum

/-- **The condition**: there is a sequence for every proposal, and the counter of every segment has room for all
that they may bring. -/
structure InMemory.Room (m : InMemory) (proposals : List Proposal) : Prop where
  sequences : m.covered + proposals.length ≤ maxUint64
  bytes : ∀ segment, liveBytes m.visible segment + proposedBytes proposals ≤ maxUint64

/-- The bytes that the applied changes bring are among those of all of them. -/
theorem addedOf_le (segment : Nat) (l : List ResolvedChange) :
    addedOf (bytesIn segment) l ≤ ((l.map ResolvedChange.change).map fun c => c.newRef.physicalSize).sum := by
  have hle : ∀ ref : RecordRef, bytesIn segment ref ≤ ref.physicalSize := fun ref => by
    unfold bytesIn
    split <;> omega
  rw [map_map]
  refine sum_le_sum fun r _ => ?_
  simp only [Change.result, comp_apply]
  split
  · split <;> simp [hle]
  · exact Nat.zero_le _

theorem addedOf_resolveProposals (segment : Nat) (entries : Entries) (proposals : List Proposal) :
    addedOf (bytesIn segment) (((resolveProposals entries proposals).1.filter fun p => p.accepted).flatMap
      ResolvedProposal.changes) ≤ proposedBytes proposals := by
  induction proposals generalizing entries with
  | nil => exact Nat.le_refl _
  | cons p rest ih =>
    have hcons : proposedBytes (p :: rest) =
        (p.changes.map fun c => c.newRef.physicalSize).sum + proposedBytes rest := sum_cons
    have hrest := ih (p.resolve entries).2
    rw [resolveProposals_cons, hcons]
    by_cases hholds : p.conditions.all (Condition.holds entries) = true
    · have hadded := addedOf_le segment (resolveChanges p.kind entries p.changes).1
      rw [resolveChanges_changes] at hadded
      simp only [Proposal.resolve, if_pos hholds] at hrest ⊢
      rw [filter_cons_of_pos rfl, flatMap_cons, LiveDeltas.addedOf_append]
      exact Nat.add_le_add hadded hrest
    · simp only [Proposal.resolve, if_neg hholds] at hrest ⊢
      rw [filter_cons_of_neg Bool.false_ne_true]
      exact Nat.le_add_left_of_le hrest

section Valid

variable {entries : Entries} {proposals : List Proposal} {p : Proposal} {kind : ProposalKind}

theorem Change.result_valid {c : Change} (h : c.ValidIn kind) {ref : RecordRef}
    (href : c.result = some ref) : ref.valid = true := by
  cases kind <;> simp only [Change.ValidIn] at h <;> unfold Change.result at href <;> grind

/-- What a valid change meets and leaves is valid. -/
theorem ValidEntries.resolve (h : ValidEntries entries) {c : Change} (hc : c.ValidIn kind) :
    (c.resolve kind entries).RefsValid ∧ ValidEntries ((c.resolve kind entries).applyTo entries) := by
  have hrefs : (c.resolve kind entries).RefsValid :=
    ⟨fun ref href => h c.recordID ref href, fun ref href => Change.result_valid hc href⟩
  exact ⟨hrefs, h.foldl (forall_mem_singleton.mpr hrefs)⟩

theorem ValidEntries.resolveChanges (h : ValidEntries entries) {changes : List Change}
    (hvalid : ∀ c ∈ changes, c.ValidIn kind) :
    (∀ r ∈ (Mapping.resolveChanges kind entries changes).1, r.RefsValid ∧ (kind = .userCommit → r.apply)) ∧
      ValidEntries (Mapping.resolveChanges kind entries changes).2 := by
  induction changes generalizing entries with
  | nil => exact ⟨nofun, h⟩
  | cons c rest ih =>
    obtain ⟨hrefs, hnext⟩ := h.resolve (hvalid c mem_cons_self)
    obtain ⟨hall, hlast⟩ := ih hnext fun c hc => hvalid c (mem_cons_of_mem _ hc)
    refine ⟨fun r hr => ?_, hlast⟩
    rcases mem_cons.mp hr with rfl | hin
    · exact ⟨hrefs, fun hkind => by subst hkind; rfl⟩
    · exact hall r hin

theorem ValidEntries.resolveProposal (h : ValidEntries entries) (hp : p.Valid) :
    (p.resolve entries).1.Valid ∧ ValidEntries (p.resolve entries).2 := by
  unfold Proposal.resolve
  split
  · obtain ⟨hall, hnext⟩ := h.resolveChanges hp.changes
    refine ⟨⟨fun r hr => ⟨?_, (hall r hr).2⟩, ?_⟩, hnext⟩
    · cases hold : r.old with
      | none => rfl
      | some ref => exact (hall r hr).1.old ref hold
    · rw [resolveChanges_changes]
      exact { hp with
        relocation := fun hkind => ⟨rfl, (hp.relocation hkind).2⟩
        conditionIDs := ⟨nofun, List.Pairwise.nil⟩
        conditions := nofun }
  · next hfails =>
    refine ⟨⟨?_, rfl⟩, h⟩
    -- a relocation has no condition to fail
    cases hkind : p.kind with
    | userCommit => rfl
    | relocation =>
      rw [(hp.relocation hkind).1] at hfails
      exact absurd rfl hfails

/-- **The resolved proposals pass the checks of a publication.** -/
theorem ValidEntries.resolveProposals (h : ValidEntries entries) (hvalid : ∀ p ∈ proposals, p.Valid) :
    (∀ p ∈ (Mapping.resolveProposals entries proposals).1, p.Valid ∧ p.deltaEntries = 0) ∧
      ValidEntries (Mapping.resolveProposals entries proposals).2 := by
  induction proposals generalizing entries with
  | nil => exact ⟨nofun, h⟩
  | cons p rest ih =>
    obtain ⟨hone, hnext⟩ := h.resolveProposal (hvalid p mem_cons_self)
    obtain ⟨hall, hlast⟩ := ih hnext fun p hp => hvalid p (mem_cons_of_mem _ hp)
    refine ⟨fun r hr => ?_, hlast⟩
    rcases mem_cons.mp hr with rfl | hin
    · refine ⟨hone, ?_⟩
      show (p.resolve entries).1.deltaEntries = 0
      unfold Proposal.resolve
      split <;> rfl
    · exact hall r hin

variable {l : List ResolvedProposal}

/-- The numbers of new entries count for no check but their own. -/
theorem mem_assignEntries {seen : Nat → Bool} {p : ResolvedProposal}
    (h : p ∈ assignEntries seen l) : ∃ q ∈ l, p = { q with deltaEntries := p.deltaEntries } := by
  induction l generalizing seen with
  | nil => cases h
  | cons q rest ih =>
    simp only [assignEntries] at h
    split at h <;> rcases mem_cons.mp h with rfl | hin
    · exact ⟨q, mem_cons_self, rfl⟩
    · exact (ih hin).imp fun x hx => ⟨mem_cons_of_mem _ hx.1, hx.2⟩
    · exact ⟨p, mem_cons_self, rfl⟩
    · exact (ih hin).imp fun x hx => ⟨mem_cons_of_mem _ hx.1, hx.2⟩

theorem assignEntries_reset (seen : Nat → Bool) (h : ∀ p ∈ l, p.deltaEntries = 0) :
    (assignEntries seen l).map (fun p => { p with deltaEntries := 0 }) = l := by
  induction l generalizing seen with
  | nil => rfl
  | cons p rest ih =>
    have hp : { p with deltaEntries := 0 } = p := by
      rw [← h p mem_cons_self]
    have hrest := fun seen => ih seen fun q hq => h q (mem_cons_of_mem _ hq)
    simp only [assignEntries]
    split <;> simp only [map_cons, hrest, hp]

theorem assignEntries_length (seen : Nat → Bool) (l : List ResolvedProposal) :
    (assignEntries seen l).length = l.length := by
  induction l generalizing seen with
  | nil => rfl
  | cons p rest ih =>
    simp only [assignEntries]
    split <;> simp only [length_cons, ih]

end Valid

section Success

variable {m : InMemory} {proposals : List Proposal}

theorem addedOf_groupPlan (segment : Nat) :
    addedOf (bytesIn segment) (m.groupPlan proposals).changes ≤ proposedBytes proposals := by
  rw [GroupPlan.changes, groupPlan_proposals, assignEntries_changes]
  exact addedOf_resolveProposals _ _ _

/-- The bytes of a group fit, and so do those that are live after it. -/
theorem InMemory.Room.fits (h : m.Room proposals) :
    Fits (m.groupPlan proposals).changes (resolveProposals m.visible proposals).2 := by
  have hfollows := @groupPlan_follows m proposals
  have hall : ∀ segment, tally (bytesIn segment) (resolveProposals m.visible proposals).2 +
      removedOf (bytesIn segment) (m.groupPlan proposals).changes ≤ maxUint64 := by
    intro segment
    rw [(hfollows.tally m.finite_visible (bytesIn segment)).2]
    exact Nat.le_trans (Nat.add_le_add_left (addedOf_groupPlan segment) _) (h.bytes segment)
  refine ⟨fun segment => ?_, fun segment => ?_, fun segment => ?_⟩
  · exact Nat.le_trans (Nat.le_add_left _ _) (hall segment)
  · exact Nat.le_trans (addedOf_groupPlan segment) (Nat.le_trans (Nat.le_add_left _ _) (h.bytes segment))
  · exact Nat.le_trans (Nat.le_add_right _ _) (hall segment)

/-- **A group succeeds** when there are sequences and room for it. -/
theorem InMemory.Counted.commitGroup (h : m.Counted) (hvalid : ∀ p ∈ proposals, p.Valid) (hroom : m.Room proposals) :
    ∃ m' out, m.commitGroup proposals = (m', .ok out) ∧ m'.Counted := by
  obtain ⟨hproposals, hafter⟩ := h.valid.resolveProposals hvalid
  have hplan : ∀ p ∈ (m.groupPlan proposals).proposals, p.Valid := by
    intro p hp
    rw [groupPlan_proposals] at hp
    obtain ⟨q, hq, heq⟩ := mem_assignEntries hp
    rw [heq]
    exact (hproposals q hq).1
  obtain ⟨live, happly, hexact⟩ := applyPlanLiveStats_exact (m.covered + 1) m.finite_visible h.exact
    groupPlan_follows (fun r hr => (refsValid_of_valid hplan hr).1) hafter hroom.fits
  unfold InMemory.commitGroup
  dsimp only
  split
  · exact ⟨m, _, rfl, h⟩
  next hcount =>
    have hlength : (m.groupPlan proposals).proposals.length = proposals.length := by
      rw [groupPlan_proposals, assignEntries_length, (resolveProposals_resolves _ _).length_eq]
    have hdelta : validDeltaEntries (m.groupPlan proposals) (fun _ => false) = true := by
      rw [validDeltaEntries, groupPlan_proposals, assignEntries_reset _ fun p hp => (hproposals p hp).2]
      exact decide_eq_true rfl
    have hle : (m.groupPlan proposals).acceptedCount ≤ proposals.length := hlength ▸ countP_le_length
    have hseq := hroom.sequences
    have hbase : (m.groupPlan proposals).baseCommitSeq = m.covered := rfl
    have hpublish : m.publishGroup (m.covered + 1) (m.groupPlan proposals) proposals.length =
        (⟨m.covered + 1 + (m.groupPlan proposals).acceptedCount - 1,
          (m.groupPlan proposals).changes.foldl InMemory.record m.entries, live⟩,
          .ok (m.groupPlan proposals).result) := by
      unfold InMemory.publishGroup
      rw [if_neg, if_neg (not_not_intro hbase), if_neg, happly]
      · simp only [not_or, not_not]
        refine ⟨by omega, trivial, hcount, by omega⟩
      · simp only [not_or, not_not, not_exists, not_and]
        refine ⟨Nat.succ_ne_zero _, fun hnil => hcount ?_, hlength.symm, ?_, hplan⟩
        · rw [GroupPlan.acceptedCount, hnil]
          rfl
        · rw [hdelta]
          exact Bool.noConfusion
    have hvisible := (publishGroup_eq_ok hpublish).2.2.trans (groupPlan_follows.eq_foldl).symm
    rw [hpublish]
    refine ⟨_, _, rfl, ?_, ?_⟩ <;> rw [hvisible]
    · exact hafter
    · exact hexact

theorem proposedBytes_cons (p : Proposal) :
    proposedBytes (p :: proposals) = proposedBytes [p] + proposedBytes proposals := by
  simp only [proposedBytes, map_cons, map_nil, sum_cons, sum_nil, Nat.add_zero]

variable {p : Proposal}

theorem InMemory.Room.head (h : m.Room (p :: proposals)) : m.Room [p] := by
  refine ⟨Nat.le_trans (Nat.add_le_add_left (Nat.le_add_left 1 _) _) h.sequences, fun segment => ?_⟩
  have hbytes := h.bytes segment
  rw [proposedBytes_cons] at hbytes
  omega

/-- The sequences and the room that the first proposal leaves. -/
theorem InMemory.Room.rest {m' : InMemory} {out : List Outcome} (h : m.Room (p :: proposals))
    (hone : m.commitGroup [p] = (m', .ok out)) : m'.Room proposals := by
  obtain ⟨-, hcovered, hvisible⟩ := commitGroup_spec hone
  have hcount : (resolveProposals m.visible [p]).1.countP (fun p => p.accepted) ≤ 1 := countP_le_length
  have hseq := h.sequences
  rw [length_cons] at hseq
  refine ⟨by omega, fun segment => ?_⟩
  have htally := ((@groupPlan_follows m [p]).tally m.finite_visible (bytesIn segment)).2
  have hadded := @addedOf_groupPlan m [p] segment
  have hbytes := h.bytes segment
  rw [proposedBytes_cons] at hbytes
  rw [hvisible]
  unfold liveBytes at *
  omega

theorem InMemory.Counted.commitSerially (h : m.Counted) (hvalid : ∀ p ∈ proposals, p.Valid)
    (hroom : m.Room proposals) : ∃ m' out, m.commitSerially proposals = (m', .ok out) := by
  induction proposals generalizing m with
  | nil => exact ⟨m, [], rfl⟩
  | cons p rest ih =>
    obtain ⟨m₁, out₁, hone, hcounted⟩ := h.commitGroup (forall_mem_singleton.mpr (hvalid p mem_cons_self))
      hroom.head
    obtain ⟨m₂, out₂, hrest⟩ := ih hcounted (fun q hq => hvalid q (mem_cons_of_mem _ hq)) (hroom.rest hone)
    refine ⟨m₂, out₁ ++ out₂, ?_⟩
    rw [InMemory.commitSerially, hone]
    dsimp only
    rw [hrest]
    rfl

end Success

/-- **A group is its proposals one at a time**: whenever both ways come to their end, the decisions, the applied and
skipped changes, the sequences and the mapping are the same, and both do when there are sequences and room for all. -/
theorem commitGroup_eq_serial (m : InMemory) (proposals : List Proposal) :
    (∀ m₁ m₂ out₁ out₂, m.commitGroup proposals = (m₁, .ok out₁) → m.commitSerially proposals = (m₂, .ok out₂) →
      out₁ = out₂ ∧ m₁.covered = m₂.covered ∧ m₁.visible = m₂.visible) ∧
    (m.Counted → (∀ p ∈ proposals, p.Valid) → m.Room proposals →
      ∃ m₁ m₂ out, m.commitGroup proposals = (m₁, .ok out) ∧ m.commitSerially proposals = (m₂, .ok out)) := by
  have hagree : ∀ m₁ m₂ out₁ out₂, m.commitGroup proposals = (m₁, .ok out₁) →
      m.commitSerially proposals = (m₂, .ok out₂) →
      out₁ = out₂ ∧ m₁.covered = m₂.covered ∧ m₁.visible = m₂.visible := by
    intro m₁ m₂ out₁ out₂ hgroup hserial
    obtain ⟨hout, hcovered, hvisible⟩ := commitGroup_spec hgroup
    obtain ⟨hout', hcovered', hvisible'⟩ := commitSerially_spec hserial
    exact ⟨hout.trans hout'.symm, hcovered.trans hcovered'.symm, hvisible.trans hvisible'.symm⟩
  refine ⟨hagree, fun hcounted hvalid hroom => ?_⟩
  obtain ⟨m₁, out₁, hgroup, -⟩ := hcounted.commitGroup hvalid hroom
  obtain ⟨m₂, out₂, hserial⟩ := hcounted.commitSerially hvalid hroom
  obtain ⟨rfl, -⟩ := hagree m₁ m₂ out₁ out₂ hgroup hserial
  exact ⟨m₁, m₂, out₁, hgroup, hserial⟩

namespace SerialDemo

def ref (offset : Nat) : RecordRef := ⟨⟨2 ^ 32 + offset⟩, 64⟩

/-- The record 1 is put, put again under a condition that no longer holds, and moved with another that is not there. -/
def proposals : List Proposal :=
  [⟨.userCommit, [⟨1, ⟨0⟩⟩], [⟨1, ref 64, ⟨0⟩, .put⟩]⟩, ⟨.userCommit, [⟨1, ⟨0⟩⟩], [⟨1, ref 128, ⟨0⟩, .put⟩]⟩,
    ⟨.relocation, [], [⟨1, ref 192, (ref 64).addr, .relocate⟩, ⟨2, ref 256, (ref 64).addr, .relocate⟩]⟩]

def start (covered : Nat) : InMemory := ⟨covered, ∅, ∅⟩

theorem counted (covered : Nat) : (start covered).Counted := ⟨fun _ _ href => (nomatch href), exact_empty⟩

theorem room : (start 5).Room proposals := by
  refine ⟨by decide, fun segment => ?_⟩
  rw [show liveBytes (start 5).visible segment = 0 from Lib.tally_eq_zero fun _ _ href => (nomatch href)]
  decide

end SerialDemo

theorem commitGroup_eq_serial_demo : ∃ m₁ m₂ out, (SerialDemo.start 5).commitGroup SerialDemo.proposals = (m₁, .ok out) ∧
    (SerialDemo.start 5).commitSerially SerialDemo.proposals = (m₂, .ok out) ∧ m₁.covered = m₂.covered ∧
    m₁.visible = m₂.visible := by
  obtain ⟨hagree, hboth⟩ := commitGroup_eq_serial (SerialDemo.start 5) SerialDemo.proposals
  obtain ⟨m₁, m₂, out, hgroup, hserial⟩ := hboth (SerialDemo.counted 5) (by decide) SerialDemo.room
  exact ⟨m₁, m₂, out, hgroup, hserial, (hagree m₁ m₂ out out hgroup hserial).2⟩

/-- **At the end of the sequences** the group is refused as a whole, and the first proposal alone is not. -/
theorem commitGroup_ne_serial : ∃ (m : InMemory) (proposals : List Proposal), m.Counted ∧ (∀ p ∈ proposals, p.Valid) ∧
    m.commitGroup proposals = (m, .error .invalid) ∧ (m.commitSerially proposals).1.covered = m.covered + 1 ∧
    (m.commitSerially proposals).1.visible 1 = some (SerialDemo.ref 64) ∧ m.visible 1 = none := by
  refine ⟨SerialDemo.start (maxUint64 - 1), SerialDemo.proposals, SerialDemo.counted _, by decide, ?_⟩
  refine ⟨rfl, by decide, by decide, rfl⟩

end Ridstore.Mapping
