import Ridstore.RecordLog.Address

/-
# Ridstore.Mapping.Proposal — proposals, plans and the resolution of a group

A commit proposes changes under conditions, a relocation proposes new addresses for records that are still
at the address it has read.  The proposals of a group are resolved one after the other against the mapping
as the earlier ones of the group will leave it; the plan says which are accepted and which of their changes
apply.  A reference with its existence flag is an `Option` here.
-/

namespace Ridstore.Mapping

open RecordLog (VAddr RecordRef)

/-! ## §1 — Proposals -/

/-- `Condition`; the zero address means that the identifier must be absent. -/
structure Condition where
  recordID : Nat
  expectedAddr : VAddr
  deriving DecidableEq, Repr

inductive Operation
  | put
  | delete
  | relocate
  deriving DecidableEq, Repr

structure Change where
  recordID : Nat
  newRef : RecordRef
  expectedOldAddr : VAddr
  operation : Operation
  deriving DecidableEq, Repr

inductive ProposalKind
  | userCommit
  | relocation
  deriving DecidableEq, Repr

structure Proposal where
  kind : ProposalKind
  conditions : List Condition
  changes : List Change
  deriving DecidableEq, Repr

/-- Nonzero identifiers that go up. -/
def IncreasingIDs (ids : List Nat) : Prop := (∀ id ∈ ids, id ≠ 0) ∧ ids.Pairwise (· < ·)

instance (ids : List Nat) : Decidable (IncreasingIDs ids) := inferInstanceAs (Decidable (_ ∧ _))

/-- The checks of `validateProposal` on one change. -/
def Change.ValidIn (c : Change) : ProposalKind → Prop
  | .userCommit => c.expectedOldAddr = ⟨0⟩ ∧
      (c.operation = .put ∧ c.newRef.valid ∨ c.operation = .delete ∧ c.newRef = .zero)
  | .relocation => c.operation = .relocate ∧ c.newRef.valid ∧ c.expectedOldAddr.valid ∧
      c.newRef.addr ≠ c.expectedOldAddr

instance (c : Change) : (kind : ProposalKind) → Decidable (c.ValidIn kind)
  | .userCommit => inferInstanceAs (Decidable (_ ∧ _))
  | .relocation => inferInstanceAs (Decidable (_ ∧ _))

/-- **`validateProposal`.** -/
structure Proposal.Valid (p : Proposal) : Prop where
  relocation : p.kind = .relocation → p.conditions = [] ∧ p.changes ≠ []
  conditionIDs : IncreasingIDs (p.conditions.map Condition.recordID)
  conditions : ∀ c ∈ p.conditions, c.expectedAddr = ⟨0⟩ ∨ c.expectedAddr.valid
  changeIDs : IncreasingIDs (p.changes.map Change.recordID)
  changes : ∀ c ∈ p.changes, c.ValidIn p.kind

instance (p : Proposal) : Decidable p.Valid :=
  decidable_of_iff
    ((p.kind = .relocation → p.conditions = [] ∧ p.changes ≠ []) ∧
      IncreasingIDs (p.conditions.map Condition.recordID) ∧
      (∀ c ∈ p.conditions, c.expectedAddr = ⟨0⟩ ∨ c.expectedAddr.valid) ∧
      IncreasingIDs (p.changes.map Change.recordID) ∧ ∀ c ∈ p.changes, c.ValidIn p.kind)
    ⟨fun ⟨h1, h2, h3, h4, h5⟩ => ⟨h1, h2, h3, h4, h5⟩,
      fun h => ⟨h.relocation, h.conditionIDs, h.conditions, h.changeIDs, h.changes⟩⟩

/-! ## §2 — Plans -/

/-- `ResolvedChange`; `old` is the reference the change replaces. -/
structure ResolvedChange where
  change : Change
  apply : Bool
  old : Option RecordRef
  deriving DecidableEq, Repr

structure ResolvedProposal where
  kind : ProposalKind
  accepted : Bool
  deltaEntries : Nat
  changes : List ResolvedChange
  deriving DecidableEq, Repr

structure GroupPlan where
  baseCommitSeq : Nat
  proposals : List ResolvedProposal
  deriving DecidableEq, Repr

/-- The visible mapping: the reference of every identifier that has one. -/
abbrev Entries := Nat → Option RecordRef

/-- The condition is met. -/
def Condition.holds (entries : Entries) (c : Condition) : Bool :=
  match entries c.recordID with
  | none => c.expectedAddr = ⟨0⟩
  | some ref => c.expectedAddr ≠ ⟨0⟩ && ref.addr = c.expectedAddr

/-- What an applied change leaves of its identifier. -/
def Change.result (c : Change) : Option RecordRef :=
  match c.operation with
  | .delete => none
  | .put | .relocate => some c.newRef

/-- One change against the mapping so far: a relocation applies only where the record still is. -/
def Change.resolve (kind : ProposalKind) (entries : Entries) (c : Change) : ResolvedChange :=
  { change := c
    apply :=
      match kind, entries c.recordID with
      | .userCommit, _ => true
      | .relocation, some ref => ref.addr = c.expectedOldAddr
      | .relocation, none => false
    old := entries c.recordID }

/-- What the change does to the mapping. -/
def ResolvedChange.applyTo (r : ResolvedChange) (entries : Entries) : Entries :=
  if r.apply then Function.update entries r.change.recordID r.change.result else entries

/-- The loop of `resolveGroupAt` over the changes of a proposal. -/
def resolveChanges (kind : ProposalKind) : Entries → List Change → List ResolvedChange × Entries
  | entries, [] => ([], entries)
  | entries, c :: rest =>
    let r := c.resolve kind entries
    let (resolved, entries') := resolveChanges kind (r.applyTo entries) rest
    (r :: resolved, entries')

/-- One proposal; it is rejected when a condition does not hold. -/
def Proposal.resolve (entries : Entries) (p : Proposal) : ResolvedProposal × Entries :=
  if p.conditions.all (Condition.holds entries) then
    let (resolved, entries') := resolveChanges p.kind entries p.changes
    (⟨p.kind, true, 0, resolved⟩, entries')
  else (⟨p.kind, false, 0, []⟩, entries)

/-- The loop of `resolveGroupAt` over the proposals. -/
def resolveProposals : Entries → List Proposal → List ResolvedProposal × Entries
  | entries, [] => ([], entries)
  | entries, p :: rest =>
    let (resolved, entries') := p.resolve entries
    let (more, entries'') := resolveProposals entries' rest
    (resolved :: more, entries'')

/-- **`resolveGroupAt`.** -/
def resolveGroupAt (base : Nat) (proposals : List Proposal) (entries : Entries) : GroupPlan :=
  ⟨base, (resolveProposals entries proposals).1⟩

/-! ## §3 — New entries of the active layer -/

/-- The identifiers of the applied changes of a proposal that the layer does not have yet. -/
def countEntries : (Nat → Bool) → List ResolvedChange → Nat × (Nat → Bool)
  | seen, [] => (0, seen)
  | seen, r :: rest =>
    if r.apply && !seen r.change.recordID then
      let (n, seen') := countEntries (Function.update seen r.change.recordID true) rest
      (n + 1, seen')
    else countEntries seen rest

/-- The loop of `assignDeltaEntries`. -/
def assignEntries : (Nat → Bool) → List ResolvedProposal → List ResolvedProposal
  | _, [] => []
  | seen, p :: rest =>
    if p.accepted then
      let (n, seen') := countEntries seen p.changes
      { p with deltaEntries := n } :: assignEntries seen' rest
    else p :: assignEntries seen rest

/-- `assignDeltaEntries`. -/
def assignDeltaEntries (plan : GroupPlan) (active : Nat → Bool) : GroupPlan :=
  { plan with proposals := assignEntries active plan.proposals }

/-- `validDeltaEntries`. -/
def validDeltaEntries (plan : GroupPlan) (active : Nat → Bool) : Bool :=
  plan.proposals.map ResolvedProposal.deltaEntries =
    (assignEntries active (plan.proposals.map fun p => { p with deltaEntries := 0 })).map
      ResolvedProposal.deltaEntries

/-- What `ResolveGroup` reads of a mapping: what it covers, its references and the identifiers of its active
layer. -/
structure View where
  covered : Nat
  visible : Entries
  inActive : Nat → Bool

/-- **`ResolveGroup`**, when all lookups succeed. -/
def View.resolveGroup (v : View) (proposals : List Proposal) : Except StoreError GroupPlan :=
  if proposals = [] ∨ maxUint32 < proposals.length ∨ ∃ p ∈ proposals, ¬ p.Valid then .error .invalid
  else .ok (assignDeltaEntries (resolveGroupAt v.covered proposals v.visible) v.inActive)

/-- **`validateResolvedPlan`** on one proposal. -/
def ResolvedProposal.Valid (p : ResolvedProposal) : Prop :=
  if p.accepted then
    (∀ r ∈ p.changes, r.old.all RecordRef.valid ∧ (p.kind = .userCommit → r.apply)) ∧
      Proposal.Valid ⟨p.kind, [], p.changes.map ResolvedChange.change⟩
  else p.kind = .userCommit ∧ p.changes = []

instance (p : ResolvedProposal) : Decidable p.Valid := inferInstanceAs (Decidable (ite _ _ _))

/-! ## §4 — What a plan has of its proposals -/

/-- The resolution of a proposal has its kind, and its changes when it is accepted. -/
def ResolvedProposal.Resolves (r : ResolvedProposal) (p : Proposal) : Prop :=
  r.kind = p.kind ∧ r.changes.map ResolvedChange.change = if r.accepted then p.changes else []

theorem resolveChanges_changes (kind : ProposalKind) (entries : Entries) (changes : List Change) :
    (resolveChanges kind entries changes).1.map ResolvedChange.change = changes := by
  induction changes generalizing entries with
  | nil => rfl
  | cons c rest ih =>
    simp only [resolveChanges, List.map_cons, ih]
    rfl

theorem Proposal.resolve_resolves (p : Proposal) (entries : Entries) : (p.resolve entries).1.Resolves p := by
  unfold Proposal.resolve
  split
  · exact ⟨rfl, resolveChanges_changes p.kind entries p.changes⟩
  · exact ⟨rfl, rfl⟩

theorem resolveProposals_resolves (entries : Entries) (proposals : List Proposal) :
    List.Forall₂ ResolvedProposal.Resolves (resolveProposals entries proposals).1 proposals := by
  induction proposals generalizing entries with
  | nil => exact .nil
  | cons p rest ih => exact .cons (p.resolve_resolves entries) (ih _)

/-- The number of new entries is not a part of what a resolution has of its proposal. -/
theorem assignEntries_resolves {resolved : List ResolvedProposal} {proposals : List Proposal}
    (h : List.Forall₂ ResolvedProposal.Resolves resolved proposals) (seen : Nat → Bool) :
    List.Forall₂ ResolvedProposal.Resolves (assignEntries seen resolved) proposals := by
  induction h generalizing seen with
  | nil => exact .nil
  | cons hhead _ ih =>
    unfold assignEntries
    split
    · exact .cons hhead (ih _)
    · exact .cons hhead (ih _)

/-- **A plan resolves the proposals it was made of**, one for one, and they are valid. -/
theorem View.resolveGroup_resolves {v : View} {proposals : List Proposal} {plan : GroupPlan}
    (h : v.resolveGroup proposals = .ok plan) :
    List.Forall₂ ResolvedProposal.Resolves plan.proposals proposals ∧ ∀ p ∈ proposals, p.Valid := by
  obtain ⟨hvalid, h⟩ := Lib.guard_eq_ok h
  cases h
  refine ⟨assignEntries_resolves (resolveProposals_resolves _ _) _, fun p hp => ?_⟩
  by_contra hnot
  exact hvalid (.inr (.inr ⟨p, hp, hnot⟩))

end Ridstore.Mapping
