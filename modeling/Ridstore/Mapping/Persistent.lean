import Ridstore.Lib.Transition
import Ridstore.Mapping.Budget
import Ridstore.Mapping.LiveStats

/-
# Ridstore.Mapping.Persistent — the mapping of a running store

Committed changes go to the active layer over the frozen layers over a checkpointed root.  A checkpoint freezes
the active layer, folds all frozen layers into a new root and, when that root is durable, drops the layers; an
aborted checkpoint leaves them for the next one.  The counters of the segments go with the visible mapping, and a
frozen checkpoint has a copy of them.

A root is the mapping that its tree holds, with the address of the tree; building and reading trees is left to
their own modules.  Layers are compared by value where the source compares pointers.  The epoch, the cache and
the pressure generations serve the scheduling and are left out.
-/

namespace Ridstore.Mapping

open RecordLog (RecordRef)
open Lib (scan tally FiniteMap)

/-! ## §1 — Layers -/

/-- `deltaLayer`; a deleted identifier has a value without a reference. -/
structure DeltaLayer where
  values : AList fun _ : Nat => Option RecordRef
  charge : Nat

instance : DecidableEq DeltaLayer := fun a b =>
  decidable_of_iff (a.values.entries = b.values.entries ∧ a.charge = b.charge)
    ⟨fun h => by cases a; cases b; exact congr (congrArg _ (AList.ext h.1)) h.2, fun h => h ▸ ⟨rfl, rfl⟩⟩

def DeltaLayer.empty : DeltaLayer := ⟨∅, 0⟩

/-- `lookupLayers`: the newest value of an identifier; the active layer is the last one here. -/
def lookupLayers (layers : List DeltaLayer) (id : Nat) : Option (Option RecordRef) :=
  layers.reverse.findSome? fun layer => layer.values.lookup id

/-- Layers over a mapping. -/
def overlay (base : Entries) (layers : List DeltaLayer) : Entries := fun id => (lookupLayers layers id).getD (base id)

/-- An applied change goes into the layer. -/
def ResolvedChange.record (values : AList fun _ : Nat => Option RecordRef) (r : ResolvedChange) :
    AList fun _ : Nat => Option RecordRef :=
  if r.apply then values.insert r.change.recordID r.change.result else values

/-! ## §2 — Folding layers -/

/-- The entries that a build adds and removes. -/
structure EntryDelta where
  added : Nat
  removed : Nat
  deriving DecidableEq, Repr

/-- One mutation of `BuildSortedWithEntryDelta`. -/
def applyMutation (built : Entries × EntryDelta) (mutation : Nat × Option RecordRef) : Entries × EntryDelta :=
  (Function.update built.1 mutation.1 mutation.2,
    match built.1 mutation.1, mutation.2 with
    | none, some _ => { built.2 with added := built.2.added + 1 }
    | some _, none => { built.2 with removed := built.2.removed + 1 }
    | _, _ => built.2)

/-- The last mutation of every run with one identifier. -/
def lastOfRuns : List (Nat × Option RecordRef) → List (Nat × Option RecordRef)
  | [] => []
  | m :: rest =>
    match rest with
    | [] => [m]
    | m' :: _ => if m.1 = m'.1 then lastOfRuns rest else m :: lastOfRuns rest

/-- The mutations of the layers, oldest first. -/
def mutations (layers : List DeltaLayer) : List (Nat × Option RecordRef) :=
  layers.flatMap fun layer => layer.values.entries.map fun e => (e.1, e.2)

/-- The sorted mutations, one for every identifier. -/
def foldedMutations (layers : List DeltaLayer) : List (Nat × Option RecordRef) :=
  lastOfRuns ((mutations layers).insertionSort fun m m' => m.1 ≤ m'.1)

/-! ## §3 — The state -/

/-- A checkpointed tree: its address, the mapping it holds, and the sequence it covers. -/
structure Root where
  address : Nat
  entries : Entries
  covered : Nat

/-- `PersistentConfig`. -/
structure PersistentConfig where
  checkpointSortBytes : Nat
  deltaSoftLimitBytes : Nat
  deltaHardLimitBytes : Nat
  deriving DecidableEq, Repr

/-- `Persistent`, with the reservations that were issued. -/
structure Persistent where
  root : Root
  covered : Nat
  active : DeltaLayer
  frozen : List DeltaLayer
  checkpointID : Nat
  inCheckpoint : Bool
  checkpointSortBytes : Nat
  ledger : Ledger
  issued : Nat
  live : LiveStats

def checkpointMutationBytes : Nat := 24

/-- `ValidatePersistentConfig`. -/
def PersistentConfig.Valid (config : PersistentConfig) : Prop :=
  checkpointMutationBytes ≤ config.checkpointSortBytes ∧
    config.deltaHardLimitBytes / deltaEntryCharge ≤ config.checkpointSortBytes / checkpointMutationBytes ∧
    (newDeltaBudget config.deltaSoftLimitBytes config.deltaHardLimitBytes).isOk

instance (config : PersistentConfig) : Decidable config.Valid := inferInstanceAs (Decidable (_ ∧ _))

/-- The check of `OpenPersistent` on one counter. -/
def ValidStat (covered : Nat) (segment : Nat) (stat : SegmentLiveStats) : Prop :=
  segment ≠ 0 ∧ stat.liveBytes ≠ 0 ∧ stat.liveRecords ≠ 0 ∧ stat.lastChangedCommitSeq ≤ covered

instance (covered segment : Nat) (stat : SegmentLiveStats) : Decidable (ValidStat covered segment stat) :=
  inferInstanceAs (Decidable (_ ∧ _))

/-- **`OpenPersistent`.** -/
def openPersistent (root : Root) (config : PersistentConfig) (statsCovered : Nat) (live : LiveStats) :
    Except StoreError Persistent :=
  if ¬ config.Valid ∨ statsCovered ≠ root.covered ∨ (∃ e ∈ live.entries, ¬ ValidStat root.covered e.1 e.2) ∨
      root.address ≠ 0 ∧ live.entries = [] then .error .invalid
  else .ok {
    root := root, covered := root.covered, active := .empty, frozen := [], checkpointID := 0, inCheckpoint := false
    checkpointSortBytes := config.checkpointSortBytes
    ledger := ⟨⟨config.deltaSoftLimitBytes, config.deltaHardLimitBytes, 0, 0⟩, fun _ => ⟨0, true⟩⟩
    issued := 0, live := live }

/-- `FrozenCheckpoint`. -/
structure FrozenCheckpoint where
  id : Nat
  base : Root
  covered : Nat
  layers : List DeltaLayer
  live : LiveStats

/-- `CheckpointCandidate`. -/
structure CheckpointCandidate where
  checkpoint : FrozenCheckpoint
  tree : Root
  entryDelta : EntryDelta

/-- `EntryCount`. -/
def CheckpointCandidate.entryCount (c : CheckpointCandidate) (base : Nat) : Except StoreError Nat :=
  if base < c.entryDelta.removed then .error .corrupt
  else if maxUint64 - (base - c.entryDelta.removed) < c.entryDelta.added then .error .corrupt
  else .ok (base - c.entryDelta.removed + c.entryDelta.added)

/-- `PublishResult`. -/
structure PublishResult where
  committed : Nat
  applied : Nat
  skipped : Nat
  deriving DecidableEq, Repr

namespace GroupPlan

def acceptedCount (plan : GroupPlan) : Nat := plan.proposals.countP fun p => p.accepted

def result (plan : GroupPlan) : PublishResult :=
  ⟨plan.acceptedCount, plan.changes.countP fun r => r.apply, plan.changes.countP fun r => !r.apply⟩

end GroupPlan

/-- The loop of `PublishGroup` over the reservations, with the bytes that are charged so far. -/
def settle : Ledger → Nat → List (ResolvedProposal × Nat) → Ledger × Except StoreError Nat
  | ledger, charged, [] => (ledger, .ok charged)
  | ledger, charged, (p, ticket) :: rest =>
    if p.accepted then
      match ledger.consume ticket p.deltaEntries with
      | (ledger', .error _) => (ledger', .error .corrupt)
      | (ledger', .ok actual) =>
        if maxUint64 - actual < charged then (ledger', .error .corrupt) else settle ledger' (charged + actual) rest
    else settle (ledger.release ticket) charged rest

/-! ## §4 — The operations -/

namespace Persistent

variable (m : Persistent)

/-- The layers, oldest first. -/
def layers : List DeltaLayer := m.frozen ++ [m.active]

/-- **The visible mapping**, which `LookupRef` reads. -/
def visible : Entries := overlay m.root.entries m.layers

/-- The active layer has a value of the identifier. -/
def inActive (id : Nat) : Bool := (m.active.values.lookup id).isSome

/-- **`ReserveDelta`**; the reservation has the number of the call. -/
def reserveDelta (ids : List Nat) : Except StoreError Persistent :=
  if 0 ∈ ids then .error .invalid
  else
    match m.ledger.reserve m.issued (ids.dedup.filter fun id => !m.inActive id).length with
    | .error .budget => if m.checkpointID = maxUint64 then .error .generationExhausted else .error .budget
    | .error err => .error err
    | .ok ledger =>
      if ledger.budget.soft ≤ ledger.budget.charged + ledger.budget.reserved ∧ m.checkpointID = maxUint64 then
        .error .generationExhausted
      else .ok { m with ledger := ledger, issued := m.issued + 1 }

/-- **`ResolveGroup`**, when all lookups succeed. -/
def resolveGroup (proposals : List Proposal) : Except StoreError GroupPlan :=
  View.resolveGroup ⟨m.covered, m.visible, m.inActive⟩ proposals

/-- The plan is taken: what `PublishGroup` checks before it touches anything. -/
def checkPlan (first : Nat) (plan : GroupPlan) (reservations : List Nat) : Except StoreError Unit :=
  if first = 0 ∨ plan.proposals = [] ∨ maxUint32 < plan.proposals.length ∨ (∃ p ∈ plan.proposals, ¬ p.Valid) ∨
      reservations.length ≠ plan.proposals.length then .error .invalid
  else if plan.baseCommitSeq ≠ m.covered ∨ validDeltaEntries plan m.inActive = false then .error .stalePlan
  else if plan.acceptedCount = 0 ∨ first ≠ (m.covered + 1) % 2 ^ 64 ∨ maxUint64 - first < plan.acceptedCount - 1 then
    .error .invalid
  else .ok ()

/-- **`PublishGroup`.** -/
def publishGroup (first : Nat) (plan : GroupPlan) (reservations : List Nat) :
    Persistent × Except StoreError PublishResult :=
  match m.checkPlan first plan reservations with
  | .error err => (m, .error err)
  | .ok _ =>
    match settle m.ledger 0 (plan.proposals.zip reservations) with
    | (ledger, .error err) => ({ m with ledger := ledger }, .error err)
    | (ledger, .ok charged) =>
      if maxUint64 - charged < m.active.charge then ({ m with ledger := ledger }, .error .corrupt)
      else
        match applyPlanLiveStats m.live first plan with
        | (live, .error err) => ({ m with ledger := ledger, live := live }, .error err)
        | (live, .ok _) =>
          ({ m with
            ledger := ledger, live := live, covered := first + plan.acceptedCount - 1
            active := ⟨plan.changes.foldl ResolvedChange.record m.active.values, m.active.charge + charged⟩ },
            .ok plan.result)

/-- **`Freeze`.** -/
def freeze (expected : Nat) : Except StoreError (Persistent × FrozenCheckpoint) :=
  if m.inCheckpoint ∨ expected ≠ m.covered then .error .stalePlan
  else if m.checkpointID = maxUint64 then .error .generationExhausted
  else .ok ({ m with
      frozen := m.layers, active := .empty, checkpointID := m.checkpointID + 1, inCheckpoint := true },
    ⟨m.checkpointID + 1, m.root, expected, m.layers, m.live⟩)

/-- The checkpoint is the running one, and its layers are the oldest frozen ones. -/
def current (c : FrozenCheckpoint) : Prop :=
  m.inCheckpoint ∧ c.id = m.checkpointID ∧ c.layers.length ≤ m.frozen.length ∧ m.frozen.take c.layers.length = c.layers

instance (c : FrozenCheckpoint) : Decidable (m.current c) := inferInstanceAs (Decidable (_ ∧ _))

/-- **`BuildCheckpoint`**, with the address of the new tree; the files may fail. -/
def buildCheckpoint (c : FrozenCheckpoint) (written : Except StoreError Nat) : Except StoreError CheckpointCandidate :=
  if ¬ m.current c then .error .stalePlan
  else if m.checkpointSortBytes / checkpointMutationBytes < (c.layers.map fun l => l.values.entries.length).sum then
    .error .budget
  else
    match written with
    | .error err => .error err
    | .ok address =>
      let built := (foldedMutations c.layers).foldl applyMutation (c.base.entries, ⟨0, 0⟩)
      .ok ⟨c, ⟨address, built.1, c.covered⟩, built.2⟩

/-- **`InstallCheckpoint`.** -/
def installCheckpoint (c : CheckpointCandidate) : Except StoreError Persistent :=
  let released := (c.checkpoint.layers.map DeltaLayer.charge).sum
  if ¬ m.current c.checkpoint ∨ c.tree.covered ≠ c.checkpoint.covered then .error .stalePlan
  else if maxUint64 < released ∨ m.ledger.budget.charged < released then .error .corrupt
  else .ok { m with
    root := c.tree, frozen := m.frozen.drop c.checkpoint.layers.length, inCheckpoint := false
    ledger := m.ledger.discharge released }

/-- **`AbortCheckpoint`.** -/
def abortCheckpoint (c : FrozenCheckpoint) : Except StoreError Persistent :=
  if m.inCheckpoint ∧ c.id = m.checkpointID then .ok { m with inCheckpoint := false } else .error .stalePlan

end Persistent

/-! ## §5 — The mapping in memory -/

/-- `Mapping`, which has no layers and no budget. -/
structure InMemory where
  covered : Nat
  entries : AList fun _ : Nat => RecordRef
  live : LiveStats

namespace InMemory

/-- **`New`.** -/
def new (covered : Nat) (snapshot : AList fun _ : Nat => RecordRef) : Except StoreError InMemory :=
  if ∃ e ∈ snapshot.entries, e.1 = 0 ∨ e.2.valid = false then .error .invalid
  else
    match scan (fun live (e : Sigma fun _ : Nat => RecordRef) => addLiveRef live e.2 covered) ∅ snapshot.entries with
    | .error err => .error err
    | .ok live => .ok ⟨covered, snapshot, live⟩

variable (m : InMemory)

def visible : Entries := fun id => m.entries.lookup id

def resolveGroup (proposals : List Proposal) : Except StoreError GroupPlan :=
  View.resolveGroup ⟨m.covered, m.visible, fun _ => false⟩ proposals

/-- An applied change of the entries. -/
def record (entries : AList fun _ : Nat => RecordRef) (r : ResolvedChange) : AList fun _ : Nat => RecordRef :=
  if r.apply then
    match r.change.result with
    | none => entries.erase r.change.recordID
    | some ref => entries.insert r.change.recordID ref
  else entries

/-- **`PublishGroup`**; the reservations are without a limit. -/
def publishGroup (first : Nat) (plan : GroupPlan) (reservations : Nat) : InMemory × Except StoreError PublishResult :=
  if first = 0 ∨ plan.proposals = [] ∨ reservations ≠ plan.proposals.length ∨
      validDeltaEntries plan (fun _ => false) = false ∨ ∃ p ∈ plan.proposals, ¬ p.Valid then (m, .error .invalid)
  else if plan.baseCommitSeq ≠ m.covered then (m, .error .stalePlan)
  else if m.covered = maxUint64 ∨ first ≠ m.covered + 1 ∨ plan.acceptedCount = 0 ∨
      maxUint64 - first < plan.acceptedCount - 1 then (m, .error .invalid)
  else
    match applyPlanLiveStats m.live first plan with
    | (live, .error err) => ({ m with live := live }, .error err)
    | (live, .ok _) =>
      (⟨first + plan.acceptedCount - 1, plan.changes.foldl record m.entries, live⟩, .ok plan.result)

end InMemory

/-! ## §6 — The machines -/

/-- A mapping with the plans, checkpoints and candidates that it has returned so far, and the number of entries of
the root as the manifest has it. -/
structure Runtime where
  mapping : Persistent
  plans : List GroupPlan
  checkpoints : List FrozenCheckpoint
  candidates : List CheckpointCandidate
  entryCount : Nat

inductive MappingEvent
  | reserve (ids : List Nat)
  | release (ticket : Nat)
  | resolve (proposals : List Proposal)
  | publish (first : Nat) (plan : GroupPlan) (reservations : List Nat)
  | freeze (expected : Nat)
  | build (checkpoint : Nat) (written : Except StoreError Nat)
  | install (candidate : Nat)
  | abort (checkpoint : Nat)

/-- Identifiers have 64 bits. -/
def Proposal.Bounded (p : Proposal) : Prop := ∀ c ∈ p.changes, c.recordID ≤ maxUint64

instance (p : Proposal) : Decidable p.Bounded := inferInstanceAs (Decidable (∀ _ ∈ _, _))

namespace Runtime

variable (s : Runtime)

def reserve (ids : List Nat) : Option Runtime :=
  (s.mapping.reserveDelta ids).toOption.map fun m => { s with mapping := m }

/-- `Release` of a reservation. -/
def release (ticket : Nat) : Runtime :=
  { s with mapping := { s.mapping with ledger := s.mapping.ledger.release ticket } }

def resolve (proposals : List Proposal) : Option Runtime :=
  if ∀ p ∈ proposals, p.Bounded then
    (s.mapping.resolveGroup proposals).toOption.map fun plan => { s with plans := s.plans ++ [plan] }
  else none

/-- A publication of a plan that was returned before, with whatever result. -/
def publish (first : Nat) (plan : GroupPlan) (reservations : List Nat) : Option Runtime :=
  if plan ∈ s.plans then some { s with mapping := (s.mapping.publishGroup first plan reservations).1 } else none

def freeze (expected : Nat) : Option Runtime :=
  (s.mapping.freeze expected).toOption.map fun result =>
    { s with mapping := result.1, checkpoints := s.checkpoints ++ [result.2] }

def build (checkpoint : Nat) (written : Except StoreError Nat) : Option Runtime :=
  s.checkpoints[checkpoint]?.bind fun c =>
    (s.mapping.buildCheckpoint c written).toOption.map fun candidate =>
      { s with candidates := s.candidates ++ [candidate] }

/-- The candidate goes into the manifest, with its number of entries, and then into the mapping. -/
def install (candidate : Nat) : Option Runtime :=
  s.candidates[candidate]?.bind fun c =>
    match c.entryCount s.entryCount, s.mapping.installCheckpoint c with
    | .ok count, .ok m => some { s with mapping := m, entryCount := count }
    | _, _ => none

def abort (checkpoint : Nat) : Option Runtime :=
  s.checkpoints[checkpoint]?.bind fun c =>
    (s.mapping.abortCheckpoint c).toOption.map fun m => { s with mapping := m }

def step : MappingEvent → Option Runtime
  | .reserve ids => s.reserve ids
  | .release ticket => some (s.release ticket)
  | .resolve proposals => s.resolve proposals
  | .publish first plan reservations => s.publish first plan reservations
  | .freeze expected => s.freeze expected
  | .build checkpoint written => s.build checkpoint written
  | .install candidate => s.install candidate
  | .abort checkpoint => s.abort checkpoint

end Runtime

/-- A mapping that may stand below the layers of a store: it is finite, its references are valid, and its identifiers
are nonzero and have 64 bits. -/
structure Proper (entries : Entries) : Prop where
  finite : FiniteMap entries
  valid : ValidEntries entries
  ids : ∀ id, entries id ≠ none → 0 < id ∧ id ≤ maxUint64

/-- The number of entries of a mapping. -/
noncomputable def entriesOf (entries : Entries) : Nat := tally (fun _ => 1) entries

/-- **The runtime of a mapping**, opened with exact counters. -/
def runtime : Lib.Machine Runtime MappingEvent :=
  ⟨fun s => ∃ root config statsCovered live m, openPersistent root config statsCovered live = .ok m ∧
      root.covered ≤ maxUint64 ∧ Proper root.entries ∧ Exact live root.entries ∧
      s = ⟨m, [], [], [], entriesOf root.entries⟩, Runtime.step⟩

/-- The mapping in memory with the plans that it has returned. -/
structure MemoryRuntime where
  mapping : InMemory
  plans : List GroupPlan

inductive MemoryEvent
  | resolve (proposals : List Proposal)
  | publish (first : Nat) (plan : GroupPlan) (reservations : Nat)

def MemoryRuntime.step (s : MemoryRuntime) : MemoryEvent → Option MemoryRuntime
  | .resolve proposals =>
    (s.mapping.resolveGroup proposals).toOption.map fun plan => { s with plans := s.plans ++ [plan] }
  | .publish first plan reservations =>
    if plan ∈ s.plans then some { s with mapping := (s.mapping.publishGroup first plan reservations).1 } else none

def memoryRuntime : Lib.Machine MemoryRuntime MemoryEvent :=
  ⟨fun s => ∃ covered snapshot m, InMemory.new covered snapshot = .ok m ∧ s = ⟨m, []⟩, MemoryRuntime.step⟩

end Ridstore.Mapping
