import Ridstore.Mapping.Budget
import Ridstore.Transaction.Batch

/-
# Ridstore.Commit.Coordinator — the commit coordinator

One goroutine takes the requests from a bounded queue, collects user commits and relocations into groups,
resolves each group against the mapping, appends one log record for it and publishes it.  Barriers and
redirect commands go through the same queue and end the group before them.  The goroutine is a control state
here and every function is a part of its loop between two points at which others may act: a receive, the
resolution, the append, the publication and every single response.  The errors of the log and of the mapping
are what their calls return; an error is the list of the sentinels joined in it.
-/

namespace Ridstore.Commit

open RecordLog (VAddr RecordRef LogPos)
open Mapping (Ledger GroupPlan ResolvedProposal Proposal Change)
open Transaction (Batch Prepared)

/-! ## §1 — Requests -/

structure Config where
  queueCapacity : Nat
  maxGroupBatches : Nat
  maxGroupPayload : Nat
  groupCommitDelay : Nat
  deriving DecidableEq, Repr

/-- **`ValidateConfig`.** -/
def Config.Valid (config : Config) : Prop :=
  0 < config.queueCapacity ∧ 0 < config.maxGroupBatches ∧
    RecordCodec.commitGroupHeadSize + RecordCodec.descriptorHeadSize ≤ config.maxGroupPayload

instance (config : Config) : Decidable config.Valid := inferInstanceAs (Decidable (_ ∧ _))

/-- The collecting loop has a timer. -/
def Config.timed (config : Config) : Bool := 0 < config.groupCommitDelay && 1 < config.maxGroupBatches

/-- An error with the sentinels it joins. -/
abbrev Cause := List StoreError

structure Relocation where
  batchID : Nat
  changes : List Change
  logicalPayloadBytes : Nat
  deriving DecidableEq, Repr

/-- `relocationProposal`. -/
def Relocation.proposal (r : Relocation) : Proposal := ⟨.relocation, [], r.changes⟩

/-- The table of the commit redirects. -/
abbrev Redirects := List (VAddr × RecordRef)

def Redirects.lookup (table : Redirects) (addr : VAddr) : Option RecordRef :=
  (table.find? fun entry => entry.1 = addr).map Prod.snd

/-- The checks of `InstallCommitRedirects`. -/
def Redirects.Valid (table : Redirects) : Prop :=
  table ≠ [] ∧ ∀ entry ∈ table, entry.1.valid ∧ entry.2.valid ∧ entry.1 ≠ entry.2.addr ∧
    RecordLog.isCompactionSegment entry.2.addr.segmentID

instance (table : Redirects) : Decidable table.Valid := inferInstanceAs (Decidable (_ ∧ _))

/-- What a group is made of; a commit names its batch. -/
inductive Work
  | commit (batch : Nat) (prepared : Prepared)
  | relocation (r : Relocation)
  deriving DecidableEq, Repr

/-- A request with the ticket that stands for its reservation and its result channel. -/
structure Request where
  ticket : Nat
  work : Work
  deriving DecidableEq, Repr

/-- `redirectRequest`. -/
structure RedirectRequest where
  install : Redirects
  release : Nat
  deriving DecidableEq, Repr

inductive Command
  | barrier
  | redirect (command : RedirectRequest)
  deriving DecidableEq, Repr

/-- An element of the queue. -/
inductive Queued
  | request (r : Request)
  | command (ticket : Nat) (c : Command)
  deriving DecidableEq, Repr

def Queued.ticket : Queued → Nat
  | .request r => r.ticket
  | .command ticket _ => ticket

/-- The answers of the result channels. -/
inductive Answer
  | committed (batchID seq : Nat)
  | relocated (batchID seq applied skipped : Nat)
  | cut (covered : Nat) (replayStart : LogPos)
  | redirected (generation : Nat)
  | failed (cause : Cause)
  deriving DecidableEq, Repr

namespace Request

variable (r : Request)

def isUser : Bool :=
  match r.work with
  | .commit _ _ => true
  | .relocation _ => false

/-- `requestDescriptorSize`. -/
def descriptorSize : Except StoreError Nat :=
  match r.work with
  | .commit _ prepared => RecordCodec.descriptorSize prepared.mutations.length
  | .relocation relocation => RecordCodec.descriptorSize relocation.changes.length

/-- `requestProposal`. -/
def proposal : Proposal :=
  match r.work with
  | .commit _ prepared => prepared.proposal
  | .relocation relocation => relocation.proposal

/-- `applyCommitRedirects`. -/
def applyCommitRedirects (redirects : Redirects) : Request :=
  match r.work with
  | .commit batch prepared =>
    ⟨r.ticket, .commit batch { prepared with
      mutations := prepared.mutations.map (Batch.redirect redirects.lookup) }⟩
  | .relocation _ => r

end Request

/-- The mutations of `descriptor`. -/
def commitMutation (m : Transaction.Mutation) : RecordCodec.Mutation :=
  ⟨m.recordID, m.ref.addr, ⟨0⟩, if m.operation = .put then .put else .delete, m.ref.physicalSize⟩

/-- The mutations of `requestDescriptor` for a relocation. -/
def relocationMutation (c : Change) : RecordCodec.Mutation :=
  ⟨c.recordID, c.newRef.addr, c.expectedOldAddr, .relocate, c.newRef.physicalSize⟩

/-- `requestDescriptor`. -/
def Request.descriptor (r : Request) (seq : Nat) : RecordCodec.Descriptor :=
  match r.work with
  | .commit _ prepared =>
    ⟨.userCommit, prepared.batchID, seq, prepared.logicalPayloadBytes, prepared.mutations.map commitMutation⟩
  | .relocation relocation =>
    ⟨.relocation, relocation.batchID, seq, relocation.logicalPayloadBytes,
      relocation.changes.map relocationMutation⟩

/-- `orderUserBeforeRelocation`. -/
def orderUserBeforeRelocation (group : List Request) : List Request :=
  group.filter Request.isUser ++ group.filter fun r => !r.isUser

/-! ## §2 — The end of a request -/

/-- What the coordinator shares with the callers: the budget, the batches and the result channels. -/
structure Shared where
  ledger : Ledger
  batches : Nat → Batch
  answers : List (Nat × Answer)

namespace Shared

variable (s : Shared)

def respond (ticket : Nat) (answer : Answer) : Shared := { s with answers := s.answers ++ [(ticket, answer)] }

def setBatch (batch : Nat) (b : Batch) : Shared := { s with batches := Function.update s.batches batch b }

def release (ticket : Nat) : Shared := { s with ledger := s.ledger.release ticket }

/-- **`completeFailure`.** -/
def completeFailure (r : Request) (cause : Cause) (unknown accepted : Bool) : Shared :=
  let s := s.release r.ticket
  match r.work, unknown && accepted with
  | .relocation _, true => s.respond r.ticket (.failed (.commitUnknown :: cause))
  | .relocation _, false => s.respond r.ticket (.failed cause)
  | .commit batch _, true =>
    (s.setBatch batch (s.batches batch).markCommitUnknown.1).respond r.ticket (.failed (.commitUnknown :: cause))
  | .commit batch _, false =>
    (s.setBatch batch (s.batches batch).markAborted.1).respond r.ticket (.failed cause)

/-- **`completeSuccess`** with the error it returns. -/
def completeSuccess (r : Request) (seq : Nat) (resolved : ResolvedProposal) : Shared × Option Cause :=
  match r.work with
  | .relocation relocation =>
    let applied := resolved.changes.countP fun change => change.apply
    (s.respond r.ticket (.relocated relocation.batchID seq applied (resolved.changes.length - applied)), none)
  | .commit batch prepared =>
    match (s.batches batch).markCommitted seq with
    | (_, .error err) =>
      ((s.setBatch batch (s.batches batch).markCommitUnknown.1).respond r.ticket
        (.failed [.commitUnknown, err]), some [err])
    | (b, .ok _) => ((s.setBatch batch b).respond r.ticket (.committed prepared.batchID seq), none)

end Shared

/-- How a request of a group ends. -/
inductive Verdict
  | success (seq : Nat) (resolved : ResolvedProposal)
  | failure (cause : Cause) (unknown accepted : Bool)
  deriving DecidableEq, Repr

def Shared.complete (s : Shared) (r : Request) : Verdict → Shared × Option Cause
  | .success seq resolved => s.completeSuccess r seq resolved
  | .failure cause unknown accepted => (s.completeFailure r cause unknown accepted, none)

/-! ## §3 — The goroutine -/

/-- A request of the active group with its resolution and its commit sequence. -/
structure Entry where
  request : Request
  resolved : ResolvedProposal
  seq : Nat
  deriving DecidableEq, Repr

/-- The accepted entries of a group. -/
def accepted (entries : List Entry) : List Entry := entries.filter fun e => e.resolved.accepted

def descriptors (entries : List Entry) : List RecordCodec.Descriptor :=
  (accepted entries).map fun e => e.request.descriptor e.seq

/-- A group on its way to the log and the mapping. -/
structure Job where
  plan : GroupPlan
  entries : List Entry
  next : Nat
  deriving DecidableEq, Repr

/-- Where the loop goes on when the requests at hand have been answered. -/
inductive After
  | loop
  | exit
  | serve (ticket : Nat) (c : Command)
  | collect (group : List Request) (bytes : Nat)
  deriving DecidableEq, Repr

inductive Control
  | idle
  | collecting (group : List Request) (bytes : Nat)
  | processing (group : List Request) (after : After)
  | appending (job : Job) (after : After)
  | publishing (job : Job) (after : After)
  | completing (todo : List (Request × Verdict)) (after : After)
  | serving (ticket : Nat) (c : Command)
  | exited
  deriving DecidableEq, Repr

def After.control : After → Control
  | .loop => .idle
  | .exit => .exited
  | .serve ticket c => .serving ticket c
  | .collect group bytes => .collecting group bytes

structure Coordinator where
  next : Nat
  fault : Option Cause
  closed : Bool
  queue : List Queued
  redirects : Redirects
  redirectGen : Nat
  control : Control
  deriving DecidableEq, Repr

/-- `New`: the next sequence follows what the mapping covers. -/
def Coordinator.new (covered : Nat) : Coordinator := ⟨covered + 1, none, false, [], [], 0, .idle⟩

namespace Coordinator

variable (config : Config) (c : Coordinator)

/-- `fail`; the first fault stays. -/
def fail (cause : Cause) : Coordinator := { c with fault := c.fault.or (some cause) }

/-- The requests are answered one after the other. -/
def complete (todo : List (Request × Verdict)) (after : After) : Coordinator :=
  { c with control := .completing todo after }

/-- `rejectGroup`. -/
def rejectGroup (group : List Request) (cause : Cause) : List (Request × Verdict) :=
  group.map fun r => (r, .failure cause false false)

/-- A request that fits no group, with the bytes of a group that has only it otherwise. -/
def alone (r : Request) : Except Cause Nat :=
  match r.descriptorSize with
  | .error err => .error [.batchTooLarge, err]
  | .ok size =>
    if config.maxGroupPayload < RecordCodec.commitGroupHeadSize + size then .error [.batchTooLarge]
    else .ok (RecordCodec.commitGroupHeadSize + size)

/-- The receive at the head of `run`. -/
def receiveFirst : Option Coordinator :=
  match c.queue with
  | [] => if c.closed then some { c with control := .exited } else none
  | .command ticket command :: rest => some { c with queue := rest, control := .serving ticket command }
  | .request r :: rest =>
    let c := { c with queue := rest }
    match alone config r with
    | .error cause => some (c.complete (rejectGroup [r] cause) .loop)
    | .ok bytes => some { c with control := .collecting [r] bytes }

/-- A receive inside of the collecting loop. -/
def receiveNext (group : List Request) (bytes : Nat) : Option Coordinator :=
  if config.maxGroupBatches ≤ group.length then none
  else
    match c.queue with
    | [] => if c.closed then some { c with control := .processing group .exit } else none
    | .command ticket command :: rest =>
      some { c with queue := rest, control := .processing group (.serve ticket command) }
    | .request r :: rest =>
      let c := { c with queue := rest }
      match alone config r with
      | .error cause => some (c.complete (rejectGroup [r] cause) (.collect group bytes))
      | .ok single =>
        -- `bytes > MaxGroupPayload - nextBytes`: the group is full and the request starts the next one
        if config.maxGroupPayload - (single - RecordCodec.commitGroupHeadSize) < bytes then
          some { c with control := .processing group (.collect [r] single) }
        else
          some { c with
            control := .collecting (group ++ [r]) (bytes + (single - RecordCodec.commitGroupHeadSize)) }

/-- **A receive.** -/
def receive : Option Coordinator :=
  match c.control with
  | .idle => c.receiveFirst config
  | .collecting group bytes => c.receiveNext config group bytes
  | _ => none

/-- **The end of the collecting loop**: the group is full, the timer has fired, or without a timer there is
nothing to receive. -/
def stopCollecting : Option Coordinator :=
  match c.control with
  | .collecting group _ =>
    if config.maxGroupBatches ≤ group.length ∨ config.timed ∨ (c.queue = [] ∧ c.closed = false) then
      some { c with control := .processing group .loop }
    else none
  | _ => none

/-- The commit sequences of the accepted requests; `none` when they are exhausted. -/
def assignSequences : Nat → List (Request × ResolvedProposal) → Option (List Entry × Nat)
  | next, [] => some ([], next)
  | next, (r, resolved) :: rest =>
    if resolved.accepted then
      if next = maxUint64 then none
      else (assignSequences (next + 1) rest).map fun result => (⟨r, resolved, next⟩ :: result.1, result.2)
    else (assignSequences next rest).map fun result => (⟨r, resolved, 0⟩ :: result.1, result.2)

/-- The active group of `process`. -/
def active (group : List Request) : List Request :=
  (orderUserBeforeRelocation group).map fun r => r.applyCommitRedirects c.redirects

/-- The call of `ResolveGroup` with the proposals of the active group: the mapping as it is, or the error of a
lookup. -/
def resolve (group : List Request) (mapping : Except Cause Mapping.View) : Except Cause GroupPlan :=
  match mapping with
  | .error cause => .error cause
  | .ok view =>
    match view.resolveGroup ((c.active group).map Request.proposal) with
    | .error err => .error [err]
    | .ok plan => .ok plan

/-- **`process` up to the append.** -/
def process (group : List Request) (after : After) (mapping : Except Cause Mapping.View) : Coordinator :=
  match c.fault with
  | some fault => c.complete (rejectGroup group (.readOnly :: fault)) after
  | none =>
    match c.resolve group mapping with
    | .error cause => (c.fail cause).complete (rejectGroup (c.active group) cause) after
    | .ok plan =>
      match assignSequences c.next ((c.active group).zip plan.proposals) with
      | none => c.complete (rejectGroup (c.active group) [.generationExhausted]) after
      | some (entries, next) =>
        if descriptors entries = [] then c.complete (rejectGroup (c.active group) [.conflict]) after
        else
          match RecordCodec.encodeCommitGroup (descriptors entries) config.maxGroupPayload with
          | .error err => (c.fail [err]).complete (rejectGroup (c.active group) [err]) after
          | .ok _ => { c with control := .appending ⟨plan, entries, next⟩ after }

/-- The verdicts of a group: the rejected requests have a conflict. -/
def verdicts (entries : List Entry) (verdict : Entry → Verdict) : List (Request × Verdict) :=
  entries.map fun e => (e.request, if e.resolved.accepted then verdict e else .failure [.conflict] false false)

/-- **`process` after the append**; the outcome is unknown when the log is poisoned. -/
def appended (job : Job) (after : After) (outcome : Except Cause Unit) (poisoned : Bool) : Coordinator :=
  match outcome with
  | .error cause => (c.fail cause).complete (verdicts job.entries fun _ => .failure cause poisoned true) after
  | .ok _ => { c with control := .publishing job after }

/-- `PublishResult`. -/
structure PublishResult where
  committed : Nat
  applied : Nat
  skipped : Nat
  deriving DecidableEq, Repr

/-- What the coordinator expects of a publication. -/
def expectedResult (entries : List Entry) : PublishResult :=
  let changes := (accepted entries).flatMap fun e => e.resolved.changes
  ⟨(accepted entries).length, changes.countP fun change => change.apply,
    changes.countP fun change => !change.apply⟩

/-- **`process` after the publication.** -/
def published (job : Job) (after : After) (outcome : Except Cause PublishResult) : Coordinator :=
  let checked : Except Cause Unit :=
    match outcome with
    | .error cause => .error cause
    | .ok result => if result = expectedResult job.entries then .ok () else .error [.corrupt]
  match checked with
  | .error cause => (c.fail cause).complete (verdicts job.entries fun _ => .failure cause true true) after
  | .ok _ =>
    { c with next := job.next }.complete (verdicts job.entries fun e => .success e.seq e.resolved) after

/-- **`processRedirect`.** -/
def processRedirect (command : RedirectRequest) : Coordinator × Answer :=
  match c.fault with
  | some fault => (c, .failed (.readOnly :: fault))
  | none =>
    if command.install ≠ [] then
      if c.redirects ≠ [] ∨ c.redirectGen = maxUint64 then (c, .failed [.conflict])
      else
        ({ c with redirectGen := c.redirectGen + 1, redirects := command.install },
          .redirected (c.redirectGen + 1))
    else if command.release = 0 ∨ command.release ≠ c.redirectGen ∨ c.redirects = [] then
      (c, .failed [.conflict])
    else ({ c with redirects := [] }, .redirected command.release)

/-- **`processCheckpoint`** with what the mapping covers and what the append of the marker returns. -/
def processCheckpoint (covered : Nat) (outcome : Except Cause LogPos) : Coordinator × Answer :=
  match c.fault with
  | some fault => (c, .failed (.readOnly :: fault))
  | none =>
    if c.next = 0 ∨ covered = maxUint64 ∨ c.next ≠ covered + 1 then (c.fail [.corrupt], .failed [.corrupt])
    else
      match outcome with
      | .error cause => (c.fail cause, .failed cause)
      | .ok replayStart => (c, .cut covered replayStart)

end Coordinator

/-- The loop of `PublishGroup` over the reservations; it stops at the first one that cannot be consumed. -/
def settleReservations : Ledger → Nat → List Entry → Ledger × Except Cause Unit
  | ledger, _, [] => (ledger, .ok ())
  | ledger, charged, e :: rest =>
    if e.resolved.accepted then
      match ledger.consume e.request.ticket e.resolved.deltaEntries with
      | (ledger', .error _) => (ledger', .error [.corrupt])
      | (ledger', .ok actual) =>
        if maxUint64 < charged + actual then (ledger', .error [.corrupt])
        else settleReservations ledger' (charged + actual) rest
    else settleReservations (ledger.release e.request.ticket) charged rest

end Ridstore.Commit
