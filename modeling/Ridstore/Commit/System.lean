import Ridstore.Commit.Coordinator
import Ridstore.Lib.Transition

/-
# Ridstore.Commit.System — the coordinator and its callers

The callers build batches, submit them and relocations, and send barriers and redirect commands; the
coordinator serves what has been accepted into its queue.  A submission goes through three points at which
others may act: it reserves, it prepares the batch, it queues the request.  All of that holds the admission
lock for reading; a barrier, the release of a redirect table and the closing hold it for writing.  What the
mapping and the log return is part of the event, so that a run may have any of their outcomes.

The state keeps three histories: what was accepted, what was answered, and the groups that were processed.
-/

namespace Ridstore.Commit

open RecordLog (LogPos)
open Transaction (Batch Limits)

/-! ## §1 — States -/

/-- A caller inside of `Submit` or `Relocate`. -/
inductive Admission
  | reserved (ticket batch : Nat)
  | ready (r : Request)
  deriving DecidableEq, Repr

def Admission.ticket : Admission → Nat
  | .reserved ticket _ => ticket
  | .ready r => r.ticket

/-- Who holds the admission lock for writing beyond one step. -/
inductive Fence
  | checkpoint (ticket : Nat)
  | closing
  deriving DecidableEq, Repr

/-- A processed group: what was collected, and the requests that were given a commit sequence. -/
structure Group where
  collected : List Request
  assigned : List Entry
  deriving DecidableEq, Repr

structure System where
  coordinator : Coordinator
  shared : Shared
  issued : Nat
  admitting : List Admission
  fence : Option Fence
  accepted : List Queued
  groups : List Group

/-! ## §2 — The callers -/

/-- What the callers do. -/
inductive Action
  | call (batch : Nat) (call : Batch.Call)
  | submit (batch entries : Nat)
  | prepare (ticket : Nat)
  | relocate (r : Relocation) (entries : Nat)
  | withdraw (ticket : Nat)
  | enqueue (ticket : Nat)
  | barrier
  | unfence
  | install (table : Redirects)
  | release (generation : Nat)
  | close
  | discharge (bytes : Nat)

namespace System

variable (config : Config) (limits : Limits) (s : System)

/-- The queue takes one more element. -/
def admits : Prop := s.coordinator.closed = false ∧ s.coordinator.queue.length < config.queueCapacity

instance : Decidable (s.admits config) := inferInstanceAs (Decidable (_ ∧ _))

/-- The admission lock is free for writing. -/
def unlocked : Prop := s.fence = none ∧ s.admitting = []

instance : Decidable s.unlocked := inferInstanceAs (Decidable (_ ∧ _))

def push (q : Queued) : System :=
  { s with
    coordinator := { s.coordinator with queue := s.coordinator.queue ++ [q] }
    accepted := s.accepted ++ [q] }

/-- A command is queued under a ticket of its own. -/
def pushCommand (c : Command) : System := { s.push (.command s.issued c) with issued := s.issued + 1 }

/-- The caller has left the section. -/
def leave (ticket : Nat) : System := { s with admitting := s.admitting.filter fun a => a.ticket ≠ ticket }

/-- The caller with the ticket. -/
def admission (ticket : Nat) : Option Admission := s.admitting.find? fun a => a.ticket = ticket

/-- A caller enters with a reservation of its own. -/
def enter (entries : Nat) (a : Admission) : Option System :=
  if s.fence = none then
    match s.shared.ledger.reserve s.issued entries with
    | .error _ => none
    | .ok ledger =>
      some { s with
        shared := { s.shared with ledger := ledger }
        issued := s.issued + 1
        admitting := s.admitting ++ [a] }
  else none

/-- `Submit` up to the reservation.  The fault was looked at before the lock was taken, so that it may have
come up since. -/
def submit (batch entries : Nat) : Option System :=
  match (s.shared.batches batch).mutationIDs with
  | .error _ => none
  | .ok ids => if entries ≤ ids.length then s.enter entries (.reserved s.issued batch) else none

/-- The second part of `Submit`; a batch that cannot be prepared gives the reservation back. -/
def prepare (ticket : Nat) : Option System :=
  match s.admission ticket with
  | some (.reserved _ batch) =>
    match (s.shared.batches batch).prepare with
    | (b, .ok prepared) =>
      let s := { s.leave ticket with shared := s.shared.setBatch batch b }
      some { s with admitting := s.admitting ++ [.ready ⟨ticket, .commit batch prepared⟩] }
    | (b, .error _) =>
      some { s.leave ticket with shared := (s.shared.release ticket).setBatch batch b }
  | _ => none

/-- `Relocate` up to the queue. -/
def relocate (r : Relocation) (entries : Nat) : Option System :=
  if r.batchID ≠ 0 ∧ r.proposal.Valid ∧ entries ≤ r.changes.length then
    s.enter entries (.ready ⟨s.issued, .relocation r⟩)
  else none

/-- A caller whose context is cancelled or who finds the queue closed. -/
def withdraw (ticket : Nat) : Option System :=
  match s.admission ticket with
  | some (.ready ⟨_, .commit batch _⟩) =>
    some { s.leave ticket with
      shared := (s.shared.release ticket).setBatch batch (s.shared.batches batch).markAborted.1 }
  | some (.ready ⟨_, .relocation _⟩) => some { s.leave ticket with shared := s.shared.release ticket }
  | _ => none

/-- A caller puts its request into the queue. -/
def enqueue (ticket : Nat) : Option System :=
  match s.admission ticket with
  | some (.ready r) => if s.admits config then some ((s.leave ticket).push (.request r)) else none
  | _ => none

/-- The holder of the write lock lets go: a checkpoint after its answer, the closing after the exit. -/
def unfence : Option System :=
  match s.fence with
  | some (.checkpoint ticket) =>
    if ticket ∈ s.shared.answers.map Prod.fst then some { s with fence := none } else none
  | some .closing => if s.coordinator.control = .exited then some { s with fence := none } else none
  | none => none

/-- A `CommitRedirects` with the generation was returned by an installation. -/
def granted (generation : Nat) : Prop := .redirected generation ∈ s.shared.answers.map Prod.snd

instance (generation : Nat) : Decidable (s.granted generation) := inferInstanceAs (Decidable (_ ∈ _))

/-- **A step of the callers.** -/
def act : Action → Option System
  | .call batch call =>
    some { s with shared := s.shared.setBatch batch ((s.shared.batches batch).call limits call) }
  | .submit batch entries => s.submit batch entries
  | .prepare ticket => s.prepare ticket
  | .relocate r entries => s.relocate r entries
  | .withdraw ticket => s.withdraw ticket
  | .enqueue ticket => s.enqueue config ticket
  | .barrier =>
    if s.unlocked ∧ s.admits config then
      some { s.pushCommand .barrier with fence := some (.checkpoint s.issued) }
    else none
  | .unfence => s.unfence
  | .install table =>
    if table.Valid ∧ s.admits config then some (s.pushCommand (.redirect ⟨table, 0⟩)) else none
  | .release generation =>
    if s.granted generation ∧ s.unlocked ∧ s.admits config then
      some (s.pushCommand (.redirect ⟨[], generation⟩))
    else none
  | .close =>
    if s.unlocked ∧ s.coordinator.closed = false then
      some { s with coordinator := { s.coordinator with closed := true }, fence := some .closing }
    else none
  | .discharge bytes => some { s with shared := { s.shared with ledger := s.shared.ledger.discharge bytes } }

end System

/-! ## §3 — The coordinator -/

/-- What the goroutine does next, with what it is told. -/
inductive Turn
  | receive
  | stopCollecting
  | process (mapping : Except Cause Mapping.View)
  | appended (outcome : Except Cause Unit) (poisoned : Bool)
  | published (early : Option Cause) (outcome : Except Cause Coordinator.PublishResult)
  | complete
  | checkpoint (covered : Nat) (outcome : Except Cause LogPos)
  | redirect

namespace System

variable (config : Config) (s : System)

/-- The history entry of a group. -/
def groupOf (group : List Request) (c : Coordinator) : Group :=
  match c.control with
  | .appending job _ => ⟨group, Commit.accepted job.entries⟩
  | _ => ⟨group, []⟩

def process (mapping : Except Cause Mapping.View) : Option System :=
  match s.coordinator.control with
  | .processing group after =>
    let c := s.coordinator.process config group after mapping
    some { s with coordinator := c, groups := s.groups ++ [groupOf group c] }
  | _ => none

def appended (outcome : Except Cause Unit) (poisoned : Bool) : Option System :=
  match s.coordinator.control with
  | .appending job after =>
    some { s with coordinator := s.coordinator.appended job after outcome poisoned }
  | _ => none

/-- `PublishGroup` may fail before it looks at the reservations, while it settles them, and after it. -/
def published (early : Option Cause) (outcome : Except Cause Coordinator.PublishResult) : Option System :=
  match s.coordinator.control with
  | .publishing job after =>
    match early with
    | some cause => some { s with coordinator := s.coordinator.published job after (.error cause) }
    | none =>
      match settleReservations s.shared.ledger 0 job.entries with
      | (ledger, .error cause) =>
        some { s with
          coordinator := s.coordinator.published job after (.error cause)
          shared := { s.shared with ledger := ledger } }
      | (ledger, .ok _) =>
        some { s with
          coordinator := s.coordinator.published job after outcome
          shared := { s.shared with ledger := ledger } }
  | _ => none

/-- The next response of the requests at hand; the loop goes on after the last one. -/
def complete : Option System :=
  match s.coordinator.control with
  | .completing [] after => some { s with coordinator := { s.coordinator with control := after.control } }
  | .completing ((r, verdict) :: todo) after =>
    let (shared, err) := s.shared.complete r verdict
    let c := s.coordinator.complete todo after
    match err with
    | none => some { s with coordinator := c, shared := shared }
    | some cause => some { s with coordinator := c.fail cause, shared := shared }
  | _ => none

/-- The response to a command, after which the loop starts again. -/
def answer (ticket : Nat) (result : Coordinator × Answer) : System :=
  { s with coordinator := { result.1 with control := .idle }, shared := s.shared.respond ticket result.2 }

def checkpoint (covered : Nat) (outcome : Except Cause LogPos) : Option System :=
  match s.coordinator.control with
  | .serving ticket .barrier => some (s.answer ticket (s.coordinator.processCheckpoint covered outcome))
  | _ => none

def redirect : Option System :=
  match s.coordinator.control with
  | .serving ticket (.redirect command) => some (s.answer ticket (s.coordinator.processRedirect command))
  | _ => none

/-- **A step of the coordinator.** -/
def turn : Turn → Option System
  | .receive => (s.coordinator.receive config).map fun c => { s with coordinator := c }
  | .stopCollecting => (s.coordinator.stopCollecting config).map fun c => { s with coordinator := c }
  | .process mapping => s.process config mapping
  | .appended outcome poisoned => s.appended outcome poisoned
  | .published early outcome => s.published early outcome
  | .complete => s.complete
  | .checkpoint covered outcome => s.checkpoint covered outcome
  | .redirect => s.redirect

end System

/-! ## §4 — The machine -/

inductive Event
  | act (action : Action)
  | turn (turn : Turn)

def System.step (config : Config) (limits : Limits) (s : System) : Event → Option System
  | .act action => s.act config limits action
  | .turn turn => s.turn config turn

/-- The store has just been opened: nothing was accepted, and the batches are new.  A batch that is begun
later is one that nobody has used so far. -/
structure System.Initial (limits : Limits) (s : System) : Prop where
  coordinator : ∃ covered < maxUint64, s.coordinator = .new covered
  batches : ∀ batch, ∃ id, Batch.new id limits = .ok (s.shared.batches batch)
  answers : s.shared.answers = []
  ledger : s.shared.ledger.Sound 0
  issued : s.issued = 0
  admitting : s.admitting = []
  fence : s.fence = none
  accepted : s.accepted = []
  groups : s.groups = []

/-- **The coordinator with its callers**, under a configuration that `New` takes. -/
def system (config : Config) (limits : Limits) : Lib.Machine System Event :=
  ⟨fun s => config.Valid ∧ s.Initial limits, System.step config limits⟩

end Ridstore.Commit
