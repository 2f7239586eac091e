import Ridstore.Commit.Generations
import Ridstore.RecordLog.WriterSafety

/-
# Ridstore.Commit.Outcomes — commits over the log writer, across crashes

The coordinator appends the record of a group through the writer of the log and waits for the response; after
an error it looks whether the log is poisoned.  `Abort` ends its batch and appends a record of its own, all
other records are of no interest here.  A crash keeps the durable records and any of the first ones behind
them; the store is opened again over what has survived, with new batches.

Batches have the identifiers from `base` on; the next lifetime starts behind every identifier that has left a
trace, as the reserve records make sure.  `reports` is the history of what the callers of `Commit` and
`Submit` were told, over all lifetimes: success, or an error without `ErrCommitUnknown` that has ended the
batch.  An error before `Prepare` (the batch is closed already, the budget is exhausted, the store has a
fault) leaves the batch to the call that has it or to a later one and is not a report.
-/

namespace Ridstore.Commit

open RecordCodec (Descriptor)
open RecordLog (Writer WriterConfig WriterEvent AppendResponse)
open Transaction (Batch Limits Prepared)

/-! ## §1 — Records -/

/-- A record of the log: a commit group, the record of an abort, or any other. -/
inductive LogRecord
  | group (descriptors : List Descriptor)
  | abort (batchID : Nat)
  | other
  deriving DecidableEq, Repr

namespace LogRecord

def descriptors : LogRecord → List Descriptor
  | .group descriptors => descriptors
  | .abort _ | .other => []

/-- The descriptors of user commits. -/
def commits (record : LogRecord) : List Descriptor :=
  record.descriptors.filter fun d => d.kind = .userCommit

/-- **The batches that a record ends.** -/
def terminals : LogRecord → List Nat
  | .group descriptors => (descriptors.filter fun d => d.kind = .userCommit).map Descriptor.batchID
  | .abort batchID => [batchID]
  | .other => []

end LogRecord

/-- The last commit sequence of a log. -/
def lastSeq (log : List LogRecord) : Nat :=
  ((log.flatMap LogRecord.descriptors).map Descriptor.commitSeq).foldr max 0

/-- The descriptor of a commit whose puts went through a table of redirects. -/
def committedDescriptor (prepared : Prepared) (redirects : Redirects) (seq : Nat) : Descriptor :=
  ⟨.userCommit, prepared.batchID, seq, prepared.logicalPayloadBytes,
    (prepared.mutations.map (Batch.redirect redirects.lookup)).map commitMutation⟩

/-! ## §2 — The state -/

/-- What the caller of a commit was told. -/
inductive Report
  | committed (prepared : Prepared) (redirects : Redirects) (seq : Nat)
  | failed (batchID : Nat)
  deriving DecidableEq, Repr

def Report.batchID : Report → Nat
  | .committed prepared _ _ => prepared.batchID
  | .failed batchID => batchID

/-- The coordinator with its callers, the writer, the first identifier of the batches, the ticket of the append that
the coordinator waits for, the aborts whose record is still to be appended, and the history. -/
structure Store where
  system : System
  writer : Writer LogRecord
  base : Nat
  append : Option Nat
  aborts : List Nat
  reports : List Report

/-- The prepared batch of an accepted request. -/
def System.preparedOf (s : System) (ticket : Nat) : Option Prepared :=
  s.accepted.findSome? fun q =>
    match q with
    | .request ⟨t, .commit _ prepared⟩ => if t = ticket then some prepared else none
    | _ => none

/-- What an answer tells the caller of a commit. -/
def System.reportOf (s : System) (answer : Nat × Answer) : Option Report :=
  match answer.2 with
  | .committed _ seq => (s.preparedOf answer.1).map fun p => .committed p s.coordinator.redirects seq
  | .failed cause =>
    if .commitUnknown ∈ cause then none else (s.preparedOf answer.1).map fun p => .failed p.batchID
  | .relocated _ _ _ _ | .cut _ _ | .redirected _ => none

/-- The system of a store that was opened over what a log covers. -/
def System.opened (covered base : Nat) (budget : Mapping.DeltaBudget) : System :=
  { coordinator := .new covered
    shared := ⟨⟨budget, fun _ => ⟨0, true⟩⟩, fun batch => ⟨base + batch, .opened, [], [], 0, 0⟩, []⟩
    issued := 0
    admitting := []
    fence := none
    accepted := []
    groups := [] }

/-- A budget without reservations. -/
def idleBudget (budget : Mapping.DeltaBudget) : Prop := budget.reserved = 0 ∧ budget.charged ≤ budget.hard

instance (budget : Mapping.DeltaBudget) : Decidable (idleBudget budget) := inferInstanceAs (Decidable (_ ∧ _))

/-! ## §3 — The steps -/

inductive StoreEvent
  | act (action : Action)
  | turn (turn : Turn)
  | append (physical : Nat)
  | appendRefused
  | abortAppend (batchID physical : Nat)
  | abortRefused (batchID : Nat)
  | put (physical : Nat) (sync : Bool)
  | putRefused
  | log (event : WriterEvent)
  | closeLog
  | crash (survivors remaining base : Nat) (budget : Mapping.DeltaBudget)

/-- The batch that an `Abort` ends. -/
def System.abortedBy (s : System) : Action → List Nat
  | .call batch .abort =>
    if (s.shared.batches batch).state = .opened ∨ (s.shared.batches batch).state = .failed then
      [(s.shared.batches batch).id]
    else []
  | _ => []

/-- What a `Submit` that gives up after `Prepare` tells its caller. -/
def System.withdrawnBy (s : System) : Action → List Report
  | .withdraw ticket =>
    match s.admission ticket with
    | some (.ready ⟨_, .commit _ prepared⟩) => [.failed prepared.batchID]
    | _ => []
  | _ => []

/-- The response of the writer to the append of the coordinator is the outcome it goes on with, and after an
error it has looked at the status of the log. -/
def Store.responds (s : Store) (outcome : Except Cause Unit) (poisoned : Bool) : Prop :=
  poisoned = s.writer.fault ∧ ∃ ticket, s.append = some ticket ∧
    (ticket, match outcome with | .ok _ => AppendResponse.appended | .error _ => AppendResponse.failed) ∈ s.writer.responses

instance (s : Store) (outcome : Except Cause Unit) (poisoned : Bool) : Decidable (s.responds outcome poisoned) :=
  match happend : s.append with
  | none => isFalse fun h => by
      obtain ⟨-, ticket, hticket, -⟩ := h
      rw [happend] at hticket
      cases hticket
  | some ticket =>
    decidable_of_iff (poisoned = s.writer.fault ∧
      (ticket, match outcome with | .ok _ => AppendResponse.appended | .error _ => AppendResponse.failed) ∈ s.writer.responses)
      ⟨fun h => ⟨h.1, ticket, happend, h.2⟩, fun ⟨hp, t, ht, hr⟩ => by
        rw [happend] at ht
        cases ht
        exact ⟨hp, hr⟩⟩

/-- The append that the coordinator still waits for after a turn. -/
def Turn.awaits (append : Option Nat) : Turn → Option Nat
  | .appended _ _ => none
  | _ => append

/-- The identifiers of batches that the log or a report names. -/
def Store.spent (s : Store) : List Nat :=
  (s.writer.written.flatMap fun r => r.payload.terminals) ++ s.reports.map Report.batchID

namespace Store

variable (config : Config) (limits : Limits) (log : WriterConfig) (s : Store)

/-- A step of the callers. -/
def act (a : Action) : Option Store :=
  (s.system.act config limits a).map fun system =>
    { s with
      system := system
      aborts := s.aborts ++ s.system.abortedBy a
      reports := s.reports ++ s.system.withdrawnBy a }

/-- The coordinator goes on after the append when the writer has answered. -/
def mayTurn (t : Turn) : Prop :=
  match t with
  | .appended outcome poisoned => s.responds outcome poisoned
  | _ => True

instance (t : Turn) : Decidable (s.mayTurn t) := by
  unfold mayTurn
  split <;> infer_instance

/-- A step of the coordinator, with the reports of the answers. -/
def turn (t : Turn) : Option Store :=
  if s.mayTurn t then
    (s.system.turn config t).map fun system =>
      { s with
        system := system
        append := t.awaits s.append
        reports := s.reports ++
          (system.shared.answers.drop s.system.shared.answers.length).filterMap s.system.reportOf }
  else none

/-- The coordinator calls `Append` with the record of the group. -/
def appendGroup (physical : Nat) : Option Store :=
  match s.system.coordinator.control, s.append with
  | .appending job _, none =>
    (s.writer.accept log (.group (descriptors job.entries)) physical true).map fun writer =>
      { s with writer := writer, append := some s.writer.issued }
  | _, _ => none

/-- `Append` returns before the request of the coordinator is handed over. -/
def refuseGroup : Option Store :=
  match s.system.coordinator.control, s.append with
  | .appending _ _, none => some { s with writer := s.writer.refuse, append := some s.writer.issued }
  | _, _ => none

/-- `Abort` appends its record. -/
def abortAppend (batchID physical : Nat) : Option Store :=
  if batchID ∈ s.aborts then
    (s.writer.accept log (.abort batchID) physical false).map fun writer =>
      { s with writer := writer, aborts := s.aborts.erase batchID }
  else none

/-- `Abort` returns with its record not in the log. -/
def abortRefused (batchID : Nat) : Option Store :=
  if batchID ∈ s.aborts then some { s with writer := s.writer.refuse, aborts := s.aborts.erase batchID } else none

/-- **A crash and the next start**: the mapping is recovered up to the last commit that has survived. -/
def crash (survivors remaining base : Nat) (budget : Mapping.DeltaBudget) : Option Store :=
  let writer := s.writer.reopen survivors remaining
  let covered := lastSeq (writer.written.map fun r => r.payload)
  if s.writer.durable ≤ survivors ∧ (∀ id ∈ s.spent, id < base) ∧ 0 < base ∧ idleBudget budget ∧
      covered < maxUint64 then
    some { s with
      system := .opened covered base budget, writer := writer, base := base, append := none, aborts := [] }
  else none

def step : StoreEvent → Option Store
  | .act a => s.act config limits a
  | .turn t => s.turn config t
  | .append physical => s.appendGroup log physical
  | .appendRefused => s.refuseGroup
  | .abortAppend batchID physical => s.abortAppend log batchID physical
  | .abortRefused batchID => s.abortRefused batchID
  | .put physical sync => (s.writer.accept log .other physical sync).map fun writer => { s with writer := writer }
  | .putRefused => some { s with writer := s.writer.refuse }
  | .log event => (s.writer.step log event).map fun writer => { s with writer := writer }
  | .closeLog => (s.writer.close log).map fun writer => { s with writer := writer }
  | .crash survivors remaining base budget => s.crash survivors remaining base budget

/-- **A recovery** that finds the first records of the log. -/
def recovered (survivors : Nat) : List LogRecord := (s.writer.written.take survivors).map fun r => r.payload

/-- A new store. -/
def fresh (remaining base : Nat) (budget : Mapping.DeltaBudget) : Store :=
  { system := .opened 0 base budget, writer := .fresh remaining, base := base, append := none
    aborts := [], reports := [] }

end Store

/-- **The commits of a store over its log**, across any number of lifetimes. -/
def journal (config : Config) (limits : Limits) (log : WriterConfig) : Lib.Machine Store StoreEvent :=
  ⟨fun s => config.Valid ∧ limits.Valid ∧ ∃ remaining base budget, 0 < base ∧ idleBudget budget ∧
    s = .fresh remaining base budget, Store.step config limits log⟩

end Ridstore.Commit
