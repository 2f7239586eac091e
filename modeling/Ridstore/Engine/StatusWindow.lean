import Ridstore.Lib.Transition
import Ridstore.Replay.Status

/-
# Ridstore.Engine.StatusWindow — the admission of batches and the statuses of replay

`Begin` admits a batch while the batches that hold a slot and those that have ended since the last checkpoint
are fewer than `StatusRetention`, so that replay has room for the status of every batch that was open at the
cut or has a terminal record behind it.  A checkpoint appends its marker while commits are fenced, then reads
the number of ended batches and the open ones, and subtracts that number after its installation.  Aborts are
not fenced: their records go into the log and their batches are counted at any time.

The log is the list of its records with a durable part; a crash keeps any records from the durable ones on.
Commits are here what the coordinator makes of them: a group of committing batches that goes into the log, or
a rejection without a record; the barrier of a checkpoint is served when no batch is committing any more.
-/

namespace Ridstore.Engine.StatusWindow

open Replay (LogRecord)

/-! ## §1 — The system -/

/-- `MaxOpenBatches` and `StatusRetention`. -/
structure Config where
  maxOpen : Nat
  statusRetention : Nat
  deriving DecidableEq, Repr

/-- What `New` demands of them. -/
def Config.Valid (config : Config) : Prop := 0 < config.maxOpen ∧ config.maxOpen ≤ config.statusRetention

instance (config : Config) : Decidable config.Valid := inferInstanceAs (Decidable (_ ∧ _))

/-- A batch that holds a slot: `Begin` has not published it yet, it is open, it is committing, or it is in a
terminal state and `finish` has not run. -/
inductive Phase
  | beginning
  | opened
  | committing
  | ended
  deriving DecidableEq, Repr

/-- The fields of the manifest that the recovery of the statuses reads. -/
structure Manifest where
  replayStart : Nat
  openBatchIDs : List Nat
  deriving DecidableEq, Repr

/-- How far the current checkpoint is.  From `locked` to `captured` it holds the admission lock. -/
inductive Stage
  | idle
  | locked
  | marking (marker : Nat)
  | fenced (replayStart epoch : Nat)
  | captured (replayStart epoch : Nat) (openBatchIDs : List Nat) (statusCut : Nat)
  | prepared (replayStart : Nat) (openBatchIDs : List Nat) (statusCut : Nat)
  | installed (statusCut : Nat)
  deriving DecidableEq, Repr

/-- Commits cannot be submitted. -/
def Stage.fences : Stage → Bool
  | .locked | .marking _ | .fenced _ _ | .captured _ _ _ _ => true
  | .idle | .prepared _ _ _ | .installed _ => false

/-- The log, the batches that hold a slot, the aborts whose record is still to be appended, the counters of
the store, the checkpoint and the installed manifest.  `finished` is history: the batches that have ended, in
the order of `finish`. -/
structure State where
  log : List LogRecord
  durable : Nat
  issued : Nat
  slots : List (Nat × Phase)
  aborts : List Nat
  terminalTotal : Nat
  terminalBase : Nat
  batchEpoch : Nat
  fault : Bool
  stage : Stage
  manifest : Manifest
  finished : List Nat

inductive Event
  | begin
  | beginDone (batch : Nat)
  | beginFailed (batch : Nat)
  | submit (batch : Nat)
  | commitGroup (batches : List Nat)
  | reject (batch : Nat)
  | abort (batch : Nat)
  | abortAppend (batch : Nat) (written : Bool)
  | finish (batch : Nat)
  | append
  | sync (upTo : Nat)
  | lock
  | marker
  | fence
  | capture
  | checkEpoch
  | install
  | advance
  | giveUp
  | reopen (survivors : Nat)
  deriving DecidableEq, Repr

namespace State

variable (config : Config) (s : State)

def openCount : Nat := s.slots.length

/-- The batches that hold a slot. -/
def holders : List Nat := s.slots.map Prod.fst

/-- `statusCapacityAvailableLocked`. -/
def statusCapacityAvailable : Prop :=
  s.terminalBase ≤ s.terminalTotal ∧ s.terminalTotal - s.terminalBase ≤ maxUint64 - s.openCount ∧
    s.terminalTotal - s.terminalBase + s.openCount < config.statusRetention

instance : Decidable (s.statusCapacityAvailable config) := inferInstanceAs (Decidable (_ ∧ _))

/-- Another phase for the batches of a list. -/
def setPhase (batches : List Nat) (phase : Phase) : State :=
  { s with slots := s.slots.map fun p => if p.1 ∈ batches then (p.1, phase) else p }

def dropSlot (batch : Nat) : State := { s with slots := s.slots.filter fun p => p.1 ≠ batch }

/-- A batch goes from one phase to another. -/
def move (batch : Nat) (old new : Phase) : Option State :=
  if (batch, old) ∈ s.slots then some (s.setPhase [batch] new) else none

/-- `Begin` up to the slot and the identifier. -/
def begin : Option State :=
  if s.fault = false ∧ s.openCount < config.maxOpen ∧ s.statusCapacityAvailable config then
    some { s with issued := s.issued + 1, slots := s.slots ++ [(s.issued, .beginning)] }
  else none

/-- The group record of some committing batches. -/
def commitGroup (batches : List Nat) : Option State :=
  if batches ≠ [] ∧ batches.Nodup ∧ ∀ batch ∈ batches, (batch, Phase.committing) ∈ s.slots then
    some { s.setPhase batches .ended with log := s.log ++ [.group batches] }
  else none

/-- `Abort` up to the append of its record. -/
def abort (batch : Nat) : Option State :=
  (s.move batch .opened .ended).map fun t => { t with aborts := s.aborts ++ [batch] }

/-- The append of the record of an abort, which may fail with the record in the log or not. -/
def abortAppend (batch : Nat) (written : Bool) : Option State :=
  if batch ∈ s.aborts then
    some { s with
      aborts := s.aborts.erase batch
      log := if written then s.log ++ [.abort batch] else s.log }
  else none

/-- **`finish`.** -/
def finish (batch : Nat) : Option State :=
  if (batch, Phase.ended) ∈ s.slots then
    some { s.dropSlot batch with
      terminalTotal := if s.terminalTotal = maxUint64 then s.terminalTotal else s.terminalTotal + 1
      fault := s.fault || s.terminalTotal = maxUint64
      batchEpoch := s.batchEpoch + 1
      finished := s.finished ++ [batch] }
  else none

/-- The barrier is served: no batch is committing, and the marker goes into the log. -/
def marker : Option State :=
  if s.stage = .locked ∧ ∀ p ∈ s.slots, p.2 ≠ .committing then
    some { s with log := s.log ++ [.other], stage := .marking s.log.length }
  else none

/-- `AcquireCheckpointFence` returns with the durable marker, and the epoch is loaded. -/
def fence : Option State :=
  match s.stage with
  | .marking marker =>
    if marker < s.durable then some { s with stage := .fenced (marker + 1) s.batchEpoch } else none
  | _ => none

/-- **`openBatchIDsAtCut`**, which fails when a batch is still committing. -/
def openBatchIDsAtCut : Option (List Nat) :=
  if ∀ p ∈ s.slots, p.2 ≠ .committing then some ((s.slots.filter fun p => p.2 = .opened).map Prod.fst)
  else none

/-- The open batches and the number of ended ones are read. -/
def capture : Option State :=
  match s.stage with
  | .fenced replayStart epoch =>
    match s.openBatchIDsAtCut with
    | some open_ => some { s with stage := .captured replayStart epoch open_ s.terminalTotal }
    | none => some { s with fault := true, stage := .idle }
  | _ => none

def checkEpoch : Option State :=
  match s.stage with
  | .captured replayStart epoch openBatchIDs statusCut =>
    some { s with
      stage := if epoch = s.batchEpoch then .prepared replayStart openBatchIDs statusCut else .idle }
  | _ => none

/-- The manifest is installed; `applyCheckpoint` refuses to move the replay start back. -/
def install : Option State :=
  match s.stage with
  | .prepared replayStart openBatchIDs statusCut =>
    if s.manifest.replayStart ≤ replayStart then
      some { s with manifest := ⟨replayStart, openBatchIDs⟩, stage := .installed statusCut }
    else some { s with stage := .idle }
  | _ => none

/-- The end of `finishCheckpoint`. -/
def advance : Option State :=
  match s.stage with
  | .installed statusCut => some { s with terminalBase := max s.terminalBase statusCut, stage := .idle }
  | _ => none

/-- **Replay** of the records that have survived. -/
def recover (survivors : Nat) : Except StoreError Replay.Recovered :=
  Replay.recover config.statusRetention s.manifest.openBatchIDs
    ((s.log.take survivors).drop s.manifest.replayStart)

/-- `Open` after a crash or a close that kept some records. -/
def reopen (survivors : Nat) : Option State :=
  if s.durable ≤ survivors ∧ survivors ≤ s.log.length then
    match s.recover config survivors with
    | .error _ => none
    | .ok recovered =>
      some { s with
        log := s.log.take survivors, slots := [], aborts := []
        terminalTotal := recovered.statuses.length, terminalBase := 0, batchEpoch := 0, fault := false
        stage := .idle, finished := recovered.statuses }
  else none

/-- One event. -/
def step : Event → Option State
  | .begin => s.begin config
  -- the batch is published in `open`
  | .beginDone batch => (s.move batch .beginning .opened).map fun t => { t with batchEpoch := s.batchEpoch + 1 }
  | .beginFailed batch => if (batch, Phase.beginning) ∈ s.slots then some (s.dropSlot batch) else none
  | .submit batch => if s.stage.fences then none else s.move batch .opened .committing
  | .commitGroup batches => s.commitGroup batches
  | .reject batch => s.move batch .committing .ended
  | .abort batch => s.abort batch
  | .abortAppend batch written => s.abortAppend batch written
  | .finish batch => s.finish batch
  | .append => some { s with log := s.log ++ [.other] }
  | .sync upTo => if s.durable ≤ upTo ∧ upTo ≤ s.log.length then some { s with durable := upTo } else none
  | .lock => if s.stage = .idle ∧ s.fault = false then some { s with stage := .locked } else none
  | .marker => s.marker
  | .fence => s.fence
  | .capture => s.capture
  | .checkEpoch => s.checkEpoch
  | .install => s.install
  | .advance => s.advance
  | .giveUp => some { s with stage := .idle }
  | .reopen survivors => s.reopen config survivors

end State

/-- A new store. -/
def fresh : State :=
  { log := [], durable := 0, issued := 1, slots := [], aborts := [], terminalTotal := 0, terminalBase := 0
    batchEpoch := 0, fault := false, stage := .idle, manifest := ⟨0, []⟩, finished := [] }

/-- The batches of a store over its log, across any number of reopenings. -/
def system (config : Config) : Lib.Machine State Event :=
  ⟨fun s => config.Valid ∧ s = fresh, State.step config⟩

end Ridstore.Engine.StatusWindow
