import Ridstore.Engine.MaintenanceScheduler

/-
# Ridstore.Engine.CheckpointCycle — what a checkpoint worker does while it runs

`checkpointMaintenanceWorker.Run` calls `runCheckpointCycle`, which calls `executeCheckpoint` once, or a
second time without GC admission when the first call failed under pressure.  Each call freezes the mapping
at a commit cut (`prepareCheckpoint`) and then installs a manifest for it (`finishCheckpoint`).  Commits go
on meanwhile, so the stages of a run are events of their own; `CheckpointState` is the scheduler together
with the runs of its checkpoint workers, the mapping's commit sequence and that of the manifest.
-/

namespace Ridstore.Engine

open Function

/-! ## §1 — The stages of a run -/

/-- An error of `executeCheckpoint`; a retryable conflict is wrapped in `checkpointRetryableConflict`. -/
structure CycleError where
  err : MaintenanceError
  conflict : Bool

/-- Where a run of `runCheckpointCycle` is.  `pressure` is what it read at the start, `gcAdmission` the
argument of the current call of `executeCheckpoint`, and `admissionErr` the error of the call before. -/
inductive CycleStage
  | entered
  | executing (pressure gcAdmission : Bool) (admissionErr : Option CycleError)
  | frozen (pressure gcAdmission : Bool) (admissionErr : Option CycleError) (cut : Nat)
  | installed (pressure gcAdmission : Bool) (admissionErr : Option CycleError)
  | returned (err : Option CycleError)

/-- A checkpoint worker that is running.  `executions` records the results of its calls of
`executeCheckpoint`, the latest first, each with the `gcAdmission` it was called with; `floor` and `begun`
are the commit sequence and the observations at the moment `Run` was entered. -/
structure CheckpointRun where
  serial : Nat
  request : MaintenanceRequest
  stage : CycleStage := .entered
  executions : List (Bool × Option CycleError) := []
  floor : Nat
  begun : List Observation

/-- The end of `runCheckpointCycle` once the last call of `executeCheckpoint` has returned. -/
def cycleResult (admissionErr err : Option CycleError) : Option CycleError :=
  match admissionErr with
  | some cause => some cause
  | none => err

/-- What follows a call of `executeCheckpoint` that returned `err`. -/
def CheckpointRun.executed (run : CheckpointRun) (pressure gcAdmission : Bool)
    (admissionErr err : Option CycleError) : CheckpointRun :=
  { run with
    executions := (gcAdmission, err) :: run.executions
    stage :=
      match err with
      | some cause =>
        if gcAdmission then
          -- GC admission failure must not prevent an ordinary pressure checkpoint.
          if pressure || run.request.periodic then .executing pressure false (some cause)
          else .returned (some cause)
        else .returned (cycleResult admissionErr (some cause))
      | none => .returned (cycleResult admissionErr none) }

/-- The delay before a conflicting checkpoint runs again, in milliseconds. -/
def checkpointConflictRetryDelay (attempt : Nat) : Nat := 2 ^ min attempt 6

/-- `checkpointMaintenanceWorker.Run` after `runCheckpointCycle` returned `err`. -/
def checkpointTransition (attempts : Nat) : Option CycleError → MaintenanceTransition
  | some ⟨err, false⟩ => { done := true, err := some err }
  | some ⟨_, true⟩ => { next := .start, retryAfter := checkpointConflictRetryDelay attempts }
  | none => { done := true }

/-! ## §2 — The store around the runs -/

/-- The scheduler, the running checkpoint workers by job, `conflictAttempts` by worker instance, the commit
sequence the mapping covers, whether it has a checkpoint in progress, and the manifest's sequence. -/
structure CheckpointState where
  sched : SchedulerState := {}
  runs : Nat → Option CheckpointRun := fun _ => none
  attempts : Nat → Nat := fun _ => 0
  covered : Nat := 0
  inCheckpoint : Bool := false
  manifest : Nat := 0

/-- What can happen.  The results of the calls that can fail are part of the event. -/
inductive CheckpointEvent
  | sched (e : SchedulerEvent)
  | commit
  | enter (job : Nat)
  | decide (job : Nat) (pressure charged : Bool)
  | capture (job : Nat) (failure : Option CycleError)
  | install (job : Nat) (failure : Option CycleError)
  | adopt (job : Nat) (failure : Option CycleError)
  | finish (job : Nat) (order : List Nat)

namespace CheckpointState

/-- Store a run back. -/
def setRun (s : CheckpointState) (job : Nat) (run : CheckpointRun) : CheckpointState :=
  { s with runs := update s.runs job (some run) }

/-- The scheduler event would end the run of a checkpoint worker. -/
def endsCheckpoint (s : CheckpointState) : SchedulerEvent → Bool
  | .done job _ _ =>
    match s.sched.active job with
    | some (.built _ request) => request.kind == .checkpoint
    | _ => false
  | _ => false

/-- The scheduler takes an event. -/
def schedule (s : CheckpointState) (e : SchedulerEvent) : Option CheckpointState :=
  (scheduler.step s.sched e).map fun sched => { s with sched }

/-- `Run` is entered by the goroutine of a launched checkpoint worker. -/
def enter (s : CheckpointState) (job : Nat) : Option CheckpointState :=
  match s.sched.active job, s.runs job with
  | some (.built serial request), none =>
    if request.kind = .checkpoint then
      some (s.setRun job { serial, request, floor := s.covered, begun := s.sched.trace })
    else none
  | _, _ => none

/-- The start of `runCheckpointCycle`: is a checkpoint needed? -/
def decide (s : CheckpointState) (job : Nat) (pressure charged : Bool) : Option CheckpointState :=
  match s.runs job with
  | some run =>
    match run.stage with
    | .entered =>
      if run.request.force || pressure || (run.request.periodic && charged) then
        some (s.setRun job { run with stage := .executing pressure run.request.gcAdmission none })
      else some (s.setRun job { run with stage := .returned none })
    | _ => none
  | none => none

/-- `prepareCheckpoint`: under the commit fence the mapping is frozen at the sequence it covers. -/
def capture (s : CheckpointState) (job : Nat) (failure : Option CycleError) : Option CheckpointState :=
  match s.runs job with
  | some run =>
    match run.stage with
    | .executing pressure gcAdmission admissionErr =>
      match failure with
      | some cause => some (s.setRun job (run.executed pressure gcAdmission admissionErr (some cause)))
      | none =>
        if s.inCheckpoint then none
        else
          some { s.setRun job { run with stage := .frozen pressure gcAdmission admissionErr s.covered } with
            inCheckpoint := true }
    | _ => none
  | none => none

/-- The GC reservation and `finishCheckpoint` up to the installation of the manifest; a failure aborts the
mapping's checkpoint. -/
def install (s : CheckpointState) (job : Nat) (failure : Option CycleError) : Option CheckpointState :=
  match s.runs job with
  | some run =>
    match run.stage with
    | .frozen pressure gcAdmission admissionErr cut =>
      match failure with
      | some cause =>
        some { s.setRun job (run.executed pressure gcAdmission admissionErr (some cause)) with
          inCheckpoint := false }
      | none =>
        some { s.setRun job { run with stage := .installed pressure gcAdmission admissionErr } with
          manifest := cut }
    | _ => none
  | none => none

/-- The rest of `finishCheckpoint`: the mapping takes the new root. -/
def adopt (s : CheckpointState) (job : Nat) (failure : Option CycleError) : Option CheckpointState :=
  match s.runs job with
  | some run =>
    match run.stage with
    | .installed pressure gcAdmission admissionErr =>
      match failure with
      | some cause => some (s.setRun job (run.executed pressure gcAdmission admissionErr (some cause)))
      | none =>
        some { s.setRun job (run.executed pressure gcAdmission admissionErr none) with
          inCheckpoint := false }
    | _ => none
  | none => none

/-- `Run` returns and the scheduler is told. -/
def finish (s : CheckpointState) (job : Nat) (order : List Nat) : Option CheckpointState :=
  match s.runs job with
  | some run =>
    match run.stage with
    | .returned err =>
      let attempts := s.attempts run.serial
      let conflict := (err.map (·.conflict)).getD false
      (scheduler.step s.sched (.done job (checkpointTransition attempts err) order)).map fun sched =>
        { s with
          sched
          runs := update s.runs job none
          attempts := if conflict && attempts < 7 then update s.attempts run.serial (attempts + 1)
            else s.attempts }
    | _ => none
  | none => none

/-- One step of the store. -/
def step (s : CheckpointState) : CheckpointEvent → Option CheckpointState
  | .sched e => if s.endsCheckpoint e then none else s.schedule e
  | .commit => some { s with covered := s.covered + 1 }
  | .enter job => s.enter job
  | .decide job pressure charged => s.decide job pressure charged
  | .capture job failure => s.capture job failure
  | .install job failure => s.install job failure
  | .adopt job failure => s.adopt job failure
  | .finish job order => s.finish job order

end CheckpointState

/-- The checkpoints of an opened store as a machine; replay has taken the mapping past the manifest. -/
def checkpoints : Lib.Machine CheckpointState CheckpointEvent where
  init s := ∃ covered manifest, manifest ≤ covered ∧ s = { covered, manifest }
  step := CheckpointState.step

end Ridstore.Engine
