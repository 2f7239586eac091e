import Mathlib.Algebra.Ring.Nat
import Mathlib.Data.List.Nodup
import Ridstore.Lib.Transition

/-
# Ridstore.Engine.MaintenanceScheduler — the maintenance actor of the engine

`MaintenanceScheduler.run` is one goroutine that owns request admission, coalescing, worker creation,
phase transitions, dependencies, resource leases, cancellation and shutdown.  It handles one event at
a time, so it is a step function on an explicit state.  Jobs live in a table indexed by their id;
the queue, the active set and the key table hold ids.  Workers run concurrently and report through
a `done` event that carries the transition they chose.

The scheduler's metrics counters, the queueing times and the payload of results are not modelled: no
decision reads them.  A worker's context is not modelled either, as the transition it returns is
arbitrary.
-/

namespace Ridstore.Engine

open Function

/-! ## §1 — Requests, phases and resources -/

/-- The exclusive resources a phase declares, one bit each (`maintenanceResource`). -/
abbrev MaintenanceResource := BitVec 8

def maintenanceHeavyIo : MaintenanceResource := 1#8
def maintenanceMappingWriter : MaintenanceResource := 2#8
def maintenanceRecoveryProtocol : MaintenanceResource := 4#8

/-- Go's `a &^ b`. -/
def andNot (a b : MaintenanceResource) : MaintenanceResource := a &&& ~~~b

/-- `maintenanceRequestKind`; `unset` is the zero value of the Go type. -/
inductive MaintenanceRequestKind
  | unset
  | checkpoint
  | segmentRelocate
  | segmentPrepare
  | segmentCompact
  | segmentNext
  | mappingGC
  | mappingSurvey
  deriving DecidableEq, Repr

/-- `maintenanceRequest`.  The compaction policy it also carries is read by workers only. -/
structure MaintenanceRequest where
  kind : MaintenanceRequestKind
  source : Nat := 0
  generation : Nat := 0
  gcAdmission : Bool := false
  force : Bool := false
  periodic : Bool := false
  background : Bool := false
  automatic : Bool := false
  deriving DecidableEq, Repr

/-- The zero request, which `mergeMaintenanceRequest` treats as absent. -/
def MaintenanceRequest.zero : MaintenanceRequest := { kind := .unset }

/-- The coalescing keys; explicit segment requests have none. -/
inductive MaintenanceKey
  | checkpoint
  | mappingGC
  | mappingSurvey
  | segmentAuto
  deriving DecidableEq, Repr

/-- `maintenancePhase`; `unset` is the zero value, which is no valid next phase. -/
inductive MaintenancePhase
  | unset
  | start
  | copy
  | prove
  | retire
  | publish
  | cleanup
  deriving DecidableEq, Repr

/-- The phases after `start`: a worker that asked for one of them has protocol state in its fields. -/
def MaintenancePhase.afterStart : MaintenancePhase → Bool
  | .unset | .start => false
  | _ => true

def maintenancePriorityMapping : Nat := 1
def maintenancePrioritySegment : Nat := 2
def maintenancePriorityCheckpoint : Nat := 3

/-- The errors that pass through the scheduler, with the two ways Go composes them. -/
inductive MaintenanceError
  | canceled
  | closed
  | invalidConfig
  | text (message : String)
  | wrap (cause : MaintenanceError)
  | join (causes : List MaintenanceError)

/-- What `maintenanceRequestPolicy` returns on success. -/
structure RequestPolicy where
  key : Option MaintenanceKey
  priority : Nat
  rerun : Bool
  preemptible : Bool
  deriving DecidableEq, Repr

/-- `maintenanceRequestPolicy`: explicit segment requests are independent, background ones share a key. -/
def maintenanceRequestPolicy (request : MaintenanceRequest) : Except MaintenanceError RequestPolicy :=
  match request.kind with
  | .checkpoint => .ok ⟨some .checkpoint, maintenancePriorityCheckpoint, true, false⟩
  | .mappingGC => .ok ⟨some .mappingGC, maintenancePriorityMapping, false, true⟩
  | .mappingSurvey => .ok ⟨some .mappingSurvey, maintenancePriorityMapping, false, true⟩
  | .segmentRelocate | .segmentPrepare | .segmentCompact | .segmentNext =>
    if request.background then .ok ⟨some .segmentAuto, maintenancePrioritySegment, false, false⟩
    else .ok ⟨none, maintenancePrioritySegment, false, false⟩
  | .unset => .error .invalidConfig

/-- `mergeMaintenanceRequest`. -/
def mergeMaintenanceRequest (current incoming : MaintenanceRequest) : MaintenanceRequest :=
  if current.kind = .unset then incoming
  else
    { current with
      force := current.force || incoming.force
      gcAdmission := current.gcAdmission || incoming.gcAdmission
      background := current.background || incoming.background
      automatic := current.automatic || incoming.automatic
      periodic := current.periodic || incoming.periodic
      generation := if incoming.generation > current.generation then incoming.generation
        else current.generation }

variable {request : MaintenanceRequest}

/-- A request with a policy has a kind. -/
theorem maintenanceRequestPolicy_kind {policy : RequestPolicy}
    (h : maintenanceRequestPolicy request = .ok policy) : request.kind ≠ .unset := by
  intro hk
  simp [maintenanceRequestPolicy, hk] at h

/-- Merging into a request keeps its kind. -/
theorem mergeMaintenanceRequest_kind {current : MaintenanceRequest} (incoming : MaintenanceRequest)
    (h : current.kind ≠ .unset) : (mergeMaintenanceRequest current incoming).kind = current.kind := by
  simp [mergeMaintenanceRequest, h]

/-! ## §2 — Workers and transitions -/

/-- `maintenanceTransition`: the only way a worker changes state. -/
structure MaintenanceTransition where
  next : MaintenancePhase := .unset
  retain : MaintenanceResource := 0
  dependency : Option MaintenanceRequest := none
  done : Bool := false
  retryAfter : Nat := 0
  err : Option MaintenanceError := none

/-- A worker instance (one call of the factory) or the wrapper that delivers a failed dependency. -/
inductive MaintenanceWorker
  | built (serial : Nat) (request : MaintenanceRequest)
  | failedDependency (next : MaintenanceWorker) (err : MaintenanceError)

namespace MaintenanceWorker

/-- `Resources` of the worker the Store builds for a request. -/
def requestResources (request : MaintenanceRequest) (phase : MaintenancePhase) : MaintenanceResource :=
  match request.kind with
  | .unset => 0
  | .checkpoint => maintenanceMappingWriter
  | .segmentRelocate | .segmentPrepare | .segmentCompact | .segmentNext =>
    match phase with
    | .start | .copy | .publish => maintenanceHeavyIo ||| maintenanceRecoveryProtocol
    | .prove => maintenanceRecoveryProtocol
    | .retire => maintenanceHeavyIo ||| maintenanceRecoveryProtocol
    | _ => maintenanceRecoveryProtocol
  | .mappingGC =>
    if phase = .start ∧ request.automatic then maintenanceHeavyIo
    else if phase = .start ∨ phase = .cleanup then maintenanceRecoveryProtocol
    else if phase = .publish then maintenanceMappingWriter ||| maintenanceRecoveryProtocol
    else maintenanceHeavyIo ||| maintenanceRecoveryProtocol
  | .mappingSurvey => maintenanceHeavyIo

/-- `Resources`; the wrapper asks the worker it wraps. -/
def resources : MaintenanceWorker → MaintenancePhase → MaintenanceResource
  | built _ request, phase => requestResources request phase
  | failedDependency next _, phase => next.resources phase

/-- `Run`: a built worker may return any transition, the wrapper returns the dependency's error. -/
def run : MaintenanceWorker → MaintenanceTransition → MaintenanceTransition
  | built _ _, chosen => chosen
  | failedDependency _ err, _ => { done := true, err := some err }

end MaintenanceWorker

/-- `Store.NewMaintenanceWorker`; the serial number identifies the new instance. -/
def newMaintenanceWorker (serial : Nat) (request : MaintenanceRequest) :
    Except MaintenanceError MaintenanceWorker :=
  match request.kind with
  | .unset => .error .invalidConfig
  | _ => .ok (.built serial request)

/-- The factory accepts every request that has a kind. -/
theorem newMaintenanceWorker_of_kind {serial : Nat}
    (h : request.kind ≠ .unset) : newMaintenanceWorker serial request = .ok (.built serial request) := by
  unfold newMaintenanceWorker
  split
  · exact absurd ‹_› h
  · rfl

/-- `validateMaintenanceTransition`. -/
def validateMaintenanceTransition (transition : MaintenanceTransition) (owned : MaintenanceResource) :
    Option MaintenanceError :=
  let invalid (message : String) : Option MaintenanceError := some (.join [.invalidConfig, .text message])
  if andNot transition.retain owned ≠ 0 then
    invalid "worker retained an unowned maintenance resource"
  else if transition.done then
    if transition.dependency.isSome ∨ transition.next ≠ .unset ∨ transition.retain ≠ 0 ∨
        transition.retryAfter ≠ 0 then
      invalid "completed maintenance transition contains continuation state"
    else none
  else if transition.err.isSome then
    invalid "non-terminal maintenance transition contains an error"
  else if transition.next = .unset then
    invalid "maintenance transition has invalid next phase"
  else if transition.dependency.isSome ∧ transition.retryAfter ≠ 0 then
    invalid "maintenance transition combines dependency and retry delay"
  else
    match transition.dependency with
    | none => none
    | some request =>
      match maintenanceRequestPolicy request with
      | .error _ => invalid "maintenance transition has invalid dependency"
      | .ok _ => none

mutual

/-- `onlyContextCanceled`: every leaf of the error tree is `context.Canceled`. -/
def onlyContextCanceled : MaintenanceError → Bool
  | .canceled => true
  | .wrap cause => onlyContextCanceled cause
  | .join [] => false
  | .join (cause :: causes) => onlyContextCanceled cause && allContextCanceled causes
  | _ => false

/-- The loop of `onlyContextCanceled` over the causes of a joined error. -/
def allContextCanceled : List MaintenanceError → Bool
  | [] => true
  | cause :: causes => onlyContextCanceled cause && allContextCanceled causes

end

/-! ## §3 — The actor's state -/

/-- `maintenanceJob`.  Sets of dependent ids are lists without repetition; the maps of waiters are lists of
waiter numbers. -/
structure MaintenanceJob where
  id : Nat
  sequence : Nat
  request : MaintenanceRequest
  key : Option MaintenanceKey
  priority : Nat
  phase : MaintenancePhase
  worker : MaintenanceWorker
  waiters : List Nat := []
  nextWaiters : List Nat := []
  background : Bool := false
  nextBackground : Bool := false
  runAgain : Bool := false
  nextRequest : MaintenanceRequest := .zero
  dependents : List Nat := []
  nextDependents : List Nat := []
  waiting : Bool := false
  held : MaintenanceResource := 0
  runningResources : MaintenanceResource := 0
  preempted : Bool := false

/-- What an observer of the actor sees of one job: its `Run` calls, what they led to, and its removal
between two runs. -/
inductive Observation
  | ran (job : Nat) (worker : MaintenanceWorker) (phase : MaintenancePhase)
  | returned (job : Nat) (worker : MaintenanceWorker) (next : MaintenancePhase)
  | ended (job : Nat)
  | restarted (job : Nat)
  | dropped (job : Nat)
  | shutdown

/-- The job an observation is about. -/
def Observation.job : Observation → Option Nat
  | ran job _ _ | returned job _ _ | ended job | restarted job | dropped job => some job
  | shutdown => none

/-- The part of `MaintenanceConfig` the actor itself reads. -/
structure MaintenanceConfig where
  enabled : Bool
  disableSegmentGC : Bool
  disableMappingGC : Bool
  deriving DecidableEq, Repr

/-- The local variables of `run`, the timers it has armed, and the observations made so far (newest
first).  `active` maps a running job to the worker its goroutine was started with. -/
structure SchedulerState where
  nextJobID : Nat := 0
  nextWaiterID : Nat := 0
  sequence : Nat := 0
  pending : List Nat := []
  active : Nat → Option MaintenanceWorker := fun _ => none
  jobs : Nat → Option MaintenanceJob := fun _ => none
  byKey : MaintenanceKey → Option Nat := fun _ => none
  leased : MaintenanceResource := 0
  closing : Bool := false
  configured : Bool := false
  checkpointC : Bool := false
  maintenanceC : Bool := false
  automaticPolicy : MaintenanceConfig := ⟨false, false, false⟩
  retryTimers : List Nat := []
  nextSerial : Nat := 0
  completions : List (Nat × Nat × Option MaintenanceError) := []
  trace : List Observation := []

namespace SchedulerState

/-- Store a job back into the table. -/
def setJob (s : SchedulerState) (job : MaintenanceJob) : SchedulerState :=
  { s with jobs := update s.jobs job.id (some job) }

/-- Record an observation. -/
def emit (s : SchedulerState) (o : Observation) : SchedulerState := { s with trace := o :: s.trace }

/-- `finishWaiters`. -/
def finishWaiters (s : SchedulerState) (job : Nat) (waiters : List Nat) (err : Option MaintenanceError) :
    SchedulerState :=
  { s with completions := s.completions ++ waiters.map fun waiter => (job, waiter, err) }

/-- `byKey[job.key] = job`, for a job that has a key. -/
def bindKey (byKey : MaintenanceKey → Option Nat) (key : Option MaintenanceKey) (id : Nat) :
    MaintenanceKey → Option Nat :=
  fun k => if key = some k then some id else byKey k

/-- The deletion from `byKey` in `removeJob`: only if the key still names this job. -/
def releaseKey (byKey : MaintenanceKey → Option Nat) (key : Option MaintenanceKey) (id : Nat) :
    MaintenanceKey → Option Nat :=
  fun k => if key = some k ∧ byKey k = some id then none else byKey k

/-- `removeJob`. -/
def removeJob (s : SchedulerState) (job : MaintenanceJob) : SchedulerState :=
  { s with
    leased := andNot s.leased job.held
    jobs := update s.jobs job.id none
    byKey := releaseKey s.byKey job.key job.id }

/-- `sequence++; job.sequence = sequence; queueJob(job)`. -/
def requeue (s : SchedulerState) (job : MaintenanceJob) : SchedulerState :=
  { s.setJob { job with sequence := s.sequence + 1 } with
    sequence := s.sequence + 1
    pending := s.pending ++ [job.id] }

/-- Insert into a set of ids. -/
def insertID (ids : List Nat) (id : Nat) : List Nat := if id ∈ ids then ids else ids ++ [id]

/-- The branch of `enqueue` that creates a job and queues it. -/
def createJob (s : SchedulerState) (request : MaintenanceRequest) (policy : RequestPolicy)
    (worker : MaintenanceWorker) : SchedulerState × MaintenanceJob :=
  let job : MaintenanceJob :=
    { id := s.nextJobID + 1, sequence := s.sequence + 1, request := request, key := policy.key,
      priority := policy.priority, phase := .start, worker := worker }
  ({ s.setJob job with
      nextJobID := s.nextJobID + 1
      sequence := s.sequence + 1
      nextSerial := s.nextSerial + 1
      byKey := bindKey s.byKey policy.key job.id
      pending := s.pending ++ [job.id] }, job)

/-- The branch of `enqueue` for a running checkpoint: everything goes to the run after this one. -/
def coalesceRerun (s : SchedulerState) (job : MaintenanceJob) (request : MaintenanceRequest)
    (dependent : Nat) : SchedulerState :=
  s.setJob
    { job with
      runAgain := true
      nextRequest := mergeMaintenanceRequest job.nextRequest request
      nextBackground := job.nextBackground || request.background
      nextDependents := if dependent ≠ 0 then insertID job.nextDependents dependent
        else job.nextDependents }

/-- The end of `enqueue` for a job that takes the request in its current run. -/
def attach (s : SchedulerState) (job : MaintenanceJob) (request : MaintenanceRequest)
    (dependent : Nat) : SchedulerState :=
  s.setJob
    { job with
      background := job.background || request.background
      dependents := if dependent ≠ 0 then insertID job.dependents dependent else job.dependents }

/-- The branch of `enqueue` for a job that is not running: the request is merged and the worker is
built anew, whatever phase the job is in. -/
def rebuildAndAttach (s : SchedulerState) (job : MaintenanceJob) (request : MaintenanceRequest)
    (dependent : Nat) : Except MaintenanceError SchedulerState :=
  let merged := mergeMaintenanceRequest job.request request
  match newMaintenanceWorker s.nextSerial merged with
  | .error err => .error err
  | .ok worker =>
    .ok (attach { s with nextSerial := s.nextSerial + 1 } { job with request := merged, worker := worker }
      request dependent)

/-- `enqueue`: find the live job of the request's key or create one, and give it the request.  The
result names the job. -/
def enqueue (s : SchedulerState) (request : MaintenanceRequest) (dependent : Nat) :
    Except MaintenanceError (SchedulerState × Nat) :=
  match maintenanceRequestPolicy request with
  | .error err => .error err
  | .ok policy =>
    match (policy.key.bind s.byKey).bind s.jobs with
    | some job =>
      if (s.active job.id).isSome then
        if policy.rerun then .ok (s.coalesceRerun job request dependent, job.id)
        else .ok (s.attach job request dependent, job.id)
      else (s.rebuildAndAttach job request dependent).map (·, job.id)
    | none =>
      match newMaintenanceWorker s.nextSerial request with
      | .error err => .error err
      | .ok worker =>
        let (created, job) := s.createJob request policy worker
        (created.rebuildAndAttach job request dependent).map (·, job.id)

/-- A tick drops the error of `enqueue`. -/
def enqueueTick (s : SchedulerState) (request : MaintenanceRequest) : SchedulerState :=
  match s.enqueue request 0 with
  | .error _ => s
  | .ok (next, _) => next

/-! ## §4 — Dispatch and completion -/

/-- The resources a job still needs for its next run. -/
def need (job : MaintenanceJob) : MaintenanceResource := andNot (job.worker.resources job.phase) job.held

/-- `job` goes before `best` in the queue: higher priority, then the older sequence number. -/
def precedes (job best : MaintenanceJob) : Bool :=
  job.priority > best.priority || (job.priority == best.priority && job.sequence < best.sequence)

/-- The scan of `dispatch` over the queue. -/
def best (s : SchedulerState) : Option MaintenanceJob :=
  s.pending.foldl (fun found id =>
    match s.jobs id with
    | none => found
    | some job =>
      if need job &&& s.leased ≠ 0 then found
      else match found with
        | none => some job
        | some chosen => if precedes job chosen then some job else found) none

/-- The body of `dispatch` for the chosen job: lease, mark active, start the worker's goroutine. -/
def launch (s : SchedulerState) (job : MaintenanceJob) : SchedulerState :=
  ({ s with
      pending := s.pending.erase job.id
      leased := s.leased ||| need job
      active := update s.active job.id (some job.worker)
      jobs := update s.jobs job.id (some { job with runningResources := need job }) }).emit
    (.ran job.id job.worker job.phase)

/-- The loop of `dispatch`; each turn takes one job off the queue, which bounds the turns. -/
def dispatchLoop : Nat → SchedulerState → SchedulerState
  | 0, s => s
  | turns + 1, s =>
    match s.best with
    | none => s
    | some job => dispatchLoop turns (s.launch job)

/-- `dispatch`. -/
def dispatch (s : SchedulerState) : SchedulerState := dispatchLoop s.pending.length s

/-- `complete` for one dependent: a waiting dependent is queued again, and an error reaches it through
the wrapper worker. -/
def resumeDependent (err : Option MaintenanceError) (s : SchedulerState) (id : Nat) : SchedulerState :=
  match s.jobs id with
  | none => s
  | some dependent =>
    if dependent.waiting then
      s.requeue
        { dependent with
          waiting := false
          worker := match err with
            | none => dependent.worker
            | some cause => .failedDependency dependent.worker cause }
    else s

/-- `complete`; Go ranges over the dependents in an arbitrary order. -/
def complete (s : SchedulerState) (job : MaintenanceJob) (err : Option MaintenanceError)
    (order : List Nat) : SchedulerState :=
  order.foldl (resumeDependent err) (s.finishWaiters job.id job.waiters err)

/-! ## §5 — The branches of the event loop -/

/-- A waiter's key in its job's maps: the low half of its number. -/
def waiterKey (number : Nat) : Nat := number % 2 ^ 32

/-- Store a waiter under its key; an entry with the same key is overwritten. -/
def putWaiter (waiters : List Nat) (number : Nat) : List Nat :=
  waiters.filter (fun other => waiterKey other != waiterKey number) ++ [number]

/-- Delete the entry of a key. -/
def deleteWaiter (waiters : List Nat) (key : Nat) : List Nat :=
  waiters.filter fun other => waiterKey other != key

/-- Add the waiter of a submission to the run that will answer it. -/
def addWaiter (s : SchedulerState) (id : Nat) : SchedulerState :=
  match s.jobs id with
  | none => s
  | some job =>
    let waiter := s.nextWaiterID + 1
    let numbered := { s with nextWaiterID := s.nextWaiterID + 1 }
    if (s.active id).isSome && job.runAgain then
      numbered.setJob { job with nextWaiters := putWaiter job.nextWaiters waiter }
    else numbered.setJob { job with waiters := putWaiter job.waiters waiter }

/-- Does a submitted job preempt a running one? -/
def preempts (job running : MaintenanceJob) : Bool :=
  match maintenanceRequestPolicy running.request with
  | .error _ => false
  | .ok policy =>
    job.priority > running.priority && policy.preemptible &&
      (job.worker.resources job.phase &&& running.runningResources) != 0

/-- The preemption loop of a submission over the active jobs. -/
def preemptRunning (s : SchedulerState) (id : Nat) : SchedulerState :=
  match s.jobs id with
  | none => s
  | some job =>
    { s with
      jobs := fun other =>
        (s.jobs other).map fun running =>
          if (s.active other).isSome && preempts job running then { running with preempted := true }
          else running }

/-- The submission branch after `enqueue` accepted the request. -/
def acceptSubmission (s : SchedulerState) (id : Nat) (waiter : Bool) : SchedulerState :=
  ((if waiter then s.addWaiter id else s).preemptRunning id).dispatch

/-- Nobody is interested in the job any more. -/
def abandoned (job : MaintenanceJob) : Bool :=
  job.waiters.isEmpty && job.nextWaiters.isEmpty && !job.background && !job.nextBackground &&
    job.dependents.isEmpty && job.nextDependents.isEmpty

/-- The job with one waiter deleted. -/
def withoutWaiter (job : MaintenanceJob) (waiter : Nat) : MaintenanceJob :=
  { job with
    waiters := deleteWaiter job.waiters waiter
    nextWaiters := deleteWaiter job.nextWaiters waiter }

/-- The cancellation branch: an abandoned job that is neither running nor waiting is removed. -/
def cancel (s : SchedulerState) (id waiter : Nat) : SchedulerState :=
  match s.jobs id with
  | none => s
  | some found =>
    let job := withoutWaiter found waiter
    if abandoned job && (s.active id).isNone && !job.waiting then
      (({ s with pending := s.pending.erase id }).removeJob job).emit (.dropped id)
    else s.setJob job

/-- Preemption is a restart boundary: a fresh worker at `start`. -/
def restart (s : SchedulerState) (job : MaintenanceJob) (order : List Nat) : SchedulerState :=
  match newMaintenanceWorker s.nextSerial job.request with
  | .error err => ((s.complete { job with preempted := false } (some err) order).removeJob job).emit (.ended job.id)
  | .ok worker =>
    (({ s with nextSerial := s.nextSerial + 1 }).requeue
      { job with preempted := false, worker := worker, phase := .start }).emit (.restarted job.id)

/-- A terminal transition: answer the waiters and dependents, then run again or remove the job. -/
def finish (s : SchedulerState) (job : MaintenanceJob) (err : Option MaintenanceError)
    (order : List Nat) : SchedulerState :=
  let completed := (s.complete job err order).emit (.ended job.id)
  if job.runAgain && !s.closing then
    let again :=
      { job with
        waiters := job.nextWaiters, nextWaiters := []
        dependents := job.nextDependents, nextDependents := []
        background := job.nextBackground, nextBackground := false
        request := mergeMaintenanceRequest job.request job.nextRequest
        nextRequest := .zero }
    match newMaintenanceWorker completed.nextSerial again.request with
    | .error failure => (completed.finishWaiters job.id again.waiters (some failure)).removeJob again
    | .ok worker =>
      ({ completed with nextSerial := completed.nextSerial + 1 }).requeue
        { again with worker := worker, runAgain := false, phase := .start }
  else completed.removeJob job

/-- A transition with a dependency: wait for the dependency's job. -/
def awaitDependency (s : SchedulerState) (job : MaintenanceJob) (worker : MaintenanceWorker)
    (next : MaintenancePhase) (dependency : MaintenanceRequest) (order : List Nat) : SchedulerState :=
  let waiting := { job with phase := next, waiting := true }
  let observed := (s.setJob waiting).emit (.returned job.id worker next)
  match observed.enqueue dependency job.id with
  | .ok (queued, _) => queued
  | .error err =>
    let resumed := { waiting with waiting := false }
    (((observed.setJob resumed).complete resumed (some err) order).removeJob resumed).emit
      (.dropped job.id)

/-- A plain non-terminal transition: queue the job again, now or when its timer fires. -/
def advance (s : SchedulerState) (job : MaintenanceJob) (worker : MaintenanceWorker)
    (next : MaintenancePhase) (retryAfter : Nat) : SchedulerState :=
  let observed := (s.setJob { job with phase := next }).emit (.returned job.id worker next)
  if retryAfter > 0 then
    { observed.setJob { job with phase := next, sequence := s.sequence + 1 } with
      sequence := s.sequence + 1
      retryTimers := s.retryTimers ++ [job.id] }
  else observed.requeue { job with phase := next }

/-- The transition the actor acts on: an invalid one is replaced by a failure. -/
def accepted (job : MaintenanceJob) (returned : MaintenanceTransition) : MaintenanceTransition :=
  match validateMaintenanceTransition returned (job.held ||| job.runningResources) with
  | some err => { done := true, err := some err }
  | none => returned

/-- The bookkeeping at the top of the done branch: the job is inactive and holds what it retained. -/
def settle (s : SchedulerState) (job : MaintenanceJob) (retain : MaintenanceResource) : SchedulerState :=
  ({ s with
      active := update s.active job.id none
      leased := andNot (andNot s.leased job.runningResources) (andNot job.held retain) ||| retain }).setJob
    { job with runningResources := 0, held := retain }

/-- The done branch for a job whose worker returned. -/
def handleDone (s : SchedulerState) (found : MaintenanceJob) (worker : MaintenanceWorker)
    (chosen : MaintenanceTransition) (order : List Nat) : SchedulerState :=
  let transition := accepted found (worker.run chosen)
  let job := { found with runningResources := 0, held := transition.retain }
  let settled := s.settle found transition.retain
  if job.preempted && (transition.err.map onlyContextCanceled).getD false && !s.closing then
    settled.restart job order
  else if transition.err.isSome || transition.done then settled.finish job transition.err order
  else
    match transition.dependency with
    | some dependency => settled.awaitDependency job worker transition.next dependency order
    | none => settled.advance job worker transition.next transition.retryAfter

/-- The shutdown branch: every waiter is told, the queue is dropped, running workers are cancelled. -/
def shutdown (s : SchedulerState) : SchedulerState :=
  let answers := (List.range (s.nextJobID + 1)).flatMap fun id =>
    match s.jobs id with
    | none => []
    | some job => (job.waiters ++ job.nextWaiters).map fun waiter => (id, waiter, some MaintenanceError.closed)
  ({ s with
      closing := true
      checkpointC := false
      maintenanceC := false
      jobs := fun id => (s.jobs id).map fun (job : MaintenanceJob) =>
        { job with waiters := [], nextWaiters := [] }
      pending := []
      completions := s.completions ++ answers }).emit .shutdown

/-- The loop has returned: it is closing and nothing is active. -/
def stopped (s : SchedulerState) : Bool :=
  s.closing && (List.range (s.nextJobID + 1)).all fun id => (s.active id).isNone

end SchedulerState

/-- What the actor's `select` receives. -/
inductive SchedulerEvent
  | configure (maintenance : MaintenanceConfig)
  | checkpointTick
  | maintenanceTick
  | submit (request : MaintenanceRequest) (waiter : Bool)
  | cancel (job waiter : Nat)
  | done (job : Nat) (chosen : MaintenanceTransition) (order : List Nat)
  | retry (job : Nat)
  | shutdown

/-- The requests of the periodic ticks. -/
def periodicCheckpoint : MaintenanceRequest := { kind := .checkpoint, background := true, periodic := true }
def automaticSegment : MaintenanceRequest := { kind := .segmentNext, background := true, automatic := true }
def automaticMapping : MaintenanceRequest := { kind := .mappingGC, background := true, automatic := true }

/-- One iteration of the event loop. -/
def SchedulerState.handle (s : SchedulerState) : SchedulerEvent → Option SchedulerState
  | .configure maintenance =>
    if s.configured then some s
    else some { s with
      configured := true, checkpointC := true, automaticPolicy := maintenance,
      maintenanceC := maintenance.enabled }
  | .checkpointTick => if s.checkpointC then some (s.enqueueTick periodicCheckpoint).dispatch else none
  | .maintenanceTick =>
    if s.maintenanceC then
      let segment := if s.automaticPolicy.disableSegmentGC then s else s.enqueueTick automaticSegment
      let mapping := if s.automaticPolicy.disableMappingGC then segment
        else segment.enqueueTick automaticMapping
      some mapping.dispatch
    else none
  | .submit request waiter =>
    if s.closing then some s
    else
      -- `SubmitBackground` has no waiter and marks its request.
      let submitted := if waiter then request else { request with background := true }
      match s.enqueue submitted 0 with
      | .error _ => some s.dispatch
      | .ok (queued, id) => some (queued.acceptSubmission id waiter)
  | .cancel job waiter => some (s.cancel job waiter)
  | .done id chosen order =>
    match s.active id, s.jobs id with
    | some worker, some job =>
      if order.isPerm job.dependents then some (s.handleDone job worker chosen order).dispatch else none
    | _, _ => some s
  | .retry id =>
    if id ∈ s.retryTimers then
      let fired := { s with retryTimers := s.retryTimers.erase id }
      match s.jobs id with
      | none => some fired
      | some job =>
        if (s.active id).isNone && !job.waiting then some (fired.requeue job).dispatch else some fired
    else none
  | .shutdown => if s.closing then none else some s.shutdown

/-- The scheduler as a machine: it starts empty, and no event is handled once the loop has returned. -/
def scheduler : Lib.Machine SchedulerState SchedulerEvent where
  init s := s = ({} : SchedulerState)
  step s e := if s.stopped then none else s.handle e

end Ridstore.Engine
