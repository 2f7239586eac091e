import Mathlib.Logic.Relation
import Ridstore.Engine.PhaseContinuity

/-
# Ridstore.Engine.SchedulerMoves — an event as a sequence of small moves

One event of the actor touches several jobs: a finished checkpoint answers its waiters, queues every job
that waited for it, is queued again itself, and then the queue is scanned.  Every invariant about
leases, waiters or dependents would have to follow all of it.  This module cuts the event loop once
and for all into moves that write one job each.  Between two moves the actor may have a job in hand, or
a request it has just given to a job; `Hand` says which.  `step_moves` states that every event is a
sequence of moves, so an invariant of the moves is an invariant of the scheduler.
-/

namespace Ridstore.Engine

open SchedulerState List Function Option

/-! ## §1 — What the actor has in hand -/

/-- What the actor is in the middle of. -/
inductive Hand
  | free
  | holding (job : Nat) (worker : MaintenanceWorker) (outcome : MaintenanceTransition)
  | joining (job : Nat)
  | admitted (job : Nat) (request : MaintenanceRequest) (next : Bool) (dependent : Nat)

/-- The dependent for which the actor may give a request to a job now; `0` stands for nobody. -/
def Hand.asks : Hand → Option Nat
  | .free => some 0
  | .joining job => some job
  | _ => none

/-- The actor between two moves. -/
structure Actor where
  state : SchedulerState
  hand : Hand

/-- The record of the job in hand: it runs nowhere, is queued nowhere and waits for nothing. -/
structure Held (s : SchedulerState) (job : MaintenanceJob) : Prop where
  live : s.jobs job.id = some job
  hand : InHand s job
  waiting : job.waiting = false

/-- A job with one more dependent, in the current run's set or the next one's. -/
def addDependent (job : MaintenanceJob) (next : Bool) (dependent : Nat) : MaintenanceJob :=
  if next then { job with nextDependents := insertID job.nextDependents dependent }
  else { job with dependents := insertID job.dependents dependent }

/-- The record with which a finished job is queued for the requests that came while it ran. -/
def secondRun (job : MaintenanceJob) (serial : Nat) : MaintenanceJob :=
  { job with
    waiters := job.nextWaiters, nextWaiters := []
    dependents := job.nextDependents, nextDependents := []
    background := job.nextBackground, nextBackground := false
    request := mergeMaintenanceRequest job.request job.nextRequest
    nextRequest := .zero
    worker := .built serial (mergeMaintenanceRequest job.request job.nextRequest)
    runAgain := false
    phase := .start }

/-- The record of a running checkpoint that took a request for its next run. -/
def reran (job : MaintenanceJob) (request : MaintenanceRequest) : MaintenanceJob :=
  { job with
    runAgain := true
    nextRequest := mergeMaintenanceRequest job.nextRequest request
    nextBackground := job.nextBackground || request.background }

/-- The record of a job that took a request in its current run. -/
def joined (job : MaintenanceJob) (request : MaintenanceRequest) : MaintenanceJob :=
  { job with background := job.background || request.background }

/-- The record of an idle job that took a request, with the worker built for both. -/
def rebuilt (job : MaintenanceJob) (request : MaintenanceRequest) (serial : Nat) : MaintenanceJob :=
  { joined job request with
    request := mergeMaintenanceRequest job.request request
    worker := .built serial (mergeMaintenanceRequest job.request request) }

/-- A terminal transition. -/
def MaintenanceTransition.terminal (outcome : MaintenanceTransition) : Bool :=
  outcome.err.isSome || outcome.done

/-- The requests an event gives to `enqueue`. -/
def SchedulerEvent.requests : SchedulerEvent → MaintenanceRequest → Prop
  | .checkpointTick, asked => asked = periodicCheckpoint
  | .maintenanceTick, asked => asked = automaticSegment ∨ asked = automaticMapping
  | .submit request waiter, asked => asked = if waiter then request else { request with background := true }
  | .done _ chosen _, asked => chosen.dependency = some asked
  | _, _ => False

variable {dependency : MaintenanceRequest}

/-- A dependency the actor acts on is the one the worker returned. -/
theorem accepted_requests {job : MaintenanceJob} {worker : MaintenanceWorker} {chosen : MaintenanceTransition}
    (h : (accepted job (worker.run chosen)).dependency = some dependency) : chosen.dependency = some dependency := by
  unfold accepted at h
  split at h
  · cases h
  · cases worker with
    | built => exact h
    | failedDependency => cases h

/-! ## §2 — The moves -/

/-- **The moves of the actor.**  Each carries the guards under which the event loop makes it. -/
inductive Move (e : SchedulerEvent) : Actor → Actor → Prop
  | configure (s : SchedulerState) (hand : Hand) (configured checkpointC maintenanceC : Bool)
      (automaticPolicy : MaintenanceConfig) :
      Move e ⟨s, hand⟩ ⟨{ s with configured, checkpointC, maintenanceC, automaticPolicy }, hand⟩
  | note (s : SchedulerState) (hand : Hand) (o : Observation)
      (hran : ∀ id worker phase, o ≠ .ran id worker phase)
      (hid : ∀ id, o.job = some id → id ≤ s.nextJobID) : Move e ⟨s, hand⟩ ⟨s.emit o, hand⟩
  -- Admission: a request meets a live job of its key, or a job is created for it first.
  | create {request : MaintenanceRequest} {policy : RequestPolicy} {dependent : Nat} (s : SchedulerState)
      (hand : Hand) (hasks : hand.asks = some dependent)
      (hp : maintenanceRequestPolicy request = .ok policy) (hkey : policy.key.bind s.byKey = none)
      (hreq : e.requests request) :
      Move e ⟨s, hand⟩ ⟨(s.createJob request policy (.built s.nextSerial request)).1, hand⟩
  | rerun {request : MaintenanceRequest} {policy : RequestPolicy} {dependent : Nat}
      (s : SchedulerState) (hand : Hand) (job : MaintenanceJob) (worker : MaintenanceWorker)
      (hasks : hand.asks = some dependent) (hp : maintenanceRequestPolicy request = .ok policy)
      (hjob : s.jobs job.id = some job) (hkey : job.key = policy.key)
      (ha : s.active job.id = some worker) (hr : policy.rerun = true) (hreq : e.requests request) :
      Move e ⟨s, hand⟩ ⟨s.setJob (reran job request), .admitted job.id request true dependent⟩
  | join {request : MaintenanceRequest} {policy : RequestPolicy} {dependent : Nat}
      (s : SchedulerState) (hand : Hand) (job : MaintenanceJob) (worker : MaintenanceWorker)
      (hasks : hand.asks = some dependent) (hp : maintenanceRequestPolicy request = .ok policy)
      (hjob : s.jobs job.id = some job) (hkey : job.key = policy.key)
      (ha : s.active job.id = some worker) (hr : policy.rerun = false) (hreq : e.requests request) :
      Move e ⟨s, hand⟩ ⟨s.setJob (joined job request), .admitted job.id request false dependent⟩
  | rebuild {request : MaintenanceRequest} {policy : RequestPolicy} {dependent : Nat}
      (s : SchedulerState) (hand : Hand) (job : MaintenanceJob)
      (hasks : hand.asks = some dependent) (hp : maintenanceRequestPolicy request = .ok policy)
      (hjob : s.jobs job.id = some job) (hkey : job.key = policy.key) (hidle : s.active job.id = none)
      (hreq : e.requests request) :
      Move e ⟨s, hand⟩ ⟨({ s with nextSerial := s.nextSerial + 1 }).setJob (rebuilt job request s.nextSerial),
        .admitted job.id request false dependent⟩
  | release (s : SchedulerState) (id : Nat) (request : MaintenanceRequest) (next : Bool) :
      Move e ⟨s, .admitted id request next 0⟩ ⟨s, .free⟩
  | waiter {job : MaintenanceJob} (s : SchedulerState) (id : Nat) (request : MaintenanceRequest) (next : Bool)
      (hjob : s.jobs id = some job) (hopen : s.closing = false) :
      Move e ⟨s, .admitted id request next 0⟩ ⟨s.addWaiter id, .free⟩
  | depend {dependent : Nat} (s : SchedulerState) (job : MaintenanceJob) (request : MaintenanceRequest) (next : Bool)
      (hdep : dependent ≠ 0) (hjob : s.jobs job.id = some job) :
      Move e ⟨s, .admitted job.id request next dependent⟩ ⟨s.setJob (addDependent job next dependent), .free⟩
  -- Submissions and cancellations.
  | preempt (s : SchedulerState) (id : Nat) : Move e ⟨s, .free⟩ ⟨s.preemptRunning id, .free⟩
  | dropWaiter (s : SchedulerState) (job : MaintenanceJob) (waiter : Nat) (he : e = .cancel job.id waiter)
      (hjob : s.jobs job.id = some job) :
      Move e ⟨s, .free⟩ ⟨s.setJob (withoutWaiter job waiter), .free⟩
  | abandon (s : SchedulerState) (job : MaintenanceJob) (hjob : s.jobs job.id = some job)
      (hidle : s.active job.id = none) (hwait : job.waiting = false) (hgone : abandoned job = true)
      (he : ∃ waiter, e = .cancel job.id waiter) :
      Move e ⟨s, .free⟩ ⟨({ s with pending := s.pending.erase job.id }).removeJob job, .free⟩
  -- Running.
  | launch (s : SchedulerState) (job : MaintenanceJob) (hjob : s.jobs job.id = some job)
      (hp : job.id ∈ s.pending) (hfit : need job &&& s.leased = 0) : Move e ⟨s, .free⟩ ⟨s.launch job, .free⟩
  | take (s : SchedulerState) (job : MaintenanceJob) (worker : MaintenanceWorker)
      (chosen : MaintenanceTransition) (hjob : s.jobs job.id = some job)
      (ha : s.active job.id = some worker) (order : List Nat) (he : e = .done job.id chosen order) :
      Move e ⟨s, .free⟩ ⟨s.settle job (accepted job (worker.run chosen)).retain,
        .holding job.id worker (accepted job (worker.run chosen))⟩
  -- The branches for the job in hand.
  | restart (s : SchedulerState) (job : MaintenanceJob) (worker : MaintenanceWorker)
      (outcome : MaintenanceTransition) (held : Held s job) (hpre : job.preempted = true)
      (hcanceled : (outcome.err.map onlyContextCanceled).getD false = true) (hopen : s.closing = false) :
      Move e ⟨s, .holding job.id worker outcome⟩
        ⟨({ s with nextSerial := s.nextSerial + 1 }).requeue
          { job with preempted := false, worker := .built s.nextSerial job.request, phase := .start }, .free⟩
  | answer (s : SchedulerState) (job : MaintenanceJob) (worker : MaintenanceWorker)
      (outcome : MaintenanceTransition) (held : Held s job) (hterm : outcome.terminal = true) :
      Move e ⟨s, .holding job.id worker outcome⟩
        ⟨(s.finishWaiters job.id job.waiters outcome.err).setJob { job with waiters := [] },
          .holding job.id worker outcome⟩
  | resume {dependent : Nat} (s : SchedulerState) (job : MaintenanceJob) (worker : MaintenanceWorker)
      (outcome : MaintenanceTransition) (held : Held s job) (hterm : outcome.terminal = true)
      (hdep : dependent ∈ job.dependents) :
      Move e ⟨s, .holding job.id worker outcome⟩
        ⟨resumeDependent outcome.err (s.setJob { job with dependents := job.dependents.erase dependent })
          dependent, .holding job.id worker outcome⟩
  | again (s : SchedulerState) (job : MaintenanceJob) (worker : MaintenanceWorker)
      (outcome : MaintenanceTransition) (held : Held s job) (hterm : outcome.terminal = true)
      (hwaiters : job.waiters = []) (hdeps : job.dependents = []) (hagain : job.runAgain = true)
      (hopen : s.closing = false) :
      Move e ⟨s, .holding job.id worker outcome⟩
        ⟨({ s with nextSerial := s.nextSerial + 1 }).requeue (secondRun job s.nextSerial), .free⟩
  | remove (s : SchedulerState) (job : MaintenanceJob) (worker : MaintenanceWorker)
      (outcome : MaintenanceTransition) (held : Held s job) (hterm : outcome.terminal = true)
      (hwaiters : job.waiters = []) (hdeps : job.dependents = [])
      (hlast : job.runAgain = false ∨ s.closing = true) :
      Move e ⟨s, .holding job.id worker outcome⟩ ⟨s.removeJob job, .free⟩
  | queue (s : SchedulerState) (job : MaintenanceJob) (worker : MaintenanceWorker)
      (outcome : MaintenanceTransition) (held : Held s job) (hterm : outcome.terminal = false)
      (hdep : outcome.dependency = none) :
      Move e ⟨s, .holding job.id worker outcome⟩ ⟨s.requeue { job with phase := outcome.next }, .free⟩
  | time (s : SchedulerState) (job : MaintenanceJob) (worker : MaintenanceWorker)
      (outcome : MaintenanceTransition) (held : Held s job) (hterm : outcome.terminal = false)
      (hdep : outcome.dependency = none) :
      Move e ⟨s, .holding job.id worker outcome⟩
        ⟨{ s.setJob { job with phase := outcome.next, sequence := s.sequence + 1 } with
            sequence := s.sequence + 1
            retryTimers := s.retryTimers ++ [job.id] }, .free⟩
  | wait {request : MaintenanceRequest} (s : SchedulerState) (job : MaintenanceJob) (worker : MaintenanceWorker)
      (outcome : MaintenanceTransition) (held : Held s job) (hterm : outcome.terminal = false)
      (hdep : outcome.dependency = some request) :
      Move e ⟨s, .holding job.id worker outcome⟩
        ⟨s.setJob { job with phase := outcome.next, waiting := true }, .joining job.id⟩
  -- Timers and shutdown.
  | fire (s : SchedulerState) (id : Nat) (ht : id ∈ s.retryTimers) (hgone : s.jobs id = none) :
      Move e ⟨s, .free⟩ ⟨{ s with retryTimers := s.retryTimers.erase id }, .free⟩
  | retry (s : SchedulerState) (job : MaintenanceJob) (ht : job.id ∈ s.retryTimers)
      (hjob : s.jobs job.id = some job) :
      Move e ⟨s, .free⟩ ⟨({ s with retryTimers := s.retryTimers.erase job.id }).requeue job, .free⟩
  | shutdown (s : SchedulerState) (hopen : s.closing = false) : Move e ⟨s, .free⟩ ⟨s.shutdown, .free⟩

variable {s s' : SchedulerState} {job : MaintenanceJob} {request : MaintenanceRequest}
  {policy : RequestPolicy} {dependent : Nat} {err : Option MaintenanceError} {e : SchedulerEvent} {id : Nat}

/-- A sequence of moves. -/
def Moves (e : SchedulerEvent) : Actor → Actor → Prop := Relation.ReflTransGen (Move e)

/-! ## §3 — The tables stay well formed -/

/-- The record `setJob` gives the job in hand has to keep its key and kind. -/
theorem Held.setJob_wellFormed (held : Held s job) (h : WellFormed s) (again : MaintenanceJob)
    (hid : again.id = job.id) (hkey : again.key = job.key) (hkind : again.request.kind = job.request.kind) :
    WellFormed (s.setJob again) :=
  h.setJob again job (hid ▸ held.live) hkey hkind (.inl (hid ▸ held.hand.idle))
    fun _ => .inr ⟨⟨job, hid ▸ held.live, hkey.symm, hkind.symm⟩, hid ▸ held.hand.idle,
      hid ▸ held.hand.unqueued, hid ▸ held.hand.untimed⟩

/-- Queueing the job in hand under a new record. -/
theorem Held.requeue_wellFormed (held : Held s job) (h : WellFormed s) (again : MaintenanceJob)
    (hid : again.id = job.id) (hkey : again.key = job.key) (hkind : again.request.kind = job.request.kind)
    (hwait : again.waiting = false) : WellFormed (s.requeue again) :=
  h.requeue ⟨⟨job, hid ▸ held.live, hkey.symm, hkind.symm⟩, hid ▸ held.hand.idle,
    hid ▸ held.hand.unqueued, hid ▸ held.hand.untimed⟩ hwait

theorem Held.serial (held : Held s job) (n : Nat) : Held { s with nextSerial := n } job :=
  ⟨held.live, ⟨held.hand.live, held.hand.idle, held.hand.unqueued, held.hand.untimed⟩, held.waiting⟩

/-- A job with an armed timer is in hand once the timer is gone. -/
theorem WellFormed.timed_held (h : WellFormed s) (ht : job.id ∈ s.retryTimers) (hjob : s.jobs job.id = some job) :
    Held { s with retryTimers := s.retryTimers.erase job.id } job := by
  obtain ⟨hidle, -, hwait⟩ := h.timer_idle _ ht
  refine ⟨hjob, ⟨⟨job, hjob, rfl, rfl⟩, hidle, ?_, ?_⟩, hwait job hjob⟩
  · exact fun hp => (h.pending_idle _ hp).2.1 ht
  · exact fun hmem => ((h.timers_nodup.mem_erase_iff).mp hmem).1 rfl

/-- The kind of a merged request is that of the request merged into. -/
theorem WellFormed.merged_kind (h : WellFormed s) (hjob : s.jobs id = some job) (request : MaintenanceRequest) :
    (mergeMaintenanceRequest job.request request).kind = job.request.kind :=
  mergeMaintenanceRequest_kind request (h.job_kind id job hjob)

variable {a b : Actor}

/-- **Every move keeps the tables well formed.** -/
theorem Move.wellFormed (m : Move e a b) (h : WellFormed a.state) : WellFormed b.state := by
  induction m with
  | configure => exact { h with }
  | note s hand o hran hid => exact h.emit hid
  | create s hand hasks hp hkey => exact h.createJob _ _ _ (maintenanceRequestPolicy_kind hp)
  | rerun s hand job worker hasks hp hjob | join s hand job worker hasks hp hjob
  | dropWaiter s job waiter he hjob => exact h.rewrite _ job hjob rfl rfl rfl rfl
  | rebuild s hand job hasks hp hjob hkey hidle =>
    exact (h.serial _).setJob _ job hjob rfl (h.merged_kind hjob _) (.inl hidle) .inl
  | release => exact h
  | waiter s id request next hjob => exact h.addWaiter id
  | depend s job request next hdep hjob =>
    unfold addDependent
    split
    · exact h.rewrite _ job hjob rfl rfl rfl rfl
    · exact h.rewrite _ job hjob rfl rfl rfl rfl
  | preempt s id => exact h.preemptRunning id
  | abandon s job hjob hidle hwait hgone =>
    exact (h.dequeue job.id).removeJob hjob rfl hidle fun hp => ((h.pending_nodup.mem_erase_iff).mp hp).1 rfl
  | launch s job hjob hp hfit => exact h.launch hjob hp
  | take s job worker chosen hjob ha => exact (h.settle hjob ha _).1
  | restart s job worker outcome held hpre hcanceled hopen =>
    exact (held.serial _).requeue_wellFormed (h.serial _) _ rfl rfl rfl held.waiting
  | answer s job worker outcome held hterm =>
    exact (h.finishWaiters job.id job.waiters).rewrite _ job held.live rfl rfl rfl rfl
  | resume s job worker outcome held hterm hdep =>
    refine WellFormed.resumeDependent ?_ _ _
    exact h.rewrite _ job held.live rfl rfl rfl rfl
  | again s job worker outcome held hterm hwaiters hdeps hagain hopen =>
    exact (held.serial _).requeue_wellFormed (h.serial _) _ rfl rfl (h.merged_kind held.live _) held.waiting
  | remove s job worker outcome held hterm hwaiters hdeps hlast =>
    exact h.removeJob held.live rfl held.hand.idle held.hand.unqueued
  | queue s job worker outcome held hterm hdep =>
    exact held.requeue_wellFormed h _ rfl rfl rfl held.waiting
  | time s job worker outcome held hterm hdep =>
    have hset := held.setJob_wellFormed h { job with phase := outcome.next, sequence := s.sequence + 1 }
      rfl rfl rfl
    have htimed := hset.armTimer job ⟨⟨_, update_self .., rfl, rfl⟩, held.hand.idle,
      held.hand.unqueued, held.hand.untimed⟩ (update_self ..) held.waiting
    exact { htimed with }
  | wait s job worker outcome held hterm hdep => exact held.setJob_wellFormed h _ rfl rfl rfl
  | fire s id ht hgone => exact h.fireTimer id
  | retry s job ht hjob =>
    exact (h.timed_held ht hjob).requeue_wellFormed (h.fireTimer _) job rfl rfl rfl (h.timed_held ht hjob).waiting
  | shutdown s hopen => exact h.shutdown

/-- **The rule for invariants of the moves.** -/
theorem Moves.invariant (Inv : Actor → Prop) (hmove : ∀ a b, WellFormed a.state → Inv a → Move e a b → Inv b)
    (h : Moves e a b) (hwf : WellFormed a.state) (ha : Inv a) : WellFormed b.state ∧ Inv b := by
  induction h with
  | refl => exact ⟨hwf, ha⟩
  | tail _ m ih => exact ⟨m.wellFormed ih.1, hmove _ _ ih.1 ih.2 m⟩

/-! ## §4 — The event loop in moves -/

theorem setJob_setJob (s : SchedulerState) {job again : MaintenanceJob} (hid : again.id = job.id) :
    (s.setJob job).setJob again = s.setJob again := by
  simp only [setJob, hid, update_idem]

/-- What `enqueue` writes for a dependency, in two steps. -/
theorem setJob_addDependent (s : SchedulerState) (job : MaintenanceJob) (next : Bool) (dependent : Nat) :
    (s.setJob job).setJob (addDependent job next dependent) = s.setJob (addDependent job next dependent) := by
  refine setJob_setJob s ?_
  cases next <;> rfl

theorem coalesceRerun_eq (s : SchedulerState) (job : MaintenanceJob) (request : MaintenanceRequest)
    (dependent : Nat) : s.coalesceRerun job request dependent =
      if dependent = 0 then s.setJob (reran job request)
      else (s.setJob (reran job request)).setJob (addDependent (reran job request) true dependent) := by
  rw [setJob_addDependent]
  by_cases hd : dependent = 0
  · simp [coalesceRerun, reran, hd]
  · simp [coalesceRerun, reran, addDependent, hd]

theorem attach_eq (s : SchedulerState) (job : MaintenanceJob) (request : MaintenanceRequest)
    (dependent : Nat) : s.attach job request dependent =
      if dependent = 0 then s.setJob (joined job request)
      else (s.setJob (joined job request)).setJob (addDependent (joined job request) false dependent) := by
  rw [setJob_addDependent]
  by_cases hd : dependent = 0
  · simp [SchedulerState.attach, joined, hd]
  · simp [SchedulerState.attach, joined, addDependent, hd]

theorem rebuildAndAttach_eq (s : SchedulerState) (hkind : job.request.kind ≠ .unset)
    (request : MaintenanceRequest) (dependent : Nat) : s.rebuildAndAttach job request dependent =
      .ok (if dependent = 0 then
          ({ s with nextSerial := s.nextSerial + 1 }).setJob (rebuilt job request s.nextSerial)
        else (({ s with nextSerial := s.nextSerial + 1 }).setJob (rebuilt job request s.nextSerial)).setJob
          (addDependent (rebuilt job request s.nextSerial) false dependent)) := by
  have hmerged : (mergeMaintenanceRequest job.request request).kind ≠ .unset :=
    (mergeMaintenanceRequest_kind request hkind).symm ▸ hkind
  simp only [rebuildAndAttach, newMaintenanceWorker_of_kind hmerged, attach_eq]
  rfl

/-- **Admission.**  The request reaches one job; if it is a dependency, that job then lists the
dependent. -/
theorem enqueue_moves (hwf : WellFormed s) {hand : Hand} (hasks : hand.asks = some dependent)
    (hp : maintenanceRequestPolicy request = .ok policy) (hreq : e.requests request)
    (hok : s.enqueue request dependent = .ok (s', id)) :
    ∃ t job next, Moves e ⟨s, hand⟩ ⟨t, .admitted id request next dependent⟩ ∧ t.jobs id = some job ∧
      job.id = id ∧ s' = if dependent = 0 then t else t.setJob (addDependent job next dependent) := by
  have hkind := maintenanceRequestPolicy_kind hp
  simp only [enqueue, hp] at hok
  split at hok
  · -- The key names a live job.
    rename_i job hfound
    obtain ⟨found, hkey, hlive⟩ := bind_eq_some_iff.mp hfound
    obtain rfl := hwf.job_id found job hlive
    have hsame : job.key = policy.key := by
      obtain ⟨key, hk, hbound⟩ := bind_eq_some_iff.mp hkey
      obtain ⟨other, hother, hokey⟩ := hwf.key_live key job.id hbound
      obtain rfl := mem_unique hlive hother
      rw [hokey, hk]
    split at hok
    · rename_i hrunning
      obtain ⟨worker, ha⟩ := isSome_iff_exists.mp hrunning
      split at hok
      · rename_i hr
        cases hok
        exact ⟨_, _, true, .single (.rerun s hand job worker hasks hp hlive hsame ha hr hreq),
          update_self .., rfl, coalesceRerun_eq ..⟩
      · rename_i hr
        cases hok
        exact ⟨_, _, false, .single (.join s hand job worker hasks hp hlive hsame ha (by simpa using hr) hreq),
          update_self .., rfl, attach_eq ..⟩
    · rename_i hrunning
      have hidle : s.active job.id = none := by simpa using hrunning
      rw [rebuildAndAttach_eq s (hwf.job_kind _ _ hlive)] at hok
      cases hok
      exact ⟨_, _, false, .single (.rebuild s hand job hasks hp hlive hsame hidle hreq),
        update_self .., rfl, rfl⟩
  · -- Nothing to join: a job is created and then takes the request like an idle one.
    rename_i hnone
    have hfree : policy.key.bind s.byKey = none := by
      cases hk : policy.key.bind s.byKey with
      | none => rfl
      | some found =>
        obtain ⟨key, hkey, hbound⟩ := bind_eq_some_iff.mp hk
        obtain ⟨job, hjob, -⟩ := hwf.key_live key found hbound
        simp [hk, hjob] at hnone
    simp only [newMaintenanceWorker_of_kind hkind] at hok
    rw [rebuildAndAttach_eq _ hkind] at hok
    cases hok
    have hcreate : Move e ⟨s, hand⟩ ⟨(s.createJob request policy (.built s.nextSerial request)).1, hand⟩ :=
      .create s hand hasks hp hfree hreq
    have hidle := (hwf.fresh (Nat.lt_succ_self s.nextJobID)).2.1
    exact ⟨_, _, false, .tail (.single hcreate) (.rebuild _ hand
        (s.createJob request policy (.built s.nextSerial request)).2 hasks hp (update_self ..) rfl hidle
        hreq),
      update_self .., rfl, rfl⟩

theorem dispatchLoop_moves (turns : Nat) :
    ∀ {s}, WellFormed s → Moves e ⟨s, .free⟩ ⟨dispatchLoop turns s, .free⟩ := by
  induction turns with
  | zero => exact fun _ => .refl
  | succ turns ih =>
    intro s hwf
    unfold dispatchLoop
    split
    · exact .refl
    · rename_i job hbest
      obtain ⟨⟨id, hp, hjob⟩, hfits⟩ := best_spec hbest
      obtain rfl := hwf.job_id id job hjob
      exact .head (.launch s job hjob hp hfits) (ih (hwf.launch hjob hp))

/-- **Dispatch** launches queued jobs one by one. -/
theorem dispatch_moves (hwf : WellFormed s) : Moves e ⟨s, .free⟩ ⟨s.dispatch, .free⟩ :=
  dispatchLoop_moves s.pending.length hwf

/-! ## §5 — The done branch in moves -/

theorem setJob_self (hjob : s.jobs job.id = some job) : s.setJob job = s := by
  simp only [setJob, ← hjob, update_eq_self]

variable {old : MaintenanceJob}

/-- Resuming a dependent does not look at the record of a job that is not waiting. -/
theorem resumeDependent_setJob (hwf : WellFormed s) (job : MaintenanceJob)
    (hold : s.jobs job.id = some old) (hwait : old.waiting = false) (hj : job.waiting = false) (id : Nat) :
    resumeDependent err (s.setJob job) id = (resumeDependent err s id).setJob job := by
  by_cases hid : id = job.id
  · subst hid
    simp [resumeDependent, setJob, hold, hwait, hj]
  · have hsame : (s.setJob job).jobs id = s.jobs id := update_of_ne hid ..
    simp only [resumeDependent, hsame]
    split
    · rfl
    · rename_i found hfound
      have hne : found.id ≠ job.id := hwf.job_id id found hfound ▸ hid
      split
      · simp only [requeue, setJob, update_comm hne]
      · rfl

theorem foldl_resumeDependent_setJob (job : MaintenanceJob)
    (hwait : old.waiting = false) (hj : job.waiting = false) (order : List Nat) :
    ∀ {s : SchedulerState}, WellFormed s →
      s.jobs job.id = some old → order.foldl (resumeDependent err) (s.setJob job) =
        (order.foldl (resumeDependent err) s).setJob job := by
  induction order with
  | nil => exact fun _ _ => rfl
  | cons id order ih =>
    intro s hwf hold
    simp only [foldl_cons, resumeDependent_setJob hwf job hold hwait hj]
    exact ih (hwf.resumeDependent err id) ((resumeDependent_leaves err hwf hold hwait id).jobs.trans hold)

/-- Resuming a dependent leaves the job in hand there. -/
theorem Held.resumeDependent (held : Held s job) (hwf : WellFormed s) (id : Nat) :
    Held (resumeDependent err s id) job := by
  have hleaves := resumeDependent_leaves err hwf held.live held.waiting id
  exact ⟨hleaves.jobs.trans held.live, hleaves.inHand held.hand, held.waiting⟩

/-- The job in hand under another record. -/
theorem Held.setJob (held : Held s job) (again : MaintenanceJob) (hid : again.id = job.id)
    (hwait : again.waiting = false) : Held (s.setJob again) again := by
  have hlive : (s.setJob again).jobs again.id = some again := update_self ..
  exact ⟨hlive, ⟨⟨again, hlive, rfl, rfl⟩, hid ▸ held.hand.idle, hid ▸ held.hand.unqueued,
    hid ▸ held.hand.untimed⟩, hwait⟩

variable {worker : MaintenanceWorker} {outcome : MaintenanceTransition} {order : List Nat}

/-- Queueing the dependents of the job in hand, one after the other. -/
theorem resume_moves (worker : MaintenanceWorker) (hterm : outcome.terminal = true) (order : List Nat) :
    ∀ {s : SchedulerState} {job : MaintenanceJob}, WellFormed s → Held s job → order.Perm job.dependents →
      Moves e ⟨s, .holding job.id worker outcome⟩
        ⟨(order.foldl (resumeDependent outcome.err) s).setJob { job with dependents := [] },
          .holding job.id worker outcome⟩ := by
  induction order with
  | nil =>
    intro s job hwf held hperm
    have hempty : job.dependents = [] := nil_perm.mp hperm
    have hsame : ({ job with dependents := [] } : MaintenanceJob) = job := by rw [← hempty]
    rw [foldl_nil, hsame, setJob_self held.live]
    exact .refl
  | cons id order ih =>
    intro s job hwf held hperm
    have hmem : id ∈ job.dependents := hperm.mem_iff.mp mem_cons_self
    have hset := held.setJob { job with dependents := job.dependents.erase id } rfl held.waiting
    have hwfset : WellFormed (s.setJob { job with dependents := job.dependents.erase id }) :=
      hwf.rewrite _ job held.live rfl rfl rfl rfl
    have hrest := ih (hwfset.resumeDependent outcome.err id) (hset.resumeDependent hwfset id)
      (cons_perm_iff_perm_erase.mp hperm).2
    -- The record rewritten by the resumption is overwritten at the end.
    have hswap : resumeDependent outcome.err (s.setJob { job with dependents := job.dependents.erase id }) id =
        (resumeDependent outcome.err s id).setJob { job with dependents := job.dependents.erase id } :=
      resumeDependent_setJob hwf { job with dependents := job.dependents.erase id } held.live held.waiting
        held.waiting id
    have hfold : order.foldl (resumeDependent outcome.err)
        ((resumeDependent outcome.err s id).setJob { job with dependents := job.dependents.erase id }) =
        (order.foldl (resumeDependent outcome.err) (resumeDependent outcome.err s id)).setJob
          { job with dependents := job.dependents.erase id } :=
      foldl_resumeDependent_setJob { job with dependents := job.dependents.erase id } held.waiting
        held.waiting order (hwf.resumeDependent _ id) (held.resumeDependent hwf id).live
    refine .head (.resume s job worker outcome held hterm hmem) ?_
    rw [hswap] at hrest ⊢
    rw [hfold, setJob_setJob] at hrest
    · exact hrest
    · rfl

/-- Answering the waiters of the job in hand and queueing its dependents. -/
theorem complete_moves (hwf : WellFormed s) (held : Held s job) (hterm : outcome.terminal = true)
    (hperm : order.Perm job.dependents) :
    Moves e ⟨s, .holding job.id worker outcome⟩
        ⟨(s.complete job outcome.err order).setJob { job with waiters := [], dependents := [] },
          .holding job.id worker outcome⟩ := by
  have hanswer : Move e ⟨s, .holding job.id worker outcome⟩ _ := .answer s job worker outcome held hterm
  have hfinish : WellFormed (s.finishWaiters job.id job.waiters outcome.err) := hwf.finishWaiters _ _
  have hheld : Held (s.finishWaiters job.id job.waiters outcome.err) job :=
    ⟨held.live, ⟨held.hand.live, held.hand.idle, held.hand.unqueued, held.hand.untimed⟩, held.waiting⟩
  have hresume := resume_moves (e := e) worker hterm order (hanswer.wellFormed hwf)
    (hheld.setJob { job with waiters := [] } rfl held.waiting) hperm
  have hfold : order.foldl (resumeDependent outcome.err)
      ((s.finishWaiters job.id job.waiters outcome.err).setJob { job with waiters := [] }) =
      (s.complete job outcome.err order).setJob { job with waiters := [] } :=
    foldl_resumeDependent_setJob { job with waiters := [] } held.waiting held.waiting order hfinish held.live
  rw [hfold, setJob_setJob] at hresume
  · exact .head hanswer hresume
  · rfl

/-- Noting something about the job in hand leaves it there. -/
theorem Held.emit (held : Held s job) (o : Observation) : Held (s.emit o) job :=
  ⟨held.live, ⟨held.hand.live, held.hand.idle, held.hand.unqueued, held.hand.untimed⟩, held.waiting⟩

/-- A terminal transition. -/
theorem finish_moves (hwf : WellFormed s) (held : Held s job) (hterm : outcome.terminal = true)
    (hperm : order.Perm job.dependents) :
    Moves e ⟨s, .holding job.id worker outcome⟩ ⟨s.finish job outcome.err order, .free⟩ := by
  obtain ⟨hwfc, hleaves⟩ := complete_leaves outcome.err hwf job held.live held.waiting order
  have hkind : (mergeMaintenanceRequest job.request job.nextRequest).kind ≠ .unset :=
    (hwf.merged_kind held.live job.nextRequest).symm ▸ hwf.job_kind _ _ held.live
  have hbound : job.id ≤ (s.complete job outcome.err order).nextJobID :=
    hwfc.job_bound _ _ (hleaves.jobs.trans held.live)
  -- The moves end in the completed state, with the job's own lists emptied.
  have hdone : Moves e ⟨s, .holding job.id worker outcome⟩
      ⟨((s.complete job outcome.err order).setJob { job with waiters := [], dependents := [] }).emit
        (.ended job.id), .holding job.id worker outcome⟩ := by
    refine .tail (complete_moves hwf held hterm hperm) (.note _ _ _ (fun _ _ _ ho => by cases ho) ?_)
    rintro id ⟨⟩
    exact hbound
  have hheld : Held (((s.complete job outcome.err order).setJob
      { job with waiters := [], dependents := [] }).emit (.ended job.id))
      { job with waiters := [], dependents := [] } := by
    refine Held.emit ?_ _
    exact Held.setJob ⟨hleaves.jobs.trans held.live, hleaves.inHand held.hand, held.waiting⟩
      { job with waiters := [], dependents := [] } rfl held.waiting
  unfold finish
  dsimp only
  split
  · rename_i hagain
    rw [Bool.and_eq_true, Bool.not_eq_true'] at hagain
    rw [newMaintenanceWorker_of_kind hkind]
    have hmove := Move.again (e := e) _ _ worker outcome hheld hterm rfl rfl hagain.1 (hleaves.closing.trans hagain.2)
    simp only [requeue, emit, setJob, secondRun,
      update_idem] at hmove
    exact .tail hdone hmove
  · rename_i hlast
    have hmove := Move.remove (e := e) _ _ worker outcome hheld hterm rfl rfl (by
      have hclosing := hleaves.closing
      cases hr : job.runAgain
      · exact .inl rfl
      · refine .inr (hclosing.trans ?_)
        simpa [hr] using hlast)
    simp only [removeJob, emit, setJob,
      update_idem] at hmove
    exact .tail hdone hmove

/-- A plain transition. -/
theorem advance_moves (hwf : WellFormed s) (held : Held s job) (hterm : outcome.terminal = false)
    (hdep : outcome.dependency = none) :
    Moves e ⟨s, .holding job.id worker outcome⟩
      ⟨s.advance job worker outcome.next outcome.retryAfter, .free⟩ := by
  have hnote : Move e ⟨s, .holding job.id worker outcome⟩
      ⟨s.emit (.returned job.id worker outcome.next), .holding job.id worker outcome⟩ := by
    refine .note s _ _ (fun _ _ _ ho => by cases ho) ?_
    rintro id ⟨⟩
    exact hwf.job_bound _ _ held.live
  unfold advance
  split
  · have hmove := Move.time (e := e) _ job worker outcome
      (held.emit (.returned job.id worker outcome.next)) hterm hdep
    simp only [emit, setJob, update_idem] at hmove hnote ⊢
    exact .tail (.single hnote) hmove
  · have hmove := Move.queue (e := e) _ job worker outcome
      (held.emit (.returned job.id worker outcome.next)) hterm hdep
    simp only [requeue, emit, setJob, update_idem]
      at hmove hnote ⊢
    exact .tail (.single hnote) hmove

/-- A transition with a dependency. -/
theorem await_moves (hwf : WellFormed s) (held : Held s job) (hterm : outcome.terminal = false)
    (hdep : outcome.dependency = some dependency)
    (hp : maintenanceRequestPolicy dependency = .ok policy) (hreq : e.requests dependency) :
    Moves e ⟨s, .holding job.id worker outcome⟩
      ⟨s.awaitDependency job worker outcome.next dependency order, .free⟩ := by
  have hwait : Move e ⟨s, .holding job.id worker outcome⟩ _ := .wait s job worker outcome held hterm hdep
  have hwfw := hwait.wellFormed hwf
  have hnote : Move e ⟨s.setJob { job with phase := outcome.next, waiting := true }, .joining job.id⟩
      ⟨(s.setJob { job with phase := outcome.next, waiting := true }).emit
        (.returned job.id worker outcome.next), .joining job.id⟩ := by
    refine .note _ _ _ (fun _ _ _ ho => by cases ho) ?_
    rintro id ⟨⟩
    exact hwf.job_bound _ _ held.live
  have hwfn := hnote.wellFormed hwfw
  obtain ⟨⟨queued, id⟩, hok⟩ := hwfn.enqueue_total hp job.id
  obtain ⟨t, found, next, hmoves, hlive, rfl, rfl⟩ :=
    enqueue_moves hwfn (rfl : (Hand.joining job.id).asks = some job.id) hp hreq hok
  simp only [awaitDependency, hok]
  have hpos : job.id ≠ 0 := Nat.ne_of_gt (hwf.job_pos _ _ held.live)
  rw [if_neg hpos]
  exact .trans (.tail (.single hwait) hnote) (.tail hmoves (.depend t found dependency next hpos hlive))

/-- **The done branch.** -/
theorem handleDone_moves (hwf : WellFormed s) (hjob : s.jobs job.id = some job) (ha : s.active job.id = some worker)
    (chosen : MaintenanceTransition) (hperm : order.Perm job.dependents) (he : e = .done job.id chosen order) :
    Moves e ⟨s, .free⟩ ⟨s.handleDone job worker chosen order, .free⟩ := by
  obtain ⟨hwfs, hhand, hwait⟩ := hwf.settle hjob ha (accepted job (worker.run chosen)).retain
  have held : Held (s.settle job (accepted job (worker.run chosen)).retain)
      { job with runningResources := 0, held := (accepted job (worker.run chosen)).retain } :=
    ⟨update_self .., hhand, hwait⟩
  have hvalid : ∀ dependency, (accepted job (worker.run chosen)).dependency = some dependency →
      (∃ policy, maintenanceRequestPolicy dependency = .ok policy) ∧ e.requests dependency := by
    intro dependency hdep
    refine ⟨accepted_dependency hdep, ?_⟩
    rw [he]
    exact accepted_requests hdep
  refine .head (.take s job worker chosen hjob ha order he) ?_
  unfold handleDone
  dsimp only
  generalize accepted job (worker.run chosen) = outcome at hwfs held hvalid ⊢
  split
  · -- A preempted worker that was cancelled: the job starts over.
    rename_i hrestart
    simp only [Bool.and_eq_true, Bool.not_eq_true'] at hrestart
    obtain ⟨⟨hpre, hcanceled⟩, hopen⟩ := hrestart
    have hkind := hwf.job_kind _ _ hjob
    simp only [restart, newMaintenanceWorker_of_kind hkind]
    have hmove := Move.restart (e := e) _ { job with runningResources := 0, held := outcome.retain } worker
      outcome held hpre hcanceled hopen
    refine .tail (.single hmove) (.note _ _ (.restarted job.id) (fun _ _ _ ho => by cases ho) ?_)
    rintro id ⟨⟩
    exact hwf.job_bound _ _ hjob
  split
  · rename_i hterm
    exact finish_moves hwfs held hterm hperm
  · rename_i hterm
    have hterm : outcome.terminal = false := by simpa [MaintenanceTransition.terminal] using hterm
    split
    · rename_i dependency hdep
      obtain ⟨⟨policy, hp⟩, hreq⟩ := hvalid dependency hdep
      exact await_moves hwfs held hterm hdep hp hreq
    · rename_i hdep
      exact advance_moves hwfs held hterm hdep

/-- A tick gives a request to a job, or changes nothing. -/
theorem enqueueTick_moves (hwf : WellFormed s) (request : MaintenanceRequest) (hreq : e.requests request) :
    Moves e ⟨s, .free⟩ ⟨s.enqueueTick request, .free⟩ := by
  unfold enqueueTick
  split
  · exact .refl
  · rename_i next id hok
    cases hp : maintenanceRequestPolicy request with
    | error e => simp [enqueue, hp] at hok
    | ok policy =>
      obtain ⟨t, job, turn, hmoves, -, -, rfl⟩ :=
        enqueue_moves hwf (rfl : Hand.free.asks = some 0) hp hreq hok
      exact .tail hmoves (.release next id request turn)

/-- The maintenance tick gives its two requests, each unless it is disabled. -/
theorem maintenanceTick_rule (P : SchedulerState → Prop) (segments mappings : Bool) (h : P s)
    (htick : ∀ t request, SchedulerEvent.maintenanceTick.requests request → P t → P (t.enqueueTick request)) :
    P (if mappings then if segments then s else s.enqueueTick automaticSegment
      else (if segments then s else s.enqueueTick automaticSegment).enqueueTick automaticMapping) := by
  have hsegment : P (if segments then s else s.enqueueTick automaticSegment) := by
    split
    · exact h
    · exact htick s _ (.inl rfl) h
  split
  · exact hsegment
  · exact htick _ _ (.inr rfl) hsegment

theorem Moves.wellFormed (h : Moves e a b) (hwf : WellFormed a.state) : WellFormed b.state :=
  (h.invariant (fun _ => True) (fun _ _ _ _ _ => trivial) hwf trivial).1

theorem WellFormed.enqueueTick (hwf : WellFormed s) (request : MaintenanceRequest) :
    WellFormed (s.enqueueTick request) :=
  (enqueueTick_moves (e := .submit request true) hwf request rfl).wellFormed hwf

/-- An accepted submission. -/
theorem submit_moves (hwf : WellFormed s) (hopen : s.closing = false)
    (hp : maintenanceRequestPolicy request = .ok policy) (hreq : e.requests request)
    (hok : s.enqueue request 0 = .ok (s', id)) (waiter : Bool) :
    Moves e ⟨s, .free⟩ ⟨s'.acceptSubmission id waiter, .free⟩ := by
  obtain ⟨t, job, turn, hmoves, hlive, -, rfl⟩ := enqueue_moves hwf (rfl : Hand.free.asks = some 0) hp hreq hok
  -- The waiter is added before the running jobs are looked at.
  have hadded : Moves e ⟨s, .free⟩ ⟨if waiter then s'.addWaiter id else s', .free⟩ := by
    split
    · exact .tail hmoves (.waiter s' id request turn hlive ((hwf.enqueue_shape hp hok).2.1.trans hopen))
    · exact .tail hmoves (.release s' id request turn)
  have hpreempted : Moves e ⟨s, .free⟩ ⟨(if waiter then s'.addWaiter id else s').preemptRunning id, .free⟩ :=
    .tail hadded (.preempt _ id)
  exact hpreempted.trans (dispatch_moves (hpreempted.wellFormed hwf))

/-- A cancellation. -/
theorem cancel_moves (hwf : WellFormed s) (id waiter : Nat) :
    Moves (.cancel id waiter) ⟨s, .free⟩ ⟨s.cancel id waiter, .free⟩ := by
  unfold cancel
  split
  · exact .refl
  · rename_i found hfound
    obtain rfl := hwf.job_id id found hfound
    have hdrop : Move (.cancel found.id waiter) ⟨s, .free⟩ _ := .dropWaiter s found waiter rfl hfound
    dsimp only
    split
    · rename_i hgone
      simp only [Bool.and_eq_true, isNone_iff_eq_none, Bool.not_eq_true'] at hgone
      obtain ⟨⟨habandoned, hidle⟩, hwait⟩ := hgone
      have hmove := Move.abandon (e := .cancel found.id waiter) (s.setJob (withoutWaiter found waiter))
        (withoutWaiter found waiter) (update_self ..) hidle hwait habandoned ⟨waiter, rfl⟩
      refine .tail (.tail (.single hdrop) ?_) (.note _ _ _ (fun _ _ _ ho => by cases ho) ?_)
      · simp only [removeJob, setJob, update_idem] at hmove
        exact hmove
      · rintro id ⟨⟩
        exact hwf.job_bound _ _ hfound
    · exact .single hdrop

/-- **Every event is a sequence of moves.** -/
theorem step_moves (hwf : WellFormed s) (hstep : scheduler.step s e = some s') : Moves e ⟨s, .free⟩ ⟨s', .free⟩ := by
  simp only [scheduler] at hstep
  split at hstep
  · cases hstep
  cases e with simp only [handle] at hstep
  | configure maintenance =>
    split at hstep <;> cases hstep
    · exact .refl
    · exact .single (.configure s _ _ _ _ _)
  | checkpointTick =>
    split at hstep <;> cases hstep
    have hmoves := enqueueTick_moves (e := .checkpointTick) hwf periodicCheckpoint rfl
    exact hmoves.trans (dispatch_moves (hmoves.wellFormed hwf))
  | maintenanceTick =>
    split at hstep <;> cases hstep
    have hmoves := maintenanceTick_rule (fun t => Moves .maintenanceTick ⟨s, .free⟩ ⟨t, .free⟩)
      s.automaticPolicy.disableSegmentGC s.automaticPolicy.disableMappingGC .refl
      fun t request hreq ht => ht.trans (enqueueTick_moves (ht.wellFormed hwf) request hreq)
    exact hmoves.trans (dispatch_moves (hmoves.wellFormed hwf))
  | submit request waiter =>
    split at hstep
    · cases hstep
      exact .refl
    · rename_i hopen
      split at hstep <;> cases hstep
      · exact dispatch_moves hwf
      · rename_i queued id hok
        cases hp : maintenanceRequestPolicy (if waiter then request else { request with background := true }) with
        | error e => simp [enqueue, hp] at hok
        | ok policy =>
          exact submit_moves (e := .submit request waiter) hwf (by simpa using hopen) hp rfl hok waiter
  | cancel job waiter =>
    cases hstep
    exact cancel_moves hwf job waiter
  | done id chosen order =>
    split at hstep
    · rename_i worker job ha hjob
      obtain rfl := hwf.job_id id job hjob
      split at hstep <;> cases hstep
      rename_i hperm
      have hmoves := handleDone_moves hwf hjob ha chosen (isPerm_iff.mp hperm) rfl
      exact hmoves.trans (dispatch_moves (hmoves.wellFormed hwf))
    · cases hstep
      exact .refl
  | retry id =>
    split at hstep
    · rename_i ht
      split at hstep
      · rename_i hnone
        cases hstep
        exact .single (.fire s id ht hnone)
      · rename_i job hjob
        obtain rfl := hwf.job_id id job hjob
        obtain ⟨hidle, -, hwait⟩ := hwf.timer_idle _ ht
        simp only [hidle, hwait job hjob, isNone_none, Bool.not_false, Bool.and_self, if_true] at hstep
        cases hstep
        have hmoves : Moves (.retry job.id) ⟨s, .free⟩ _ := .single (.retry s job ht hjob)
        exact hmoves.trans (dispatch_moves (hmoves.wellFormed hwf))
    · cases hstep
  | shutdown =>
    split at hstep <;> cases hstep
    rename_i hopen
    exact .single (.shutdown s (by simpa using hopen))

/-! ## §6 — What a move leaves alone

An invariant that reads only some fields of a job sees most moves as no change at all.  `f` stands for
the fields it reads. -/

section Frame

theorem map_back {β : Type*} {f : MaintenanceJob → β} {t : SchedulerState} (h : (t.jobs id).map f = (s.jobs id).map f)
    (hjob : t.jobs id = some job) : ∃ old, s.jobs id = some old ∧ f old = f job := by
  rw [hjob, map_some, eq_comm, map_eq_some_iff] at h
  exact h

variable {β : Type*} (f : MaintenanceJob → β)

theorem update_map {jobs : Nat → Option MaintenanceJob} {key : Nat} {old job : MaintenanceJob}
    (hold : jobs key = some old) (hf : f job = f old) (id : Nat) :
    (update jobs key (some job) id).map f = (jobs id).map f := by
  rw [update_apply]
  split
  · rename_i hid
    rw [hid, hold, map_some, map_some, hf]
  · rfl

theorem addWaiter_map (hf : ∀ job waiters nextWaiters, f { job with waiters, nextWaiters } = f job)
    (hwf : WellFormed s) (target id : Nat) : ((s.addWaiter target).jobs id).map f = (s.jobs id).map f := by
  unfold addWaiter
  split
  · rfl
  · rename_i job hjob
    obtain rfl := hwf.job_id target job hjob
    split
    · exact update_map f hjob (hf job _ _) id
    · exact update_map f hjob (hf job _ _) id

theorem preemptRunning_map (hf : ∀ job preempted, f { job with preempted } = f job) (target id : Nat) :
    ((s.preemptRunning target).jobs id).map f = (s.jobs id).map f := by
  unfold preemptRunning
  split
  · rfl
  · simp only [Option.map_map]
    congr 1
    funext job
    simp only [comp_apply]
    split
    · exact hf job true
    · rfl

theorem shutdown_map (hf : ∀ job waiters nextWaiters, f { job with waiters, nextWaiters } = f job) (id : Nat) :
    (s.shutdown.jobs id).map f = (s.jobs id).map f := by
  simp only [shutdown, emit, Option.map_map]
  congr 1
  funext job
  exact hf job [] []

theorem resumeDependent_map (hf : ∀ job waiting worker sequence, f { job with waiting, worker, sequence } = f job)
    (hwf : WellFormed s) (dependent id : Nat) :
    ((resumeDependent err s dependent).jobs id).map f = (s.jobs id).map f := by
  unfold resumeDependent
  split
  · rfl
  · rename_i found hfound
    obtain rfl := hwf.job_id dependent found hfound
    split
    · exact update_map f hfound (hf found _ _ _) id
    · rfl

end Frame

/-- Only the records of jobs and the number of waiters may differ. -/
structure SameTables (s t : SchedulerState) : Prop where
  pending : t.pending = s.pending
  active : t.active = s.active
  retryTimers : t.retryTimers = s.retryTimers
  leased : t.leased = s.leased
  closing : t.closing = s.closing
  completions : t.completions = s.completions
  trace : t.trace = s.trace
  nextSerial : t.nextSerial = s.nextSerial
  nextJobID : t.nextJobID = s.nextJobID

theorem addWaiter_same (s : SchedulerState) (id : Nat) : SameTables s (s.addWaiter id) := by
  unfold addWaiter
  split
  · exact ⟨rfl, rfl, rfl, rfl, rfl, rfl, rfl, rfl, rfl⟩
  · split <;> exact ⟨rfl, rfl, rfl, rfl, rfl, rfl, rfl, rfl, rfl⟩

theorem preemptRunning_same (s : SchedulerState) (id : Nat) : SameTables s (s.preemptRunning id) := by
  unfold preemptRunning
  split <;> exact ⟨rfl, rfl, rfl, rfl, rfl, rfl, rfl, rfl, rfl⟩

/-- Resuming a dependent writes its record and the queue. -/
theorem resumeDependent_same (err : Option MaintenanceError) (s : SchedulerState) (id : Nat) :
    SameTables s { resumeDependent err s id with pending := s.pending } := by
  unfold resumeDependent
  split
  · exact ⟨rfl, rfl, rfl, rfl, rfl, rfl, rfl, rfl, rfl⟩
  · split <;> exact ⟨rfl, rfl, rfl, rfl, rfl, rfl, rfl, rfl, rfl⟩

theorem preemptRunning_number (s : SchedulerState) (id : Nat) :
    (s.preemptRunning id).nextWaiterID = s.nextWaiterID := by
  unfold preemptRunning
  split <;> rfl

theorem resumeDependent_number (err : Option MaintenanceError) (s : SchedulerState) (id : Nat) :
    (resumeDependent err s id).nextWaiterID = s.nextWaiterID := by
  unfold resumeDependent
  split
  · rfl
  · split <;> rfl

/-- **An invariant of the moves is an invariant of the scheduler.** -/
theorem scheduler_invariant (Inv : Actor → Prop) (hinit : Inv ⟨({} : SchedulerState), .free⟩)
    (hmove : ∀ e a b, WellFormed a.state → Inv a → Move e a b → Inv b) (h : scheduler.Reachable s) :
    WellFormed s ∧ Inv ⟨s, .free⟩ := by
  refine Lib.Machine.Reach.invariant (M := scheduler) (fun s => WellFormed s ∧ Inv ⟨s, .free⟩) ?_ ?_ h
  · rintro s rfl
    have htracks : Tracks False ({} : SchedulerState) := tracks_initial
    exact ⟨htracks.toWellFormed, hinit⟩
  · intro s e s' hs _ hstep
    exact (step_moves hs.1 hstep).invariant Inv (hmove e) hs.1 hs.2

end Ridstore.Engine
