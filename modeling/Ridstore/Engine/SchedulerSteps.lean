import Ridstore.Engine.SchedulerPlaces
import Ridstore.Engine.SchedulerWaiters

/-
# Ridstore.Engine.SchedulerSteps — what one event answers and resumes

The invariants of the moves do not say which event answers a waiter or resumes a job.  This module says
it: only the event that completes a run answers waiters, with that run's error, and only it resumes the
jobs listed for that run, all of them.  (Shutdown also answers every waiter, with `ErrClosed`.)
-/

namespace Ridstore.Engine

open SchedulerState List Function Option

variable {s s' : SchedulerState} {job : MaintenanceJob} {request : MaintenanceRequest} {id : Nat}
  {worker : MaintenanceWorker} {chosen : MaintenanceTransition} {order : List Nat} {e : SchedulerEvent} {a b : Actor}

/-! ## §1 — Operations that neither answer nor resume -/

/-- After the completion the end of a run writes only the record of its job. -/
theorem finish_eq (hkind : job.request.kind ≠ .unset) (err : Option MaintenanceError) (order : List Nat) :
    ∃ new, (s.finish job err order).jobs = update (s.complete job err order).jobs job.id new ∧
      (s.finish job err order).completions = (s.complete job err order).completions := by
  have hmerged : (mergeMaintenanceRequest job.request job.nextRequest).kind ≠ .unset :=
    (mergeMaintenanceRequest_kind job.nextRequest hkind).symm ▸ hkind
  unfold finish
  dsimp only
  split
  · rw [newMaintenanceWorker_of_kind hmerged]
    exact ⟨_, rfl, rfl⟩
  · exact ⟨_, rfl, rfl⟩

section Frame

variable {β : Type*} (f : MaintenanceJob → β)

/-- Admission leaves every field alone that says where a live job is. -/
theorem enqueue_map {dependent target : Nat}
    (hf : ∀ job request worker background runAgain nextRequest nextBackground dependents nextDependents,
      f { job with
        request, worker, background, runAgain, nextRequest, nextBackground, dependents, nextDependents } = f job)
    (hwf : WellFormed s) (hok : s.enqueue request dependent = .ok (s', target)) (hlive : s.jobs id = some job) :
    (s'.jobs id).map f = (s.jobs id).map f := by
  unfold enqueue at hok
  split at hok
  · cases hok
  rename_i policy hp
  split at hok
  · rename_i found hfound
    obtain ⟨key, -, hfound⟩ := bind_eq_some_iff.mp hfound
    obtain rfl := hwf.job_id key found hfound
    split at hok
    · split at hok
      · cases hok
        exact update_map f hfound (hf found _ _ _ _ _ _ _ _) id
      · cases hok
        exact update_map f hfound (hf found _ _ _ _ _ _ _ _) id
    · have hkind := hwf.job_kind _ _ hfound
      rw [rebuildAndAttach_eq s hkind] at hok
      cases hok
      split
      · exact update_map f hfound (hf found _ _ _ _ _ _ _ _) id
      · rw [setJob_setJob _ (by rfl)]
        exact update_map f hfound (hf found _ _ _ _ _ _ _ _) id
  · have hkind := maintenanceRequestPolicy_kind hp
    simp only [newMaintenanceWorker_of_kind hkind] at hok
    rw [rebuildAndAttach_eq _ hkind] at hok
    cases hok
    have hne : id ≠ s.nextJobID + 1 := by
      rintro rfl
      rw [(hwf.fresh (Nat.lt_succ_self s.nextJobID)).1] at hlive
      cases hlive
    split
    · exact congrArg _ ((update_of_ne hne ..).trans (update_of_ne hne ..))
    · exact congrArg _ ((update_of_ne hne ..).trans
        ((update_of_ne hne ..).trans (update_of_ne hne ..)))

section

variable (hf : ∀ job runningResources, f { job with runningResources } = f job)

include hf

theorem launch_map
    (hjob : s.jobs job.id = some job) (id : Nat) : ((s.launch job).jobs id).map f = (s.jobs id).map f :=
  update_map f hjob (hf job _) id

theorem dispatchLoop_map (turns : Nat) :
    ∀ {s : SchedulerState}, WellFormed s → ∀ id, ((dispatchLoop turns s).jobs id).map f = (s.jobs id).map f := by
  induction turns with
  | zero => exact fun _ _ => rfl
  | succ turns ih =>
    intro s hwf id
    unfold dispatchLoop
    split
    · rfl
    · rename_i job hbest
      obtain ⟨⟨key, hp, hjob⟩, -⟩ := best_spec hbest
      obtain rfl := hwf.job_id key job hjob
      exact (ih (hwf.launch hjob hp) id).trans (launch_map f hf hjob id)

/-- Dispatching writes only the leases of the jobs it starts. -/
theorem dispatch_map (hwf : WellFormed s) (id : Nat) : (s.dispatch.jobs id).map f = (s.jobs id).map f :=
  dispatchLoop_map f hf s.pending.length hwf id

end

/-- Completing a run changes the records of its dependents only, in these fields. -/
theorem complete_map (hf : ∀ job waiting worker sequence, f { job with waiting, worker, sequence } = f job)
    (hwf : WellFormed s) (job : MaintenanceJob) (err : Option MaintenanceError) (order : List Nat) (id : Nat) :
    ((s.complete job err order).jobs id).map f = (s.jobs id).map f := by
  have hfold : ∀ (order : List Nat) {s : SchedulerState}, WellFormed s →
      ((order.foldl (resumeDependent err) s).jobs id).map f = (s.jobs id).map f := by
    intro order
    induction order with
    | nil => exact fun _ => rfl
    | cons dependent order ih =>
      intro s hwf
      rw [foldl_cons, ih (hwf.resumeDependent err dependent), resumeDependent_map f hf hwf]
  exact hfold order (hwf.finishWaiters job.id job.waiters)

/-- Ending a run writes the record of its job besides. -/
theorem finish_map (hf : ∀ job waiting worker sequence, f { job with waiting, worker, sequence } = f job)
    (hwf : WellFormed s) (held : Held s job) (err : Option MaintenanceError) (order : List Nat)
    (hid : id ≠ job.id) : ((s.finish job err order).jobs id).map f = (s.jobs id).map f := by
  obtain ⟨new, hjobs, -⟩ := finish_eq (s := s) (hwf.job_kind _ _ held.live) err order
  rw [hjobs, update_of_ne hid]
  exact complete_map f hf hwf job err order id

end Frame

theorem dispatchLoop_completions (turns : Nat) :
    ∀ s : SchedulerState, (dispatchLoop turns s).completions = s.completions := by
  induction turns with
  | zero => exact fun _ => rfl
  | succ turns ih =>
    intro s
    unfold dispatchLoop
    split
    · rfl
    · exact ih _

theorem dispatch_completions (s : SchedulerState) : s.dispatch.completions = s.completions :=
  dispatchLoop_completions s.pending.length s

variable {dependent target : Nat}

/-- Admission answers nobody and starts nothing. -/
theorem enqueue_quiet (hwf : WellFormed s) (hok : s.enqueue request dependent = .ok (s', target)) :
    s'.completions = s.completions ∧ s'.trace = s.trace ∧ s'.nextWaiterID = s.nextWaiterID := by
  unfold enqueue at hok
  split at hok
  · cases hok
  rename_i policy hp
  split at hok
  · rename_i found hfound
    obtain ⟨key, -, hfound⟩ := bind_eq_some_iff.mp hfound
    split at hok
    · split at hok <;> cases hok <;> exact ⟨rfl, rfl, rfl⟩
    · rw [rebuildAndAttach_eq s (hwf.job_kind _ _ hfound)] at hok
      cases hok
      split <;> exact ⟨rfl, rfl, rfl⟩
  · have hkind := maintenanceRequestPolicy_kind hp
    simp only [newMaintenanceWorker_of_kind hkind] at hok
    rw [rebuildAndAttach_eq _ hkind] at hok
    cases hok
    split <;> exact ⟨rfl, rfl, rfl⟩

theorem enqueueTick_completions (hwf : WellFormed s) (request : MaintenanceRequest) :
    (s.enqueueTick request).completions = s.completions := by
  unfold enqueueTick
  split
  · rfl
  · rename_i next target hok
    exact (enqueue_quiet hwf hok).1

theorem complete_completions (s : SchedulerState) (job : MaintenanceJob) (err : Option MaintenanceError)
    (order : List Nat) :
    (s.complete job err order).completions = s.completions ++ job.waiters.map fun waiter => (job.id, waiter, err) := by
  unfold complete
  have hfold : ∀ (order : List Nat) (s : SchedulerState),
      (order.foldl (resumeDependent err) s).completions = s.completions := by
    intro order
    induction order with
    | nil => exact fun _ => rfl
    | cons id order ih => exact fun s => (ih _).trans (resumeDependent_same err s id).completions
  rw [hfold]
  rfl

/-! ## §2 — The completion of a run -/

/-- The restart of a preempted worker that returned only its cancellation. -/
def restarts (s : SchedulerState) (job : MaintenanceJob) (outcome : MaintenanceTransition) : Bool :=
  job.preempted && (outcome.err.map onlyContextCanceled).getD false && !s.closing

/-- The run that returned `chosen` is the last one for the waiters and dependents of this turn. -/
def completes (s : SchedulerState) (job : MaintenanceJob) (worker : MaintenanceWorker)
    (chosen : MaintenanceTransition) : Bool :=
  (accepted job (worker.run chosen)).terminal && !restarts s job (accepted job (worker.run chosen))

/-- The completions an event delivers. -/
def answersOf (s : SchedulerState) : SchedulerEvent → List (Nat × Nat × Option MaintenanceError)
  | .done id chosen _ =>
    match s.active id, s.jobs id with
    | some worker, some job =>
      if completes s job worker chosen then
        job.waiters.map fun waiter => (id, waiter, (accepted job (worker.run chosen)).err)
      else []
    | _, _ => []
  | .shutdown =>
    (List.range (s.nextJobID + 1)).flatMap fun id =>
      match s.jobs id with
      | none => []
      | some job =>
        (job.waiters ++ job.nextWaiters).map fun waiter => (id, waiter, some MaintenanceError.closed)
  | _ => []

variable {outcome : MaintenanceTransition}

/-- The done branch by what became of the run. -/
theorem handleDone_eq (s : SchedulerState) (job : MaintenanceJob) (worker : MaintenanceWorker)
    (chosen : MaintenanceTransition) (order : List Nat) (ho : accepted job (worker.run chosen) = outcome) :
    s.handleDone job worker chosen order =
      if restarts s job outcome then
        (s.settle job outcome.retain).restart { job with runningResources := 0, held := outcome.retain } order
      else if outcome.terminal then
        (s.settle job outcome.retain).finish { job with runningResources := 0, held := outcome.retain }
          outcome.err order
      else match outcome.dependency with
        | some dependency =>
          (s.settle job outcome.retain).awaitDependency
            { job with runningResources := 0, held := outcome.retain } worker outcome.next dependency order
        | none =>
          (s.settle job outcome.retain).advance { job with runningResources := 0, held := outcome.retain }
            worker outcome.next outcome.retryAfter := by
  subst ho
  rfl

theorem restart_completions (hkind : job.request.kind ≠ .unset) (order : List Nat) :
    (s.restart job order).completions = s.completions := by
  simp only [restart, newMaintenanceWorker_of_kind hkind]
  rfl

theorem finish_completions (hkind : job.request.kind ≠ .unset) (err : Option MaintenanceError)
    (order : List Nat) : (s.finish job err order).completions =
      s.completions ++ job.waiters.map fun waiter => (job.id, waiter, err) := by
  obtain ⟨new, -, hcompletions⟩ := finish_eq (s := s) hkind err order
  exact hcompletions.trans (complete_completions ..)

variable {dependency : MaintenanceRequest} {policy : RequestPolicy}

theorem await_completions (hwf : WellFormed s) (held : Held s job) (next : MaintenancePhase)
    (hp : maintenanceRequestPolicy dependency = .ok policy) (order : List Nat) :
    (s.awaitDependency job worker next dependency order).completions = s.completions := by
  have hwfw : WellFormed ((s.setJob { job with phase := next, waiting := true }).emit
      (.returned job.id worker next)) := by
    refine WellFormed.emit (held.setJob_wellFormed hwf _ rfl rfl rfl) ?_
    rintro id ⟨⟩
    exact hwf.job_bound _ _ held.live
  obtain ⟨⟨queued, target⟩, hok⟩ := hwfw.enqueue_total hp job.id
  simp only [awaitDependency, hok]
  exact (enqueue_quiet hwfw hok).1

/-- The job in hand at the top of the done branch. -/
theorem settle_held (hwf : WellFormed s) (hjob : s.jobs job.id = some job) (ha : s.active job.id = some worker)
    (retain : MaintenanceResource) : WellFormed (s.settle job retain) ∧
      Held (s.settle job retain) { job with runningResources := 0, held := retain } := by
  obtain ⟨hwfs, hhand, hwait⟩ := hwf.settle hjob ha retain
  exact ⟨hwfs, update_self .., hhand, hwait⟩

/-- A returned dependency that the actor acts on has a policy. -/
theorem accepted_policy (ho : accepted job (worker.run chosen) = outcome)
    (hdep : outcome.dependency = some dependency) : ∃ policy, maintenanceRequestPolicy dependency = .ok policy := by
  subst ho
  exact accepted_dependency hdep

theorem handleDone_completions (hwf : WellFormed s) (hjob : s.jobs job.id = some job)
    (ha : s.active job.id = some worker) (order : List Nat) :
    (s.handleDone job worker chosen order).completions = s.completions ++
      if completes s job worker chosen then
        job.waiters.map fun waiter => (job.id, waiter, (accepted job (worker.run chosen)).err)
      else [] := by
  have hkind := hwf.job_kind _ _ hjob
  unfold completes
  obtain ⟨outcome, ho⟩ : ∃ outcome, accepted job (worker.run chosen) = outcome := ⟨_, rfl⟩
  obtain ⟨hwfs, held⟩ := settle_held hwf hjob ha outcome.retain
  rw [handleDone_eq s job worker chosen order ho, ho]
  cases hr : restarts s job outcome with
  | true =>
    rw [if_pos rfl, restart_completions (by exact hkind), Bool.not_true, Bool.and_false, if_neg Bool.false_ne_true,
      append_nil]
    rfl
  | false =>
    rw [if_neg Bool.false_ne_true, Bool.not_false, Bool.and_true]
    cases hterm : outcome.terminal with
    | true =>
      rw [if_pos rfl, if_pos rfl, finish_completions (by exact hkind)]
      rfl
    | false =>
      rw [if_neg Bool.false_ne_true, if_neg Bool.false_ne_true, append_nil]
      cases hdep : outcome.dependency with
      | some dependency =>
        obtain ⟨policy, hp⟩ := accepted_policy ho hdep
        exact await_completions hwfs held _ hp order
      | none =>
        simp only [advance]
        split <;> rfl

/-- The done event of a running job. -/
theorem done_eq {target : Nat} {chosen : MaintenanceTransition} {order : List Nat} {worker : MaintenanceWorker}
    {job : MaintenanceJob} (hstep : scheduler.step s (.done target chosen order) = some s')
    (ha : s.active target = some worker) (hjob : s.jobs target = some job) :
    order.Perm job.dependents ∧ s' = (s.handleDone job worker chosen order).dispatch := by
  simp only [scheduler, handle, ha, hjob] at hstep
  split at hstep
  · cases hstep
  · split at hstep <;> cases hstep
    rename_i hperm
    exact ⟨isPerm_iff.mp hperm, rfl⟩

/-- **What an event answers.** -/
theorem step_completions (hwf : WellFormed s) (hstep : scheduler.step s e = some s') :
    s'.completions = s.completions ++ answersOf s e := by
  simp only [scheduler] at hstep
  split at hstep
  · cases hstep
  cases e with simp only [handle] at hstep
  | configure maintenance =>
    split at hstep <;> cases hstep <;> exact (append_nil _).symm
  | checkpointTick =>
    split at hstep <;> cases hstep
    refine Eq.trans ?_ (append_nil _).symm
    rw [dispatch_completions, enqueueTick_completions hwf]
  | maintenanceTick =>
    split at hstep <;> cases hstep
    refine Eq.trans ?_ (append_nil _).symm
    rw [dispatch_completions]
    refine (maintenanceTick_rule (fun t => WellFormed t ∧ t.completions = s.completions) _ _ ⟨hwf, rfl⟩ ?_).2
    rintro t request - ⟨ht, hsame⟩
    exact ⟨ht.enqueueTick request, (enqueueTick_completions ht request).trans hsame⟩
  | submit request waiter =>
    split at hstep
    · cases hstep
      exact (append_nil _).symm
    · refine Eq.trans ?_ (append_nil _).symm
      split at hstep <;> cases hstep
      · exact dispatch_completions s
      · rename_i queued target hok
        rw [acceptSubmission, dispatch_completions, (preemptRunning_same _ _).completions]
        split
        · exact (addWaiter_same _ _).completions.trans (enqueue_quiet hwf hok).1
        · exact (enqueue_quiet hwf hok).1
  | cancel target waiter =>
    cases hstep
    refine Eq.trans ?_ (append_nil _).symm
    rw [cancel]
    split
    · rfl
    · dsimp only
      split <;> rfl
  | done target chosen order =>
    split at hstep
    · rename_i worker job ha hjob
      obtain rfl := hwf.job_id target job hjob
      split at hstep <;> cases hstep
      rw [dispatch_completions, handleDone_completions hwf hjob ha, answersOf, ha, hjob]
    · rename_i hnone
      cases hstep
      rw [answersOf]
      split
      · rename_i worker job ha hjob
        exact absurd hjob (hnone worker job ha)
      · exact (append_nil _).symm
  | retry target =>
    obtain ⟨-, hstep⟩ := ite_none_right_eq_some.mp hstep
    split at hstep
    · cases hstep
      exact (append_nil _).symm
    · split at hstep <;> cases hstep
      · refine Eq.trans ?_ (append_nil _).symm
        rw [dispatch_completions]
        rfl
      · exact (append_nil _).symm
  | shutdown =>
    split at hstep <;> cases hstep
    rfl

/-! ## §3 — The end of a wait -/

theorem waits_iff : Waits s id ↔ (s.jobs id).map (·.waiting) = some true := by
  simp [Waits, map_eq_some_iff]

/-- A running job does not wait. -/
theorem WellFormed.active_not_waits (hwf : WellFormed s) (ha : s.active id = some worker) : ¬ Waits s id := by
  obtain ⟨found, hfound, -, hnot⟩ := hwf.active_job id worker ha
  exact not_waits hfound hnot

variable {t : SchedulerState}

theorem waits_of_map (h : (t.jobs id).map (·.waiting) = (s.jobs id).map (·.waiting)) : Waits t id ↔ Waits s id := by
  rw [waits_iff, waits_iff, h]

/-- A record is replaced by one that waits as well. -/
theorem Waits.rewrite {key : Nat} {old new : MaintenanceJob} (hw : Waits s id) (hold : s.jobs key = some old)
    (hjobs : t.jobs = update s.jobs key (some new)) (hwait : new.waiting = old.waiting) : Waits t id := by
  refine (waits_of_map ?_).mpr hw
  rw [hjobs]
  exact update_map (·.waiting) hold hwait id

/-- Admission ends no wait. -/
theorem enqueue_waits (hwf : WellFormed s)
    (hok : s.enqueue request dependent = .ok (s', target)) (hw : Waits s id) : Waits s' id := by
  have ⟨job, hjob, _⟩ := hw
  exact (waits_of_map (enqueue_map (·.waiting) (fun _ _ _ _ _ _ _ _ _ => rfl) hwf hok hjob)).mpr hw

theorem dispatch_waits (hwf : WellFormed s) : Waits s.dispatch id ↔ Waits s id :=
  waits_of_map (dispatch_map (·.waiting) (fun _ _ => rfl) hwf id)

theorem resumeDependent_waits (hwf : WellFormed s) (err : Option MaintenanceError) (dependent : Nat) :
    Waits (resumeDependent err s dependent) id ↔ Waits s id ∧ id ≠ dependent := by
  unfold resumeDependent
  split
  · rename_i hnone
    refine ⟨fun hw => ⟨hw, ?_⟩, And.left⟩
    rintro rfl
    obtain ⟨job, hjob, -⟩ := hw
    rw [hnone] at hjob
    cases hjob
  · rename_i found hfound
    obtain rfl := hwf.job_id dependent found hfound
    split
    · refine waits_setJob.trans ?_
      simp [and_comm]
    · rename_i hnot
      refine ⟨fun hw => ⟨hw, ?_⟩, And.left⟩
      rintro rfl
      exact not_waits hfound (Bool.eq_false_iff.mpr hnot) hw

/-- Completing a run resumes exactly its dependents. -/
theorem complete_waits (job : MaintenanceJob) (err : Option MaintenanceError) (order : List Nat) :
    ∀ {s : SchedulerState}, WellFormed s → (Waits (s.complete job err order) id ↔ Waits s id ∧ id ∉ order) := by
  have hfold : ∀ (order : List Nat) {s : SchedulerState}, WellFormed s →
      (Waits (order.foldl (resumeDependent err) s) id ↔ Waits s id ∧ id ∉ order) := by
    intro order
    induction order with
    | nil => simp
    | cons dependent order ih =>
      intro s hwf
      rw [foldl_cons, ih (hwf.resumeDependent err dependent), resumeDependent_waits hwf, mem_cons,
        not_or, and_assoc]
  intro s hwf
  exact hfold order (hwf.finishWaiters job.id job.waiters)

/-- Rewriting, queueing or removing a job that does not wait changes no other wait. -/
theorem waits_update {key : Nat} {new : Option MaintenanceJob}
    (hjobs : t.jobs = update s.jobs key new) (hid : id ≠ key) : Waits t id ↔ Waits s id := by
  simp only [Waits, hjobs, update_of_ne hid]

theorem finish_waits (hwf : WellFormed s) (held : Held s job) (err : Option MaintenanceError) (order : List Nat)
    (hid : id ≠ job.id) : Waits (s.finish job err order) id ↔ Waits s id ∧ id ∉ order := by
  obtain ⟨new, hjobs, -⟩ := finish_eq (s := s) (hwf.job_kind _ _ held.live) err order
  exact (waits_update hjobs hid).trans (complete_waits job err order hwf)

theorem await_waits (hwf : WellFormed s) (held : Held s job) (next : MaintenancePhase)
    (hp : maintenanceRequestPolicy dependency = .ok policy) (order : List Nat) (hid : id ≠ job.id)
    (hw : Waits s id) : Waits (s.awaitDependency job worker next dependency order) id := by
  have hwfw : WellFormed ((s.setJob { job with phase := next, waiting := true }).emit
      (.returned job.id worker next)) := by
    refine WellFormed.emit (held.setJob_wellFormed hwf _ rfl rfl rfl) ?_
    rintro id ⟨⟩
    exact hwf.job_bound _ _ held.live
  obtain ⟨⟨queued, target⟩, hok⟩ := hwfw.enqueue_total hp job.id
  simp only [awaitDependency, hok]
  exact enqueue_waits hwfw hok ((waits_update rfl hid).mpr hw)

/-- The event completes a run for which the job is listed. -/
def Resumes (s : SchedulerState) (e : SchedulerEvent) (id : Nat) : Prop :=
  ∃ owner worker job chosen order, e = .done owner chosen order ∧ s.active owner = some worker ∧
    s.jobs owner = some job ∧ completes s job worker chosen = true ∧ id ∈ job.dependents

theorem handleDone_waits (hwf : WellFormed s) (hjob : s.jobs job.id = some job)
    (ha : s.active job.id = some worker) (hperm : order.Perm job.dependents) (hw : Waits s id) :
    Waits (s.handleDone job worker chosen order) id ↔
      ¬ (completes s job worker chosen = true ∧ id ∈ job.dependents) := by
  have hkind := hwf.job_kind _ _ hjob
  have hid : id ≠ job.id := by
    rintro rfl
    exact hwf.active_not_waits ha hw
  unfold completes
  obtain ⟨outcome, ho⟩ : ∃ outcome, accepted job (worker.run chosen) = outcome := ⟨_, rfl⟩
  obtain ⟨hwfs, held⟩ := settle_held hwf hjob ha outcome.retain
  have hws : Waits (s.settle job outcome.retain) id := (waits_update rfl hid).mpr hw
  rw [handleDone_eq s job worker chosen order ho, ho]
  cases hr : restarts s job outcome with
  | true =>
    simp only [Bool.not_true, Bool.and_false, Bool.false_eq_true, false_and, not_false_eq_true, iff_true, if_true,
      restart, newMaintenanceWorker_of_kind hkind]
    exact (waits_update rfl hid).mpr hws
  | false =>
    simp only [Bool.not_false, Bool.and_true, Bool.false_eq_true, if_false]
    cases hterm : outcome.terminal with
    | true =>
      simp only [if_true, true_and]
      rw [finish_waits hwfs held outcome.err order hid, hperm.mem_iff]
      exact and_iff_right hws
    | false =>
      simp only [Bool.false_eq_true, if_false, false_and, not_false_eq_true, iff_true]
      cases hdep : outcome.dependency with
      | some dependency =>
        obtain ⟨policy, hp⟩ := accepted_policy ho hdep
        exact await_waits hwfs held _ hp order hid hws
      | none =>
        simp only [advance]
        split
        · exact (waits_update rfl hid).mpr ((waits_update rfl hid).mpr hws)
        · exact (waits_update rfl hid).mpr ((waits_update rfl hid).mpr hws)

/-- **Only the end of a run ends a wait.** -/
theorem Move.waits (hwf : WellFormed a.state) (m : Move e a b) (he : ∀ owner chosen order, e ≠ .done owner chosen order)
    (h : (∀ owner, ¬ a.hand.holds owner) ∧ Waits a.state id) :
    (∀ owner, ¬ b.hand.holds owner) ∧ Waits b.state id := by
  obtain ⟨hhand, hw⟩ := h
  cases m with
  | create s hand =>
    refine ⟨hhand, (waits_update rfl ?_).mpr hw⟩
    rintro rfl
    obtain ⟨job, hjob, -⟩ := hw
    rw [(hwf.fresh (Nat.lt_succ_self _)).1] at hjob
    cases hjob
  | rerun s hand job worker hasks hp hjob | join s hand job worker hasks hp hjob | rebuild s hand job hasks hp hjob
  | dropWaiter s job waiter _ hjob | launch s job hjob | retry s job ht hjob =>
    exact ⟨nofun, hw.rewrite hjob rfl rfl⟩
  | release => exact ⟨nofun, hw⟩
  | waiter s target =>
    exact ⟨nofun, (waits_of_map (addWaiter_map (·.waiting) (fun _ _ _ => rfl) hwf target id)).mpr hw⟩
  | depend s job request next hdep hjob =>
    cases next <;> exact ⟨nofun, hw.rewrite hjob rfl rfl⟩
  | preempt s target =>
    exact ⟨nofun, (waits_of_map (preemptRunning_map (·.waiting) (fun _ _ => rfl) target id)).mpr hw⟩
  | abandon s job hjob hidle hwait =>
    refine ⟨nofun, (waits_update rfl ?_).mpr hw⟩
    rintro rfl
    exact not_waits hjob hwait hw
  | take s job worker chosen hjob ha order hdone => exact absurd hdone (he _ _ _)
  | shutdown s => exact ⟨nofun, (waits_of_map (shutdown_map (·.waiting) (fun _ _ _ => rfl) id)).mpr hw⟩
  | restart s job | answer s job | resume s job | again s job | remove s job | queue s job | time s job
  | wait s job => exact absurd rfl (hhand job.id)
  | _ => exact ⟨hhand, hw⟩

/-- **What an event resumes.**  A wait ends exactly when the run completes for which the job is listed. -/
theorem step_waits (hwf : WellFormed s) (hstep : scheduler.step s e = some s') (hw : Waits s id) :
    Waits s' id ↔ ¬ Resumes s e id := by
  by_cases hdone : ∃ target chosen order, e = .done target chosen order
  · obtain ⟨target, chosen, order, rfl⟩ := hdone
    simp only [scheduler, handle] at hstep
    split at hstep
    · cases hstep
    split at hstep
    · rename_i worker job ha hjob
      obtain rfl := hwf.job_id target job hjob
      split at hstep <;> cases hstep
      rename_i hperm
      have hperm := isPerm_iff.mp hperm
      have hwfd := (handleDone_moves hwf hjob ha chosen hperm rfl).wellFormed hwf
      rw [dispatch_waits hwfd, handleDone_waits hwf hjob ha hperm hw, not_iff_not]
      constructor
      · rintro ⟨hc, hmem⟩
        exact ⟨job.id, worker, job, chosen, order, rfl, ha, hjob, hc, hmem⟩
      · rintro ⟨owner, run, found, chosen', order', he, hrun, hfound, hc, hmem⟩
        cases he
        obtain rfl : worker = run := Option.some.inj (ha.symm.trans hrun)
        obtain rfl : job = found := Option.some.inj (hjob.symm.trans hfound)
        exact ⟨hc, hmem⟩
    · rename_i hnone
      cases hstep
      refine iff_of_true hw ?_
      rintro ⟨owner, worker, job, chosen', order', he, ha, hjob, -⟩
      cases he
      exact hnone worker job ha hjob
  · have hwaits := (step_moves hwf hstep).invariant (fun a => (∀ owner, ¬ a.hand.holds owner) ∧ Waits a.state id)
      (fun a b hwf h m => m.waits hwf (fun owner chosen order he => hdone ⟨owner, chosen, order, he⟩) h) hwf
      ⟨(fun owner hholds => by cases hholds), hw⟩
    refine iff_of_true hwaits.2.2 ?_
    rintro ⟨owner, worker, job, chosen, order, he, -⟩
    exact hdone ⟨owner, chosen, order, he⟩

end Ridstore.Engine
