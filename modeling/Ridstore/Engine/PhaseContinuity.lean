import Ridstore.Engine.SchedulerInvariants

/-
# Ridstore.Engine.PhaseContinuity — between two phases a job keeps its worker

A worker keeps protocol state in its fields between phases: the copied outputs, the redirects, the
space reservation.  So once it has returned a non-terminal transition to a phase after `start`, the
next thing that happens to its job must be a run of that same worker at that phase.  The event loop
does not guarantee this: `enqueue` rebuilds the worker of any idle keyed job, and the cancellation of
the last waiter removes an idle job.  `PhaseSafe` names the events that do neither, and the property
is proved for every run made of such events.
-/

namespace Ridstore.Engine

open SchedulerState List Function Option

/-! ## The property -/

/-- The latest observation of a job in a trace (newest first). -/
def latest (trace : List Observation) (id : Nat) : Option Observation :=
  trace.find? fun o => o.job = some id

/-- The worker itself, or the wrapper that delivers a failed dependency to it. -/
def Delivers (run worker : MaintenanceWorker) : Prop :=
  run = worker ∨ ∃ err, run = .failedDependency worker err

/-- **Phase continuity.**  Before shutdown, whatever follows a non-terminal return to a phase `p` after
`start` in a job's history is a run, at `p`, of the worker that returned. -/
def PhaseContinuity (trace : List Observation) : Prop :=
  ∀ later o earlier id worker p, trace = later ++ o :: earlier → .shutdown ∉ earlier →
    o.job = some id → latest earlier id = some (.returned id worker p) → p.afterStart = true →
    ∃ run, o = .ran id run p ∧ Delivers run worker

/-! ## What the actor must remember -/

variable {s s' : SchedulerState} {job old : MaintenanceJob} {o : Observation} {id : Nat}
  {worker : MaintenanceWorker} {p : MaintenancePhase} {err : Option MaintenanceError} {strict : Prop}
  {trace : List Observation}

/-- The job is idle, at phase `p`, with the worker that asked for it. -/
def Between (s : SchedulerState) (id : Nat) (worker : MaintenanceWorker) (p : MaintenancePhase) : Prop :=
  s.active id = none ∧ ∃ job, s.jobs id = some job ∧ job.phase = p ∧
    (job.worker = worker ∨ job.waiting = false ∧ ∃ err, job.worker = .failedDependency worker err)

/-- A phase after `start` is owed to the job: its last observation is a return that asked for one. -/
def Owed (s : SchedulerState) (id : Nat) (worker : MaintenanceWorker) (p : MaintenancePhase) : Prop :=
  s.closing = false ∧ latest s.trace id = some (.returned id worker p) ∧ p.afterStart = true

/-- The invariant.  The tables are well formed in every run; in a run of safe events (`strict`) every
owed phase is still there to be run. -/
structure Tracks (strict : Prop) (s : SchedulerState) : Prop extends WellFormed s where
  closed : s.closing = true → .shutdown ∈ s.trace
  continuity : strict → PhaseContinuity s.trace
  kept : strict → ∀ id worker p, Owed s id worker p → Between s id worker p

theorem latest_cons_self (ho : o.job = some id) : latest (o :: trace) id = some o := by
  simp [latest, ho]

theorem latest_cons_other (ho : o.job ≠ some id) : latest (o :: trace) id = latest trace id := by
  simp [latest, ho]

theorem PhaseContinuity.nil : PhaseContinuity [] := by
  intro later o earlier id worker p h
  simp at h

/-- A new observation of a job to which nothing is owed, or which runs what is owed. -/
theorem PhaseContinuity.cons (h : PhaseContinuity trace)
    (hnext : .shutdown ∉ trace → ∀ id worker p, o.job = some id →
      latest trace id = some (.returned id worker p) → p.afterStart = true →
      ∃ run, o = .ran id run p ∧ Delivers run worker) : PhaseContinuity (o :: trace) := by
  intro later o' earlier id worker p htrace hopen hjob hlatest hp
  rcases cons_eq_append_iff.mp htrace with ⟨-, hcons⟩ | ⟨later', -, hrest⟩
  · obtain ⟨rfl, rfl⟩ := List.cons.inj hcons
    exact hnext hopen id worker p hjob hlatest hp
  · exact h later' o' earlier id worker p hrest hopen hjob hlatest hp

namespace Tracks

/-- A step that observes nothing: what is owed must survive it. -/
theorem frame (h : Tracks strict s) (hwf : WellFormed s') (htrace : s'.trace = s.trace)
    (hclosing : s'.closing = s.closing)
    (hkeep : strict → ∀ id worker p, Owed s id worker p → Between s id worker p → Between s' id worker p) :
    Tracks strict s' where
  toWellFormed := hwf
  closed := by rw [htrace, hclosing]; exact h.closed
  continuity := by rw [htrace]; exact h.continuity
  kept := by
    intro hs id worker p howed
    have howed' : Owed s id worker p := by simpa only [Owed, htrace, hclosing] using howed
    exact hkeep hs id worker p howed' (h.kept hs id worker p howed')

/-- A step that observes `o` of job `id`: it runs what is owed to `id`, a new debt is kept, and what is
owed to other jobs survives. -/
theorem observe (h : Tracks strict s) (hwf : WellFormed s') (htrace : s'.trace = o :: s.trace)
    (hclosing : s'.closing = s.closing) (hjob : o.job = some id)
    (hnext : strict → ∀ worker p, Owed s id worker p → ∃ run, o = .ran id run p ∧ Delivers run worker)
    (hself : ∀ worker p, o = .returned id worker p → Between s' id worker p)
    (hother : ∀ other worker p, other ≠ id → Between s other worker p → Between s' other worker p) :
    Tracks strict s' where
  toWellFormed := hwf
  closed := by
    rw [htrace, hclosing]
    exact fun hc => mem_cons_of_mem _ (h.closed hc)
  continuity := by
    intro hs
    rw [htrace]
    refine (h.continuity hs).cons ?_
    intro hopen id' worker p hjob' hlatest hp
    obtain rfl := mem_unique hjob hjob'
    have hclosing : s.closing = false := by
      cases hc : s.closing
      · rfl
      · exact absurd (h.closed hc) hopen
    exact hnext hs worker p ⟨hclosing, hlatest, hp⟩
  kept := by
    rintro hs id' worker p ⟨hc, hlatest, hp⟩
    rw [htrace] at hlatest
    by_cases hid : id' = id
    · subst hid
      rw [latest_cons_self hjob] at hlatest
      exact hself worker p (Option.some.inj hlatest)
    · rw [latest_cons_other (by rw [hjob]; exact fun he => hid (Option.some.inj he).symm)] at hlatest
      exact hother id' worker p hid (h.kept hs id' worker p ⟨hclosing ▸ hc, hlatest, hp⟩)

/-- Nothing is owed to a running job. -/
theorem active_not_owed {run : MaintenanceWorker} (h : Tracks strict s) (hs : strict) (ha : s.active id = some run) : ¬ Owed s id worker p := by
  intro howed
  have hidle := (h.kept hs id worker p howed).1
  rw [ha] at hidle
  cases hidle

end Tracks

/-! ## The operations on one job -/

/-- The record `job` still has what is owed to `old`: the phase, and the worker up to the wrapping of a
waiting one. -/
def Carries (old job : MaintenanceJob) : Prop :=
  job.phase = old.phase ∧
    (job.worker = old.worker ∧ (job.waiting = true → old.waiting = true) ∨
      old.waiting = true ∧ job.waiting = false ∧ ∃ err, job.worker = .failedDependency old.worker err)

/-- Nothing is owed to the job, or the new record carries it. -/
def Honours (s : SchedulerState) (old job : MaintenanceJob) : Prop :=
  (∀ worker p, ¬ Owed s job.id worker p) ∨ Carries old job

theorem Carries.refl (hphase : job.phase = old.phase) (hworker : job.worker = old.worker)
    (hwait : job.waiting = old.waiting) : Carries old job :=
  ⟨hphase, .inl ⟨hworker, fun h => hwait ▸ h⟩⟩

/-- A carried debt is kept when the record is replaced. -/
theorem Between.carry (job : MaintenanceJob) (hb : Between s job.id worker p) (hold : s.jobs job.id = some old)
    (hjob : s'.jobs job.id = some job) (hidle : s'.active job.id = none) (hc : Carries old job) :
    Between s' job.id worker p := by
  obtain ⟨-, found, hfound, hphase, hworker⟩ := hb
  obtain rfl := mem_unique hold hfound
  obtain ⟨hp, hw⟩ := hc
  refine ⟨hidle, job, hjob, hp.trans hphase, ?_⟩
  rcases hw with ⟨hw, hwait⟩ | ⟨hwait, hwait', err, hw⟩
  · rcases hworker with hworker | ⟨hnot, err, hworker⟩
    · exact .inl (hw.trans hworker)
    · refine .inr ⟨?_, err, hw.trans hworker⟩
      cases hj : job.waiting
      · rfl
      · exact absurd (hwait hj) (by simp [hnot])
  · rcases hworker with hworker | ⟨hnot, -⟩
    · exact .inr ⟨hwait', err, hworker ▸ hw⟩
    · exact absurd hwait (by simp [hnot])

/-- A debt to a job whose entries do not change is kept. -/
theorem Between.congr {other : Nat} (hb : Between s other worker p) (hjobs : s'.jobs other = s.jobs other)
    (hactive : s'.active other = s.active other) : Between s' other worker p := by
  simpa only [Between, hjobs, hactive] using hb

namespace Tracks

theorem setJob (h : Tracks strict s) (job old : MaintenanceJob) (hold : s.jobs job.id = some old) (hkey : job.key = old.key)
    (hkind : job.request.kind = old.request.kind)
    (hworker : s.active job.id = none ∨ job.worker = old.worker)
    (hwait : job.waiting = true → old.waiting = true ∨ InHand s job)
    (hhonours : strict → Honours s old job) : Tracks strict (s.setJob job) := by
  refine h.frame (h.toWellFormed.setJob job old hold hkey hkind hworker hwait) rfl rfl ?_
  intro hs id worker p howed hb
  by_cases hid : id = job.id
  · subst hid
    rcases hhonours hs with hno | hc
    · exact absurd howed (hno worker p)
    · exact hb.carry job hold (update_self ..) hb.1 hc
  · exact hb.congr (update_of_ne hid ..) rfl

theorem requeue (h : Tracks strict s) (old : MaintenanceJob) (hand : InHand s job) (hwait : job.waiting = false)
    (hold : s.jobs job.id = some old) (hhonours : strict → Honours s old job) : Tracks strict (s.requeue job) := by
  refine h.frame (h.toWellFormed.requeue hand hwait) rfl rfl ?_
  intro hs id worker p howed hb
  by_cases hid : id = job.id
  · subst hid
    rcases hhonours hs with hno | hc
    · exact absurd howed (hno worker p)
    · exact hb.carry { job with sequence := s.sequence + 1 } hold (update_self ..) hb.1 hc
  · exact hb.congr (update_of_ne hid ..) rfl

theorem removeJob (h : Tracks strict s) (old : MaintenanceJob) (hold : s.jobs job.id = some old) (hkey : old.key = job.key)
    (hidle : s.active job.id = none) (hp : job.id ∉ s.pending)
    (hno : strict → ∀ worker p, ¬ Owed s job.id worker p) : Tracks strict (s.removeJob job) := by
  refine h.frame (h.toWellFormed.removeJob hold hkey hidle hp) rfl rfl ?_
  intro hs id worker p howed hb
  have hid : id ≠ job.id := by
    rintro rfl
    exact hno hs worker p howed
  exact hb.congr (update_of_ne hid ..) rfl

/-- Starting a queued job runs whatever is owed to it. -/
theorem launch (h : Tracks strict s) (hjob : s.jobs job.id = some job) (hp : job.id ∈ s.pending) :
    Tracks strict (s.launch job) := by
  refine h.observe (o := .ran job.id job.worker job.phase) (h.toWellFormed.launch hjob hp) rfl rfl rfl ?_ ?_ ?_
  · intro hs worker p howed
    obtain ⟨-, found, hfound, hphase, hworker⟩ := h.kept hs job.id worker p howed
    obtain rfl := mem_unique hjob hfound
    exact ⟨job.worker, by rw [hphase], hworker.imp id fun hw => hw.2⟩
  · intro worker p hne
    cases hne
  · intro other worker p hne hb
    exact hb.congr (update_of_ne hne ..) (update_of_ne hne ..)

end Tracks

/-! ## Dispatch and completion -/

/-- The scan only ever chooses a queued job whose needs are free. -/
theorem best_spec {chosen : MaintenanceJob} (h : s.best = some chosen) :
    (∃ id ∈ s.pending, s.jobs id = some chosen) ∧ need chosen &&& s.leased = 0 := by
  -- The accumulator of the scan is empty or such a job.
  refine List.foldlRecOn (motive := fun found => ∀ job, found = some job →
    (∃ id ∈ s.pending, s.jobs id = some job) ∧ need job &&& s.leased = 0) s.pending _ ?_ ?_ chosen h
  · rintro job ⟨⟩
  · intro found hfound id hid candidate hcandidate
    grind

theorem Tracks.dispatchLoop (turns : Nat) : ∀ {s}, Tracks strict s → Tracks strict (dispatchLoop turns s) := by
  induction turns with
  | zero => exact fun h => h
  | succ turns ih =>
    intro s h
    unfold SchedulerState.dispatchLoop
    split
    · exact h
    · rename_i job hbest
      obtain ⟨⟨id, hp, hjob⟩, -⟩ := best_spec hbest
      obtain rfl := h.job_id id job hjob
      exact ih (h.launch hjob hp)

theorem Tracks.dispatch (h : Tracks strict s) : Tracks strict s.dispatch :=
  h.dispatchLoop s.pending.length

theorem Tracks.finishWaiters (h : Tracks strict s) (id : Nat) (waiters : List Nat) :
    Tracks strict (s.finishWaiters id waiters err) :=
  h.frame (h.toWellFormed.finishWaiters id waiters) rfl rfl fun _ _ _ _ _ hb => hb

/-- A waiting dependent is queued with its own worker, wrapped if the dependency failed. -/
theorem Tracks.resumeDependent (h : Tracks strict s) (id : Nat) : Tracks strict (resumeDependent err s id) := by
  unfold SchedulerState.resumeDependent
  split
  · exact h
  · rename_i dependent hdep
    split
    · rename_i hwaiting
      have hid := h.job_id id dependent hdep
      refine h.requeue dependent (h.waiting_inHand hdep hwaiting hid rfl rfl) rfl (hid ▸ hdep) ?_
      intro _
      refine .inr ⟨rfl, ?_⟩
      cases err with
      | none => exact .inl ⟨rfl, fun hw => by cases hw⟩
      | some cause => exact .inr ⟨hwaiting, rfl, cause, rfl⟩
    · exact h

/-- A step that leaves job `id` where it is and observes nothing. -/
structure Leaves (s s' : SchedulerState) (id : Nat) : Prop where
  jobs : s'.jobs id = s.jobs id
  pending : id ∈ s'.pending → id ∈ s.pending
  active : s'.active = s.active
  timers : s'.retryTimers = s.retryTimers
  trace : s'.trace = s.trace
  closing : s'.closing = s.closing

theorem Leaves.inHand (h : Leaves s s' job.id) (hand : InHand s job) : InHand s' job where
  live := by rw [h.jobs]; exact hand.live
  idle := by rw [h.active]; exact hand.idle
  unqueued := fun hp => hand.unqueued (h.pending hp)
  untimed := by rw [h.timers]; exact hand.untimed

theorem Leaves.owed (h : Leaves s s' id) : Owed s' id worker p ↔ Owed s id worker p := by
  simp only [Owed, h.trace, h.closing]

/-- Resuming a dependent leaves every job that is not waiting where it is. -/
theorem resumeDependent_leaves (err : Option MaintenanceError) (h : WellFormed s) (hjob : s.jobs id = some job)
    (hwait : job.waiting = false) (dep : Nat) : Leaves s (resumeDependent err s dep) id := by
  unfold resumeDependent
  split
  · exact ⟨rfl, fun h => h, rfl, rfl, rfl, rfl⟩
  · rename_i dependent hdep
    split
    · rename_i hwaiting
      have hid := h.job_id dep dependent hdep
      have hne : id ≠ dependent.id := by
        rintro rfl
        grind
      refine ⟨update_of_ne hne .., ?_, rfl, rfl, rfl, rfl⟩
      intro hp
      rcases mem_append.mp hp with hp | hp
      · exact hp
      · exact absurd (mem_singleton.mp hp) hne
    · exact ⟨rfl, fun h => h, rfl, rfl, rfl, rfl⟩

theorem WellFormed.resumeDependent (h : WellFormed s) (err : Option MaintenanceError) (id : Nat) :
    WellFormed (resumeDependent err s id) := by
  unfold SchedulerState.resumeDependent
  split
  · exact h
  · rename_i found hfound
    split
    · rename_i hwaiting
      have hid := h.job_id id found hfound
      exact h.requeue (h.waiting_inHand hfound hwaiting hid rfl rfl) rfl
    · exact h

/-- Completing a job leaves a job that is not waiting where it is. -/
theorem complete_leaves (err : Option MaintenanceError) (hwf : WellFormed s) (job : MaintenanceJob)
    {found : MaintenanceJob} (hjob : s.jobs id = some found) (hwait : found.waiting = false) (order : List Nat) :
    WellFormed (s.complete job err order) ∧ Leaves s (s.complete job err order) id := by
  unfold complete
  have hstart : WellFormed (s.finishWaiters job.id job.waiters err) := hwf.finishWaiters _ _
  have hleaves : Leaves s (s.finishWaiters job.id job.waiters err) id :=
    ⟨rfl, fun h => h, rfl, rfl, rfl, rfl⟩
  -- Over the dependents, the job stays as it was at the start.
  generalize s.finishWaiters job.id job.waiters err = current at hstart hleaves
  induction order generalizing current with
  | nil => exact ⟨hstart, hleaves⟩
  | cons dep order ih =>
    have hcurrent : current.jobs id = some found := hleaves.jobs.trans hjob
    have hnext := resumeDependent_leaves err hstart hcurrent hwait dep
    refine ih _ (hstart.resumeDependent err dep) ?_
    exact ⟨hnext.jobs.trans hleaves.jobs, fun hp => hleaves.pending (hnext.pending hp),
      hnext.active.trans hleaves.active, hnext.timers.trans hleaves.timers,
      hnext.trace.trans hleaves.trace, hnext.closing.trans hleaves.closing⟩

theorem Tracks.complete (h : Tracks strict s) (job : MaintenanceJob) (err : Option MaintenanceError)
    (order : List Nat) : Tracks strict (s.complete job err order) := by
  unfold SchedulerState.complete
  have hstart : Tracks strict (s.finishWaiters job.id job.waiters err) := h.finishWaiters _ _
  generalize s.finishWaiters job.id job.waiters err = current at hstart
  induction order generalizing current with
  | nil => exact hstart
  | cons dep order ih => exact ih _ (hstart.resumeDependent dep)

/-! ## Admission -/

variable {request : MaintenanceRequest} {dependent : Nat}

/-- The request does not meet an idle job of its key that is between two phases. -/
def Untouched (s : SchedulerState) (request : MaintenanceRequest) : Prop :=
  ∀ policy id job, maintenanceRequestPolicy request = .ok policy → policy.key.bind s.byKey = some id →
    s.jobs id = some job → s.active id = none → job.phase.afterStart = false

section

variable (h : Tracks strict s)

include h

/-- Nothing is owed to a job that is not past `start`. -/
theorem Tracks.not_owed_of_phase (hs : strict) (hjob : s.jobs id = some job)
    (hphase : s.closing = false → job.phase.afterStart = false) : ¬ Owed s id worker p := by
  intro howed
  obtain ⟨-, found, hfound, hp, -⟩ := h.kept hs id worker p howed
  obtain rfl := mem_unique hjob hfound
  have hafter := howed.2.2
  rw [← hp, hphase howed.1] at hafter
  cases hafter

/-- Nothing is owed to an id that has not been given out. -/
theorem Tracks.not_owed_of_fresh (hid : s.nextJobID < id) : ¬ Owed s id worker p := by
  rintro ⟨-, hlatest, -⟩
  have hmem := mem_of_find?_eq_some hlatest
  have hbound := h.trace_bound _ hmem id rfl
  omega

theorem Tracks.coalesceRerun (hjob : s.jobs job.id = some job) :
    Tracks strict (s.coalesceRerun job request dependent) :=
  h.setJob _ job hjob rfl rfl (.inr rfl) .inl fun _ => .inr (.refl rfl rfl rfl)

theorem Tracks.attach (old : MaintenanceJob) (hold : s.jobs job.id = some old) (hkey : job.key = old.key)
    (hkind : job.request.kind = old.request.kind)
    (hworker : s.active job.id = none ∨ job.worker = old.worker) (hwait : job.waiting = old.waiting)
    (hhonours : strict → Honours s old job) : Tracks strict (s.attach job request dependent) :=
  h.setJob _ old hold hkey hkind hworker (fun hw => .inl (hwait ▸ hw)) hhonours

/-- Rebuilding the worker of an idle job to which nothing is owed. -/
theorem Tracks.rebuildAndAttach (hjob : s.jobs job.id = some job)
    (hidle : s.active job.id = none) (hno : strict → ∀ worker p, ¬ Owed s job.id worker p)
    (hok : s.rebuildAndAttach job request dependent = .ok s') : Tracks strict s' := by
  have hkind := h.job_kind _ _ hjob
  unfold SchedulerState.rebuildAndAttach at hok
  dsimp only at hok
  split at hok
  · cases hok
  · cases hok
    have hserial : Tracks strict { s with nextSerial := s.nextSerial + 1 } :=
      h.frame (h.toWellFormed.serial _) rfl rfl fun _ _ _ _ _ hb => hb
    exact hserial.attach job hjob rfl (mergeMaintenanceRequest_kind _ hkind) (.inl hidle) rfl
      fun hs => .inl (hno hs)

/-- `enqueue` keeps the invariant when it meets no job between two phases. -/
theorem Tracks.enqueue (hsafe : strict → s.closing = false → Untouched s request)
    (hok : s.enqueue request dependent = .ok (s', id)) : Tracks strict s' := by
  unfold SchedulerState.enqueue at hok
  split at hok
  · cases hok
  rename_i policy hpolicy
  split at hok
  · rename_i job hfound
    obtain ⟨key, hkey, hlive⟩ := bind_eq_some_iff.mp hfound
    obtain rfl := h.job_id key job hlive
    split at hok
    · split at hok
      · cases hok
        exact h.coalesceRerun hlive
      · cases hok
        exact h.attach job hlive rfl rfl (.inr rfl) rfl fun _ => .inr (.refl rfl rfl rfl)
    · rename_i hrunning
      have hidle : s.active job.id = none := by simpa using hrunning
      cases hr : s.rebuildAndAttach job request dependent with
      | error e => simp [hr, Except.map] at hok
      | ok rebuilt =>
        simp only [hr, Except.map, Except.ok.injEq, Prod.mk.injEq] at hok
        obtain ⟨rfl, -⟩ := hok
        exact h.rebuildAndAttach hlive hidle (fun hs worker p => h.not_owed_of_phase hs hlive
          fun hc => hsafe hs hc policy job.id job hpolicy hkey hlive hidle) hr
  · split at hok
    · cases hok
    · rename_i worker hworker
      obtain ⟨-, hidle, -⟩ := h.fresh (Nat.lt_succ_self s.nextJobID)
      have hno : ∀ worker p, ¬ Owed s (s.nextJobID + 1) worker p := fun worker p =>
        h.not_owed_of_fresh (Nat.lt_succ_self _)
      have hcreated : Tracks strict (s.createJob request policy worker).1 := by
        refine h.frame (h.toWellFormed.createJob request policy worker
          (maintenanceRequestPolicy_kind hpolicy)) rfl rfl ?_
        intro hs id worker p howed hb
        have hid : id ≠ s.nextJobID + 1 := by
          rintro rfl
          exact hno worker p howed
        exact hb.congr (update_of_ne hid ..) rfl
      cases hr : (s.createJob request policy worker).1.rebuildAndAttach
          (s.createJob request policy worker).2 request dependent with
      | error e => simp [hr, Except.map] at hok
      | ok rebuilt =>
        simp only [hr, Except.map, Except.ok.injEq, Prod.mk.injEq] at hok
        obtain ⟨rfl, -⟩ := hok
        exact hcreated.rebuildAndAttach (update_self ..) hidle (fun _ => hno) hr

end

/-! ## The branches of the event loop -/

namespace Tracks

section

variable (h : Tracks strict s)

include h

/-- An observation of a job to which nothing is owed; a phase it asks for is in the record. -/
theorem emit (hjob : o.job = some id) (hid : id ≤ s.nextJobID) (hno : strict → ∀ worker p, ¬ Owed s id worker p)
    (hself : ∀ worker p, o = .returned id worker p → Between s id worker p) : Tracks strict (s.emit o) := by
  refine h.observe (h.toWellFormed.emit ?_) rfl rfl hjob ?_ hself fun _ _ _ _ hb => hb
  · intro id' hid'
    obtain rfl := mem_unique hjob hid'
    exact hid
  · exact fun hs worker p howed => absurd howed (hno hs worker p)

/-- The done branch's non-terminal return: the record already has the phase that is now owed. -/
theorem emitReturned (hjob : s.jobs id = some job) (hidle : s.active id = none)
    (hno : strict → ∀ worker p, ¬ Owed s id worker p) (hworker : job.worker = worker)
    (hphase : job.phase = p) : Tracks strict (s.emit (.returned id worker p)) := by
  refine h.emit rfl (h.job_bound _ _ hjob) hno ?_
  rintro worker' p' ⟨⟩
  exact ⟨hidle, job, hjob, hphase, .inl hworker⟩

theorem mapJobs (f : Nat → MaintenanceJob → MaintenanceJob)
    (hf : ∀ id job, (f id job).id = job.id ∧ (f id job).key = job.key ∧
      (f id job).request = job.request ∧ (f id job).worker = job.worker ∧ (f id job).waiting = job.waiting)
    (hphase : ∀ id job, (f id job).phase = job.phase) :
    Tracks strict { s with jobs := fun id => (s.jobs id).map (f id) } := by
  refine h.frame (h.toWellFormed.mapJobs f hf) rfl rfl ?_
  rintro - id worker p - ⟨hidle, job, hjob, hp, hw⟩
  obtain ⟨-, -, -, hworker, hwait⟩ := hf id job
  have hmapped : (s.jobs id).map (f id) = some (f id job) := by rw [hjob]; rfl
  exact ⟨hidle, f id job, hmapped, (hphase id job).trans hp, by rwa [hworker, hwait]⟩

theorem addWaiter (id : Nat) : Tracks strict (s.addWaiter id) := by
  unfold SchedulerState.addWaiter
  split
  · exact h
  · rename_i job hjob
    obtain rfl := h.job_id id job hjob
    have hnumbered : Tracks strict { s with nextWaiterID := s.nextWaiterID + 1 } :=
      h.frame { h.toWellFormed with } rfl rfl fun _ _ _ _ _ hb => hb
    split <;> exact hnumbered.setJob _ job hjob rfl rfl (.inr rfl) .inl
      fun _ => .inr (.refl rfl rfl rfl)

theorem preemptRunning (id : Nat) : Tracks strict (s.preemptRunning id) := by
  unfold SchedulerState.preemptRunning
  split
  · exact h
  · refine h.mapJobs _ ?_ ?_
    · intro other running
      split <;> exact ⟨rfl, rfl, rfl, rfl, rfl⟩
    · intro other running
      split <;> rfl

theorem acceptSubmission (id : Nat) (waiter : Bool) : Tracks strict (s.acceptSubmission id waiter) := by
  refine dispatch (preemptRunning ?_ id)
  split
  · exact h.addWaiter id
  · exact h

/-- A cancellation that does not remove a job between two phases. -/
theorem cancel (id waiter : Nat)
    (hsafe : strict → s.closing = false → ∀ job, s.jobs id = some job →
      abandoned (withoutWaiter job waiter) = true → s.active id = none → job.waiting = false →
      job.phase.afterStart = false) : Tracks strict (s.cancel id waiter) := by
  unfold SchedulerState.cancel
  split
  · exact h
  · rename_i found hfound
    obtain rfl := h.job_id id found hfound
    dsimp only
    split
    · rename_i hgone
      simp only [Bool.and_eq_true, isNone_iff_eq_none, Bool.not_eq_true'] at hgone
      obtain ⟨⟨habandoned, hidle⟩, hwait⟩ := hgone
      have hno : strict → ∀ worker p, ¬ Owed s found.id worker p := fun hs worker p =>
        h.not_owed_of_phase hs hfound fun hc => hsafe hs hc found hfound habandoned hidle hwait
      have hdequeued : Tracks strict { s with pending := s.pending.erase found.id } :=
        h.frame (h.toWellFormed.dequeue found.id) rfl rfl fun _ _ _ _ _ hb => hb
      have hremoved : Tracks strict
          (({ s with pending := s.pending.erase found.id }).removeJob (withoutWaiter found waiter)) :=
        hdequeued.removeJob found hfound rfl hidle
          (fun hp => ((h.pending_nodup.mem_erase_iff).mp hp).1 rfl) hno
      exact hremoved.emit rfl (h.job_bound _ _ hfound) hno fun _ _ ho => by cases ho
    · exact h.setJob (withoutWaiter found waiter) found hfound rfl rfl (.inr rfl) .inl
        fun _ => .inr (.refl rfl rfl rfl)

end

end Tracks

/-- The state the done branch works in: the returned job is in hand and nothing is owed to it. -/
structure Settled (strict : Prop) (s : SchedulerState) (job : MaintenanceJob) : Prop where
  tracks : Tracks strict s
  hand : InHand s job
  live : s.jobs job.id = some job
  waiting : job.waiting = false
  clear : strict → ∀ worker p, ¬ Owed s job.id worker p

namespace Settled

/-- The bookkeeping at the top of the done branch. -/
theorem settle {run : MaintenanceWorker} (h : Tracks strict s) (hjob : s.jobs job.id = some job)
    (ha : s.active job.id = some run) (retain : MaintenanceResource) :
    Settled strict (s.settle job retain) { job with runningResources := 0, held := retain } := by
  obtain ⟨hwf, hand, hwait⟩ := h.toWellFormed.settle hjob ha retain
  refine ⟨?_, hand, update_self .., hwait, fun hs worker p => h.active_not_owed hs ha⟩
  refine h.frame hwf rfl rfl ?_
  intro hs id worker p howed hb
  have hid : id ≠ job.id := by
    rintro rfl
    exact h.active_not_owed hs ha howed
  exact hb.congr (update_of_ne hid ..) (update_of_ne hid ..)

section

variable (h : Settled strict s job)

include h

/-- Taking a serial number for a new worker. -/
theorem nextSerial : Settled strict { s with nextSerial := s.nextSerial + 1 } job where
  tracks := h.tracks.frame { h.tracks.toWellFormed with } rfl rfl fun _ _ _ _ _ hb => hb
  hand := ⟨h.hand.live, h.hand.idle, h.hand.unqueued, h.hand.untimed⟩
  live := h.live
  waiting := h.waiting
  clear := h.clear

/-- Queueing the job in hand under a new record. -/
theorem requeue (again : MaintenanceJob) (hid : again.id = job.id)
    (hkey : again.key = job.key) (hkind : again.request.kind = job.request.kind)
    (hwait : again.waiting = false) : Tracks strict (s.requeue again) := by
  refine h.tracks.requeue job ?_ hwait (hid ▸ h.live) fun hs => .inl (hid ▸ h.clear hs)
  exact ⟨⟨job, hid ▸ h.live, hkey.symm, hkind.symm⟩, hid ▸ h.hand.idle, hid ▸ h.hand.unqueued,
    hid ▸ h.hand.untimed⟩

theorem removeJob {gone : MaintenanceJob} (hid : gone.id = job.id)
    (hkey : gone.key = job.key) : Tracks strict (s.removeJob gone) :=
  h.tracks.removeJob job (hid ▸ h.live) hkey.symm (hid ▸ h.hand.idle) (hid ▸ h.hand.unqueued)
    (hid ▸ h.clear)

theorem restart (order : List Nat) : Tracks strict (s.restart job order) := by
  have hkind := h.tracks.job_kind _ _ h.live
  simp only [SchedulerState.restart, newMaintenanceWorker_of_kind hkind]
  have hqueued := h.nextSerial.requeue
    { job with preempted := false, worker := .built s.nextSerial job.request, phase := .start }
    rfl rfl rfl h.waiting
  exact hqueued.emit rfl (h.tracks.job_bound _ _ h.live) h.clear fun _ _ ho => by cases ho

/-- Answering the waiters and dependents leaves the job in hand. -/
theorem complete (err : Option MaintenanceError) (order : List Nat) :
    Settled strict ((s.complete job err order).emit (.ended job.id)) job := by
  have htracks := h.tracks.complete job err order
  have hleaves := (complete_leaves err h.tracks.toWellFormed job h.live h.waiting order).2
  have hlive := hleaves.jobs.trans h.live
  have hand := hleaves.inHand h.hand
  have hclear : strict → ∀ worker p, ¬ Owed (s.complete job err order) job.id worker p :=
    fun hs worker p howed => h.clear hs worker p (hleaves.owed.mp howed)
  refine ⟨htracks.emit rfl (htracks.job_bound _ _ hlive) hclear (fun _ _ ho => by cases ho),
    ⟨hand.live, hand.idle, hand.unqueued, hand.untimed⟩, hlive, h.waiting, ?_⟩
  rintro - worker p ⟨-, hlatest, -⟩
  have hended : latest (.ended job.id :: (s.complete job err order).trace) job.id =
      some (.ended job.id) := latest_cons_self rfl
  have hcontra := hended.symm.trans hlatest
  cases hcontra

theorem finish (order : List Nat) : Tracks strict (s.finish job err order) := by
  have hdone := h.complete err order
  have hkind := h.tracks.job_kind _ _ h.live
  have hmerged := mergeMaintenanceRequest_kind job.nextRequest hkind
  unfold SchedulerState.finish
  dsimp only
  split
  · rw [newMaintenanceWorker_of_kind (hmerged ▸ hkind)]
    exact hdone.nextSerial.requeue _ rfl rfl hmerged h.waiting
  · exact hdone.removeJob rfl rfl

/-- A plain transition: the phase that is now owed is in the record before it is queued or timed. -/
theorem advance (hworker : job.worker = worker) (next : MaintenancePhase)
    (retryAfter : Nat) : Tracks strict (s.advance job worker next retryAfter) := by
  have hset : Tracks strict (s.setJob { job with phase := next }) :=
    h.tracks.setJob { job with phase := next } job h.live rfl rfl (.inr rfl) .inl
      fun hs => .inl (h.clear hs)
  have hseen : Tracks strict ((s.setJob { job with phase := next }).emit (.returned job.id worker next)) :=
    hset.emitReturned (update_self ..) h.hand.idle h.clear hworker rfl
  unfold SchedulerState.advance
  split
  · have htimed := hseen.setJob { job with phase := next, sequence := s.sequence + 1 }
      { job with phase := next } (update_self ..) rfl rfl (.inr rfl) .inl
      fun _ => .inr (.refl rfl rfl rfl)
    have hwf := htimed.toWellFormed.armTimer job
      ⟨⟨_, update_self .., rfl, rfl⟩, h.hand.idle, h.hand.unqueued, h.hand.untimed⟩
      (update_self ..) h.waiting
    exact htimed.frame { hwf with } rfl rfl fun _ _ _ _ _ hb => hb
  · refine hseen.requeue { job with phase := next } ?_ h.waiting (update_self ..)
      fun _ => .inr (.refl rfl rfl rfl)
    exact ⟨⟨_, update_self .., rfl, rfl⟩, h.hand.idle, h.hand.unqueued, h.hand.untimed⟩

/-- A transition with a dependency that meets no job between two phases, the returning one included. -/
theorem awaitDependency {dependency : MaintenanceRequest} (hworker : job.worker = worker)
    (next : MaintenancePhase) {policy : RequestPolicy}
    (hpolicy : maintenanceRequestPolicy dependency = .ok policy)
    (hsafe : strict → s.closing = false →
      ∀ id found, policy.key.bind s.byKey = some id → id ≠ job.id → s.jobs id = some found →
        s.active id = none → found.phase.afterStart = false)
    (hself : strict → s.closing = false → policy.key.bind s.byKey = some job.id → next.afterStart = false)
    (order : List Nat) : Tracks strict (s.awaitDependency job worker next dependency order) := by
  have hset : Tracks strict (s.setJob { job with phase := next, waiting := true }) := by
    refine h.tracks.setJob { job with phase := next, waiting := true } job h.live rfl rfl (.inr rfl)
      (fun _ => .inr ?_) fun hs => .inl (h.clear hs)
    exact ⟨h.hand.live, h.hand.idle, h.hand.unqueued, h.hand.untimed⟩
  have hseen : Tracks strict
      ((s.setJob { job with phase := next, waiting := true }).emit (.returned job.id worker next)) :=
    hset.emitReturned (update_self ..) h.hand.idle h.clear hworker rfl
  obtain ⟨⟨queued, id⟩, hok⟩ := hseen.toWellFormed.enqueue_total hpolicy job.id
  simp only [SchedulerState.awaitDependency, hok]
  refine hseen.enqueue ?_ hok
  intro hs hc policy' id found hpolicy' hkey hfound hidle
  obtain rfl : policy = policy' := Except.ok.inj (hpolicy.symm.trans hpolicy')
  simp only [emit, setJob, update_apply] at hfound
  split at hfound
  · rename_i hid
    subst hid
    cases hfound
    exact hself hs hc hkey
  · rename_i hid
    exact hsafe hs hc id found hkey hid hfound hidle

end

end Settled

/-! ## Safe events -/

/-- **The events that keep phase continuity.**  A tick, a submission or a dependency does not meet an
idle job of its key between two phases, and a cancellation does not remove one.  (The Store's own
workers only depend on checkpoints, whose jobs are never past `start`.) -/
def PhaseSafe (s : SchedulerState) (e : SchedulerEvent) : Prop :=
  s.closing = false → match e with
  | .checkpointTick => Untouched s periodicCheckpoint
  | .maintenanceTick =>
    (s.automaticPolicy.disableSegmentGC = false → Untouched s automaticSegment) ∧
      (s.automaticPolicy.disableMappingGC = false → Untouched s automaticMapping)
  | .submit request waiter => Untouched s (if waiter then request else { request with background := true })
  | .cancel id waiter =>
    ∀ job, s.jobs id = some job → abandoned (withoutWaiter job waiter) = true → s.active id = none →
      job.waiting = false → job.phase.afterStart = false
  | .done id chosen _ =>
    ∀ worker job dependency, s.active id = some worker → s.jobs id = some job →
      (accepted job (worker.run chosen)).dependency = some dependency →
      Untouched s dependency ∧
        ∀ policy, maintenanceRequestPolicy dependency = .ok policy → policy.key.bind s.byKey = some id →
          (accepted job (worker.run chosen)).next.afterStart = false
  | _ => True

/-- A dependency that the actor accepts has a policy. -/
theorem accepted_dependency {dependency : MaintenanceRequest} {returned : MaintenanceTransition}
    (hdep : (accepted job returned).dependency = some dependency) :
    ∃ policy, maintenanceRequestPolicy dependency = .ok policy := by
  unfold accepted at hdep
  split at hdep
  · cases hdep
  · rename_i hvalid
    simp only [validateMaintenanceTransition, hdep] at hvalid
    cases hp : maintenanceRequestPolicy dependency with
    | ok policy => exact ⟨policy, rfl⟩
    | error e =>
      grind

/-- **The done branch** keeps the invariant at a safe event. -/
theorem Tracks.handleDone (h : Tracks strict s) {chosen : MaintenanceTransition} {order : List Nat}
    (hjob : s.jobs id = some job) (ha : s.active id = some worker)
    (hsafe : strict → PhaseSafe s (.done id chosen order)) :
    Tracks strict (s.handleDone job worker chosen order) := by
  obtain rfl := h.job_id id job hjob
  obtain ⟨found, hfound, hworker, -⟩ := h.active_job _ _ ha
  obtain rfl := mem_unique hjob hfound
  have hsettled := Settled.settle h hjob ha (accepted job (worker.run chosen)).retain
  unfold handleDone
  dsimp only
  split
  · exact hsettled.restart order
  split
  · exact hsettled.finish order
  split
  · rename_i dependency hdep
    obtain ⟨policy, hpolicy⟩ := accepted_dependency hdep
    refine hsettled.awaitDependency hworker _ hpolicy ?_ ?_ order
    · intro hs hc id found hkey hid hfound hidle
      refine (hsafe hs hc worker job dependency ha hjob hdep).1 policy id found hpolicy hkey ?_ ?_
      · exact (update_of_ne hid ..).symm.trans hfound
      · exact (update_of_ne hid ..).symm.trans hidle
    · intro hs hc hkey
      exact (hsafe hs hc worker job dependency ha hjob hdep).2 policy hpolicy hkey
  · exact hsettled.advance hworker _ _

theorem Tracks.enqueueTick (h : Tracks strict s) (hsafe : strict → s.closing = false → Untouched s request) :
    Tracks strict (s.enqueueTick request) := by
  unfold SchedulerState.enqueueTick
  split
  · exact h
  · rename_i next id hok
    exact h.enqueue hsafe hok

theorem WellFormed.enqueueTick_closing (h : WellFormed s) : (s.enqueueTick request).closing = s.closing := by
  unfold enqueueTick
  split
  · rfl
  · rename_i next id hok
    cases hp : maintenanceRequestPolicy request with
    | error e => simp [enqueue, hp] at hok
    | ok policy => exact (h.enqueue_shape hp hok).2.1

/-- A request leaves the jobs of every other key alone. -/
theorem Untouched.of_enqueueTick {other : MaintenanceRequest} {policy otherPolicy : RequestPolicy}
    (hwf : WellFormed s) (hp : maintenanceRequestPolicy request = .ok policy)
    (ho : maintenanceRequestPolicy other = .ok otherPolicy) (hkeys : policy.key ≠ otherPolicy.key)
    (h : Untouched s other) : Untouched (s.enqueueTick request) other := by
  unfold enqueueTick
  split
  · exact h
  rename_i next changed hok
  intro policy' id job hpolicy' hkey hjob hidle
  obtain rfl : otherPolicy = policy' := Except.ok.inj (ho.symm.trans hpolicy')
  obtain ⟨hactive, -, hjobs, hcases⟩ := hwf.enqueue_shape hp hok
  obtain ⟨k, hk, hid⟩ := bind_eq_some_iff.mp hkey
  -- The other key still names the job it named, and that job is not the one `enqueue` changed.
  have hbefore : s.byKey k = some id ∧ id ≠ changed := by
    rcases hcases with ⟨hchanged, hbk⟩ | ⟨rfl, hbk⟩
    · rw [hbk] at hid
      refine ⟨hid, ?_⟩
      rintro rfl
      obtain ⟨k', hk', hid'⟩ := bind_eq_some_iff.mp hchanged
      obtain ⟨found, hfound, hfkey⟩ := hwf.key_live k id hid
      obtain ⟨found', hfound', hfkey'⟩ := hwf.key_live k' id hid'
      obtain rfl := mem_unique hfound hfound'
      exact hkeys (hk'.trans (hfkey'.symm.trans (hfkey.trans hk.symm)))
    · rw [hbk] at hid
      rcases bindKey_eq_some hid with ⟨hsame, -⟩ | hid
      · exact absurd (hsame.trans hk.symm) hkeys
      · refine ⟨hid, ?_⟩
        rintro rfl
        obtain ⟨found, hfound, -⟩ := hwf.key_live k _ hid
        rw [(hwf.fresh (Nat.lt_succ_self s.nextJobID)).1] at hfound
        cases hfound
  refine h otherPolicy id job ho (by rw [hk]; exact hbefore.1) ?_ (hactive ▸ hidle)
  exact (hjobs id hbefore.2).symm.trans hjob

theorem Tracks.fireTimer (h : Tracks strict s) (id : Nat) :
    Tracks strict { s with retryTimers := s.retryTimers.erase id } :=
  h.frame (h.toWellFormed.fireTimer id) rfl rfl fun _ _ _ _ _ hb => hb

/-- A fired timer queues its job with the phase and worker it has. -/
theorem Tracks.retry (h : Tracks strict s) (hid : id ∈ s.retryTimers) (hjob : s.jobs id = some job) :
    Tracks strict (({ s with retryTimers := s.retryTimers.erase id }).requeue job) := by
  obtain rfl := h.job_id id job hjob
  obtain ⟨hidle, hbound, hwait⟩ := h.timer_idle _ hid
  refine (h.fireTimer job.id).requeue job ⟨⟨job, hjob, rfl, rfl⟩, hidle, ?_, ?_⟩ (hwait job hjob) hjob
    fun _ => .inr (.refl rfl rfl rfl)
  · exact fun hp => (h.pending_idle _ hp).2.1 hid
  · exact fun ht => ((h.timers_nodup.mem_erase_iff).mp ht).1 rfl

/-- After shutdown nothing is owed. -/
theorem Tracks.shutdown (h : Tracks strict s) : Tracks strict s.shutdown := by
  refine ⟨h.toWellFormed.shutdown, fun _ => mem_cons_self, fun hs => ?_, ?_⟩
  · exact (h.continuity hs).cons fun _ id _ _ hid => by cases hid
  · rintro - id worker p ⟨hc, -⟩
    cases hc

/-- The two requests of the maintenance tick have different keys, so the first does not disturb the
second one's job. -/
theorem Tracks.maintenanceTick (h : Tracks strict s) (hsafe : strict → PhaseSafe s .maintenanceTick) :
    let segment := if s.automaticPolicy.disableSegmentGC then s else s.enqueueTick automaticSegment
    Tracks strict (if s.automaticPolicy.disableMappingGC then segment
      else segment.enqueueTick automaticMapping) := by
  intro segment
  have hsegment : Tracks strict segment := by
    by_cases hd : s.automaticPolicy.disableSegmentGC = true
    · simpa only [segment, hd, if_true] using h
    · simp only [segment, hd]
      exact h.enqueueTick fun hs hc => (hsafe hs hc).1 (by simpa using hd)
  split
  · exact hsegment
  rename_i hmapping
  refine hsegment.enqueueTick fun hs hc => ?_
  have hmapping : s.automaticPolicy.disableMappingGC = false := by simpa using hmapping
  by_cases hd : s.automaticPolicy.disableSegmentGC = true
  · simp only [segment, hd, if_true] at hc ⊢
    exact (hsafe hs hc).2 hmapping
  · simp only [segment, hd] at hc ⊢
    have hopen : s.closing = false := h.toWellFormed.enqueueTick_closing.symm.trans hc
    exact ((hsafe hs hopen).2 hmapping).of_enqueueTick h.toWellFormed rfl rfl (by decide)

/-! ## Every run -/

/-- **One event.**  The tables stay well formed at every event; at a safe one no owed phase is lost. -/
theorem Tracks.step {e : SchedulerEvent} (h : Tracks strict s) (hsafe : strict → PhaseSafe s e)
    (hstep : scheduler.step s e = some s') : Tracks strict s' := by
  simp only [scheduler] at hstep
  split at hstep
  · cases hstep
  cases e with simp only [handle] at hstep
  | configure maintenance =>
    split at hstep <;> cases hstep
    · exact h
    · exact h.frame { h.toWellFormed with } rfl rfl fun _ _ _ _ _ hb => hb
  | checkpointTick =>
    split at hstep <;> cases hstep
    exact (h.enqueueTick hsafe).dispatch
  | maintenanceTick =>
    split at hstep <;> cases hstep
    exact (h.maintenanceTick hsafe).dispatch
  | submit request waiter =>
    split at hstep
    · cases hstep
      exact h
    · split at hstep <;> cases hstep
      · exact h.dispatch
      · rename_i queued id hok
        exact (h.enqueue hsafe hok).acceptSubmission id waiter
  | cancel job waiter =>
    cases hstep
    exact h.cancel job waiter hsafe
  | done =>
    split at hstep
    · rename_i worker job ha hjob
      split at hstep <;> cases hstep
      exact (h.handleDone hjob ha hsafe).dispatch
    · cases hstep
      exact h
  | retry id =>
    split at hstep
    · rename_i hid
      split at hstep
      · cases hstep
        exact h.fireTimer id
      · rename_i job hjob
        split at hstep <;> cases hstep
        · exact (h.retry hid hjob).dispatch
        · exact h.fireTimer id
    · cases hstep
  | shutdown =>
    split at hstep <;> cases hstep
    exact h.shutdown

theorem tracks_initial : Tracks strict ({} : SchedulerState) where
  job_id _ _ h := by cases h
  job_bound _ _ h := by cases h
  job_pos _ _ h := by cases h
  job_kind _ _ h := by cases h
  key_live _ _ h := by cases h
  pending_nodup := nodup_nil
  pending_idle _ h := by cases h
  timers_nodup := nodup_nil
  timer_idle _ h := by cases h
  active_job _ _ h := by cases h
  trace_bound _ h := by cases h
  closed h := by cases h
  continuity _ := .nil
  kept _ _ _ _ h := by cases h.2.1

/-- **Phase continuity holds in every run of safe events.**  The next thing observed of a job whose
worker asked for a phase after `start` is a run of that worker at that phase. -/
theorem phaseContinuity_of_safe_run (h : scheduler.Reach PhaseSafe s) : PhaseContinuity s.trace := by
  refine (Lib.Machine.Reach.invariant (Tracks True) ?_ ?_ h).continuity trivial
  · rintro s rfl
    exact tracks_initial
  · exact fun s e s' hs hok hstep => hs.step (fun _ => hok) hstep

/-- A compaction's publish phase follows its copy in a safe run. -/
theorem phaseContinuity_compaction : ∃ s, scheduler.Reach PhaseSafe s ∧ PhaseContinuity s.trace ∧
    latest s.trace 1 = some (.ran 1 (.built 1 { kind := .segmentCompact, source := 7 }) .publish) := by
  have hsubmit : PhaseSafe {} (.submit { kind := .segmentCompact, source := 7 } true) := by
    intro _ policy id job hp hk
    cases hp
    cases hk
  have hcopied : ∀ s, PhaseSafe s
      (.done 1 { next := .publish, retain := maintenanceRecoveryProtocol } []) := by
    intro s _ worker job dependency _ _ hd
    -- Neither the transition, nor its replacement by a failure, nor the wrapper has a dependency.
    unfold accepted at hd
    split at hd
    · cases hd
    · cases worker <;> cases hd
  have hrun := Lib.Machine.Reach.next (M := scheduler) (.next (.start rfl) hsubmit rfl) (hcopied _) rfl
  exact ⟨_, hrun, phaseContinuity_of_safe_run hrun, rfl⟩

/-- The checkpoint a compaction waits for between its publish and its proof. -/
def proofCheckpoint : MaintenanceRequest := { kind := .checkpoint, force := true, gcAdmission := true }

/-- A tick that meets the automatic segment job while it waits for its checkpoint. -/
def tickDuringCheckpoint : List SchedulerEvent :=
  [.configure ⟨true, false, true⟩, .maintenanceTick,
    .done 1 { next := .prove, retain := maintenanceRecoveryProtocol, dependency := some proofCheckpoint } [],
    .maintenanceTick, .done 2 { done := true } [1]]

/-- **Coalescing loses the worker.**  The tick rebuilds the waiting job's worker, and the proof phase
runs on an instance that has copied nothing. -/
theorem coalescing_replaces_worker :
    ∃ s, scheduler.exec ({} : SchedulerState) tickDuringCheckpoint = some s ∧ ¬ PhaseContinuity s.trace := by
  refine ⟨_, rfl, ?_⟩
  change ¬ PhaseContinuity
    [.ran 1 (.built 4 automaticSegment) .prove, .ended 2, .ran 2 (.built 3 proofCheckpoint) .start,
      .returned 1 (.built 1 automaticSegment) .prove, .ran 1 (.built 1 automaticSegment) .start]
  intro h
  obtain ⟨run, hrun, hdelivers⟩ := h [] _ _ 1 (.built 1 automaticSegment) .prove rfl (by simp) rfl rfl rfl
  cases hrun
  rcases hdelivers with hsame | ⟨err, hwrapped⟩
  · cases hsame
  · cases hwrapped

-- A cancelled waiter drops a compaction whose retirement is queued behind a survey's reads.
example : ∃ s, scheduler.exec ({} : SchedulerState)
    [.submit { kind := .segmentCompact } true, .submit { kind := .mappingSurvey } true,
      .done 1 { next := .prove, retain := maintenanceRecoveryProtocol, dependency := some proofCheckpoint } [],
      .done 3 { done := true } [1], .done 1 { next := .retire, retain := maintenanceRecoveryProtocol } [],
      .cancel 1 1] = some s ∧
    s.jobs 1 = none ∧ latest s.trace 1 = some (.dropped 1) ∧
      latest s.trace.tail 1 = some (.returned 1 (.built 1 { kind := .segmentCompact }) .retire) :=
  ⟨_, rfl, rfl, rfl, rfl⟩

end Ridstore.Engine
