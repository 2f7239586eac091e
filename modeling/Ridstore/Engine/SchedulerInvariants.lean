import Ridstore.Engine.MaintenanceScheduler

/-
# Ridstore.Engine.SchedulerInvariants — where a job can be

The actor keeps a job in at most one place: queued, waiting for a timer, running, or waiting for a
dependency.  `WellFormed` states this together with the agreement of the id tables, and every
operation of the event loop keeps it.  It is what makes the ids of this model stand for the
pointers of the source: a queued or keyed job is always a live one.
-/

namespace Ridstore.Engine

open SchedulerState List Function Option

variable {s : SchedulerState} {job old : MaintenanceJob} {o : Observation} {err : Option MaintenanceError}
  {byKey : MaintenanceKey → Option Nat}

/-- The tables of the actor agree and a job is in at most one place. -/
structure WellFormed (s : SchedulerState) : Prop where
  job_id : ∀ id job, s.jobs id = some job → job.id = id
  job_bound : ∀ id job, s.jobs id = some job → id ≤ s.nextJobID
  job_pos : ∀ id job, s.jobs id = some job → 0 < id
  job_kind : ∀ id job, s.jobs id = some job → job.request.kind ≠ .unset
  key_live : ∀ key id, s.byKey key = some id → ∃ job, s.jobs id = some job ∧ job.key = some key
  pending_nodup : s.pending.Nodup
  pending_idle : ∀ id ∈ s.pending, s.active id = none ∧ id ∉ s.retryTimers ∧
    ∃ job, s.jobs id = some job ∧ job.waiting = false
  timers_nodup : s.retryTimers.Nodup
  timer_idle : ∀ id ∈ s.retryTimers, s.active id = none ∧ id ≤ s.nextJobID ∧
    ∀ job, s.jobs id = some job → job.waiting = false
  active_job : ∀ id worker, s.active id = some worker →
    ∃ job, s.jobs id = some job ∧ job.worker = worker ∧ job.waiting = false
  trace_bound : ∀ o ∈ s.trace, ∀ id, o.job = some id → id ≤ s.nextJobID

/-- A live job that is in none of the places: the actor is working on it. -/
structure InHand (s : SchedulerState) (job : MaintenanceJob) : Prop where
  live : ∃ old, s.jobs job.id = some old ∧ old.key = job.key ∧ old.request.kind = job.request.kind
  idle : s.active job.id = none
  unqueued : job.id ∉ s.pending
  untimed : job.id ∉ s.retryTimers

variable {key : Option MaintenanceKey} {k : MaintenanceKey}

theorem bindKey_eq_some {id id' : Nat} (h : bindKey byKey key id k = some id') :
    (key = some k ∧ id' = id) ∨ byKey k = some id' := by
  unfold bindKey at h
  split at h
  · exact .inl ⟨‹_›, (Option.some.inj h).symm⟩
  · exact .inr h

theorem releaseKey_eq_some {id id' : Nat} (h : releaseKey byKey key id k = some id') :
    byKey k = some id' ∧ (key = some k → id' ≠ id) := by
  unfold releaseKey at h
  split at h
  · cases h
  · rename_i hne
    exact ⟨h, fun hk he => hne ⟨hk, he ▸ h⟩⟩

namespace WellFormed

variable {id : Nat}

section

variable (h : WellFormed s)

include h

variable {worker : MaintenanceWorker}

/-- A running job is in no other place. -/
theorem active_unqueued (ha : s.active id = some worker) : id ∉ s.pending ∧ id ∉ s.retryTimers := by
  constructor
  · intro hp
    have hidle := (h.pending_idle id hp).1
    rw [ha] at hidle
    cases hidle
  · intro ht
    have hidle := (h.timer_idle id ht).1
    rw [ha] at hidle
    cases hidle

/-- A job that waits for a dependency is in no other place. -/
theorem waiting_inHand (hjob : s.jobs id = some old) (hwait : old.waiting = true) (hid : job.id = id)
    (hkey : job.key = old.key) (hkind : job.request.kind = old.request.kind) : InHand s job := by
  subst hid
  refine ⟨⟨old, hjob, hkey.symm, hkind.symm⟩, ?_, ?_, ?_⟩
  · cases ha : s.active job.id with
    | none => rfl
    | some worker =>
      obtain ⟨found, hfound, -, hnot⟩ := h.active_job _ _ ha
      grind
  · intro hp
    obtain ⟨-, -, found, hfound, hnot⟩ := h.pending_idle _ hp
    grind
  · intro ht
    have hnot := (h.timer_idle _ ht).2.2 old hjob
    grind

theorem emit (ho : ∀ id, o.job = some id → id ≤ s.nextJobID) : WellFormed (s.emit o) := by
  refine { h with trace_bound := ?_ }
  intro o' ho' id hid
  rcases mem_cons.mp ho' with rfl | hmem
  · exact ho id hid
  · exact h.trace_bound o' hmem id hid

theorem finishWaiters (id : Nat) (waiters : List Nat) :
    WellFormed (s.finishWaiters id waiters err) := { h with }

/-- Rewriting a job's record: its key stays, a running job keeps its worker, and it starts to wait only
when it is in hand. -/
theorem setJob (job old : MaintenanceJob) (hold : s.jobs job.id = some old) (hkey : job.key = old.key)
    (hkind : job.request.kind = old.request.kind) (hworker : s.active job.id = none ∨ job.worker = old.worker)
    (hwait : job.waiting = true → old.waiting = true ∨ InHand s job) : WellFormed (s.setJob job) := by
  refine { h with job_id := ?job_id, job_bound := ?job_bound, job_pos := ?job_pos, job_kind := ?job_kind,
                  key_live := ?key_live,
                  pending_idle := ?pending_idle, timer_idle := ?timer_idle, active_job := ?active_job } <;>
    simp only [SchedulerState.setJob, update_apply]
  case job_id => grind [h.job_id]
  case job_bound =>
    have hbound := h.job_bound
    grind
  case job_pos =>
    have hpos := h.job_pos
    grind
  case job_kind => grind [h.job_kind]
  case key_live => grind [h.key_live]
  case pending_idle => grind [h.pending_idle, InHand]
  case timer_idle => grind [h.timer_idle, InHand]
  case active_job => grind [h.active_job, InHand]

/-- Queueing a job that is in hand. -/
theorem requeue (hand : InHand s job) (hwait : job.waiting = false) : WellFormed (s.requeue job) := by
  obtain ⟨⟨old, hold, hkey, hkind⟩, hidle, hp, ht⟩ := hand
  have hset : WellFormed (s.setJob { job with sequence := s.sequence + 1 }) :=
    h.setJob { job with sequence := s.sequence + 1 } old hold hkey.symm hkind.symm (.inl hidle)
      fun hw => absurd hw (by simp [hwait])
  refine { hset with pending_nodup := ?pending_nodup, pending_idle := ?pending_idle }
  case pending_nodup => exact Lib.nodup_snoc h.pending_nodup hp
  case pending_idle =>
    intro id hid
    rcases Lib.mem_snoc.mp hid with hid | rfl
    · exact hset.pending_idle id hid
    · exact ⟨hidle, ht, { job with sequence := s.sequence + 1 }, update_self .., hwait⟩

/-- Arming the retry timer of a job in hand. -/
theorem armTimer (job : MaintenanceJob) (hand : InHand s job) (hjob : s.jobs job.id = some old)
    (hwait : old.waiting = false) : WellFormed { s with retryTimers := s.retryTimers ++ [job.id] } := by
  have hbound := h.job_bound _ _ hjob
  refine { h with pending_idle := ?pending_idle, timers_nodup := ?timers_nodup, timer_idle := ?timer_idle }
  case pending_idle =>
    intro id hid
    obtain ⟨hidle, ht, hlive⟩ := h.pending_idle id hid
    have hne : id ≠ job.id := by
      rintro rfl
      exact hand.unqueued hid
    exact ⟨hidle, by simp [ht, hne], hlive⟩
  case timers_nodup => exact Lib.nodup_snoc h.timers_nodup hand.untimed
  case timer_idle =>
    intro id hid
    rcases Lib.mem_snoc.mp hid with hid | rfl
    · exact h.timer_idle id hid
    · refine ⟨hand.idle, hbound, fun found hfound => ?_⟩
      obtain rfl := mem_unique hjob hfound
      exact hwait

/-- Removing a job that neither runs nor is queued; a timer of it may still fire and then finds nothing. -/
theorem removeJob (hold : s.jobs job.id = some old) (hkey : old.key = job.key)
    (hidle : s.active job.id = none) (hp : job.id ∉ s.pending) : WellFormed (s.removeJob job) := by
  refine { h with job_id := ?job_id, job_bound := ?job_bound, job_pos := ?job_pos, job_kind := ?job_kind,
                  key_live := ?key_live,
                  pending_idle := ?pending_idle, timer_idle := ?timer_idle, active_job := ?active_job } <;>
    simp only [SchedulerState.removeJob, update_apply]
  case job_id => grind [h.job_id]
  case job_bound =>
    have hbound := h.job_bound
    grind
  case job_pos =>
    have hpos := h.job_pos
    grind
  case job_kind => grind [h.job_kind]
  case key_live =>
    intro key id hk
    obtain ⟨hk, hne⟩ := releaseKey_eq_some hk
    obtain ⟨found, hfound, hfkey⟩ := h.key_live key id hk
    have hid : id ≠ job.id := by
      rintro rfl
      grind
    exact ⟨found, by rw [if_neg hid, hfound], hfkey⟩
  case pending_idle => grind [h.pending_idle]
  case timer_idle => grind [h.timer_idle]
  case active_job => grind [h.active_job]

/-- Starting a queued job. -/
theorem launch (hjob : s.jobs job.id = some job) (hp : job.id ∈ s.pending) : WellFormed (s.launch job) := by
  obtain ⟨hidle, ht, found, hfound, hwait⟩ := h.pending_idle _ hp
  obtain rfl := mem_unique hjob hfound
  refine emit ?_ (by rintro id ⟨⟩; exact h.job_bound _ _ hjob)
  have herase : ∀ id ∈ s.pending.erase job.id, id ≠ job.id ∧ id ∈ s.pending := fun id hid =>
    (h.pending_nodup.mem_erase_iff).mp hid
  refine { h with job_id := ?job_id, job_bound := ?job_bound, job_pos := ?job_pos, job_kind := ?job_kind,
                  key_live := ?key_live,
                  pending_nodup := h.pending_nodup.erase _, pending_idle := ?pending_idle, timer_idle := ?timer_idle, active_job := ?active_job } <;>
    simp only [update_apply]
  case job_id => grind [h.job_id]
  case job_bound =>
    have hbound := h.job_bound
    grind
  case job_pos =>
    have hpos := h.job_pos
    grind
  case job_kind => grind [h.job_kind]
  case key_live => grind [h.key_live]
  case pending_idle => grind [h.pending_idle]
  case timer_idle => grind [h.timer_idle]
  case active_job => grind [h.active_job]

/-- No table mentions an id that has not been given out. -/
theorem fresh (hid : s.nextJobID < id) :
    s.jobs id = none ∧ s.active id = none ∧ id ∉ s.pending ∧ id ∉ s.retryTimers := by
  have hjobs : s.jobs id = none := by
    cases hj : s.jobs id with
    | none => rfl
    | some job => exact absurd (h.job_bound id job hj) (by omega)
  refine ⟨hjobs, ?_, ?_, ?_⟩
  · cases ha : s.active id with
    | none => rfl
    | some worker =>
      obtain ⟨job, hj, -⟩ := h.active_job id worker ha
      rw [hjobs] at hj
      cases hj
  · intro hp
    obtain ⟨-, -, job, hj, -⟩ := h.pending_idle id hp
    rw [hjobs] at hj
    cases hj
  · intro ht
    have hbound := (h.timer_idle id ht).2.1
    omega

/-- A created job takes a fresh id and is queued under its key. -/
theorem createJob (request : MaintenanceRequest) (policy : RequestPolicy) (worker : MaintenanceWorker)
    (hkind : request.kind ≠ .unset) : WellFormed (s.createJob request policy worker).1 := by
  obtain ⟨hjobs, hidle, hp, ht⟩ := h.fresh (Nat.lt_succ_self s.nextJobID)
  refine { job_id := ?job_id, job_bound := ?job_bound, job_pos := ?job_pos, job_kind := ?job_kind,
                  key_live := ?key_live,
           pending_nodup := ?pending_nodup, pending_idle := ?pending_idle, timers_nodup := h.timers_nodup,
           timer_idle := ?timer_idle, active_job := ?active_job, trace_bound := ?trace_bound } <;>
    simp only [SchedulerState.createJob, SchedulerState.setJob, update_apply]
  case job_id => grind [h.job_id]
  case job_bound =>
    have hbound := h.job_bound
    grind
  case job_pos =>
    have hpos := h.job_pos
    grind
  case job_kind => grind [h.job_kind]
  case key_live =>
    intro key id hk
    rcases bindKey_eq_some hk with ⟨hkey, rfl⟩ | hk
    · exact ⟨_, if_pos rfl, hkey⟩
    · obtain ⟨found, hfound, hfkey⟩ := h.key_live key id hk
      have hne : id ≠ s.nextJobID + 1 := by
        rintro rfl
        simp [hjobs] at hfound
      exact ⟨found, by rw [if_neg hne, hfound], hfkey⟩
  case pending_nodup => exact Lib.nodup_snoc h.pending_nodup hp
  case pending_idle =>
    intro id hid
    rcases Lib.mem_snoc.mp hid with hid | rfl
    · have hpending := h.pending_idle id hid
      grind
    · exact ⟨hidle, ht, _, if_pos rfl, rfl⟩
  case timer_idle => grind [h.timer_idle]
  case active_job => grind [h.active_job]
  case trace_bound => exact fun o ho id hid => Nat.le_succ_of_le (h.trace_bound o ho id hid)

/-- Rewriting every record in a field that no table looks at. -/
theorem mapJobs (f : Nat → MaintenanceJob → MaintenanceJob)
    (hf : ∀ id job, (f id job).id = job.id ∧ (f id job).key = job.key ∧
      (f id job).request = job.request ∧ (f id job).worker = job.worker ∧ (f id job).waiting = job.waiting) :
    WellFormed { s with jobs := fun id => (s.jobs id).map (f id) } := by
  have hback : ∀ id job, (s.jobs id).map (f id) = some job →
      ∃ found, s.jobs id = some found ∧ f id found = job := fun id job => map_eq_some_iff.mp
  have hforth : ∀ id found, s.jobs id = some found → (s.jobs id).map (f id) = some (f id found) :=
    fun id found hfound => by rw [hfound]; rfl
  refine { h with job_id := ?job_id, job_bound := ?job_bound, job_pos := ?job_pos, job_kind := ?job_kind,
                  key_live := ?key_live, pending_idle := ?pending_idle, timer_idle := ?timer_idle,
                  active_job := ?active_job }
  case job_id => grind [h.job_id]
  case job_bound =>
    have hbound := h.job_bound
    grind
  case job_pos =>
    have hpos := h.job_pos
    grind
  case job_kind => grind [h.job_kind]
  case key_live => grind [h.key_live]
  case pending_idle => grind [h.pending_idle]
  case timer_idle => grind [h.timer_idle]
  case active_job => grind [h.active_job]

variable {request : MaintenanceRequest} {policy : RequestPolicy}

/-- In a well-formed state `enqueue` accepts every request that has a policy. -/
theorem enqueue_total (hp : maintenanceRequestPolicy request = .ok policy) (dependent : Nat) :
    ∃ r, s.enqueue request dependent = .ok r := by
  have hbuild : ∀ (state : SchedulerState) (job : MaintenanceJob), job.request.kind ≠ .unset →
      ∃ next, state.rebuildAndAttach job request dependent = .ok next := by
    intro state job hkind
    have hmerged := (mergeMaintenanceRequest_kind request hkind).symm ▸ hkind
    simp only [rebuildAndAttach, newMaintenanceWorker_of_kind hmerged]
    exact ⟨_, rfl⟩
  have hkind := maintenanceRequestPolicy_kind hp
  simp only [enqueue, hp]
  split
  · rename_i job hfound
    obtain ⟨key, -, hlive⟩ := bind_eq_some_iff.mp hfound
    split
    · split <;> exact ⟨_, rfl⟩
    · obtain ⟨next, hnext⟩ := hbuild s job (h.job_kind key job hlive)
      exact ⟨(next, job.id), by rw [hnext]; rfl⟩
  · rw [newMaintenanceWorker_of_kind hkind]
    obtain ⟨next, hnext⟩ := hbuild (s.createJob request policy (.built s.nextSerial request)).1
      (s.createJob request policy (.built s.nextSerial request)).2 hkind
    exact ⟨(next, s.nextJobID + 1), by simp only [hnext]; rfl⟩

/-- What `enqueue` can change: the record of the one job it returns, which is the live job of the
request's key or a fresh one, and the entry of that key. -/
theorem enqueue_shape {s' : SchedulerState} {dependent id : Nat} (hp : maintenanceRequestPolicy request = .ok policy)
    (hok : s.enqueue request dependent = .ok (s', id)) :
    s'.active = s.active ∧ s'.closing = s.closing ∧ (∀ other, other ≠ id → s'.jobs other = s.jobs other) ∧
      (policy.key.bind s.byKey = some id ∧ s'.byKey = s.byKey ∨
        id = s.nextJobID + 1 ∧ s'.byKey = bindKey s.byKey policy.key id) := by
  simp only [enqueue, hp, rebuildAndAttach] at hok
  split at hok
  · rename_i job hfound
    obtain ⟨key, hkey, hlive⟩ := bind_eq_some_iff.mp hfound
    obtain rfl := h.job_id key job hlive
    have hne : ∀ (value : Option MaintenanceJob) (other : Nat), other ≠ job.id →
        update s.jobs job.id value other = s.jobs other :=
      fun value other hother => update_of_ne hother ..
    split at hok
    · split at hok <;> cases hok <;> exact ⟨rfl, rfl, hne _, .inl ⟨hkey, rfl⟩⟩
    · split at hok
      · cases hok
      · cases hok
        exact ⟨rfl, rfl, hne _, .inl ⟨hkey, rfl⟩⟩
  · split at hok
    · cases hok
    · split at hok
      · cases hok
      · cases hok
        refine ⟨rfl, rfl, fun other hother => ?_, .inr ⟨rfl, rfl⟩⟩
        exact (update_of_ne hother ..).trans (update_of_ne hother ..)

/-- The top of the done branch puts the job in hand. -/
theorem settle (hjob : s.jobs job.id = some job) (ha : s.active job.id = some worker) (retain : MaintenanceResource) :
    WellFormed (s.settle job retain) ∧
      InHand (s.settle job retain) { job with runningResources := 0, held := retain } ∧ job.waiting = false := by
  obtain ⟨hp, ht⟩ := h.active_unqueued ha
  obtain ⟨found, hfound, -, hwait⟩ := h.active_job _ _ ha
  obtain rfl := mem_unique hjob hfound
  refine ⟨?_, ⟨⟨_, update_self .., rfl, rfl⟩, update_self .., hp, ht⟩, hwait⟩
  refine setJob ?_ _ job hjob rfl rfl (.inl (update_self ..)) .inl
  refine { h with pending_idle := ?pending_idle, timer_idle := ?timer_idle, active_job := ?active_job } <;>
    simp only [update_apply]
  case pending_idle => grind [h.pending_idle]
  case timer_idle => grind [h.timer_idle]
  case active_job => grind [h.active_job]

/-- Replacing a record by one with the same key, kind, worker and waiting flag. -/
theorem rewrite (job old : MaintenanceJob) (hold : s.jobs job.id = some old)
    (hkey : job.key = old.key) (hkind : job.request.kind = old.request.kind)
    (hworker : job.worker = old.worker) (hwait : job.waiting = old.waiting) : WellFormed (s.setJob job) :=
  h.setJob job old hold hkey hkind (.inr hworker) fun hw => .inl (hwait ▸ hw)

/-- Taking a serial number changes no table. -/
theorem serial (n : Nat) : WellFormed { s with nextSerial := n } := { h with }

theorem addWaiter (id : Nat) : WellFormed (s.addWaiter id) := by
  unfold SchedulerState.addWaiter
  split
  · exact h
  · rename_i found hfound
    obtain rfl := h.job_id id found hfound
    have hnumbered : WellFormed { s with nextWaiterID := s.nextWaiterID + 1 } := { h with }
    split
    · exact hnumbered.rewrite _ found hfound rfl rfl rfl rfl
    · exact hnumbered.rewrite _ found hfound rfl rfl rfl rfl

theorem preemptRunning (id : Nat) : WellFormed (s.preemptRunning id) := by
  unfold SchedulerState.preemptRunning
  split
  · exact h
  · refine h.mapJobs _ ?_
    intro other running
    split <;> exact ⟨rfl, rfl, rfl, rfl, rfl⟩

theorem shutdown : WellFormed s.shutdown := by
  have hmapped := h.mapJobs (fun _ job => { job with waiters := [], nextWaiters := [] })
    fun _ _ => ⟨rfl, rfl, rfl, rfl, rfl⟩
  refine emit ?_ (fun id hid => by cases hid)
  exact { hmapped with
    pending_nodup := nodup_nil
    pending_idle := fun id hid => by cases hid }

theorem dequeue (id : Nat) : WellFormed { s with pending := s.pending.erase id } :=
  { h with
    pending_nodup := h.pending_nodup.erase _
    pending_idle := fun other hp => h.pending_idle other (mem_of_mem_erase hp) }

theorem fireTimer (id : Nat) : WellFormed { s with retryTimers := s.retryTimers.erase id } := by
  refine { h with
    timers_nodup := h.timers_nodup.erase _
    timer_idle := fun other ht => h.timer_idle other (mem_of_mem_erase ht)
    pending_idle := fun other hp => ?_ }
  obtain ⟨hactive, huntimed, hlive⟩ := h.pending_idle other hp
  exact ⟨hactive, fun ht => huntimed (mem_of_mem_erase ht), hlive⟩

end

end WellFormed

end Ridstore.Engine
