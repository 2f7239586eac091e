import Ridstore.Engine.SchedulerMoves

/-
# Ridstore.Engine.SchedulerRecords — what a move does to one job

An invariant about the clients of a job, their requests and its worker sees ten kinds of change of a
record and nothing else.  `Move.record` reads every move as one of them; `Move.running` says how a job can
come to run.
-/

namespace Ridstore.Engine

open SchedulerState List Function

/-- The request an instance was built for. -/
def MaintenanceWorker.request : MaintenanceWorker → MaintenanceRequest
  | .built _ request => request
  | .failedDependency next _ => next.request

/-- The part of a record that says for whom and for what the job works. -/
structure Engagement where
  key : Option MaintenanceKey
  request : MaintenanceRequest
  built : MaintenanceRequest
  runAgain : Bool
  nextRequest : MaintenanceRequest
  waiters : List Nat
  nextWaiters : List Nat
  dependents : List Nat
  nextDependents : List Nat

/-- The engagement of a job. -/
def MaintenanceJob.engagement (job : MaintenanceJob) : Engagement where
  key := job.key
  request := job.request
  built := job.worker.request
  runAgain := job.runAgain
  nextRequest := job.nextRequest
  waiters := job.waiters
  nextWaiters := job.nextWaiters
  dependents := job.dependents
  nextDependents := job.nextDependents

/-- **The change of one record in one move**, with the guards of the move. -/
inductive Change (e : SchedulerEvent) (a : Actor) (id : Nat) (old new : MaintenanceJob) : Prop
  | keep (h : new.engagement = old.engagement)
  | restart (hidle : a.state.active id = none)
      (h : new.engagement = { old.engagement with built := old.request })
  | rerun (request : MaintenanceRequest) (policy : RequestPolicy) (hreq : e.requests request)
      (hp : maintenanceRequestPolicy request = .ok policy) (hkey : old.key = policy.key)
      (h : new.engagement = (reran old request).engagement)
  | rebuild (request : MaintenanceRequest) (policy : RequestPolicy) (serial : Nat) (hreq : e.requests request)
      (hp : maintenanceRequestPolicy request = .ok policy) (hkey : old.key = policy.key)
      (hidle : a.state.active id = none) (h : new.engagement = (rebuilt old request serial).engagement)
  | waiter (request : MaintenanceRequest) (next : Bool) (hhand : a.hand = .admitted id request next 0)
      (h : new.engagement = if (a.state.active id).isSome && old.runAgain
        then { old.engagement with nextWaiters := putWaiter old.nextWaiters (a.state.nextWaiterID + 1) }
        else { old.engagement with waiters := putWaiter old.waiters (a.state.nextWaiterID + 1) })
  | depend (request : MaintenanceRequest) (next : Bool) (dependent : Nat)
      (hhand : a.hand = .admitted id request next dependent) (hdep : dependent ≠ 0)
      (h : new.engagement = (addDependent old next dependent).engagement)
  | dropWaiter (waiter : Nat) (h : new.engagement = (withoutWaiter old waiter).engagement)
  | answer (h : new.engagement = { old.engagement with waiters := [] })
  | resume (dependent : Nat)
      (h : new.engagement = { old.engagement with dependents := old.dependents.erase dependent })
  | again (serial : Nat) (hidle : a.state.active id = none) (hwaiters : old.waiters = [])
      (hdeps : old.dependents = []) (h : new.engagement = (secondRun old serial).engagement)
  | shutdown (h : new.engagement = { old.engagement with waiters := [], nextWaiters := [] })

variable {s t : SchedulerState} {e : SchedulerEvent} {a b : Actor} {id : Nat} {job old new : MaintenanceJob}

variable {key : Nat}

/-- Reading a table with one entry replaced. -/
theorem record_of_update {jobs : Nat → Option MaintenanceJob} (hjobs : t.jobs = update jobs key (some job))
    (hnew : t.jobs id = some new) : (id = key ∧ new = job) ∨ jobs id = some new := by
  rw [hjobs, update_apply] at hnew
  split at hnew
  · exact .inl ⟨‹_›, (Option.some.inj hnew).symm⟩
  · exact .inr hnew

/-- A move that replaces one record. -/
theorem change_of_update (hnew : t.jobs id = some new) (hold : a.state.jobs key = some old)
    (hjobs : t.jobs = update a.state.jobs key (some job)) (hchange : Change e a key old job) :
    ∃ old, a.state.jobs id = some old ∧ Change e a id old new := by
  rcases record_of_update hjobs hnew with ⟨rfl, rfl⟩ | hsame
  · exact ⟨old, hold, hchange⟩
  · exact ⟨new, hsame, .keep rfl⟩

/-- A move that removes a record leaves the others. -/
theorem change_of_remove (hjobs : t.jobs = update a.state.jobs key none)
    (hnew : t.jobs id = some new) : ∃ old, a.state.jobs id = some old ∧ Change e a id old new := by
  rw [hjobs, update_apply] at hnew
  split at hnew
  · cases hnew
  · exact ⟨new, hnew, .keep rfl⟩

/-- A move after which every engagement is what it was. -/
theorem change_of_frame (hjobs : ∀ id, (t.jobs id).map (·.engagement) = (a.state.jobs id).map (·.engagement))
    (hnew : t.jobs id = some new) : ∃ old, a.state.jobs id = some old ∧ Change e a id old new := by
  obtain ⟨old, hold, heq⟩ := map_back (hjobs id) hnew
  exact ⟨old, hold, .keep heq.symm⟩

/-- Delivering a dependency's error keeps the instance. -/
theorem resumeDependent_engagement (hwf : WellFormed s) (err : Option MaintenanceError) (dependent id : Nat) :
    ((resumeDependent err s dependent).jobs id).map (·.engagement) = (s.jobs id).map (·.engagement) := by
  unfold resumeDependent
  split
  · rfl
  · rename_i found hfound
    obtain rfl := hwf.job_id dependent found hfound
    split
    · refine update_map (·.engagement) hfound ?_ id
      cases err <;> rfl
    · rfl

/-- **What a move does to a record.**  A record is a new one, for a request of the event, or comes from the
record of the same job by one change. -/
theorem Move.record (hwf : WellFormed a.state) (m : Move e a b) (hnew : b.state.jobs id = some new) :
    (∃ request policy, e.requests request ∧ maintenanceRequestPolicy request = .ok policy ∧
      a.state.jobs id = none ∧ a.state.active id = none ∧ new.engagement =
        ⟨policy.key, request, request, false, .zero, [], [], [], []⟩) ∨
    ∃ old, a.state.jobs id = some old ∧ Change e a id old new := by
  induction m with
  | create s hand hasks hp hkey hreq =>
    rcases record_of_update rfl hnew with ⟨rfl, rfl⟩ | hsame
    · obtain ⟨hjob, hidle, -⟩ := hwf.fresh (Nat.lt_succ_self s.nextJobID)
      exact .inl ⟨_, _, hreq, hp, hjob, hidle, rfl⟩
    · exact .inr ⟨new, hsame, .keep rfl⟩
  | rerun s hand job worker hasks hp hjob hkey ha hr hreq =>
    exact .inr (change_of_update hnew hjob rfl (.rerun _ _ hreq hp hkey rfl))
  | join s hand job worker hasks hp hjob | launch s job hjob | take s job worker chosen hjob
  | retry s job ht hjob => exact .inr (change_of_update hnew hjob rfl (.keep rfl))
  | rebuild s hand job hasks hp hjob hkey hidle hreq =>
    exact .inr (change_of_update hnew hjob rfl (.rebuild _ _ s.nextSerial hreq hp hkey hidle rfl))
  | @waiter job s target request next hjob =>
    obtain rfl := hwf.job_id target job hjob
    have hjobs : (s.addWaiter job.id).jobs = update s.jobs job.id
        (some (if (s.active job.id).isSome && job.runAgain
          then { job with nextWaiters := putWaiter job.nextWaiters (s.nextWaiterID + 1) }
          else { job with waiters := putWaiter job.waiters (s.nextWaiterID + 1) })) := by
      simp only [addWaiter, hjob]
      split <;> rfl
    refine .inr (change_of_update hnew hjob hjobs (.waiter request next rfl ?_))
    split <;> rfl
  | @depend dependent s job request next hdep hjob =>
    have hid : (addDependent job next dependent).id = job.id := by
      unfold addDependent
      split <;> rfl
    exact .inr (change_of_update hnew hjob (by rw [← hid]; rfl) (.depend request next dependent rfl hdep rfl))
  | preempt s target => exact .inr (change_of_frame (preemptRunning_map _ (fun _ _ => rfl) target) hnew)
  | dropWaiter s job waiter he hjob => exact .inr (change_of_update hnew hjob rfl (.dropWaiter waiter rfl))
  | abandon | remove => exact .inr (change_of_remove rfl hnew)
  | restart s job worker outcome held =>
    exact .inr (change_of_update hnew held.live rfl (.restart held.hand.idle rfl))
  | answer s job worker outcome held => exact .inr (change_of_update hnew held.live rfl (.answer rfl))
  | @resume dependent s job worker outcome held =>
    have hwfset : WellFormed (s.setJob { job with dependents := job.dependents.erase dependent }) :=
      hwf.rewrite _ job held.live rfl rfl rfl rfl
    obtain ⟨mid, hmid, heq⟩ := map_back (resumeDependent_engagement hwfset outcome.err dependent id) hnew
    rcases record_of_update rfl hmid with ⟨rfl, rfl⟩ | hsame
    · exact .inr ⟨job, held.live, .resume dependent heq.symm⟩
    · exact .inr ⟨mid, hsame, .keep heq.symm⟩
  | again s job worker outcome held hterm hwaiters hdeps =>
    exact .inr (change_of_update hnew held.live rfl (.again s.nextSerial held.hand.idle hwaiters hdeps rfl))
  | queue s job worker outcome held | time s job worker outcome held | wait s job worker outcome held =>
    exact .inr (change_of_update hnew held.live rfl (.keep rfl))
  | shutdown s =>
    obtain ⟨old, hold, rfl⟩ := Option.map_eq_some_iff.mp hnew
    exact .inr ⟨old, hold, .shutdown rfl⟩
  | _ => exact .inr ⟨new, hnew, .keep rfl⟩

/-- The job in hand is the one of the event, and so is the request. -/
def Hand.of (e : SchedulerEvent) : Hand → Prop
  | .free => True
  | .holding job _ _ => ∃ chosen order, e = .done job chosen order
  | .joining job => ∃ chosen order, e = .done job chosen order
  | .admitted _ request _ dependent =>
    e.requests request ∧ (dependent ≠ 0 → ∃ chosen order, e = .done dependent chosen order)

theorem Hand.of.dependent {hand : Hand} {dependent : Nat} (h : hand.of e) (hasks : hand.asks = some dependent)
    (hdep : dependent ≠ 0) : ∃ chosen order, e = .done dependent chosen order := by
  cases hand with
  | free =>
    cases hasks
    exact absurd rfl hdep
  | joining job =>
    cases hasks
    exact h
  | holding | admitted => cases hasks

/-- An event works with what it brought. -/
theorem Move.hand (m : Move e a b) (h : a.hand.of e) : b.hand.of e := by
  induction m with
  | rerun s hand job worker hasks hp hjob hkey ha hr hreq | join s hand job worker hasks hp hjob hkey ha hr hreq
  | rebuild s hand job hasks hp hjob hkey hidle hreq => exact ⟨hreq, h.dependent hasks⟩
  | take s job worker chosen hjob ha order he => exact ⟨chosen, order, he⟩
  | configure | note | create | answer | resume | wait => exact h
  | _ => trivial

variable {worker : MaintenanceWorker}

/-- **How a job comes to run.**  Only by a launch, which is the latest observation then. -/
theorem Move.running (m : Move e a b) (hrun : b.state.active id = some worker) :
    a.state.active id = some worker ∨
      (id ∈ a.state.pending ∧ ∃ phase, b.state.trace = .ran id worker phase :: a.state.trace) := by
  induction m with
  | launch s job hjob hp =>
    have hrun : update s.active job.id (some job.worker) id = some worker := hrun
    rw [update_apply] at hrun
    split at hrun
    · rename_i hid
      cases hrun
      exact .inr ⟨hid ▸ hp, job.phase, by rw [hid]; rfl⟩
    · exact .inl hrun
  | take s job run chosen hjob ha =>
    have hrun : update s.active job.id none id = some worker := hrun
    rw [update_apply] at hrun
    split at hrun
    · cases hrun
    · exact .inl hrun
  | waiter s target => exact .inl ((addWaiter_same s target).active ▸ hrun)
  | preempt s target => exact .inl ((preemptRunning_same s target).active ▸ hrun)
  | @resume dependent s job run outcome =>
    have hsame := (resumeDependent_same outcome.err
      (s.setJob { job with dependents := job.dependents.erase dependent }) dependent).active
    exact .inl ((congrFun hsame id).symm.trans hrun)
  | _ => exact .inl hrun

/-- Moves only add observations. -/
theorem Move.trace (m : Move e a b) : ∃ later, b.state.trace = later ++ a.state.trace := by
  induction m with
  | note s hand o => exact ⟨[o], rfl⟩
  | launch s job => exact ⟨[.ran job.id job.worker job.phase], rfl⟩
  | waiter s target => exact ⟨[], (addWaiter_same s target).trace⟩
  | preempt s target => exact ⟨[], (preemptRunning_same s target).trace⟩
  | @resume dependent s job run outcome =>
    exact ⟨[], (resumeDependent_same outcome.err
      (s.setJob { job with dependents := job.dependents.erase dependent }) dependent).trace⟩
  | shutdown => exact ⟨[.shutdown], rfl⟩
  | _ => exact ⟨[], rfl⟩

/-- The instance stays active, and no launch of the job is observed. -/
def Undisturbed (id : Nat) (worker : MaintenanceWorker) (s t : SchedulerState) : Prop :=
  t.active id = some worker ∧
    ∃ later, t.trace = later ++ s.trace ∧ ∀ other phase, Observation.ran id other phase ∉ later

/-- A running job is left alone until its own return. -/
theorem Move.undisturbed (hwf : WellFormed a.state) (m : Move e a b) (ha : a.state.active id = some worker)
    (he : ∀ chosen order, e ≠ .done id chosen order) : Undisturbed id worker a.state b.state := by
  have hquiet : ∀ {t : SchedulerState}, t.active = a.state.active → t.trace = a.state.trace →
      Undisturbed id worker a.state t := by
    intro t hactive htrace
    exact ⟨by rw [hactive, ha], [], htrace, fun _ _ hmem => by cases hmem⟩
  induction m with
  | note s hand o hran =>
    refine ⟨ha, [o], rfl, fun other phase hmem => ?_⟩
    exact hran id other phase (mem_singleton.mp hmem).symm
  | launch s job hjob hp =>
    have hne : id ≠ job.id := by
      rintro rfl
      have hnone : s.active job.id = none := (hwf.pending_idle _ hp).1
      rw [hnone] at ha
      cases ha
    refine ⟨(update_of_ne hne ..).trans ha, [.ran job.id job.worker job.phase], rfl, ?_⟩
    intro other phase hmem
    cases mem_singleton.mp hmem
    exact hne rfl
  | take s job run chosen hjob hrun order heq =>
    have hne : id ≠ job.id := by
      rintro rfl
      exact he chosen order heq
    exact ⟨(update_of_ne hne ..).trans ha, [], rfl, fun _ _ hmem => by cases hmem⟩
  | waiter s target => exact hquiet (addWaiter_same s target).active (addWaiter_same s target).trace
  | preempt s target => exact hquiet (preemptRunning_same s target).active (preemptRunning_same s target).trace
  | @resume dependent s job run outcome =>
    have hsame := resumeDependent_same outcome.err
      (s.setJob { job with dependents := job.dependents.erase dependent }) dependent
    exact hquiet hsame.active hsame.trace
  | shutdown s =>
    refine ⟨ha, [.shutdown], rfl, fun other phase hmem => ?_⟩
    cases mem_singleton.mp hmem
  | _ => exact hquiet rfl rfl

theorem step_undisturbed (hwf : WellFormed s) (ha : s.active id = some worker)
    (he : ∀ chosen order, e ≠ .done id chosen order) (hstep : scheduler.step s e = some t) :
    Undisturbed id worker s t := by
  refine ((step_moves hwf hstep).invariant (fun a => Undisturbed id worker s a.state) ?_ hwf
    ⟨ha, [], rfl, fun _ _ hmem => by cases hmem⟩).2
  rintro a b hwfa ⟨hactive, later, htrace, hnone⟩ m
  obtain ⟨hactive', new, htrace', hnone'⟩ := m.undisturbed hwfa hactive he
  refine ⟨hactive', new ++ later, by rw [htrace', htrace, append_assoc], fun other phase hmem => ?_⟩
  rcases mem_append.mp hmem with hmem | hmem
  · exact hnone' other phase hmem
  · exact hnone other phase hmem

end Ridstore.Engine
