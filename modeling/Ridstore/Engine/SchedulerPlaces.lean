import Ridstore.Engine.SchedulerMoves

/-
# Ridstore.Engine.SchedulerPlaces — no job and no dependent is lost

A live job is queued, running, waiting for a dependency or waiting for a timer.  `WellFormed` says that
it is in at most one of these places; `Placed` says that it is in one of them, unless the actor has it in
hand.  A job that waits for a dependency is listed by exactly one live job, in the set of the current run
or of the next one; `Linked` says so.  Both are kept by every move until the actor shuts down, which drops
the queue and the requests for second runs.
-/

namespace Ridstore.Engine

open SchedulerState List Function Option

variable {s t : SchedulerState} {job : MaintenanceJob} {hand hand' : Hand} {e : SchedulerEvent} {a b : Actor}
  {id : Nat}

/-! ## §1 — Places -/

/-- The job is in one of the places where the actor finds it again. -/
def InPlace (s : SchedulerState) (id : Nat) (job : MaintenanceJob) : Prop :=
  id ∈ s.pending ∨ s.active id ≠ none ∨ job.waiting = true ∨ id ∈ s.retryTimers

/-- The actor has this job in hand. -/
def Hand.holds : Hand → Nat → Prop
  | .holding job _ _, id => job = id
  | _, _ => False

/-- **Every live job is in a place or in hand**, until the actor shuts down. -/
def Placed (a : Actor) : Prop :=
  a.state.closing = false → ∀ id job, a.state.jobs id = some job → a.hand.holds id ∨ InPlace a.state id job

namespace Placed

section

variable (h : Placed ⟨s, hand⟩)

include h

variable {key : Nat} {new : Option MaintenanceJob}

/-- A move that rewrites the entry of one job and moves no other. -/
theorem rewrite (hjobs : t.jobs = update s.jobs key new) (hclosing : t.closing = s.closing)
    (hpending : ∀ id, id ≠ key → id ∈ s.pending → id ∈ t.pending)
    (hactive : ∀ id, id ≠ key → t.active id = s.active id)
    (htimers : ∀ id, id ≠ key → id ∈ s.retryTimers → id ∈ t.retryTimers)
    (hhand : ∀ id, id ≠ key → hand.holds id → hand'.holds id)
    (hkey : s.closing = false → ∀ job, new = some job → hand'.holds key ∨ InPlace t key job) : Placed ⟨t, hand'⟩ := by
  intro hopen id job hjob
  have hopen : s.closing = false := hclosing ▸ hopen
  simp only [hjobs, update_apply] at hjob
  split at hjob
  · rename_i hid
    subst hid
    exact hkey hopen job hjob
  · rename_i hid
    rcases h hopen id job hjob with hheld | hp | ha | hw | ht
    · exact .inl (hhand id hid hheld)
    · exact .inr (.inl (hpending id hid hp))
    · exact .inr (.inr (.inl (by rw [hactive id hid]; exact ha)))
    · exact .inr (.inr (.inr (.inl hw)))
    · exact .inr (.inr (.inr (.inr (htimers id hid ht))))

/-- A move that rewrites a record where it is. -/
theorem setJob {old : MaintenanceJob} (job : MaintenanceJob) (hold : s.jobs job.id = some old) (hwait : job.waiting = old.waiting)
    (hhand : ∀ id, hand.holds id → hand'.holds id) : Placed ⟨s.setJob job, hand'⟩ := by
  refine h.rewrite rfl rfl (fun _ _ hp => hp) (fun _ _ => rfl) (fun _ _ ht => ht) (fun id _ => hhand id) ?_
  rintro hopen new ⟨⟩
  rcases h hopen job.id old hold with hheld | hp | ha | hw | ht
  · exact .inl (hhand _ hheld)
  · exact .inr (.inl hp)
  · exact .inr (.inr (.inl ha))
  · exact .inr (.inr (.inr (.inl (hwait.trans hw))))
  · exact .inr (.inr (.inr (.inr ht)))

/-- Queueing a job puts it in a place. -/
theorem queued (hjobs : t.jobs = update s.jobs key new) (hclosing : t.closing = s.closing)
    (hpending : t.pending = s.pending ++ [key]) (hactive : t.active = s.active)
    (htimers : ∀ id, id ≠ key → id ∈ s.retryTimers → id ∈ t.retryTimers)
    (hhand : ∀ id, id ≠ key → hand.holds id → hand'.holds id) : Placed ⟨t, hand'⟩ := by
  refine h.rewrite hjobs hclosing (fun _ _ hp => ?_) (fun _ _ => by rw [hactive]) htimers hhand fun _ _ _ => ?_
  · rw [hpending]
    exact mem_append_left _ hp
  · refine .inr (.inl ?_)
    rw [hpending]
    exact mem_append_right _ (mem_singleton.mpr rfl)

/-- A move that changes no record's waiting flag and no place. -/
theorem frame (hclosing : t.closing = s.closing) (hpending : t.pending = s.pending)
    (hactive : t.active = s.active) (htimers : t.retryTimers = s.retryTimers)
    (hjobs : ∀ id, (t.jobs id).map (·.waiting) = (s.jobs id).map (·.waiting)) : Placed ⟨t, hand⟩ := by
  intro hopen id job hjob
  have hid := hjobs id
  rw [hjob, map_some, eq_comm, map_eq_some_iff] at hid
  obtain ⟨old, hold, hwait⟩ := hid
  simp only [InPlace, hpending, hactive, htimers, ← hwait]
  exact h (hclosing ▸ hopen) id old hold

/-- A resumed dependent goes from waiting to the queue. -/
theorem resumeDependent (hwf : WellFormed s) (err : Option MaintenanceError)
    (dependent : Nat) : Placed ⟨resumeDependent err s dependent, hand⟩ := by
  unfold SchedulerState.resumeDependent
  split
  · exact h
  · rename_i found hfound
    obtain rfl := hwf.job_id dependent found hfound
    split
    · exact h.queued rfl rfl rfl rfl (fun _ _ ht => ht) fun _ _ hheld => hheld
    · exact h

end

/-- **Every move keeps the jobs in their places.** -/
theorem move (hwf : WellFormed a.state) (h : Placed a) (m : Move e a b) : Placed b := by
  induction m with
  | create s hand => exact h.queued rfl rfl rfl rfl (fun _ _ ht => ht) fun _ _ hheld => hheld
  | rerun s hand job worker hasks hp hjob | join s hand job worker hasks hp hjob =>
    refine h.setJob _ hjob rfl ?_
    cases hand <;> first | exact fun _ hheld => hheld.elim | cases hasks
  | rebuild s hand job hasks hp hjob =>
    have hserial : Placed ⟨{ s with nextSerial := s.nextSerial + 1 }, hand⟩ :=
      h.frame rfl rfl rfl rfl fun _ => rfl
    refine hserial.setJob (rebuilt job _ _) hjob rfl ?_
    cases hand <;> first | exact fun _ hheld => hheld.elim | cases hasks
  | release => exact h
  | waiter s id request next hjob =>
    have hsame := addWaiter_same s id
    have hadded : Placed ⟨s.addWaiter id, .admitted id request next 0⟩ :=
      h.frame hsame.closing hsame.pending hsame.active hsame.retryTimers
        (addWaiter_map (·.waiting) (fun _ _ _ => rfl) hwf id)
    exact hadded
  | depend s job request next hdep hjob =>
    cases next
    · exact h.setJob (addDependent job false _) hjob rfl fun _ hheld => hheld
    · exact h.setJob (addDependent job true _) hjob rfl fun _ hheld => hheld
  | preempt s id =>
    have hsame := preemptRunning_same s id
    exact h.frame hsame.closing hsame.pending hsame.active hsame.retryTimers
      (preemptRunning_map (·.waiting) (fun _ _ => rfl) id)
  | dropWaiter s job waiter he hjob => exact h.setJob (withoutWaiter job waiter) hjob rfl fun _ hheld => hheld
  | abandon s job hjob =>
    refine h.rewrite rfl rfl (fun id hid hp => ?_) (fun _ _ => rfl) (fun _ _ ht => ht)
      (fun _ _ hheld => hheld) (fun _ _ hnew => by cases hnew)
    exact (mem_erase_of_ne hid).mpr hp
  | launch s job hjob hp =>
    refine h.rewrite rfl rfl (fun id hid hp => (mem_erase_of_ne hid).mpr hp)
      (fun id hid => update_of_ne hid ..) (fun _ _ ht => ht) (fun _ _ hheld => hheld) ?_
    intro _ new _
    refine .inr (.inr (.inl ?_))
    have hactive : (s.launch job).active job.id = some job.worker := update_self ..
    simp [hactive]
  | take s job worker chosen hjob ha =>
    refine h.rewrite rfl rfl (fun _ _ hp => hp) (fun id hid => update_of_ne hid ..)
      (fun _ _ ht => ht) (fun _ _ hheld => hheld.elim) ?_
    exact fun _ _ _ => .inl rfl
  | restart | again | queue =>
    exact h.queued rfl rfl rfl rfl (fun _ _ ht => ht) fun id hid hheld => hid hheld.symm
  | answer s job worker outcome held =>
    have hfinished : Placed ⟨s.finishWaiters job.id job.waiters outcome.err, .holding job.id worker outcome⟩ :=
      h.frame rfl rfl rfl rfl fun _ => rfl
    exact hfinished.setJob { job with waiters := [] } held.live rfl fun _ hheld => hheld
  | @resume dependent s job worker outcome held =>
    have hset := h.setJob { job with dependents := job.dependents.erase dependent } held.live rfl
      fun _ hheld => hheld
    exact hset.resumeDependent (hwf.rewrite _ job held.live rfl rfl rfl rfl) outcome.err dependent
  | remove s job worker outcome held =>
    exact h.rewrite rfl rfl (fun _ _ hp => hp) (fun _ _ => rfl) (fun _ _ ht => ht)
      (fun id hid hheld => hid hheld.symm) (fun _ _ hnew => by cases hnew)
  | time s job worker outcome held =>
    refine h.rewrite rfl rfl (fun _ _ hp => hp) (fun _ _ => rfl)
      (fun _ _ ht => mem_append_left _ ht) (fun id hid hheld => hid hheld.symm) ?_
    intro _ new _
    exact .inr (.inr (.inr (.inr (mem_append_right _ (mem_singleton.mpr rfl)))))
  | wait s job worker outcome held =>
    refine h.rewrite rfl rfl (fun _ _ hp => hp) (fun _ _ => rfl) (fun _ _ ht => ht)
      (fun id hid hheld => hid hheld.symm) ?_
    rintro _ new ⟨⟩
    exact .inr (.inr (.inr (.inl rfl)))
  | fire s id ht hgone =>
    -- The timer that is gone was not that of a live job.
    intro hopen other job hjob
    have hne : other ≠ id := by
      rintro rfl
      rw [show s.jobs other = some job from hjob] at hgone
      cases hgone
    rcases h hopen other job hjob with hheld | hp | ha | hw | ht
    · exact .inl hheld
    · exact .inr (.inl hp)
    · exact .inr (.inr (.inl ha))
    · exact .inr (.inr (.inr (.inl hw)))
    · exact .inr (.inr (.inr (.inr ((mem_erase_of_ne hne).mpr ht))))
  | retry s job ht hjob =>
    exact h.queued rfl rfl rfl rfl (fun id hid ht => (mem_erase_of_ne hid).mpr ht) fun _ _ hheld => hheld
  | shutdown s => exact fun hopen => by cases hopen
  | _ => exact h.frame rfl rfl rfl rfl fun _ => rfl

end Placed

/-! ## §2 — Dependents -/

/-- Job `owner` lists `id` among the jobs that wait for it. -/
def Lists (s : SchedulerState) (owner id : Nat) : Prop :=
  ∃ job, s.jobs owner = some job ∧ id ∈ job.dependents ++ job.nextDependents

/-- Job `id` is live and waits for a dependency. -/
def Waits (s : SchedulerState) (id : Nat) : Prop := ∃ job, s.jobs id = some job ∧ job.waiting = true

theorem not_waits (hjob : s.jobs id = some job) (hwait : job.waiting = false) : ¬ Waits s id := by
  rintro ⟨found, hfound, hwaits⟩
  obtain rfl := mem_unique hjob hfound
  rw [hwait] at hwaits
  cases hwaits

/-- The job that is about to be listed. -/
def Hand.joins : Hand → Nat → Prop
  | .joining job, id => job = id
  | .admitted _ _ _ dependent, id => dependent = id ∧ id ≠ 0
  | _, _ => False

/-- **Every waiting job is listed by exactly one live job**, once, and only waiting jobs are listed. -/
structure Linked (a : Actor) : Prop where
  waits : ∀ owner id, Lists a.state owner id → Waits a.state id
  once : ∀ owner job, a.state.jobs owner = some job → (job.dependents ++ job.nextDependents).Nodup
  unique : ∀ owner other id, Lists a.state owner id → Lists a.state other id → owner = other
  listed : a.state.closing = false → ∀ id, Waits a.state id → a.hand.joins id ∨ ∃ owner, Lists a.state owner id
  joins : ∀ id, a.hand.joins id → Waits a.state id ∧ ∀ owner, ¬ Lists a.state owner id
  spare : ∀ owner job, a.state.jobs owner = some job → job.runAgain = false → job.nextDependents = []
  next : ∀ owner request dependent, a.hand = .admitted owner request true dependent →
    ∃ job, a.state.jobs owner = some job ∧ job.runAgain = true

/-- The fields of a job that say who waits and for whom. -/
def linkOf (job : MaintenanceJob) : List Nat × Bool := (job.dependents ++ job.nextDependents, job.waiting)

/-- These fields of the job with this id; one that is not live lists nobody and does not wait. -/
def links (s : SchedulerState) (id : Nat) : List Nat × Bool := ((s.jobs id).map linkOf).getD ([], false)

theorem lists_links {owner id : Nat} : Lists s owner id ↔ id ∈ (links s owner).1 := by
  unfold Lists links
  cases s.jobs owner <;> simp [linkOf]

theorem waits_links : Waits s id ↔ (links s id).2 = true := by
  unfold Waits links
  cases s.jobs id <;> simp [linkOf]

/-- A record is replaced by one with the same fields. -/
theorem links_update {key : Nat} {old job : MaintenanceJob} (hjobs : t.jobs = update s.jobs key (some job))
    (hold : s.jobs key = some old) (hlink : linkOf job = linkOf old) (id : Nat) : links t id = links s id := by
  rw [links, hjobs, update_map linkOf hold hlink, links]

/-- A fact about every record, after one is written. -/
theorem forall_setJob {P : Nat → MaintenanceJob → Prop} (hself : P job.id job)
    (h : ∀ id found, s.jobs id = some found → P id found) (id : Nat) (found : MaintenanceJob)
    (hfound : (s.setJob job).jobs id = some found) : P id found := by
  simp only [setJob, update_apply] at hfound
  split at hfound
  next hid =>
    cases hfound
    exact hid ▸ hself
  next => exact h id found hfound

/-- The jobs that a record lists. -/
theorem lists_self (hjob : s.jobs job.id = some job) :
    Lists s job.id id ↔ id ∈ job.dependents ++ job.nextDependents := by
  refine ⟨fun ⟨found, hfound, hmem⟩ => ?_, fun hmem => ⟨job, hjob, hmem⟩⟩
  obtain rfl := mem_unique hjob hfound
  exact hmem

theorem lists_setJob {owner id : Nat} : Lists (s.setJob job) owner id ↔
    (owner = job.id ∧ id ∈ job.dependents ++ job.nextDependents) ∨ (owner ≠ job.id ∧ Lists s owner id) := by
  simp only [Lists, setJob, update_apply]
  by_cases h : owner = job.id
  · simp [h]
  · simp [h]

theorem waits_setJob : Waits (s.setJob job) id ↔
    (id = job.id ∧ job.waiting = true) ∨ (id ≠ job.id ∧ Waits s id) := by
  simp only [Waits, setJob, update_apply]
  by_cases h : id = job.id
  · simp [h]
  · simp [h]

variable {old : MaintenanceJob}

/-- Writing a record with the same lists changes no list. -/
theorem lists_setJob_same (hold : s.jobs job.id = some old) (hd : job.dependents = old.dependents)
    (hn : job.nextDependents = old.nextDependents) (owner id : Nat) :
    Lists (s.setJob job) owner id ↔ Lists s owner id := by
  rw [lists_setJob, hd, hn]
  by_cases ho : owner = job.id
  · subst ho
    simp [Lists, hold]
  · simp [ho]

theorem waits_setJob_same (hold : s.jobs job.id = some old)
    (hwait : job.waiting = old.waiting) (id : Nat) : Waits (s.setJob job) id ↔ Waits s id := by
  rw [waits_setJob, hwait]
  by_cases ho : id = job.id
  · subst ho
    simp [Waits, hold]
  · simp [ho]

namespace Linked

section

variable (h : Linked ⟨s, hand⟩)

include h

/-- A move that changes no list, no waiting flag and nothing in hand. -/
theorem frame (hclosing : t.closing = false → s.closing = false)
    (hlinks : ∀ id, links t id = links s id)
    (hspare : ∀ owner job, t.jobs owner = some job → job.runAgain = false → job.nextDependents = [])
    (hhand : ∀ id, hand'.joins id ↔ hand.joins id)
    (hnext : ∀ owner request dependent, hand' = .admitted owner request true dependent →
      ∃ job, t.jobs owner = some job ∧ job.runAgain = true) : Linked ⟨t, hand'⟩ := by
  have hlists : ∀ owner id, Lists t owner id ↔ Lists s owner id := by
    intro owner id
    rw [lists_links, lists_links, hlinks]
  have hwaits : ∀ id, Waits t id ↔ Waits s id := by
    intro id
    rw [waits_links, waits_links, hlinks]
  refine ⟨?_, ?_, ?_, ?_, ?_, hspare, hnext⟩
  · exact fun owner id hl => (hwaits id).mpr (h.waits owner id ((hlists owner id).mp hl))
  · intro owner job hjob
    have hlink := hlinks owner
    have hjob : t.jobs owner = some job := hjob
    rw [links, links, hjob] at hlink
    cases hold : s.jobs owner with
    | none =>
      rw [hold] at hlink
      rw [(Prod.mk.inj hlink).1]
      exact nodup_nil
    | some old =>
      rw [hold] at hlink
      rw [(Prod.mk.inj hlink).1]
      exact h.once owner old hold
  · exact fun owner other id hl hl' => h.unique owner other id ((hlists owner id).mp hl) ((hlists other id).mp hl')
  · intro hopen id hw
    rcases h.listed (hclosing hopen) id ((hwaits id).mp hw) with hj | ⟨owner, hl⟩
    · exact .inl ((hhand id).mpr hj)
    · exact .inr ⟨owner, (hlists owner id).mpr hl⟩
  · intro id hj
    obtain ⟨hw, hnone⟩ := h.joins id ((hhand id).mp hj)
    exact ⟨(hwaits id).mpr hw, fun owner hl => hnone owner ((hlists owner id).mp hl)⟩

/-- A move that also changes no `runAgain`. -/
theorem keep (hclosing : t.closing = false → s.closing = false)
    (hjobs : ∀ id, (t.jobs id).map linkOf = (s.jobs id).map linkOf)
    (hagain : ∀ id, (t.jobs id).map (fun job => (job.runAgain, job.nextDependents)) =
      (s.jobs id).map (fun job => (job.runAgain, job.nextDependents))) : Linked ⟨t, hand⟩ := by
  refine h.frame hclosing (fun id => by rw [links, hjobs, links]) ?_ (fun _ => Iff.rfl) ?_
  · intro owner job hjob hr
    obtain ⟨old, hold, heq⟩ := map_back (hagain owner) hjob
    obtain ⟨hrun, hnext⟩ := Prod.mk.inj heq
    rw [← hnext]
    exact h.spare owner old hold (hrun.trans hr)
  · intro owner request dependent hhand
    obtain ⟨old, hold, hrun⟩ := h.next owner request dependent hhand
    have heq := hagain owner
    rw [hold, map_some, map_eq_some_iff] at heq
    obtain ⟨job, hjob, heq⟩ := heq
    exact ⟨job, hjob, (Prod.mk.inj heq).1.trans hrun⟩

/-- Giving the actor something else to hold, without changing who is about to be listed. -/
theorem rehand (hhand : ∀ id, hand'.joins id ↔ hand.joins id)
    (hnext : ∀ owner request dependent, hand' = .admitted owner request true dependent →
      ∃ job, s.jobs owner = some job ∧ job.runAgain = true) : Linked ⟨s, hand'⟩ :=
  h.frame (fun hopen => hopen) (fun _ => rfl) h.spare hhand hnext

/-- A move that rewrites one record in other fields; nobody is about to be listed for a next run. -/
theorem same {key : Nat} {old new : MaintenanceJob} (hold : s.jobs key = some old)
    (hjobs : t.jobs = update s.jobs key (some new)) (hclosing : t.closing = s.closing)
    (hlink : linkOf new = linkOf old)
    (hagain : (new.runAgain, new.nextDependents) = (old.runAgain, old.nextDependents))
    (hhand : ∀ id, hand'.joins id ↔ hand.joins id)
    (hnext : ∀ owner request dependent, hand' ≠ .admitted owner request true dependent) : Linked ⟨t, hand'⟩ := by
  have hmap := update_map (fun job => (job.runAgain, job.nextDependents)) hold hagain
  have hrehand := h.rehand hhand fun owner request dependent hh => absurd hh (hnext owner request dependent)
  refine hrehand.keep (fun hopen => hclosing ▸ hopen) ?_ ?_
  · rw [hjobs]
    exact update_map linkOf hold hlink
  · rw [hjobs]
    exact hmap

/-- A new job lists nobody and does not wait. -/
theorem createJob (hwf : WellFormed s) (request : MaintenanceRequest) (policy : RequestPolicy)
    (worker : MaintenanceWorker) : Linked ⟨(s.createJob request policy worker).1, hand⟩ := by
  obtain ⟨hfresh, -, -, -⟩ := hwf.fresh (Nat.lt_succ_self s.nextJobID)
  refine h.frame (fun hopen => hopen) (fun id => ?_) (forall_setJob (fun _ => rfl) h.spare) (fun _ => Iff.rfl) ?_
  · by_cases hid : id = s.nextJobID + 1
    · subst hid
      simp [links, hfresh, linkOf, SchedulerState.createJob, SchedulerState.setJob]
    · simp [links, SchedulerState.createJob, SchedulerState.setJob, hid]
  · intro owner request' dependent hh
    obtain ⟨job, hjob, hr⟩ := h.next owner request' dependent hh
    refine ⟨job, (update_of_ne ?_ ..).trans hjob, hr⟩
    rintro rfl
    rw [show s.jobs _ = _ from hjob] at hfresh
    cases hfresh

/-- Removing a job that does not wait; before shutdown it lists nobody any more. -/
theorem removeJob (hjob : s.jobs job.id = some job) (hwait : job.waiting = false)
    (hempty : s.closing = false → job.dependents = [] ∧ job.nextDependents = [])
    (hhand : ∀ id, hand.joins id ↔ False) : Linked ⟨s.removeJob job, .free⟩ := by
  have hlists : ∀ owner id, Lists (s.removeJob job) owner id ↔ owner ≠ job.id ∧ Lists s owner id := by
    intro owner id
    simp only [Lists, SchedulerState.removeJob, update_apply]
    by_cases ho : owner = job.id <;> simp [ho]
  have hnot := not_waits hjob hwait
  have hwaits : ∀ id, Waits (s.removeJob job) id ↔ Waits s id := by
    intro id
    by_cases hid : id = job.id
    · subst hid
      refine iff_of_false ?_ hnot
      rintro ⟨found, hfound, -⟩
      have hgone : (s.removeJob job).jobs job.id = none := update_self ..
      rw [hgone] at hfound
      cases hfound
    · simp [Waits, SchedulerState.removeJob, hid]
  have hback : ∀ id found, (s.removeJob job).jobs id = some found → s.jobs id = some found := by
    intro id found hfound
    simp only [SchedulerState.removeJob, update_apply] at hfound
    split at hfound
    · cases hfound
    · exact hfound
  refine ⟨?_, ?_, ?_, ?_, ?_, ?_, ?_⟩
  · exact fun owner id hl => (hwaits id).mpr (h.waits owner id ((hlists owner id).mp hl).2)
  · exact fun owner found hfound => h.once owner found (hback owner found hfound)
  · exact fun owner other id hl hl' =>
      h.unique owner other id ((hlists owner id).mp hl).2 ((hlists other id).mp hl').2
  · intro hopen id hw
    rcases h.listed hopen id ((hwaits id).mp hw) with hj | ⟨owner, hl⟩
    · exact absurd hj (hhand id).mp
    · refine .inr ⟨owner, (hlists owner id).mpr ⟨?_, hl⟩⟩
      rintro rfl
      obtain ⟨found, hfound, hmem⟩ := hl
      obtain rfl := mem_unique hjob hfound
      obtain ⟨hd, hn⟩ := hempty hopen
      simp [hd, hn] at hmem
  · exact fun id hj => hj.elim
  · exact fun owner found hfound => h.spare owner found (hback owner found hfound)
  · exact fun _ _ _ hh => by cases hh

/-- The job in hand starts to wait and is about to be listed; nobody lists it yet. -/
theorem wait (again old : MaintenanceJob) (hold : s.jobs again.id = some old)
    (hwas : old.waiting = false) (hwait : again.waiting = true)
    (hdeps : again.dependents = old.dependents ∧ again.nextDependents = old.nextDependents ∧
      again.runAgain = old.runAgain) (hhand : ∀ id, hand.joins id ↔ False) :
    Linked ⟨s.setJob again, .joining again.id⟩ := by
  obtain ⟨hd, hn, hr⟩ := hdeps
  have hlists := lists_setJob_same hold hd hn
  have hnot := not_waits hold hwas
  refine ⟨?_, ?_, ?_, ?_, ?_, ?_, ?_⟩
  · intro owner id hl
    have hw := h.waits owner id ((hlists owner id).mp hl)
    exact waits_setJob.mpr (.inr ⟨fun hid => hnot (hid ▸ hw), hw⟩)
  · refine forall_setJob ?_ h.once
    rw [hd, hn]
    exact h.once again.id old hold
  · exact fun owner other id hl hl' => h.unique owner other id ((hlists owner id).mp hl) ((hlists other id).mp hl')
  · intro hopen id hw
    rcases waits_setJob.mp hw with ⟨rfl, -⟩ | ⟨-, hw⟩
    · exact .inl rfl
    · rcases h.listed hopen id hw with hj | ⟨owner, hl⟩
      · exact absurd hj (hhand id).mp
      · exact .inr ⟨owner, (hlists owner id).mpr hl⟩
  · rintro id rfl
    exact ⟨waits_setJob.mpr (.inl ⟨rfl, hwait⟩), fun owner hl =>
      hnot (h.waits owner again.id ((hlists owner again.id).mp hl))⟩
  · refine forall_setJob (fun hrun => ?_) h.spare
    rw [hn]
    exact h.spare again.id old hold (hr ▸ hrun)
  · exact fun _ _ _ hh => by cases hh

end

variable {request : MaintenanceRequest} {dependent : Nat}

/-- The waiting job is listed by the job that took its request. -/
theorem depend {next : Bool} (h : Linked ⟨s, .admitted job.id request next dependent⟩) (hdep : dependent ≠ 0)
    (hjob : s.jobs job.id = some job) : Linked ⟨s.setJob (addDependent job next dependent), .free⟩ := by
  obtain ⟨hwaits, hnone⟩ := h.joins dependent ⟨rfl, hdep⟩
  have hfresh : dependent ∉ job.dependents ++ job.nextDependents := fun hmem => hnone job.id ⟨job, hjob, hmem⟩
  have hid : (addDependent job next dependent).id = job.id := by cases next <;> rfl
  have hwaiting : (addDependent job next dependent).waiting = job.waiting := by cases next <;> rfl
  have hdeps : ((addDependent job next dependent).dependents ++
      (addDependent job next dependent).nextDependents).Perm
        (dependent :: (job.dependents ++ job.nextDependents)) := by
    have hd : dependent ∉ job.dependents := fun hmem => hfresh (mem_append_left _ hmem)
    have hn : dependent ∉ job.nextDependents := fun hmem => hfresh (mem_append_right _ hmem)
    cases next
    · simp only [addDependent, insertID, hd, Bool.false_eq_true, if_false, append_assoc,
        singleton_append]
      exact perm_middle
    · simp only [addDependent, insertID, hn, if_true, if_false, ← append_assoc]
      exact perm_append_singleton ..
  have hlists : ∀ owner id, Lists (s.setJob (addDependent job next dependent)) owner id ↔
      (owner = job.id ∧ id = dependent) ∨ Lists s owner id := by
    intro owner id
    rw [lists_setJob, hid, hdeps.mem_iff, mem_cons]
    by_cases ho : owner = job.id
    · subst ho
      simp [lists_self hjob]
    · simp [ho]
  have hwaits' := waits_setJob_same (hid ▸ hjob) hwaiting
  refine ⟨?_, ?_, ?_, ?_, fun _ hj => hj.elim, ?_, fun _ _ _ hh => by cases hh⟩
  · intro owner id hl
    rcases (hlists owner id).mp hl with ⟨-, rfl⟩ | hl
    · exact (hwaits' _).mpr hwaits
    · exact (hwaits' id).mpr (h.waits owner id hl)
  · refine forall_setJob ?_ h.once
    exact hdeps.nodup_iff.mpr (nodup_cons.mpr ⟨hfresh, h.once job.id job hjob⟩)
  · intro owner other id hl hl'
    rcases (hlists owner id).mp hl with ⟨rfl, rfl⟩ | hl <;> rcases (hlists other _).mp hl' with ⟨rfl, hx⟩ | hl'
    · rfl
    · exact absurd hl' (hnone other)
    · exact absurd (hx ▸ hl) (hnone owner)
    · exact h.unique owner other id hl hl'
  · intro hopen id hw
    rcases h.listed hopen id ((hwaits' id).mp hw) with ⟨rfl, -⟩ | ⟨owner, hl⟩
    · exact .inr ⟨job.id, (hlists _ _).mpr (.inl ⟨rfl, rfl⟩)⟩
    · exact .inr ⟨owner, (hlists owner id).mpr (.inr hl)⟩
  · refine forall_setJob (fun hr => ?_) h.spare
    cases next with
    | false => exact h.spare job.id job hjob hr
    | true =>
      -- A dependent is listed for the next run only by a job that will run again.
      obtain ⟨old, hold, hrun⟩ := h.next job.id request dependent rfl
      obtain rfl := mem_unique hjob hold
      rw [show (addDependent job true dependent).runAgain = job.runAgain from rfl, hrun] at hr
      cases hr

/-- Taking a dependent off the list leaves it waiting and unlisted. -/
theorem unlist (h : Linked ⟨s, hand⟩) (hjob : s.jobs job.id = some job)
    (hdep : dependent ∈ job.dependents) (hhand : ∀ id, hand.joins id ↔ False) :
    Linked ⟨s.setJob { job with dependents := job.dependents.erase dependent }, .joining dependent⟩ := by
  have honce := h.once job.id job hjob
  have hlisted : Lists s job.id dependent := ⟨job, hjob, mem_append_left _ hdep⟩
  have hlists : ∀ owner id, Lists (s.setJob { job with dependents := job.dependents.erase dependent }) owner id ↔
      Lists s owner id ∧ id ≠ dependent := by
    intro owner id
    rw [lists_setJob]
    by_cases ho : owner = job.id
    · subst ho
      have herase : (job.dependents ++ job.nextDependents).erase dependent =
          job.dependents.erase dependent ++ job.nextDependents := erase_append_left _ hdep
      simp only [true_and, ne_eq, not_true_eq_false, false_and, or_false, lists_self hjob, ← herase,
        honce.mem_erase_iff]
      exact And.comm
    · simp only [ho, false_and, ne_eq, not_false_eq_true, true_and, false_or]
      refine ⟨fun hl => ⟨hl, ?_⟩, And.left⟩
      rintro rfl
      exact ho (h.unique owner job.id _ hl hlisted)
  have hwaits := @waits_setJob_same s { job with dependents := job.dependents.erase dependent } job hjob rfl
  refine ⟨?_, ?_, ?_, ?_, ?_, ?_, fun _ _ _ hh => by cases hh⟩
  · exact fun owner id hl => (hwaits id).mpr (h.waits owner id ((hlists owner id).mp hl).1)
  · refine forall_setJob ?_ h.once
    exact honce.sublist (erase_sublist.append_right _)
  · exact fun owner other id hl hl' =>
      h.unique owner other id ((hlists owner id).mp hl).1 ((hlists other id).mp hl').1
  · intro hopen id hw
    by_cases hid : id = dependent
    · exact .inl hid.symm
    · rcases h.listed hopen id ((hwaits id).mp hw) with hj | ⟨owner, hl⟩
      · exact absurd hj (hhand id).mp
      · exact .inr ⟨owner, (hlists owner id).mpr ⟨hl, hid⟩⟩
  · rintro id rfl
    exact ⟨(hwaits _).mpr (h.waits job.id _ hlisted), fun owner hl => ((hlists owner _).mp hl).2 rfl⟩
  · refine forall_setJob (fun hr => ?_) h.spare
    exact h.spare job.id job hjob hr

/-- An unlisted job stops waiting. -/
theorem awake (again old : MaintenanceJob) (h : Linked ⟨s, .joining again.id⟩) (hold : s.jobs again.id = some old)
    (hwait : again.waiting = false) (hdeps : again.dependents = old.dependents ∧
      again.nextDependents = old.nextDependents ∧ again.runAgain = old.runAgain)
    (hhand : ∀ id, hand.joins id ↔ False)
    (hnext : ∀ owner request dependent, hand ≠ .admitted owner request true dependent) :
    Linked ⟨s.setJob again, hand⟩ := by
  obtain ⟨hd, hn, hr⟩ := hdeps
  obtain ⟨-, hnone⟩ := h.joins again.id rfl
  have hlists := lists_setJob_same hold hd hn
  have hwaits : ∀ id, Waits (s.setJob again) id ↔ id ≠ again.id ∧ Waits s id := by
    intro id
    rw [waits_setJob, hwait]
    simp
  refine ⟨?_, forall_setJob ?_ h.once, ?_, ?_, fun id hj => absurd hj (hhand id).mp, forall_setJob ?_ h.spare,
    fun owner request dependent hh => absurd hh (hnext owner request dependent)⟩
  · intro owner id hl
    have hl := (hlists owner id).mp hl
    refine (hwaits id).mpr ⟨?_, h.waits owner id hl⟩
    rintro rfl
    exact hnone owner hl
  · rw [hd, hn]
    exact h.once again.id old hold
  · exact fun owner other id hl hl' => h.unique owner other id ((hlists owner id).mp hl) ((hlists other id).mp hl')
  · intro hopen id hw
    obtain ⟨hid, hw⟩ := (hwaits id).mp hw
    rcases h.listed hopen id hw with hj | ⟨owner, hl⟩
    · exact absurd hj.symm hid
    · exact .inr ⟨owner, (hlists owner id).mpr hl⟩
  · rw [hn, hr]
    exact h.spare again.id old hold

/-- A resumed dependent waits no longer and is listed no longer. -/
theorem resume {worker : MaintenanceWorker} {outcome : MaintenanceTransition}
    (h : Linked ⟨s, .holding job.id worker outcome⟩) (hwf : WellFormed s) (held : Held s job)
    (hdep : dependent ∈ job.dependents) :
    Linked ⟨resumeDependent outcome.err (s.setJob { job with dependents := job.dependents.erase dependent })
      dependent, .holding job.id worker outcome⟩ := by
  have hwfset : WellFormed (s.setJob { job with dependents := job.dependents.erase dependent }) :=
    hwf.rewrite _ job held.live rfl rfl rfl rfl
  have hunlisted := h.unlist held.live hdep fun _ => Iff.rfl
  obtain ⟨⟨found, hfound, hwaiting⟩, -⟩ := hunlisted.joins dependent rfl
  have hfound : (s.setJob { job with dependents := job.dependents.erase dependent }).jobs dependent = some found :=
    hfound
  obtain rfl := hwfset.job_id dependent found hfound
  simp only [resumeDependent, hfound, hwaiting, if_true, requeue]
  have hawake : ∀ woken, Linked ⟨_, .holding job.id worker outcome⟩ := fun woken => Linked.awake
    { found with waiting := false, worker := woken, sequence := s.sequence + 1 } found hunlisted hfound rfl
    ⟨rfl, rfl, rfl⟩ (fun _ => Iff.rfl) fun _ _ _ hh => by cases hh
  exact (hawake _).keep (fun hopen => hopen) (fun _ => rfl) fun _ => rfl

/-- Taking the request for a dependent leaves that dependent about to be listed. -/
theorem admitted_joins {owner dependent : Nat} {next : Bool}
    (hasks : hand.asks = some dependent) (id : Nat) (hpos : ∀ id, hand.joins id → id ≠ 0) :
    (Hand.admitted owner request next dependent).joins id ↔ hand.joins id := by
  cases hand with
  | free =>
    cases hasks
    exact ⟨fun ⟨hid, hne⟩ => hne hid.symm, fun hf => hf.elim⟩
  | joining job =>
    cases hasks
    exact ⟨And.left, fun hid => ⟨hid, hpos id hid⟩⟩
  | holding | admitted => cases hasks

/-- **Every move keeps the dependents listed.** -/
theorem move (hwf : WellFormed a.state) (h : Linked a) (m : Move e a b) : Linked b := by
  have hpos : ∀ id, a.hand.joins id → id ≠ 0 := by
    intro id hj
    obtain ⟨⟨job, hjob, -⟩, -⟩ := h.joins id hj
    exact Nat.ne_of_gt (hwf.job_pos id job hjob)
  induction m with
  | create => exact h.createJob hwf _ _ _
  | rerun s hand job worker hasks hp hjob =>
    refine h.frame (fun hopen => hopen) (links_update rfl hjob rfl) ?_ (fun id => admitted_joins hasks id hpos) ?_
    · refine forall_setJob (fun hr => ?_) h.spare
      cases hr
    · rintro owner request dependent ⟨⟩
      exact ⟨_, update_self .., rfl⟩
  | join s hand job worker hasks hp hjob | rebuild s hand job hasks hp hjob =>
    exact h.same hjob rfl rfl rfl rfl (fun id => admitted_joins hasks id hpos) nofun
  | release s id request next =>
    exact h.rehand (fun id => ⟨fun hf => hf.elim, fun ⟨hid, hne⟩ => hne hid.symm⟩) fun _ _ _ hh => by cases hh
  | waiter s id request next hjob =>
    have hsame := addWaiter_same s id
    have hadded : Linked ⟨s.addWaiter id, .admitted id request next 0⟩ :=
      h.keep (fun hopen => hsame.closing ▸ hopen) (addWaiter_map linkOf (fun _ _ _ => rfl) hwf id)
        (addWaiter_map (fun job => (job.runAgain, job.nextDependents)) (fun _ _ _ => rfl) hwf id)
    exact hadded.rehand (fun id => ⟨fun hf => hf.elim, fun ⟨hid, hne⟩ => hne hid.symm⟩)
      fun _ _ _ hh => by cases hh
  | depend s job request next hdep hjob => exact h.depend hdep hjob
  | preempt s id =>
    have hsame := preemptRunning_same s id
    exact h.keep (fun hopen => hsame.closing ▸ hopen) (preemptRunning_map linkOf (fun _ _ => rfl) id)
      (preemptRunning_map (fun job => (job.runAgain, job.nextDependents)) (fun _ _ => rfl) id)
  | dropWaiter s job waiter he hjob | launch s job hjob | take s job worker chosen hjob | retry s job ht hjob =>
    exact h.same hjob rfl rfl rfl rfl (fun _ => Iff.rfl) nofun
  | abandon s job hjob hidle hwait hgone =>
    have hdequeued : Linked ⟨{ s with pending := s.pending.erase job.id }, .free⟩ := { h with }
    refine hdequeued.removeJob hjob hwait (fun _ => ?_) fun _ => Iff.rfl
    simp only [abandoned, Bool.and_eq_true, List.isEmpty_iff] at hgone
    exact ⟨hgone.1.2, hgone.2⟩
  | restart s job worker outcome held | answer s job worker outcome held | queue s job worker outcome held
  | time s job worker outcome held => exact h.same held.live rfl rfl rfl rfl (fun _ => Iff.rfl) nofun
  | resume s job worker outcome held hterm hdep => exact h.resume hwf held hdep
  | again s job worker outcome held hterm hwaiters hdeps =>
    refine h.frame (fun hopen => hopen) (links_update rfl held.live ?_) ?_ (fun _ => Iff.rfl)
      fun _ _ _ hh => by cases hh
    · simp [linkOf, secondRun, hdeps]
    · intro owner found hfound hr
      simp only [requeue, setJob, update_apply] at hfound
      split at hfound
      · cases hfound
        rfl
      · exact h.spare owner found hfound hr
  | remove s job worker outcome held hterm hwaiters hdeps hlast =>
    refine h.removeJob held.live held.waiting (fun hopen => ⟨hdeps, ?_⟩) fun _ => Iff.rfl
    rcases hlast with hr | hclosed
    · exact h.spare job.id job held.live hr
    · rw [hclosed] at hopen
      cases hopen
  | wait s job worker outcome held =>
    exact h.wait { job with phase := outcome.next, waiting := true } job held.live held.waiting rfl
      ⟨rfl, rfl, rfl⟩ fun _ => Iff.rfl
  | fire => exact { h with }
  | shutdown s =>
    exact h.keep (fun hopen => by cases hopen) (shutdown_map linkOf fun _ _ _ => rfl)
      (shutdown_map (fun job => (job.runAgain, job.nextDependents)) fun _ _ _ => rfl)
  | _ => exact h.keep (fun hopen => hopen) (fun _ => rfl) fun _ => rfl

theorem initial : Linked ⟨({} : SchedulerState), .free⟩ where
  waits _ _ h := by obtain ⟨_, hjob, _⟩ := h; cases hjob
  once _ _ h := by cases h
  unique _ _ _ h := by obtain ⟨_, hjob, _⟩ := h; cases hjob
  listed _ _ h := by obtain ⟨_, hjob, _⟩ := h; cases hjob
  joins _ h := h.elim
  spare _ _ h := by cases h
  next _ _ _ h := by cases h

end Linked

end Ridstore.Engine
