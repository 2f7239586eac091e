import Ridstore.Engine.SchedulerSteps

/-
# Ridstore.Engine.SchedulerConservation — no waiter, job or dependent is lost

The account of the scheduler over a whole run: where each accepted waiter is, where each live job is, who
lists each waiting job, and which event ends a wait.  The account of the waiters needs the numbers to have
distinct keys.  A key is the low half of a number, so a waiter that waits through 2^32 submissions can be
overwritten by a later one of the same job; `waiter_overwritten` is such a run.
-/

namespace Ridstore.Engine

open SchedulerState List Function Option

variable {s s' : SchedulerState} {e : SchedulerEvent} {es : List SchedulerEvent} {a b : Actor} {n id : Nat}

/-! ## §1 — The numbers given out -/

variable {job : MaintenanceJob}

theorem addWaiter_sits (hwf : WellFormed s) (hjob : s.jobs id = some job) :
    (s.addWaiter id).nextWaiterID = s.nextWaiterID + 1 ∧ Sits (s.addWaiter id) (s.nextWaiterID + 1) id := by
  obtain rfl := hwf.job_id id job hjob
  have hput : ∀ waiters, s.nextWaiterID + 1 ∈ putWaiter waiters (s.nextWaiterID + 1) :=
    fun _ => mem_append_right _ (mem_singleton.mpr rfl)
  simp only [addWaiter, hjob]
  split
  · exact ⟨rfl, _, update_self .., mem_append_right _ (hput _)⟩
  · exact ⟨rfl, _, update_self .., mem_append_left _ (hput _)⟩

/-- **Only an accepted submission takes a number**, and its waiter is in a map at once. -/
theorem Move.number (hwf : WellFormed a.state) (m : Move e a b) :
    b.state.nextWaiterID = a.state.nextWaiterID ∨
      (b.state.nextWaiterID = a.state.nextWaiterID + 1 ∧ Kept b.state (a.state.nextWaiterID + 1)) := by
  induction m with
  | waiter s id request next hjob =>
    obtain ⟨hnumber, hsits⟩ := addWaiter_sits hwf hjob
    exact .inr ⟨hnumber, .inl ⟨id, hsits⟩⟩
  | preempt s id => exact .inl (preemptRunning_number s id)
  | resume => exact .inl (resumeDependent_number ..)
  | _ => exact .inl rfl

theorem step_number (hwf : WellFormed s) (hstep : scheduler.step s e = some s') : s.nextWaiterID ≤ s'.nextWaiterID :=
  ((step_moves hwf hstep).invariant (fun a => s.nextWaiterID ≤ a.state.nextWaiterID)
    (fun a b hwf hinv m => by rcases m.number hwf with h | ⟨h, -⟩ <;> omega) hwf (Nat.le_refl _)).2

/-- Every number given out, other than the `lost` ones, is in a map or has been answered; said as long as
no two numbers share a key. -/
def Conserved (lost : Nat → Prop) (s : SchedulerState) : Prop :=
  s.nextWaiterID < 2 ^ 32 → ∀ n, 0 < n → n ≤ s.nextWaiterID → ¬ lost n → Kept s n

variable {lost : Nat → Prop}

theorem Conserved.move (he : ∀ job key, e ≠ .cancel job key) (hwf : WellFormed a.state)
    (ht : Tickets a.state) (h : Conserved lost a.state) (m : Move e a b) : Conserved lost b.state := by
  intro hbound n hpos hle hn
  have hold : b.state.nextWaiterID = a.state.nextWaiterID ∨ n ≤ a.state.nextWaiterID → Kept b.state n := by
    intro hcase
    have hnumber := m.number hwf
    exact Kept.move hwf ht (h (by omega) n hpos (by omega) hn) m (fun job key h => absurd h (he job key)) hbound
  rcases m.number hwf with hsame | ⟨hnext, hkept⟩
  · exact hold (.inl hsame)
  · -- the number is an old one, or the one this move gave out
    rcases Nat.lt_or_ge a.state.nextWaiterID n with hnew | hnew
    · obtain rfl : n = a.state.nextWaiterID + 1 := by omega
      exact hkept
    · exact hold (.inr hnew)

/-- The event cancels waiter `n` where it waits. -/
def Cancels (s : SchedulerState) (e : SchedulerEvent) (n : Nat) : Prop :=
  ∃ job, e = .cancel job (waiterKey n) ∧ Sits s n job

/-- A cancellation loses no other waiter. -/
theorem Kept.cancel {target key : Nat} (hwf : WellFormed s) (h : Kept s n)
    (hn : ¬ Cancels s (.cancel target key) n) : Kept (s.cancel target key) n := by
  unfold SchedulerState.cancel
  split
  · exact h
  · rename_i found hfound
    obtain rfl := hwf.job_id target found hfound
    have hstays : n ∈ found.allWaiters → n ∈ (withoutWaiter found key).allWaiters := by
      intro hm
      have hother : (waiterKey n != key) = true := by
        refine bne_iff_ne.mpr ?_
        rintro rfl
        exact hn ⟨found.id, rfl, found, hfound, hm⟩
      rcases mem_append.mp hm with hw | hw
      · exact mem_append_left _ (mem_filter.mpr ⟨hw, hother⟩)
      · exact mem_append_right _ (mem_filter.mpr ⟨hw, hother⟩)
    dsimp only
    split
    · rename_i hgone
      have hjobs : (({ s with pending := s.pending.erase found.id }).removeJob (withoutWaiter found key)).jobs =
          update s.jobs found.id none := rfl
      refine h.remove hjobs rfl hfound fun hm => ?_
      have hempty : (withoutWaiter found key).allWaiters = [] := by
        simp only [abandoned, Bool.and_eq_true, List.isEmpty_iff] at hgone
        simp [MaintenanceJob.allWaiters, hgone.1.1.1.1.1.1.1, hgone.1.1.1.1.1.1.2]
      exact not_mem_nil (hempty ▸ hstays hm)
    · exact h.rewrite hfound rfl rfl hstays

theorem cancel_number (s : SchedulerState) (target key : Nat) :
    (s.cancel target key).nextWaiterID = s.nextWaiterID := by
  unfold cancel
  split
  · rfl
  · dsimp only
    split <;> rfl

/-- The invariant the account of the waiters rests on. -/
structure Account (lost : Nat → Prop) (s : SchedulerState) : Prop where
  wellFormed : WellFormed s
  tickets : Tickets s
  conserved : Conserved lost s

theorem Account.initial : Account (fun _ => False) ({} : SchedulerState) := by
  have htracks : Tracks False ({} : SchedulerState) := tracks_initial
  refine ⟨htracks.toWellFormed, Tickets.initial, ?_⟩
  intro _ n hpos hle
  exact absurd hle (Nat.not_le_of_gt hpos)

theorem Account.step (h : Account lost s) (hstep : scheduler.step s e = some s') :
    Account (fun n => lost n ∨ Cancels s e n) s' := by
  have hweak : Conserved (fun n => lost n ∨ Cancels s e n) s :=
    fun hbound n hpos hle hn => h.conserved hbound n hpos hle fun hl => hn (.inl hl)
  obtain ⟨hwf, ht⟩ := (step_moves h.wellFormed hstep).invariant (fun a => Tickets a.state)
    (fun a b hwf hinv m => hinv.move hwf m) h.wellFormed h.tickets
  refine ⟨hwf, ht, ?_⟩
  by_cases hcancel : ∃ target key, e = .cancel target key
  · obtain ⟨target, key, rfl⟩ := hcancel
    simp only [scheduler] at hstep
    split at hstep <;> cases hstep
    intro hbound n hpos hle hn
    rw [cancel_number] at hbound hle
    exact (hweak hbound n hpos hle hn).cancel h.wellFormed fun hc => hn (.inr hc)
  · exact ((step_moves h.wellFormed hstep).invariant
      (fun a => Tickets a.state ∧ Conserved (fun n => lost n ∨ Cancels s e n) a.state)
      (fun a b hwf hinv m => ⟨hinv.1.move hwf m,
        hinv.2.move (fun job key he => hcancel ⟨job, key, he⟩) hwf hinv.1 m⟩)
      h.wellFormed ⟨h.tickets, hweak⟩).2.2

/-- One of the events of the run cancelled waiter `n` where it waited. -/
def Cancelled (s : SchedulerState) (es : List SchedulerEvent) (n : Nat) : Prop :=
  ∃ before e after t, es = before ++ e :: after ∧ scheduler.exec s before = some t ∧ Cancels t e n

/-- The account of a run: only cancelled waiters may be missing. -/
theorem Account.exec (h : Account lost s) (hrun : scheduler.exec s es = some s') :
    Account (fun n => lost n ∨ Cancelled s es n) s' := by
  induction es generalizing s lost with
  | nil =>
    cases hrun
    exact ⟨h.wellFormed, h.tickets,
      fun hbound n hpos hle hn => h.conserved hbound n hpos hle fun hl => hn (.inl hl)⟩
  | cons e es ih =>
    obtain ⟨t, hstep, hrest⟩ := bind_eq_some_iff.mp hrun
    have hall := ih (h.step hstep) hrest
    refine ⟨hall.wellFormed, hall.tickets, fun hbound n hpos hle hn => hall.conserved hbound n hpos hle ?_⟩
    rintro ((hl | hc) | ⟨before, e', after, u, rfl, hbefore, hc⟩)
    · exact hn (.inl hl)
    · exact hn (.inr ⟨[], e, es, s, rfl, rfl, hc⟩)
    · refine hn (.inr ⟨e :: before, e', after, u, rfl, ?_, hc⟩)
      exact bind_eq_some_iff.mpr ⟨t, hstep, hbefore⟩

/-! ## §2 — The account of a run -/

/-- **Where waiter `n` is**: once in the maps of one live job, or completed once, or cancelled; in the
state that the events `es` lead to, exactly one of the three. -/
def Accounted (es : List SchedulerEvent) (s : SchedulerState) (n : Nat) : Prop :=
  (¬ Answered s n ∧ ∃ id job, s.jobs id = some job ∧ job.allWaiters.count n = 1 ∧
      ∀ other, Sits s n other → other = id) ∨
    ((s.completions.map (·.2.1)).count n = 1 ∧ ∀ id, ¬ Sits s n id) ∨
    (¬ Answered s n ∧ (∀ id, ¬ Sits s n id) ∧ Cancelled ({} : SchedulerState) es n)

/-- The places of a live job: queued, running, waiting for a dependency, waiting for a timer. -/
def places (s : SchedulerState) (job : MaintenanceJob) : List Bool :=
  [decide (job.id ∈ s.pending), (s.active job.id).isSome, job.waiting, decide (job.id ∈ s.retryTimers)]

theorem Account.accounted (h : Account (fun n => False ∨ Cancelled ({} : SchedulerState) es n) s)
    (hbound : s.nextWaiterID < 2 ^ 32) (hpos : 0 < n) (hle : n ≤ s.nextWaiterID) : Accounted es s n := by
  by_cases hsits : ∃ id, Sits s n id
  · obtain ⟨id, job, hjob, hm⟩ := hsits
    refine .inl ⟨fun ha => h.tickets.apart n id ha ⟨job, hjob, hm⟩, id, job, hjob, ?_, ?_⟩
    · exact count_eq_one_of_mem (h.tickets.once id job hjob) hm
    · exact fun other hother => h.tickets.unique n other id hother ⟨job, hjob, hm⟩
  · have hnone : ∀ id, ¬ Sits s n id := fun id hs => hsits ⟨id, hs⟩
    by_cases ha : Answered s n
    · exact .inr (.inl ⟨count_eq_one_of_mem h.tickets.answeredOnce ha, hnone⟩)
    · refine .inr (.inr ⟨ha, hnone, ?_⟩)
      by_contra hc
      rcases h.conserved hbound n hpos hle (by simpa using hc) with hs | hs
      · exact hsits hs
      · exact ha hs

/-- A live job is in exactly one place, and at most once in the queue and among the timers. -/
theorem Placed.count_places (hwf : WellFormed s) (h : Placed ⟨s, .free⟩) (hopen : s.closing = false)
    (hjob : s.jobs id = some job) : (places s job).count true = 1 := by
  obtain rfl := hwf.job_id id job hjob
  have hwaiting : ∀ {found}, s.jobs job.id = some found → found.waiting = false → job.waiting = false := by
    intro found hfound hw
    obtain rfl : job = found := Option.some.inj (hjob.symm.trans hfound)
    exact hw
  -- each of the places excludes the others
  rcases h hopen job.id job hjob with hheld | hp | ha | hw | ht
  · cases hheld
  · obtain ⟨hidle, huntimed, found, hfound, hw⟩ := hwf.pending_idle _ hp
    simp [places, hp, hidle, huntimed, hwaiting hfound hw]
  · obtain ⟨worker, hworker⟩ := ne_none_iff_exists'.mp ha
    obtain ⟨found, hfound, -, hw⟩ := hwf.active_job _ _ hworker
    have hp : job.id ∉ s.pending := fun hp => ha (hwf.pending_idle _ hp).1
    have ht : job.id ∉ s.retryTimers := fun ht => ha (hwf.timer_idle _ ht).1
    have hrun : s.active job.id = some worker := hworker
    simp [places, hp, hrun, ht, hwaiting hfound hw]
  · have hp : job.id ∉ s.pending := by
      intro hp
      obtain ⟨-, -, found, hfound, hnot⟩ := hwf.pending_idle _ hp
      exact absurd hw (by simp [hwaiting hfound hnot])
    have ht : job.id ∉ s.retryTimers := fun ht => absurd hw (by simp [(hwf.timer_idle _ ht).2.2 job hjob])
    have ha : s.active job.id = none := by
      refine eq_none_iff_forall_ne_some.mpr fun worker hworker => ?_
      obtain ⟨found, hfound, -, hnot⟩ := hwf.active_job _ _ hworker
      exact absurd hw (by simp [hwaiting hfound hnot])
    simp [places, hp, ht, ha, hw]
  · obtain ⟨hidle, -, hnot⟩ := hwf.timer_idle _ ht
    have hp : job.id ∉ s.pending := fun hp => (hwf.pending_idle _ hp).2.1 ht
    simp [places, hp, hidle, ht, hnot job hjob]

/-- The event that ends a wait leaves the job live. -/
theorem resumes_live (hwf : WellFormed s) (hstep : scheduler.step s e = some s') (hw : Waits s id)
    (hr : Resumes s e id) : ∃ job, s'.jobs id = some job ∧ job.waiting = false := by
  have hnot : ¬ Waits s' id := fun hw' => (step_waits hwf hstep hw).mp hw' hr
  obtain ⟨owner, worker, job, chosen, order, rfl, ha, hjob, hc, hmem⟩ := hr
  obtain rfl := hwf.job_id owner job hjob
  have hid : id ≠ job.id := by
    rintro rfl
    exact hwf.active_not_waits ha hw
  obtain ⟨waiting, hwaiting, -⟩ := hw
  have hlive : (s'.jobs id).map (fun _ => ()) = (s.jobs id).map (fun _ => ()) := by
    obtain ⟨hperm, rfl⟩ := done_eq hstep ha hjob
    have hwfd := (handleDone_moves hwf hjob ha chosen hperm rfl).wellFormed hwf
    obtain ⟨hwfs, held⟩ := settle_held hwf hjob ha (accepted job (worker.run chosen)).retain
    simp only [completes, Bool.and_eq_true, Bool.not_eq_true'] at hc
    rw [dispatch_map _ (fun _ _ => rfl) hwfd, handleDone_eq s job worker chosen order rfl, hc.1, hc.2]
    refine (finish_map _ (fun _ _ _ _ => rfl) hwfs held _ order hid).trans ?_
    exact congrArg _ (update_of_ne hid ..)
  rw [hwaiting] at hlive
  obtain ⟨job', hjob', -⟩ := map_eq_some_iff.mp hlive
  refine ⟨job', hjob', ?_⟩
  by_contra hflag'
  exact hnot ⟨job', hjob', by simpa using hflag'⟩

/-- **Nothing is lost**, in a run that gives out fewer than 2^32 waiter numbers: every waiter is accounted
for, a live job of an open scheduler is in exactly one place, a waiting one is listed once by exactly one
live job, and a wait ends exactly when the run completes for which the job is listed, after which no job
lists it. -/
theorem scheduler_conserves (hrun : scheduler.exec ({} : SchedulerState) es = some s)
    (hnumbers : s.nextWaiterID < 2 ^ 32) :
    (∀ n, 0 < n → n ≤ s.nextWaiterID → Accounted es s n) ∧
    (s.closing = false → ∀ id job, s.jobs id = some job →
      (places s job).count true = 1 ∧ s.pending.count id ≤ 1) ∧
    (s.closing = false → ∀ id, Waits s id → ∃ owner job, s.jobs owner = some job ∧
      (job.dependents ++ job.nextDependents).count id = 1 ∧ ∀ other, Lists s other id → other = owner) ∧
    (∀ e s' id, scheduler.step s e = some s' → Waits s id → (¬ Resumes s e id → Waits s' id) ∧
      (Resumes s e id → (∃ job, s'.jobs id = some job ∧ job.waiting = false) ∧
        ∀ owner, ¬ Lists s' owner id)) := by
  have hreach : scheduler.Reachable s :=
    Lib.Machine.Reach.exec (.start rfl) es (fun _ _ _ => trivial) hrun
  obtain ⟨hwf, hplaced⟩ := scheduler_invariant Placed (fun _ _ _ hjob => by cases hjob)
    (fun _ _ _ hwf hinv m => hinv.move hwf m) hreach
  obtain ⟨-, hlinked⟩ := scheduler_invariant Linked Linked.initial (fun _ _ _ hwf hinv m => hinv.move hwf m) hreach
  refine ⟨?_, ?_, ?_, ?_⟩
  · intro n hpos hle
    exact (Account.initial.exec hrun).accounted hnumbers hpos hle
  · intro hopen id job hjob
    exact ⟨hplaced.count_places hwf hopen hjob, nodup_iff_count_le_one.mp hwf.pending_nodup id⟩
  · intro hopen id hw
    rcases hlinked.listed hopen id hw with hjoins | ⟨owner, job, hjob, hmem⟩
    · cases hjoins
    · refine ⟨owner, job, hjob, count_eq_one_of_mem (hlinked.once owner job hjob) hmem, ?_⟩
      exact fun other hother => hlinked.unique other owner id hother ⟨job, hjob, hmem⟩
  · intro e s' id hstep hw
    refine ⟨(step_waits hwf hstep hw).mpr, fun hr => ⟨resumes_live hwf hstep hw hr, ?_⟩⟩
    -- a listed job waits, and this one does not any more
    have hlinked' : Linked ⟨s', .free⟩ :=
      ((step_moves hwf hstep).invariant Linked (fun _ _ hwf hinv m => hinv.move hwf m) hwf hlinked).2
    exact fun owner hlists => (step_waits hwf hstep hw).mp (hlinked'.waits owner id hlists) hr

/-- A relocation that waits for the second run of a checkpoint. -/
def relocationWaits : List SchedulerEvent :=
  [.submit { kind := .checkpoint } true, .submit { kind := .segmentCompact } true,
    .done 2 { next := .prove, dependency := some { kind := .checkpoint, force := true, gcAdmission := true } } []]

theorem scheduler_conserves_relocation : ∃ s, scheduler.exec ({} : SchedulerState) relocationWaits = some s ∧
    s.nextWaiterID < 2 ^ 32 ∧ Waits s 2 ∧ Accounted relocationWaits s 2 ∧
    ∃ owner job, s.jobs owner = some job ∧ (job.dependents ++ job.nextDependents).count 2 = 1 ∧
      ∀ other, Lists s other 2 → other = owner := by
  obtain ⟨s, hrun⟩ : ∃ s, scheduler.exec ({} : SchedulerState) relocationWaits = some s := ⟨_, rfl⟩
  obtain ⟨hopen, hnumber, hwaits⟩ : s.closing = false ∧ s.nextWaiterID = 2 ∧ Waits s 2 := by
    cases hrun
    exact ⟨rfl, rfl, _, rfl, rfl⟩
  obtain ⟨hwaiters, -, hlisted, -⟩ := scheduler_conserves hrun (by omega)
  exact ⟨s, hrun, by omega, hwaits, hwaiters 2 (by omega) (by omega), hlisted hopen 2 hwaits⟩

/-! ## §3 — A waiter that is overwritten -/

/-- The request all waiters of the run make. -/
def compactMapping : MaintenanceRequest := { kind := .mappingGC }

/-- The first job runs the mapping collection, for these waiters and nobody else. -/
structure Collecting (waiters : List Nat) (number : Nat) (s : SchedulerState) : Prop where
  job : ∃ job, s.jobs 1 = some job ∧ job.id = 1 ∧ job.waiters = waiters ∧ job.nextWaiters = [] ∧
    job.runAgain = false
  others : ∀ id, id ≠ 1 → s.jobs id = none
  active : (s.active 1).isSome = true
  key : s.byKey .mappingGC = some 1
  pending : s.pending = []
  closing : s.closing = false
  completions : s.completions = []
  number : s.nextWaiterID = number

namespace Collecting

variable {waiters : List Nat} {number : Nat}

section

variable (h : Collecting waiters number s)

include h

theorem dispatch : s.dispatch = s := by
  simp [SchedulerState.dispatch, h.pending, SchedulerState.dispatchLoop]

theorem setJob {waiters' : List Nat} (job : MaintenanceJob) (hid : job.id = 1) (hwaiters : job.waiters = waiters')
    (hnext : job.nextWaiters = []) (hagain : job.runAgain = false) : Collecting waiters' number (s.setJob job) where
  job := ⟨job, by simp [SchedulerState.setJob, hid], hid, hwaiters, hnext, hagain⟩
  others id hne := by
    simp only [SchedulerState.setJob, hid, update_of_ne hne]
    exact h.others id hne
  active := h.active
  key := h.key
  pending := h.pending
  closing := h.closing
  completions := h.completions
  number := h.number

theorem addWaiter : Collecting (putWaiter waiters (number + 1)) (number + 1) (s.addWaiter 1) := by
  obtain ⟨job, hjob, hid, hwaiters, hnext, hagain⟩ := h.job
  simp only [SchedulerState.addWaiter, hjob, hagain, Bool.and_false, Bool.false_eq_true, if_false, h.number]
  have hnumbered : Collecting waiters (number + 1) { s with nextWaiterID := number + 1 } :=
    { h with number := rfl }
  exact hnumbered.setJob _ hid (by rw [hwaiters]) hnext rfl

theorem preemptRunning : Collecting waiters number (s.preemptRunning 1) := by
  obtain ⟨job, hjob, hid, hwaiters, hnext, hagain⟩ := h.job
  simp only [SchedulerState.preemptRunning, hjob]
  refine { h with job := ?_, others := ?_ }
  · dsimp only
    rw [hjob, map_some]
    split
    · exact ⟨_, rfl, hid, hwaiters, hnext, hagain⟩
    · exact ⟨_, rfl, hid, hwaiters, hnext, hagain⟩
  · intro id hne
    dsimp only
    rw [h.others id hne, map_none]

/-- A submission joins the running job and adds its waiter to the map. -/
theorem submit :
    ∃ s', scheduler.step s (.submit compactMapping true) = some s' ∧
      Collecting (putWaiter waiters (number + 1)) (number + 1) s' := by
  obtain ⟨job, hjob, hid, hwaiters, hnext, hagain⟩ := h.job
  have hqueued : s.enqueue compactMapping 0 = .ok (s.attach job compactMapping 0, 1) := by
    simp [enqueue, compactMapping, maintenanceRequestPolicy, h.key, hjob, hid, h.active]
  have hattached : Collecting waiters number (s.attach job compactMapping 0) := h.setJob _ hid hwaiters hnext hagain
  have hfinal := hattached.addWaiter.preemptRunning
  refine ⟨_, ?_, hfinal⟩
  simp only [scheduler, stopped, h.closing, Bool.false_and, Bool.false_eq_true, if_false,
    handle, if_true, hqueued, acceptSubmission, hfinal.dispatch]

/-- A cancellation deletes its key; the job runs on. -/
theorem cancel (key : Nat) :
    ∃ s', scheduler.step s (.cancel 1 key) = some s' ∧ Collecting (deleteWaiter waiters key) number s' := by
  obtain ⟨job, hjob, hid, hwaiters, hnext, hagain⟩ := h.job
  have hrunning : (s.active 1).isNone = false := by
    rw [isNone_eq_false_iff]
    exact h.active
  refine ⟨s.setJob (withoutWaiter job key), ?_, h.setJob _ hid ?_ ?_ hagain⟩
  · simp only [scheduler, SchedulerState.stopped, h.closing, Bool.false_and, Bool.false_eq_true, if_false,
      SchedulerState.handle, SchedulerState.cancel, hjob, hrunning, Bool.and_false]
  · simp only [withoutWaiter, hwaiters]
  · simp [withoutWaiter, hnext, deleteWaiter]

end

end Collecting

/-- `rounds k n`: `n` submissions from number `k + 1` on, each cancelled before the next. -/
def rounds (number : Nat) : Nat → List SchedulerEvent
  | 0 => []
  | n + 1 => .submit compactMapping true :: .cancel 1 (waiterKey (number + 1)) :: rounds (number + 1) n

/-- Rounds whose keys are not that of the first waiter leave it alone. -/
theorem Collecting.rounds {number : Nat} (n : Nat) (h : Collecting [1] number s) (hpos : 0 < number)
    (hbound : number + n ≤ 2 ^ 32) :
    ∃ s', scheduler.exec s (rounds number n) = some s' ∧ Collecting [1] (number + n) s' := by
  induction n generalizing s number with
  | zero => exact ⟨s, rfl, h⟩
  | succ n ih =>
    have hkey : waiterKey 1 ≠ waiterKey (number + 1) := by
      unfold waiterKey
      omega
    obtain ⟨s₁, hsubmit, h₁⟩ := h.submit
    obtain ⟨s₂, hcancel, h₂⟩ := h₁.cancel (waiterKey (number + 1))
    have hwaiters : deleteWaiter (putWaiter [1] (number + 1)) (waiterKey (number + 1)) = [1] := by
      simp [deleteWaiter, putWaiter, hkey]
    rw [hwaiters] at h₂
    obtain ⟨s₃, hrest, h₃⟩ := ih h₂ (by omega) (by omega)
    refine ⟨s₃, ?_, by rwa [Nat.add_assoc, Nat.add_comm 1] at h₃⟩
    simp only [Ridstore.Engine.rounds, Lib.Machine.exec, hsubmit, hcancel, bind_some]
    exact hrest

/-- The first submission starts the job. -/
theorem collecting_start : ∃ s, scheduler.step ({} : SchedulerState) (.submit compactMapping true) = some s ∧
    Collecting [1] 1 s := by
  obtain ⟨s, hs⟩ : ∃ s, scheduler.step ({} : SchedulerState) (.submit compactMapping true) = some s := ⟨_, rfl⟩
  have hwf := (Account.initial.step hs).wellFormed
  refine ⟨s, hs, ?_⟩
  cases hs
  refine ⟨⟨_, rfl, rfl, rfl, rfl, rfl⟩, ?_, rfl, rfl, rfl, rfl, rfl, rfl⟩
  intro id hne
  -- the job of the submission is the first one, so there is no other identifier
  refine eq_none_iff_forall_ne_some.mpr fun job hjob => hne ?_
  have hpos := hwf.job_pos id job hjob
  have hle : id ≤ 1 := hwf.job_bound id job hjob
  omega

/-- The only cancellations of the rounds are those of their own numbers. -/
theorem mem_rounds {number n : Nat} (h : e ∈ rounds number n) :
    e = .submit compactMapping true ∨
      ∃ m, number < m ∧ m ≤ number + n ∧ e = .cancel 1 (waiterKey m) := by
  induction n generalizing number with
  | zero => cases h
  | succ n ih =>
    simp only [rounds, mem_cons] at h
    rcases h with h | h | h
    · exact .inl h
    · exact .inr ⟨number + 1, by omega, by omega, h⟩
    · rcases ih h with h | ⟨m, hlo, hhi, h⟩
      · exact .inl h
      · exact .inr ⟨m, by omega, by omega, h⟩

/-- **A lost waiter.**  The collection the first waiter asked for is still running when 2^32 - 1 others have
come and gone; the next one has the first one's key, and takes its entry. -/
theorem waiter_overwritten : ∃ es s, scheduler.exec ({} : SchedulerState) es = some s ∧ 1 ≤ s.nextWaiterID ∧
    ¬ Accounted es s 1 := by
  -- the number of rounds stays a variable: it is not a list to be written out
  obtain ⟨n, hn⟩ : ∃ n, 1 + n = 2 ^ 32 := ⟨2 ^ 32 - 1, by decide⟩
  obtain ⟨s₁, hstart, h₁⟩ := collecting_start
  obtain ⟨s₂, hrounds, h₂⟩ := h₁.rounds n (by omega) (by omega)
  obtain ⟨s₃, hlast, h₃⟩ := h₂.submit
  have hrun : scheduler.exec ({} : SchedulerState) (.submit compactMapping true ::
      (rounds 1 n ++ [.submit compactMapping true])) = some s₃ := by
    simp only [Lib.Machine.exec, hstart, bind_some, Lib.Machine.exec_append hrounds, hlast]
  have hwaiters : putWaiter [1] (1 + n + 1) = [1 + n + 1] := by
    have hkey : waiterKey 1 = waiterKey (1 + n + 1) := by
      unfold waiterKey
      omega
    simp [putWaiter, hkey]
  rw [hwaiters] at h₃
  have hnone : ∀ id, ¬ Sits s₃ 1 id := by
    rintro id ⟨job, hjob, hm⟩
    by_cases hid : id = 1
    · subst hid
      obtain ⟨found, hfound, -, hw, hnext, -⟩ := h₃.job
      obtain rfl := mem_unique hjob hfound
      simp only [MaintenanceJob.allWaiters, hw, hnext, append_nil, mem_singleton] at hm
      omega
    · rw [h₃.others id hid] at hjob
      cases hjob
  refine ⟨_, s₃, hrun, by rw [h₃.number]; omega, ?_⟩
  rintro (⟨-, id, job, hjob, hcount, -⟩ | ⟨hcount, -⟩ | ⟨-, -, before, e, after, t, hes, -, hcancels⟩)
  · exact hnone id ⟨job, hjob, count_pos_iff.mp (by omega)⟩
  · simp [h₃.completions] at hcount
  · -- no event of the run carries the key of the first waiter
    obtain ⟨job, he, -⟩ := hcancels
    have hmem : e ∈ SchedulerEvent.submit compactMapping true ::
        (rounds 1 n ++ [.submit compactMapping true]) := by
      rw [hes]
      exact mem_append_right _ mem_cons_self
    simp only [mem_cons, mem_append, not_mem_nil, or_false] at hmem
    subst he
    rcases hmem with h | h | h
    · cases h
    · rcases mem_rounds h with h | ⟨m, hlo, hhi, h⟩
      · cases h
      · simp only [SchedulerEvent.cancel.injEq, waiterKey] at h
        omega
    · cases h

/-- After shutdown a checkpoint is not run again: it is removed together with the dependents of the run it
still owed. -/
theorem waiting_unlisted : ∃ s, scheduler.exec ({} : SchedulerState)
      (relocationWaits ++ [.shutdown, .done 1 { done := true } []]) = some s ∧
    Waits s 2 ∧ ∀ owner, ¬ Lists s owner 2 := by
  obtain ⟨s, hs⟩ : ∃ s, scheduler.exec ({} : SchedulerState)
      (relocationWaits ++ [.shutdown, .done 1 { done := true } []]) = some s := ⟨_, rfl⟩
  have hwf := (Account.initial.exec hs).wellFormed
  refine ⟨s, hs, ?_⟩
  cases hs
  refine ⟨⟨_, rfl, rfl⟩, ?_⟩
  rintro owner ⟨job, hjob, hm⟩
  have hle : owner ≤ 2 := hwf.job_bound owner job hjob
  have hpos := hwf.job_pos owner job hjob
  obtain rfl | rfl : owner = 1 ∨ owner = 2 := by omega
  · cases hjob
  · cases hjob
    cases hm

/-- The two ways out of the account: a waiter overwritten under its key, and a waiting job that nobody
lists after shutdown. -/
theorem conservation_fails :
    (∃ es s, scheduler.exec ({} : SchedulerState) es = some s ∧ 1 ≤ s.nextWaiterID ∧ ¬ Accounted es s 1) ∧
    (∃ es s id, scheduler.exec ({} : SchedulerState) es = some s ∧ Waits s id ∧ ∀ owner, ¬ Lists s owner id) := by
  obtain ⟨s, hrun, hwaits, hnone⟩ := waiting_unlisted
  exact ⟨waiter_overwritten, _, s, 2, hrun, hwaits, hnone⟩

end Ridstore.Engine
