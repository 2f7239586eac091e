import Ridstore.Engine.SchedulerMoves

/-
# Ridstore.Engine.SchedulerWaiters — a waiter is answered once

Every accepted submission with a waiter gets the next number.  `Tickets` says that a number is found at
most once: in one of the two maps of one live job, or among the completions.  `Kept.move` says that no move
loses a number except a cancellation of its key and a later waiter that takes the same key in the same
map; the keys are the low halves of the numbers, so the second needs 2^32 submissions.
-/

namespace Ridstore.Engine

open SchedulerState List Function Option

variable {s t : SchedulerState} {job : MaintenanceJob} {hand : Hand} {e : SchedulerEvent} {a b : Actor}
  {n id : Nat}

/-! ## §1 — Where a number is found -/

/-- The waiters of both runs of a job. -/
def MaintenanceJob.allWaiters (job : MaintenanceJob) : List Nat := job.waiters ++ job.nextWaiters

/-- Waiter `n` is in one of the maps of the live job `id`. -/
def Sits (s : SchedulerState) (n id : Nat) : Prop := ∃ job, s.jobs id = some job ∧ n ∈ job.allWaiters

/-- Waiter `n` has received a completion. -/
def Answered (s : SchedulerState) (n : Nat) : Prop := n ∈ s.completions.map (·.2.1)

/-- **A waiter is found at most once.** -/
structure Tickets (s : SchedulerState) : Prop where
  sits_bound : ∀ n id, Sits s n id → n ≤ s.nextWaiterID
  answered_bound : ∀ n, Answered s n → n ≤ s.nextWaiterID
  once : ∀ id job, s.jobs id = some job → job.allWaiters.Nodup
  unique : ∀ n id other, Sits s n id → Sits s n other → id = other
  answeredOnce : (s.completions.map (·.2.1)).Nodup
  apart : ∀ n id, Answered s n → ¬ Sits s n id
  spare : ∀ id job, s.jobs id = some job → job.runAgain = false → job.nextWaiters = []
  closed : s.closing = true → ∀ id job, s.jobs id = some job → job.allWaiters = []

/-- The fields of a job that say who waits for it. -/
def waitersOf (job : MaintenanceJob) : List Nat × Bool × List Nat :=
  (job.allWaiters, job.runAgain, job.nextWaiters)

namespace Tickets

section

variable (h : Tickets s)

include h

variable {key : Nat} {old new : MaintenanceJob}

/-- A move that rewrites one record: its waiters are some of those it had, or new numbers. -/
theorem rewrite (hold : s.jobs key = some old) (hjobs : t.jobs = update s.jobs key (some new))
    (hcompletions : t.completions = s.completions) (hclosing : t.closing = s.closing)
    (hnumber : s.nextWaiterID ≤ t.nextWaiterID) (hnodup : new.allWaiters.Nodup)
    (hmem : ∀ m ∈ new.allWaiters, m ∈ old.allWaiters ∨ (s.nextWaiterID < m ∧ m ≤ t.nextWaiterID))
    (hspare : new.runAgain = false → new.nextWaiters = []) (hclosed : s.closing = true → new.allWaiters = []) :
    Tickets t := by
  have hsits : ∀ m id, Sits t m id → Sits s m id ∨ (s.nextWaiterID < m ∧ m ≤ t.nextWaiterID ∧ id = key) := by
    rintro m id ⟨found, hfound, hm⟩
    simp only [hjobs, update_apply] at hfound
    split at hfound
    · rename_i hid
      cases hfound
      rcases hmem m hm with hm | ⟨hlo, hhi⟩
      · exact .inl ⟨old, hid ▸ hold, hm⟩
      · exact .inr ⟨hlo, hhi, hid⟩
    · exact .inl ⟨found, hfound, hm⟩
  have hback : ∀ {P : MaintenanceJob → Prop}, (∀ id found, s.jobs id = some found → P found) → P new →
      ∀ id found, t.jobs id = some found → P found := by
    intro P hP hnew id found hfound
    simp only [hjobs, update_apply] at hfound
    split at hfound
    · cases hfound
      exact hnew
    · exact hP id found hfound
  have hanswered : ∀ m, Answered t m ↔ Answered s m := fun m => by simp only [Answered, hcompletions]
  refine ⟨?_, ?_, hback h.once hnodup, ?_, ?_, ?_, hback h.spare hspare, ?_⟩
  · intro m id hm
    rcases hsits m id hm with hm | ⟨-, hhi, -⟩
    · exact Nat.le_trans (h.sits_bound m id hm) hnumber
    · exact hhi
  · exact fun m hm => Nat.le_trans (h.answered_bound m ((hanswered m).mp hm)) hnumber
  · intro m id other hm hm'
    rcases hsits m id hm with hm | ⟨hlo, -, rfl⟩ <;> rcases hsits m other hm' with hm' | ⟨hlo', -, rfl⟩
    · exact h.unique m id other hm hm'
    · exact absurd (h.sits_bound m id hm) (by omega)
    · exact absurd (h.sits_bound m other hm') (by omega)
    · rfl
  · rw [hcompletions]
    exact h.answeredOnce
  · intro m id hm hs
    rcases hsits m id hs with hs | ⟨hlo, -, -⟩
    · exact h.apart m id ((hanswered m).mp hm) hs
    · exact absurd (h.answered_bound m ((hanswered m).mp hm)) (by omega)
  · intro hc
    exact hback (h.closed (hclosing ▸ hc)) (hclosed (hclosing ▸ hc))

/-- A move that changes no waiter. -/
theorem frame (hnumber : t.nextWaiterID = s.nextWaiterID)
    (hcompletions : t.completions = s.completions) (hclosing : t.closing = s.closing)
    (hjobs : ∀ id, (t.jobs id).map waitersOf = (s.jobs id).map waitersOf) : Tickets t := by
  have hback : ∀ id job, t.jobs id = some job → ∃ old, s.jobs id = some old ∧ old.allWaiters = job.allWaiters ∧
      old.runAgain = job.runAgain ∧ old.nextWaiters = job.nextWaiters := by
    intro id job hjob
    obtain ⟨old, hold, heq⟩ := map_back (hjobs id) hjob
    simp only [waitersOf, Prod.mk.injEq] at heq
    exact ⟨old, hold, heq⟩
  have hsits : ∀ m id, Sits t m id → Sits s m id := by
    rintro m id ⟨job, hjob, hm⟩
    obtain ⟨old, hold, heq, -⟩ := hback id job hjob
    exact ⟨old, hold, heq ▸ hm⟩
  have hanswered : ∀ m, Answered t m ↔ Answered s m := fun m => by simp only [Answered, hcompletions]
  refine ⟨?_, ?_, ?_, ?_, hcompletions ▸ h.answeredOnce, ?_, ?_, ?_⟩
  · exact fun m id hm => hnumber ▸ h.sits_bound m id (hsits m id hm)
  · exact fun m hm => hnumber ▸ h.answered_bound m ((hanswered m).mp hm)
  · intro id job hjob
    obtain ⟨old, hold, heq, -⟩ := hback id job hjob
    exact heq ▸ h.once id old hold
  · exact fun m id other hm hm' => h.unique m id other (hsits m id hm) (hsits m other hm')
  · exact fun m id hm hs => h.apart m id ((hanswered m).mp hm) (hsits m id hs)
  · intro id job hjob hr
    obtain ⟨old, hold, -, hrun, hnext⟩ := hback id job hjob
    exact hnext ▸ h.spare id old hold (hrun.trans hr)
  · intro hc id job hjob
    obtain ⟨old, hold, heq, -⟩ := hback id job hjob
    exact heq ▸ h.closed (hclosing ▸ hc) id old hold

/-- A move that rewrites one record with the same waiters. -/
theorem same (hold : s.jobs key = some old) (hjobs : t.jobs = update s.jobs key (some new))
    (hcompletions : t.completions = s.completions) (hclosing : t.closing = s.closing)
    (hnumber : t.nextWaiterID = s.nextWaiterID) (heq : waitersOf new = waitersOf old) : Tickets t := by
  refine h.frame hnumber hcompletions hclosing ?_
  rw [hjobs]
  exact update_map waitersOf hold heq

/-- A move after which every record is an old one or has no waiter. -/
theorem shrink (hback : ∀ id job, t.jobs id = some job →
      s.jobs id = some job ∨ (job.allWaiters = [] ∧ job.nextWaiters = []))
    (hnumber : t.nextWaiterID = s.nextWaiterID) (hcompletions : t.completions = s.completions)
    (hclosing : t.closing = s.closing) : Tickets t := by
  have hsits : ∀ m id, Sits t m id → Sits s m id := by
    rintro m id ⟨job, hjob, hm⟩
    rcases hback id job hjob with hold | ⟨hempty, -⟩
    · exact ⟨job, hold, hm⟩
    · rw [hempty] at hm
      cases hm
  have hanswered : ∀ m, Answered t m ↔ Answered s m := fun m => by simp only [Answered, hcompletions]
  refine ⟨?_, ?_, ?_, ?_, hcompletions ▸ h.answeredOnce, ?_, ?_, ?_⟩
  · exact fun m id hm => hnumber ▸ h.sits_bound m id (hsits m id hm)
  · exact fun m hm => hnumber ▸ h.answered_bound m ((hanswered m).mp hm)
  · intro id job hjob
    rcases hback id job hjob with hold | ⟨hempty, -⟩
    · exact h.once id job hold
    · rw [hempty]
      exact nodup_nil
  · exact fun m id other hm hm' => h.unique m id other (hsits m id hm) (hsits m other hm')
  · exact fun m id hm hs => h.apart m id ((hanswered m).mp hm) (hsits m id hs)
  · intro id job hjob hr
    rcases hback id job hjob with hold | ⟨-, hempty⟩
    · exact h.spare id job hold hr
    · exact hempty
  · intro hc id job hjob
    rcases hback id job hjob with hold | ⟨hempty, -⟩
    · exact h.closed (hclosing ▸ hc) id job hold
    · exact hempty

/-- A new job has no waiter yet. -/
theorem createJob (request : MaintenanceRequest) (policy : RequestPolicy)
    (worker : MaintenanceWorker) : Tickets (s.createJob request policy worker).1 := by
  refine h.shrink (fun id job hjob => ?_) rfl rfl rfl
  simp only [SchedulerState.createJob, SchedulerState.setJob, update_apply] at hjob
  split at hjob
  · cases hjob
    exact .inr ⟨rfl, rfl⟩
  · exact .inl hjob

/-- Removing a job removes only places. -/
theorem removeJob (job : MaintenanceJob) : Tickets (s.removeJob job) := by
  refine h.shrink (fun id found hfound => ?_) rfl rfl rfl
  simp only [SchedulerState.removeJob, update_apply] at hfound
  split at hfound
  · cases hfound
  · exact .inl hfound

/-- A waiter's number is new, so it is found nowhere else. -/
theorem addWaiter (hwf : WellFormed s) (id : Nat) (hopen : s.closing = false) : Tickets (s.addWaiter id) := by
  unfold SchedulerState.addWaiter
  split
  · exact h
  · rename_i found hfound
    obtain rfl := hwf.job_id id found hfound
    have honce := h.once found.id found hfound
    have hfresh : s.nextWaiterID + 1 ∉ found.allWaiters := fun hmem => by
      have hbound := h.sits_bound _ found.id ⟨found, hfound, hmem⟩
      omega
    -- In either map, the record has some of its old waiters and the new one.
    have hrewrite : ∀ (new : MaintenanceJob) (kept : List Nat), new.id = found.id →
        new.allWaiters.Perm ((s.nextWaiterID + 1) :: kept) → kept.Sublist found.allWaiters →
        (new.runAgain = false → new.nextWaiters = []) →
        Tickets (({ s with nextWaiterID := s.nextWaiterID + 1 }).setJob new) := by
      intro new kept hid hperm hkept hspare
      refine h.rewrite (hid ▸ hfound) rfl rfl rfl (Nat.le_succ _) ?_ ?_ hspare ?_
      · exact hperm.nodup_iff.mpr (nodup_cons.mpr ⟨fun hm => hfresh (hkept.subset hm), honce.sublist hkept⟩)
      · intro m hm
        rcases mem_cons.mp (hperm.mem_iff.mp hm) with rfl | hm
        · exact .inr ⟨Nat.lt_succ_self _, Nat.le_refl _⟩
        · exact .inl (hkept.subset hm)
      · intro hc
        rw [hopen] at hc
        cases hc
    split
    · rename_i hnext
      rw [Bool.and_eq_true] at hnext
      refine hrewrite _ (found.waiters ++ found.nextWaiters.filter
        fun other => waiterKey other != waiterKey (s.nextWaiterID + 1)) rfl ?_
        (filter_sublist.append_left _) ?_
      · simp only [MaintenanceJob.allWaiters, putWaiter, ← append_assoc]
        exact perm_append_singleton ..
      · intro hr
        rw [show _ = true from hnext.2] at hr
        cases hr
    · refine hrewrite _ (found.waiters.filter
        (fun other => waiterKey other != waiterKey (s.nextWaiterID + 1)) ++ found.nextWaiters) rfl ?_
        (filter_sublist.append_right _) (h.spare found.id found hfound)
      simp only [MaintenanceJob.allWaiters, putWaiter, append_assoc, singleton_append]
      exact perm_middle

/-- Answering a job's waiters moves them to the completions. -/
theorem answer (hjob : s.jobs job.id = some job) (err : Option MaintenanceError) :
    Tickets ((s.finishWaiters job.id job.waiters err).setJob { job with waiters := [] }) := by
  have hcompletions : ((s.finishWaiters job.id job.waiters err).setJob { job with waiters := [] }).completions.map
      (·.2.1) = s.completions.map (·.2.1) ++ job.waiters := by
    simp [finishWaiters, setJob, comp_def]
  have hsit : ∀ m ∈ job.waiters, Sits s m job.id := fun m hm =>
    ⟨job, hjob, mem_append_left _ hm⟩
  have honce := h.once job.id job hjob
  have hsits : ∀ m id, Sits ((s.finishWaiters job.id job.waiters err).setJob { job with waiters := [] }) m id →
      Sits s m id ∧ m ∉ job.waiters := by
    rintro m id ⟨found, hfound, hm⟩
    simp only [finishWaiters, setJob, update_apply] at hfound
    split at hfound
    · rename_i hid
      cases hfound
      subst hid
      refine ⟨⟨job, hjob, mem_append_right _ hm⟩, fun hw => ?_⟩
      exact (nodup_append.mp honce).2.2 m hw m hm rfl
    · rename_i hid
      have hs : Sits s m id := ⟨found, hfound, hm⟩
      exact ⟨hs, fun hw => hid (h.unique m id job.id hs (hsit m hw))⟩
  have hanswered : ∀ m, Answered ((s.finishWaiters job.id job.waiters err).setJob { job with waiters := [] }) m ↔
      Answered s m ∨ m ∈ job.waiters := by
    intro m
    rw [Answered, hcompletions, mem_append]
    rfl
  have hback : ∀ {P : MaintenanceJob → Prop}, (∀ id found, s.jobs id = some found → P found) →
      P { job with waiters := [] } → ∀ id found,
      ((s.finishWaiters job.id job.waiters err).setJob { job with waiters := [] }).jobs id = some found →
        P found := by
    intro P hP hnew id found hfound
    simp only [finishWaiters, setJob, update_apply] at hfound
    split at hfound
    · cases hfound
      exact hnew
    · exact hP id found hfound
  refine ⟨?_, ?_, ?_, ?_, ?_, ?_, ?_, ?_⟩
  · exact fun m id hm => h.sits_bound m id (hsits m id hm).1
  · intro m hm
    rcases (hanswered m).mp hm with hm | hm
    · exact h.answered_bound m hm
    · exact h.sits_bound m job.id (hsit m hm)
  · exact hback h.once (nodup_append.mp honce).2.1
  · exact fun m id other hm hm' => h.unique m id other (hsits m id hm).1 (hsits m other hm').1
  · rw [hcompletions]
    refine nodup_append.mpr ⟨h.answeredOnce, (nodup_append.mp honce).1, ?_⟩
    rintro m hm other hother rfl
    exact h.apart m job.id hm (hsit m hother)
  · intro m id hm hs
    obtain ⟨hs, hnot⟩ := hsits m id hs
    rcases (hanswered m).mp hm with hm | hm
    · exact h.apart m id hm hs
    · exact hnot hm
  · exact hback h.spare (h.spare job.id job hjob)
  · intro hc
    refine hback (h.closed hc) ?_
    have hempty := h.closed hc job.id job hjob
    exact (append_eq_nil_iff.mp hempty).2

end

/-- The completions of a shutdown. -/
theorem shutdown_numbers (s : SchedulerState) : s.shutdown.completions.map (·.2.1) =
    s.completions.map (·.2.1) ++ (List.range (s.nextJobID + 1)).flatMap fun id =>
      ((s.jobs id).map MaintenanceJob.allWaiters).getD [] := by
  simp only [shutdown, emit, map_append, map_flatMap]
  congr 1
  congr 1
  funext id
  cases s.jobs id with
  | none => rfl
  | some job => simp [MaintenanceJob.allWaiters, comp_def]

/-- Shutdown answers every waiter. -/
theorem shutdown (h : Tickets s) : Tickets s.shutdown := by
  have hnumbers := shutdown_numbers s
  have hsit : ∀ m id, m ∈ ((s.jobs id).map MaintenanceJob.allWaiters).getD [] → Sits s m id := by
    intro m id hm
    cases hj : s.jobs id with
    | none => simp [hj] at hm
    | some job => exact ⟨job, hj, by simpa [hj] using hm⟩
  have hempty : ∀ id found, s.shutdown.jobs id = some found →
      found.allWaiters = [] ∧ found.nextWaiters = [] := by
    intro id found hfound
    obtain ⟨job, -, rfl⟩ := map_eq_some_iff.mp hfound
    exact ⟨rfl, rfl⟩
  have hnone : ∀ m id, ¬ Sits s.shutdown m id := by
    rintro m id ⟨found, hfound, hm⟩
    rw [(hempty id found hfound).1] at hm
    cases hm
  have hanswered : ∀ m, Answered s.shutdown m → Answered s m ∨ ∃ id, Sits s m id := by
    intro m hm
    rw [Answered, hnumbers, mem_append] at hm
    refine hm.imp_right fun hm => ?_
    obtain ⟨id, -, hm⟩ := mem_flatMap.mp hm
    exact ⟨id, hsit m id hm⟩
  refine ⟨fun m id hm => absurd hm (hnone m id), ?_, ?_, fun m id _ hm => absurd hm (hnone m id), ?_,
    fun m id _ => hnone m id, fun id found hfound _ => (hempty id found hfound).2,
    fun _ id found hfound => (hempty id found hfound).1⟩
  · intro m hm
    rcases hanswered m hm with hm | ⟨id, hm⟩
    · exact h.answered_bound m hm
    · exact h.sits_bound m id hm
  · intro id found hfound
    rw [(hempty id found hfound).1]
    exact nodup_nil
  · rw [hnumbers]
    refine nodup_append.mpr ⟨h.answeredOnce, ?_, ?_⟩
    · refine nodup_flatMap.mpr ⟨?_, ?_⟩
      · intro id _
        cases hj : s.jobs id with
        | none => exact nodup_nil
        | some job => exact h.once id job hj
      · refine List.Pairwise.imp ?_ (nodup_range (n := s.nextJobID + 1))
        intro id other hne m hm hm'
        exact hne (h.unique m id other (hsit m id hm) (hsit m other hm'))
    · rintro m hm other hother rfl
      obtain ⟨id, -, hmem⟩ := mem_flatMap.mp hother
      exact h.apart m id hm (hsit m id hmem)

/-- **Every move keeps the numbers apart.** -/
theorem move (hwf : WellFormed a.state) (h : Tickets a.state) (m : Move e a b) : Tickets b.state := by
  induction m with
  | create => exact h.createJob _ _ _
  | rerun s hand job worker hasks hp hjob =>
    refine h.rewrite hjob rfl rfl rfl (Nat.le_refl _) (h.once job.id job hjob) (fun _ hm => .inl hm) ?_
      fun hc => h.closed hc job.id job hjob
    intro hr
    cases hr
  | join s hand job worker hasks hp hjob | rebuild s hand job hasks hp hjob | launch s job hjob
  | take s job worker chosen hjob | retry s job ht hjob => exact h.same hjob rfl rfl rfl rfl rfl
  | release => exact h
  | waiter s id request next hjob hopen => exact h.addWaiter hwf id hopen
  | depend s job request next hdep hjob =>
    cases next
    · exact h.same hjob rfl rfl rfl rfl rfl
    · exact h.same hjob rfl rfl rfl rfl rfl
  | preempt s id =>
    have hsame := preemptRunning_same s id
    exact h.frame (preemptRunning_number s id) hsame.completions hsame.closing
      (preemptRunning_map waitersOf (fun _ _ => rfl) id)
  | dropWaiter s job waiter he hjob =>
    have hsub : (withoutWaiter job waiter).allWaiters.Sublist job.allWaiters :=
      filter_sublist.append filter_sublist
    refine h.rewrite hjob rfl rfl rfl (Nat.le_refl _) ((h.once job.id job hjob).sublist hsub)
      (fun _ hm => .inl (hsub.subset hm)) ?_ ?_
    · intro hr
      have hspare := h.spare job.id job hjob hr
      simp [withoutWaiter, deleteWaiter, hspare]
    · intro hc
      exact sublist_nil.mp (h.closed hc job.id job hjob ▸ hsub)
  | abandon s job hjob =>
    have hdequeued : Tickets { s with pending := s.pending.erase job.id } := { h with }
    exact hdequeued.removeJob job
  | restart s job worker outcome held | queue s job worker outcome held | time s job worker outcome held
  | wait s job worker outcome held => exact h.same held.live rfl rfl rfl rfl rfl
  | answer s job worker outcome held => exact h.answer held.live outcome.err
  | @resume dependent s job worker outcome held =>
    have hset : Tickets (s.setJob { job with dependents := job.dependents.erase dependent }) :=
      h.same held.live rfl rfl rfl rfl rfl
    have hwfset : WellFormed (s.setJob { job with dependents := job.dependents.erase dependent }) :=
      hwf.rewrite _ job held.live rfl rfl rfl rfl
    have hsame := resumeDependent_same outcome.err
      (s.setJob { job with dependents := job.dependents.erase dependent }) dependent
    exact hset.frame (resumeDependent_number ..) hsame.completions hsame.closing
      (resumeDependent_map waitersOf (fun _ _ _ _ => rfl) hwfset _)
  | again s job worker outcome held hterm hwaiters =>
    have hall : (secondRun job s.nextSerial).allWaiters = job.allWaiters := by
      simp [secondRun, MaintenanceJob.allWaiters, hwaiters]
    refine h.rewrite held.live rfl rfl rfl (Nat.le_refl _) ?_ (fun _ hm => .inl (hall ▸ hm))
      (fun _ => rfl) ?_
    · exact hall ▸ h.once job.id job held.live
    · exact fun hc => hall ▸ h.closed hc job.id job held.live
  | remove s job => exact h.removeJob job
  | shutdown s => exact h.shutdown
  | _ => exact { h with }

theorem initial : Tickets ({} : SchedulerState) where
  sits_bound _ _ h := by obtain ⟨_, hjob, _⟩ := h; cases hjob
  answered_bound _ h := by cases h
  once _ _ h := by cases h
  unique _ _ _ h := by obtain ⟨_, hjob, _⟩ := h; cases hjob
  answeredOnce := nodup_nil
  apart _ _ h := by cases h
  spare _ _ h := by cases h
  closed h := by cases h

end Tickets

/-! ## §2 — No number is lost -/

/-- Waiter `n` still waits or has been answered. -/
def Kept (s : SchedulerState) (n : Nat) : Prop := (∃ id, Sits s n id) ∨ Answered s n

namespace Kept

/-- A move that only adds completions and keeps the waiter's record. -/
theorem mono (h : Kept s n) (hanswered : Answered s n → Answered t n)
    (hsits : ∀ id, Sits s n id → Kept t n) : Kept t n := by
  rcases h with ⟨id, hs⟩ | ha
  · exact hsits id hs
  · exact .inr (hanswered ha)

/-- A move that rewrites one record and keeps the waiter there. -/
theorem rewrite {key : Nat} {old new : MaintenanceJob} (h : Kept s n) (hold : s.jobs key = some old) (hjobs : t.jobs = update s.jobs key (some new))
    (hcompletions : t.completions = s.completions) (hmem : n ∈ old.allWaiters → n ∈ new.allWaiters) : Kept t n := by
  refine h.mono (fun ha => by rwa [Answered, hcompletions]) ?_
  rintro id ⟨found, hfound, hm⟩
  by_cases hid : id = key
  · subst hid
    obtain rfl := mem_unique hold hfound
    exact .inl ⟨id, new, by rw [hjobs, update_self], hmem hm⟩
  · exact .inl ⟨id, found, by rw [hjobs, update_of_ne hid, hfound], hm⟩

/-- A move that changes no waiter. -/
theorem frame (h : Kept s n) (hcompletions : t.completions = s.completions)
    (hjobs : ∀ id, (t.jobs id).map waitersOf = (s.jobs id).map waitersOf) : Kept t n := by
  refine h.mono (fun ha => by rwa [Answered, hcompletions]) ?_
  rintro id ⟨found, hfound, hm⟩
  obtain ⟨job, hjob, heq⟩ := map_back (hjobs id).symm hfound
  exact .inl ⟨id, job, hjob, (Prod.mk.inj heq).1 ▸ hm⟩

/-- A move that removes a job without this waiter. -/
theorem remove (h : Kept s n) (hjobs : t.jobs = update s.jobs job.id none)
    (hcompletions : t.completions = s.completions) (hjob : s.jobs job.id = some job)
    (hgone : n ∉ job.allWaiters) : Kept t n := by
  refine h.mono (fun ha => by rwa [Answered, hcompletions]) ?_
  rintro id ⟨found, hfound, hm⟩
  have hid : id ≠ job.id := by
    rintro rfl
    obtain rfl : job = found := Option.some.inj (hjob.symm.trans hfound)
    exact hgone hm
  exact .inl ⟨id, found, by rw [hjobs, update_of_ne hid, hfound], hm⟩

/-- A new job changes no waiter. -/
theorem createJob (h : Kept s n) (hwf : WellFormed s) (request : MaintenanceRequest) (policy : RequestPolicy)
    (worker : MaintenanceWorker) : Kept (s.createJob request policy worker).1 n := by
  refine h.mono (fun ha => ha) ?_
  rintro id ⟨found, hfound, hm⟩
  have hid : id ≠ s.nextJobID + 1 := by
    rintro rfl
    rw [(hwf.fresh (Nat.lt_succ_self s.nextJobID)).1] at hfound
    cases hfound
  exact .inl ⟨id, found, (update_of_ne hid ..).trans hfound, hm⟩

/-- Two numbers below 2^32 with one key are the same. -/
theorem key_ne {m : Nat} (hn : n < 2 ^ 32) (hm : m < 2 ^ 32) (hne : n ≠ m) : waiterKey n ≠ waiterKey m := by
  rw [waiterKey, waiterKey, Nat.mod_eq_of_lt hn, Nat.mod_eq_of_lt hm]
  exact hne

/-- A waiter survives the entry of another one with a different key. -/
theorem mem_putWaiter {waiters : List Nat} {number : Nat} (hmem : n ∈ waiters)
    (hkey : waiterKey n ≠ waiterKey number) : n ∈ putWaiter waiters number := by
  refine mem_append_left _ (mem_filter.mpr ⟨hmem, ?_⟩)
  simpa using hkey

theorem addWaiter (h : Kept s n) (ht : Tickets s) (hwf : WellFormed s) (id : Nat)
    (hbound : (s.addWaiter id).nextWaiterID < 2 ^ 32) : Kept (s.addWaiter id) n := by
  unfold SchedulerState.addWaiter at hbound ⊢
  split at hbound
  · exact h
  · rename_i found hfound
    obtain rfl := hwf.job_id id found hfound
    have hnext : s.nextWaiterID + 1 < 2 ^ 32 := by
      split at hbound <;> exact hbound
    have hkey : n ∈ found.allWaiters → waiterKey n ≠ waiterKey (s.nextWaiterID + 1) := by
      intro hm
      have hle := ht.sits_bound n found.id ⟨found, hfound, hm⟩
      exact key_ne (by omega) hnext (by omega)
    split
    · refine h.rewrite hfound rfl rfl fun hm => ?_
      rcases mem_append.mp hm with hw | hw
      · exact mem_append_left _ hw
      · exact mem_append_right _ (mem_putWaiter hw (hkey hm))
    · refine h.rewrite hfound rfl rfl fun hm => ?_
      rcases mem_append.mp hm with hw | hw
      · exact mem_append_left _ (mem_putWaiter hw (hkey hm))
      · exact mem_append_right _ hw

/-- **No move loses a waiter** except a cancellation of its key, as long as no two numbers share a key. -/
theorem move (hwf : WellFormed a.state) (ht : Tickets a.state) (h : Kept a.state n) (m : Move e a b)
    (hkey : ∀ job key, e = .cancel job key → waiterKey n ≠ key) (hbound : b.state.nextWaiterID < 2 ^ 32) :
    Kept b.state n := by
  induction m with
  | create => exact h.createJob hwf _ _ _
  | rerun s hand job worker hasks hp hjob | join s hand job worker hasks hp hjob
  | rebuild s hand job hasks hp hjob | launch s job hjob | take s job worker chosen hjob | retry s job ht hjob =>
    exact h.rewrite hjob rfl rfl fun hm => hm
  | waiter s id request next hjob => exact h.addWaiter ht hwf id hbound
  | depend s job request next hdep hjob =>
    cases next
    · exact h.rewrite hjob rfl rfl fun hm => hm
    · exact h.rewrite hjob rfl rfl fun hm => hm
  | preempt s id =>
    exact h.frame (preemptRunning_same s id).completions (preemptRunning_map waitersOf (fun _ _ => rfl) id)
  | dropWaiter s job waiter he hjob =>
    refine h.rewrite hjob rfl rfl fun hm => ?_
    have hother : (waiterKey n != waiter) = true := by simpa using hkey job.id waiter he
    rcases mem_append.mp hm with hw | hw
    · exact mem_append_left _ (mem_filter.mpr ⟨hw, hother⟩)
    · exact mem_append_right _ (mem_filter.mpr ⟨hw, hother⟩)
  | abandon s job hjob hidle hwait hgone =>
    refine h.remove rfl rfl hjob ?_
    simp only [abandoned, Bool.and_eq_true, List.isEmpty_iff] at hgone
    simp [MaintenanceJob.allWaiters, hgone.1.1.1.1.1, hgone.1.1.1.1.2]
  | restart s job worker outcome held | queue s job worker outcome held | time s job worker outcome held
  | wait s job worker outcome held => exact h.rewrite held.live rfl rfl fun hm => hm
  | answer s job worker outcome held =>
    refine h.mono (fun ha => ?_) ?_
    · exact (mem_map.mp ha).elim fun entry hentry =>
        mem_map.mpr ⟨entry, mem_append_left _ hentry.1, hentry.2⟩
    · rintro id ⟨found, hfound, hm⟩
      by_cases hid : id = job.id
      · subst hid
        obtain rfl := mem_unique held.live hfound
        rcases mem_append.mp hm with hw | hw
        · exact .inr (mem_map.mpr ⟨(job.id, n, outcome.err),
            mem_append_right _ (mem_map.mpr ⟨n, hw, rfl⟩), rfl⟩)
        · exact .inl ⟨job.id, { job with waiters := [] }, update_self .., hw⟩
      · exact .inl ⟨id, found, (update_of_ne hid ..).trans hfound, hm⟩
  | @resume dependent s job worker outcome held =>
    have hset : Kept (s.setJob { job with dependents := job.dependents.erase dependent }) n :=
      h.rewrite held.live rfl rfl fun hm => hm
    have hwfset : WellFormed (s.setJob { job with dependents := job.dependents.erase dependent }) :=
      hwf.rewrite _ job held.live rfl rfl rfl rfl
    exact hset.frame (resumeDependent_same outcome.err _ dependent).completions
      (resumeDependent_map waitersOf (fun _ _ _ _ => rfl) hwfset _)
  | again s job worker outcome held hterm hwaiters =>
    refine h.rewrite held.live rfl rfl fun hm => ?_
    simpa [MaintenanceJob.allWaiters, secondRun, hwaiters] using hm
  | remove s job worker outcome held hterm hwaiters hdeps hlast =>
    refine h.remove rfl rfl held.live ?_
    rcases hlast with hr | hc
    · simp [MaintenanceJob.allWaiters, hwaiters, ht.spare job.id job held.live hr]
    · simp [ht.closed hc job.id job held.live]
  | shutdown s =>
    refine h.mono (fun ha => ?_) ?_
    · rw [Answered, Tickets.shutdown_numbers]
      exact mem_append_left _ ha
    · rintro id ⟨found, hfound, hm⟩
      refine .inr ?_
      rw [Answered, Tickets.shutdown_numbers]
      refine mem_append_right _ (mem_flatMap.mpr ⟨id, ?_, ?_⟩)
      · exact mem_range.mpr (Nat.lt_succ_of_le (hwf.job_bound id found hfound))
      · rw [hfound]
        exact hm
  | _ => exact h

end Kept

end Ridstore.Engine
