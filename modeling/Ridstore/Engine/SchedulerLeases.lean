import Ridstore.Engine.SchedulerMoves

/-
# Ridstore.Engine.SchedulerLeases — resources have one owner

A job owns the bits it held across phases and the bits leased for the run in progress.  The actor keeps
the union of all owned bits in `leased` by masking bits in and out: in `launch`, at the top of the done
branch and in `removeJob`.  `Leases` says that every leased bit has exactly one owner, and that a running
worker has every bit it declared.  It holds whatever transitions the workers return, because the done
branch replaces a transition that retains a bit its job does not own.
-/

namespace Ridstore.Engine

open SchedulerState Function Option

variable {s s' : SchedulerState} {job : MaintenanceJob} {bit id : Nat} {a b : MaintenanceResource}

/-! ## §1 — Owners -/

/-- The bits a job owns. -/
def MaintenanceJob.owned (job : MaintenanceJob) : MaintenanceResource := job.held ||| job.runningResources

/-- Job `id` is live and owns the bit. -/
def Owns (s : SchedulerState) (id bit : Nat) : Prop :=
  ∃ job, s.jobs id = some job ∧ job.owned.getLsbD bit = true

/-- **Every leased bit has exactly one owner**, and a running job owns what its worker declared. -/
structure Leases (s : SchedulerState) : Prop where
  unique : ∀ a b bit, Owns s a bit → Owns s b bit → a = b
  leased : ∀ bit, s.leased.getLsbD bit = true ↔ ∃ id, Owns s id bit
  idle : ∀ id job, s.jobs id = some job → s.active id = none → job.runningResources = 0
  covers : ∀ id job worker, s.jobs id = some job → s.active id = some worker →
    andNot (worker.resources job.phase) job.owned = 0

theorem getLsbD_andNot (a b : MaintenanceResource) (bit : Nat) :
    (andNot a b).getLsbD bit = (a.getLsbD bit && !b.getLsbD bit) := by
  simp only [andNot, BitVec.getLsbD_and, BitVec.getLsbD_not]
  by_cases hbit : bit < 8
  · simp [hbit]
  · simp [BitVec.getLsbD_of_ge a bit (by omega)]

/-- Nothing is left of `a` without `b` exactly when `b` has every bit of `a`. -/
theorem andNot_eq_zero : andNot a b = 0 ↔ ∀ bit, a.getLsbD bit = true → b.getLsbD bit = true := by
  constructor
  · intro h bit hbit
    have hclear := congrArg (·.getLsbD bit) h
    simpa [getLsbD_andNot, hbit] using hclear
  · intro h
    apply BitVec.eq_of_getLsbD_eq
    intro bit _
    cases ha : a.getLsbD bit with
    | false => simp [getLsbD_andNot, ha]
    | true => simp [getLsbD_andNot, h bit ha]

theorem getLsbD_owned (job : MaintenanceJob) (bit : Nat) :
    job.owned.getLsbD bit = (job.held.getLsbD bit || job.runningResources.getLsbD bit) :=
  BitVec.getLsbD_or

/-- The transition the actor acts on retains only bits its job owns, whatever the worker returned. -/
theorem accepted_retain (job : MaintenanceJob) (returned : MaintenanceTransition) (bit : Nat)
    (hbit : (accepted job returned).retain.getLsbD bit = true) : job.owned.getLsbD bit = true := by
  unfold accepted at hbit
  split at hbit
  · simp at hbit
  · rename_i hvalid
    have howned : andNot returned.retain (job.held ||| job.runningResources) = 0 := by
      by_contra hne
      simp only [validateMaintenanceTransition, ne_eq, hne, not_false_eq_true, if_true] at hvalid
      cases hvalid
    exact andNot_eq_zero.mp howned bit hbit

/-! ## §2 — The moves -/

/-- The fields of a job that say what it owns. -/
def leaseOf (job : MaintenanceJob) : MaintenanceResource × MaintenanceResource :=
  (job.held, job.runningResources)

namespace Leases

section

variable (h : Leases s)

include h

/-- A move that changes no owned bit, no running worker and no phase of a running job. -/
theorem frame (hleased : s'.leased = s.leased) (hactive : s'.active = s.active)
    (hjobs : ∀ id, (s'.jobs id).map leaseOf = (s.jobs id).map leaseOf)
    (hphase : ∀ id worker, s.active id = some worker →
      (s'.jobs id).map (·.phase) = (s.jobs id).map (·.phase)) : Leases s' := by
  have howned : ∀ {a b : MaintenanceJob}, leaseOf a = leaseOf b → a.owned = b.owned := by
    intro a b hab
    simp only [leaseOf, Prod.mk.injEq] at hab
    simp only [MaintenanceJob.owned, hab.1, hab.2]
  have hOwns : ∀ id bit, Owns s' id bit ↔ Owns s id bit := by
    intro id bit
    constructor
    · rintro ⟨job, hjob, hbit⟩
      obtain ⟨old, hold, hlease⟩ := map_back (hjobs id) hjob
      exact ⟨old, hold, by rw [howned hlease]; exact hbit⟩
    · rintro ⟨old, hold, hbit⟩
      obtain ⟨job, hjob, hlease⟩ := map_back (hjobs id).symm hold
      exact ⟨job, hjob, by rw [howned hlease]; exact hbit⟩
  refine ⟨?_, ?_, ?_, ?_⟩
  · intro a b bit ha hb
    exact h.unique a b bit ((hOwns a bit).mp ha) ((hOwns b bit).mp hb)
  · intro bit
    simp only [hleased, h.leased, hOwns]
  · intro id job hjob hidle
    obtain ⟨old, hold, hlease⟩ := map_back (hjobs id) hjob
    simp only [leaseOf, Prod.mk.injEq] at hlease
    rw [← hlease.2]
    exact h.idle id old hold (hactive ▸ hidle)
  · intro id job worker hjob ha
    obtain ⟨old, hold, hlease⟩ := map_back (hjobs id) hjob
    rw [hactive] at ha
    have hp := hphase id worker ha
    rw [hjob, hold, map_some, map_some, Option.some.injEq] at hp
    rw [hp, ← howned hlease]
    exact h.covers id old worker hold ha

/-- A move that rewrites one record with the same bits; a running job keeps its phase. -/
theorem same {key : Nat} {old new : MaintenanceJob} (hold : s.jobs key = some old)
    (hjobs : s'.jobs = update s.jobs key (some new)) (hleased : s'.leased = s.leased)
    (hactive : s'.active = s.active) (hlease : leaseOf new = leaseOf old)
    (hphase : s.active key = none ∨ new.phase = old.phase) : Leases s' := by
  refine h.frame hleased hactive ?_ ?_
  · rw [hjobs]
    exact update_map leaseOf hold hlease
  · intro id worker ha
    rw [hjobs]
    rcases hphase with hidle | hphase
    · have hne : id ≠ key := by
        rintro rfl
        rw [hidle] at ha
        cases ha
      exact congrArg _ (update_of_ne hne ..)
    · exact update_map (·.phase) hold hphase id

/-- A move that rewrites the entry of job `key` and the bits it owns. -/
theorem rewrite {key : Nat} {new : Option MaintenanceJob}
    (hjobs : s'.jobs = update s.jobs key new)
    (hactive : ∀ id, id ≠ key → s'.active id = s.active id)
    (hfree : ∀ bit id job, new = some job → job.owned.getLsbD bit = true → id ≠ key → ¬ Owns s id bit)
    (hleased : ∀ bit, s'.leased.getLsbD bit = true ↔
      (∃ job, new = some job ∧ job.owned.getLsbD bit = true) ∨ ∃ id, id ≠ key ∧ Owns s id bit)
    (hidle : ∀ job, new = some job → s'.active key = none → job.runningResources = 0)
    (hcovers : ∀ job worker, new = some job → s'.active key = some worker →
      andNot (worker.resources job.phase) job.owned = 0) : Leases s' := by
  have hkey : s'.jobs key = new := by rw [hjobs, update_self]
  have hother : ∀ id, id ≠ key → s'.jobs id = s.jobs id := fun id hid => by
    rw [hjobs, update_of_ne hid]
  have howns : ∀ id bit, id ≠ key → (Owns s' id bit ↔ Owns s id bit) := fun id bit hid => by
    simp only [Owns, hother id hid]
  refine ⟨?_, ?_, ?_, ?_⟩
  · -- Two owners of a bit: the rewritten job has only bits nobody else owns.
    intro a b bit ha hb
    by_cases hak : a = key <;> by_cases hbk : b = key
    · rw [hak, hbk]
    · obtain ⟨job, hjob, hbit⟩ := ha
      exact absurd ((howns b bit hbk).mp hb) (hfree bit b job (hkey ▸ hak ▸ hjob) hbit hbk)
    · obtain ⟨job, hjob, hbit⟩ := hb
      exact absurd ((howns a bit hak).mp ha) (hfree bit a job (hkey ▸ hbk ▸ hjob) hbit hak)
    · exact h.unique a b bit ((howns a bit hak).mp ha) ((howns b bit hbk).mp hb)
  · intro bit
    rw [hleased]
    constructor
    · rintro (⟨job, hjob, hbit⟩ | ⟨id, hid, hown⟩)
      · exact ⟨key, job, hkey.trans hjob, hbit⟩
      · exact ⟨id, (howns id bit hid).mpr hown⟩
    · rintro ⟨id, hown⟩
      by_cases hid : id = key
      · obtain ⟨job, hjob, hbit⟩ := hown
        exact .inl ⟨job, hkey ▸ hid ▸ hjob, hbit⟩
      · exact .inr ⟨id, hid, (howns id bit hid).mp hown⟩
  · intro id job hjob hi
    by_cases hid : id = key
    · subst hid
      exact hidle job (hkey ▸ hjob) hi
    · exact h.idle id job (hother id hid ▸ hjob) (hactive id hid ▸ hi)
  · intro id job worker hjob ha
    by_cases hid : id = key
    · subst hid
      exact hcovers job worker (hkey ▸ hjob) ha
    · exact h.covers id job worker (hother id hid ▸ hjob) (hactive id hid ▸ ha)

/-- The leased bits are those of one job and those of the others. -/
theorem leased_split (hjob : s.jobs id = some job) (bit : Nat) :
    s.leased.getLsbD bit = true ↔
      job.owned.getLsbD bit = true ∨ ∃ other, other ≠ id ∧ Owns s other bit := by
  rw [h.leased]
  constructor
  · rintro ⟨other, hown⟩
    by_cases hid : other = id
    · subst hid
      obtain ⟨found, hfound, hbit⟩ := hown
      obtain rfl := mem_unique hjob hfound
      exact .inl hbit
    · exact .inr ⟨other, hid, hown⟩
  · rintro (hbit | ⟨other, -, hown⟩)
    · exact ⟨id, job, hjob, hbit⟩
    · exact ⟨other, hown⟩

/-- Nobody else owns a bit of this job. -/
theorem not_owns (hjob : s.jobs id = some job) (hbit : job.owned.getLsbD bit = true)
    {other : Nat} (hne : other ≠ id) : ¬ Owns s other bit :=
  fun hown => hne (h.unique other id bit hown ⟨job, hjob, hbit⟩)

/-- A new job owns nothing. -/
theorem createJob (hwf : WellFormed s) (request : MaintenanceRequest) (policy : RequestPolicy)
    (worker : MaintenanceWorker) : Leases (s.createJob request policy worker).1 := by
  obtain ⟨hjobs, hactive, -, -⟩ := hwf.fresh (Nat.lt_succ_self s.nextJobID)
  refine h.rewrite rfl (fun _ _ => rfl) ?_ ?_ ?_ ?_
  · rintro bit id job ⟨⟩ hbit
    simp [getLsbD_owned] at hbit
  · intro bit
    rw [show (s.createJob request policy worker).1.leased = s.leased from rfl, h.leased]
    constructor
    · rintro ⟨id, job, hjob, hbit⟩
      refine .inr ⟨id, ?_, job, hjob, hbit⟩
      rintro rfl
      rw [hjobs] at hjob
      cases hjob
    · rintro (⟨job, ⟨⟩, hbit⟩ | ⟨id, -, hown⟩)
      · simp [getLsbD_owned] at hbit
      · exact ⟨id, hown⟩
  · rintro job ⟨⟩ -
    rfl
  · rintro job run ⟨⟩ ha
    exact absurd (ha.symm.trans hactive) (by simp)

/-- A launched job gets the bits it still needs; the scan made sure that nobody has them. -/
theorem launch (hjob : s.jobs job.id = some job) (hidle : s.active job.id = none)
    (hfit : need job &&& s.leased = 0) : Leases (s.launch job) := by
  have hrunning := h.idle _ _ hjob hidle
  have hclear : ∀ bit, (need job).getLsbD bit = true → s.leased.getLsbD bit = false := by
    intro bit hbit
    have hand := congrArg (·.getLsbD bit) hfit
    simpa [BitVec.getLsbD_and, hbit] using hand
  have howned : ∀ bit, ({ job with runningResources := need job } : MaintenanceJob).owned.getLsbD bit = true ↔
      job.owned.getLsbD bit = true ∨ (need job).getLsbD bit = true := by
    intro bit
    simp [getLsbD_owned, hrunning]
  refine h.rewrite rfl (fun id hid => update_of_ne hid ..) ?_ ?_ ?_ ?_
  · rintro bit id launched ⟨⟩ hbit hid hown
    rcases (howned bit).mp hbit with hold | hnew
    · exact h.not_owns hjob hold hid hown
    · have hleased := (h.leased bit).mpr ⟨id, hown⟩
      rw [hclear bit hnew] at hleased
      cases hleased
  · intro bit
    have hleased : (s.launch job).leased.getLsbD bit = (s.leased.getLsbD bit || (need job).getLsbD bit) :=
      BitVec.getLsbD_or
    rw [hleased, Bool.or_eq_true, h.leased_split hjob]
    constructor
    · rintro ((hold | hothers) | hnew)
      · exact .inl ⟨_, rfl, (howned bit).mpr (.inl hold)⟩
      · exact .inr hothers
      · exact .inl ⟨_, rfl, (howned bit).mpr (.inr hnew)⟩
    · rintro (⟨launched, ⟨⟩, hbit⟩ | hothers)
      · rcases (howned bit).mp hbit with hold | hnew
        · exact .inl (.inl hold)
        · exact .inr hnew
      · exact .inl (.inr hothers)
  · intro launched _ hi
    have hactive : (s.launch job).active job.id = some job.worker := update_self ..
    rw [hactive] at hi
    cases hi
  · rintro launched worker ⟨⟩ ha
    have hactive : (s.launch job).active job.id = some job.worker := update_self ..
    obtain rfl : job.worker = worker := Option.some.inj (hactive.symm.trans ha)
    -- What the worker declares is held already or is what the job needed.
    refine andNot_eq_zero.mpr fun bit hbit => ?_
    have hneed : (need job).getLsbD bit =
        ((job.worker.resources job.phase).getLsbD bit && !job.held.getLsbD bit) := getLsbD_andNot ..
    rw [hbit, Bool.true_and] at hneed
    rw [getLsbD_owned, hneed]
    exact Bool.or_not_self _

/-- The bookkeeping of the done branch: the job keeps the bits it retains, all of which it owned. -/
theorem settle (hjob : s.jobs job.id = some job) {retain : MaintenanceResource}
    (hretain : ∀ bit, retain.getLsbD bit = true → job.owned.getLsbD bit = true) : Leases (s.settle job retain) := by
  have howned : ∀ bit, ({ job with runningResources := 0, held := retain } : MaintenanceJob).owned.getLsbD bit =
      retain.getLsbD bit := by
    intro bit
    simp [getLsbD_owned]
  have hidle : (s.settle job retain).active job.id = none := update_self ..
  refine h.rewrite rfl (fun id hid => update_of_ne hid ..) ?_ ?_ ?_ ?_
  · rintro bit id settled ⟨⟩ hbit hid
    exact h.not_owns hjob (hretain bit (howned bit ▸ hbit)) hid
  · intro bit
    have hleased : (s.settle job retain).leased.getLsbD bit =
        (s.leased.getLsbD bit && !job.runningResources.getLsbD bit &&
          !(job.held.getLsbD bit && !retain.getLsbD bit) || retain.getLsbD bit) := by
      simp only [SchedulerState.settle, SchedulerState.setJob, BitVec.getLsbD_or, getLsbD_andNot]
    have hsplit := h.leased_split hjob bit
    rw [hleased]
    cases hr : retain.getLsbD bit with
    | true =>
      simp only [Bool.or_true, true_iff]
      exact .inl ⟨_, rfl, (howned bit).trans hr⟩
    | false =>
      -- A bit that is not retained stays leased only for its other owner.
      have hnone : ¬ ∃ settled, some ({ job with runningResources := 0, held := retain } : MaintenanceJob) =
          some settled ∧ settled.owned.getLsbD bit = true := by
        rintro ⟨settled, ⟨⟩, hbit⟩
        rw [howned, hr] at hbit
        cases hbit
      rw [or_iff_right hnone]
      cases ho : job.owned.getLsbD bit with
      | true =>
        have hothers : ¬ ∃ id, id ≠ job.id ∧ Owns s id bit := by
          rintro ⟨id, hid, hown⟩
          exact h.not_owns hjob ho hid hown
        rw [getLsbD_owned, Bool.or_eq_true] at ho
        rcases ho with ho | ho <;> simp [ho, hothers]
      | false =>
        rw [ho] at hsplit
        rw [getLsbD_owned, Bool.or_eq_false_iff] at ho
        simp only [ho.1, ho.2, Bool.not_false, Bool.and_true, Bool.or_false]
        simpa using hsplit
  · rintro settled ⟨⟩ -
    rfl
  · intro settled worker _ ha
    rw [hidle] at ha
    cases ha

/-- A removed job was idle, so what it held is all it owned. -/
theorem removeJob (hjob : s.jobs job.id = some job) (hidle : s.active job.id = none) : Leases (s.removeJob job) := by
  have hrunning := h.idle _ _ hjob hidle
  refine h.rewrite rfl (fun _ _ => rfl) (fun _ _ _ hnew => by cases hnew) ?_ (fun _ hnew => by cases hnew)
    (fun _ _ hnew => by cases hnew)
  intro bit
  have hleased : (s.removeJob job).leased.getLsbD bit = (s.leased.getLsbD bit && !job.held.getLsbD bit) :=
    getLsbD_andNot ..
  have howned : job.owned.getLsbD bit = job.held.getLsbD bit := by simp [getLsbD_owned, hrunning]
  have hsplit := h.leased_split hjob bit
  have hnone : ¬ ∃ removed : MaintenanceJob, none = some removed ∧ removed.owned.getLsbD bit = true :=
    fun ⟨_, hnew, _⟩ => by cases hnew
  rw [hleased, or_iff_right hnone]
  cases hheld : job.held.getLsbD bit with
  | true =>
    have hothers : ¬ ∃ id, id ≠ job.id ∧ Owns s id bit := fun ⟨id, hid, hown⟩ =>
      h.not_owns hjob (howned.trans hheld) hid hown
    simp [hothers]
  | false =>
    rw [howned, hheld] at hsplit
    simpa using hsplit

end

/-- **Every move keeps the leases.** -/
theorem move {e : SchedulerEvent} {a b : Actor} (hwf : WellFormed a.state) (h : Leases a.state)
    (m : Move e a b) : Leases b.state := by
  induction m with
  | create => exact h.createJob hwf _ _ _
  | rerun s hand job worker hasks hp hjob | join s hand job worker hasks hp hjob | rebuild s hand job hasks hp hjob
  | dropWaiter s job waiter he hjob | retry s job ht hjob => exact h.same hjob rfl rfl rfl rfl (.inr rfl)
  | release => exact h
  | waiter s id request next hjob =>
    have hsame := addWaiter_same s id
    exact h.frame hsame.leased hsame.active (addWaiter_map leaseOf (fun _ _ _ => rfl) hwf id)
      fun other _ _ => addWaiter_map (·.phase) (fun _ _ _ => rfl) hwf id other
  | depend s job request next hdep hjob =>
    cases next
    · exact h.same hjob rfl rfl rfl rfl (.inr rfl)
    · exact h.same hjob rfl rfl rfl rfl (.inr rfl)
  | preempt s id =>
    have hsame := preemptRunning_same s id
    exact h.frame hsame.leased hsame.active (preemptRunning_map leaseOf (fun _ _ => rfl) id)
      fun other _ _ => preemptRunning_map (·.phase) (fun _ _ => rfl) id other
  | abandon s job hjob hidle hwait hgone =>
    have hdequeued : Leases { s with pending := s.pending.erase job.id } := { h with }
    exact hdequeued.removeJob hjob hidle
  | launch s job hjob hp hfit => exact h.launch hjob (hwf.pending_idle _ hp).1 hfit
  | take s job worker chosen hjob ha => exact h.settle hjob (accepted_retain job _)
  | restart s job worker outcome held | answer s job worker outcome held | again s job worker outcome held
  | queue s job worker outcome held | time s job worker outcome held | wait s job worker outcome held =>
    exact h.same held.live rfl rfl rfl rfl (.inl held.hand.idle)
  | @resume dependent s job worker outcome held =>
    have hset : Leases (s.setJob { job with dependents := job.dependents.erase dependent }) :=
      h.same held.live rfl rfl rfl rfl (.inr rfl)
    have hwfset : WellFormed (s.setJob { job with dependents := job.dependents.erase dependent }) :=
      hwf.rewrite _ job held.live rfl rfl rfl rfl
    have hsame := resumeDependent_same outcome.err
      (s.setJob { job with dependents := job.dependents.erase dependent }) dependent
    exact hset.frame hsame.leased hsame.active (resumeDependent_map leaseOf (fun _ _ _ _ => rfl) hwfset _)
      fun other _ _ => resumeDependent_map (·.phase) (fun _ _ _ _ => rfl) hwfset _ other
  | remove s job worker outcome held => exact h.removeJob held.live held.hand.idle
  | fire => exact { h with }
  | shutdown s =>
    exact h.frame rfl rfl (shutdown_map leaseOf fun _ _ _ => rfl) fun id _ _ =>
      shutdown_map (·.phase) (fun _ _ _ => rfl) id
  | _ => exact h.frame rfl rfl (fun _ => rfl) fun _ _ _ => rfl

theorem initial : Leases ({} : SchedulerState) where
  unique _ _ _ ha := by obtain ⟨_, hjob, _⟩ := ha; cases hjob
  leased bit := by
    constructor
    · intro hbit
      simp at hbit
    · rintro ⟨_, _, hjob, _⟩
      cases hjob
  idle _ _ hjob := by cases hjob
  covers _ _ _ hjob := by cases hjob

end Leases

/-! ## §3 — Every reachable state -/

theorem scheduler_leases (h : scheduler.Reachable s) : WellFormed s ∧ Leases s :=
  scheduler_invariant (fun a => Leases a.state) Leases.initial (fun _ _ _ hwf ha m => ha.move hwf m) h

/-- Owning the same bits twice is what disjointness forbids. -/
theorem and_eq_zero_of_bits (h : ∀ bit, a.getLsbD bit = true → b.getLsbD bit = true → False) : a &&& b = 0 := by
  apply BitVec.eq_of_getLsbD_eq
  intro bit _
  cases ha : a.getLsbD bit <;> cases hb : b.getLsbD bit
  all_goals try simp [BitVec.getLsbD_and, ha, hb]
  exact (h bit ha hb).elim

/-- **Scheduler resource exclusivity.**  In every reachable state the bits of distinct live jobs are
disjoint, `leased` is their union, and a running worker's job owns every bit the worker declares for its
phase.  A job that a step removes leaves no bit behind: what is leased afterwards belongs to a job that is
still there. -/
theorem resources_exclusive (h : scheduler.Reachable s) :
    (∀ a b ja jb, a ≠ b → s.jobs a = some ja → s.jobs b = some jb → ja.owned &&& jb.owned = 0) ∧
    (∀ bit, s.leased.getLsbD bit = true ↔ ∃ id job, s.jobs id = some job ∧ job.owned.getLsbD bit = true) ∧
    (∀ id worker, s.active id = some worker → ∃ job, s.jobs id = some job ∧ job.worker = worker ∧
      andNot (worker.resources job.phase) job.owned = 0) ∧
    (∀ e s' id job bit, scheduler.step s e = some s' → s.jobs id = some job → s'.jobs id = none →
      s'.leased.getLsbD bit = true → ∃ other found, other ≠ id ∧ s'.jobs other = some found ∧
        found.owned.getLsbD bit = true) := by
  obtain ⟨hwf, hleases⟩ := scheduler_leases h
  refine ⟨?_, hleases.leased, ?_, ?_⟩
  · intro a b ja jb hne ha hb
    refine and_eq_zero_of_bits fun bit hbita hbitb => hne ?_
    exact hleases.unique a b bit ⟨ja, ha, hbita⟩ ⟨jb, hb, hbitb⟩
  · intro id worker ha
    obtain ⟨job, hjob, hworker, -⟩ := hwf.active_job id worker ha
    exact ⟨job, hjob, hworker, hleases.covers id job worker hjob ha⟩
  · intro e s' id job bit hstep hjob hgone hbit
    have hnext := (scheduler_leases (.next h trivial hstep)).2
    obtain ⟨other, found, hfound, hown⟩ := (hnext.leased bit).mp hbit
    refine ⟨other, found, ?_, hfound, hown⟩
    rintro rfl
    rw [hgone] at hfound
    cases hfound

/-- A compaction and a checkpoint run side by side and share no bit. -/
theorem resources_exclusive_two_jobs : ∃ s, scheduler.Reachable s ∧ s.leased = 7#8 ∧
    (s.active 1).isSome = true ∧ (s.active 2).isSome = true ∧
    ∀ ja jb, s.jobs 1 = some ja → s.jobs 2 = some jb → ja.owned &&& jb.owned = 0 := by
  have hrun : scheduler.Reachable _ := Lib.Machine.Reach.exec (.start rfl)
    [.submit { kind := .segmentCompact, source := 7 } true, .submit { kind := .checkpoint } true]
    (fun _ _ _ => trivial) rfl
  exact ⟨_, hrun, rfl, rfl, rfl, fun ja jb => (resources_exclusive hrun).1 1 2 ja jb (by decide)⟩

end Ridstore.Engine
