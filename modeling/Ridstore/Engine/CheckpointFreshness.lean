import Ridstore.Engine.SchedulerConservation
import Ridstore.Engine.SchedulerRecords

/-
# Ridstore.Engine.CheckpointFreshness — an old run never answers a new request

A checkpoint request meets a job that is queued, waits for a retry timer or runs.  An idle job takes it and
builds its worker anew; a running one owes it another run.  `Fresh` follows one client, a waiter or a
waiting job, through all of this: while the job it is listed for runs, that run was launched after the
request came, and the worker was built for a request at least as strong.
-/

namespace Ridstore.Engine

open SchedulerState List Option

variable {s s' t : SchedulerState} {e : SchedulerEvent} {es : List SchedulerEvent} {a b : Actor} {id : Nat}
  {job old new : MaintenanceJob} {request : MaintenanceRequest} {policy : RequestPolicy}

/-! ## §1 — A key names one kind of work -/

/-- The kind of request that a key stands for; automatic segment work is of several kinds. -/
def MaintenanceKey.kind : MaintenanceKey → Option MaintenanceRequestKind
  | .checkpoint => some .checkpoint
  | .mappingGC => some .mappingGC
  | .mappingSurvey => some .mappingSurvey
  | .segmentAuto => none

theorem maintenanceRequestPolicy_key (hp : maintenanceRequestPolicy request = .ok policy) {key : MaintenanceKey}
    {kind : MaintenanceRequestKind} (hkey : policy.key = some key) (hkind : key.kind = some kind) :
    request.kind = kind := by
  unfold maintenanceRequestPolicy at hp
  split at hp
  · cases hp; cases hkey; cases hkind; assumption
  · cases hp; cases hkey; cases hkind; assumption
  · cases hp; cases hkey; cases hkind; assumption
  all_goals
    first
    | (split at hp <;> cases hp <;> cases hkey <;> cases hkind)
    | cases hp

/-- The requests of a job are of its key's kind. -/
def Keyed (s : SchedulerState) : Prop :=
  ∀ id job key kind, s.jobs id = some job → job.key = some key → key.kind = some kind →
    job.request.kind = kind ∧ (job.nextRequest.kind = .unset ∨ job.nextRequest.kind = kind)

variable {current incoming : MaintenanceRequest}

/-- A merged request is of the kind of the first that is set. -/
theorem mergeMaintenanceRequest_of_unset (h : current.kind = .unset) :
    mergeMaintenanceRequest current incoming = incoming := by
  simp [mergeMaintenanceRequest, h]

theorem Keyed.move (hwf : WellFormed a.state) (h : Keyed a.state) (m : Move e a b) : Keyed b.state := by
  intro id new key kind hnew hkey hkind
  rcases m.record hwf hnew with ⟨request, policy, -, hp, -, -, heng⟩ | ⟨old, hold, change⟩
  · have hnkey : new.key = policy.key := congrArg Engagement.key heng
    have hreq : new.request = request := congrArg Engagement.request heng
    have hnext : new.nextRequest = .zero := congrArg Engagement.nextRequest heng
    exact ⟨hreq ▸ maintenanceRequestPolicy_key hp (hnkey ▸ hkey) hkind, .inl (by rw [hnext]; rfl)⟩
  · have hset := hwf.job_kind id old hold
    have hsame : ∀ {x : Engagement}, new.engagement = x → x.key = old.key →
        x.request.kind = old.request.kind →
        (x.nextRequest.kind = old.nextRequest.kind ∨ x.nextRequest.kind = .unset ∨
          (old.key = some key → x.nextRequest.kind = kind)) →
        new.request.kind = kind ∧ (new.nextRequest.kind = .unset ∨ new.nextRequest.kind = kind) := by
      intro x heng hxkey hxkind hxnext
      have hnkey : new.key = old.key := (congrArg Engagement.key heng).trans hxkey
      obtain ⟨hk, hn⟩ := h id old key kind hold (hnkey ▸ hkey) hkind
      have hreq : new.request = x.request := congrArg Engagement.request heng
      have hnext : new.nextRequest = x.nextRequest := congrArg Engagement.nextRequest heng
      refine ⟨by rw [hreq, hxkind, hk], ?_⟩
      rw [hnext]
      rcases hxnext with hx | hx | hx
      · rwa [hx]
      · exact .inl hx
      · exact .inr (hx (hnkey ▸ hkey))
    cases change with
    | keep heng | restart _ heng | dropWaiter waiter heng | answer heng | resume dependent heng | shutdown heng =>
      exact hsame heng rfl rfl (.inl rfl)
    | rerun request policy hreq hp hokey heng =>
      refine hsame heng rfl rfl ?_
      -- the next request was there, or is the one of this event
      by_cases hunset : old.nextRequest.kind = .unset
      · refine .inr (.inr fun hk => ?_)
        show (mergeMaintenanceRequest old.nextRequest request).kind = kind
        rw [mergeMaintenanceRequest_of_unset hunset]
        exact maintenanceRequestPolicy_key hp (hokey ▸ hk) hkind
      · exact .inl (mergeMaintenanceRequest_kind request hunset)
    | rebuild request policy serial hreq hp hokey hidle heng =>
      exact hsame heng rfl (mergeMaintenanceRequest_kind request hset) (.inl rfl)
    | waiter request next hhand heng =>
      refine hsame heng ?_ ?_ (.inl ?_) <;> split <;> rfl
    | depend request next dependent hhand hdep heng =>
      refine hsame heng ?_ ?_ (.inl ?_) <;> unfold addDependent <;> split <;> rfl
    | again serial hidle hwaiters hdeps heng =>
      exact hsame heng rfl (mergeMaintenanceRequest_kind _ hset) (.inr (.inl rfl))

theorem mem_insertID {ids : List Nat} {n m : Nat} : n ∈ insertID ids m ↔ n ∈ ids ∨ n = m := by
  unfold insertID
  split
  · refine ⟨.inl, ?_⟩
    rintro (hmem | rfl)
    · exact hmem
    · assumption
  · simp

/-! ## §2 — A client and the run it waits for -/

/-- Somebody for whom a job works: a waiter, or a job that waits for it. -/
inductive Client
  | waiter (number : Nat)
  | dependent (job : Nat)

namespace Client

/-- The client is listed for the current run. -/
def now : Client → Engagement → Prop
  | .waiter number, x => number ∈ x.waiters
  | .dependent job, x => job ∈ x.dependents

/-- The client is listed for the run after it. -/
def later : Client → Engagement → Prop
  | .waiter number, x => number ∈ x.nextWaiters
  | .dependent job, x => job ∈ x.nextDependents

variable {z x y : Engagement}

theorem now_of_subset {c : Client} (heng : z = x) (h : c.now z)
    (hwaiters : x.waiters ⊆ y.waiters) (hdependents : x.dependents ⊆ y.dependents) : c.now y := by
  subst heng
  cases c with
  | waiter number => exact hwaiters h
  | dependent job => exact hdependents h

theorem later_of_subset {c : Client} (heng : z = x) (h : c.later z)
    (hwaiters : x.nextWaiters ⊆ y.nextWaiters) (hdependents : x.nextDependents ⊆ y.nextDependents) : c.later y := by
  subst heng
  cases c with
  | waiter number => exact hwaiters h
  | dependent job => exact hdependents h

/-- The event cannot bring the client: its number is taken, or it is not the job that returned. -/
def settled (e : SchedulerEvent) (s : SchedulerState) : Client → Prop
  | .waiter number => number ≤ s.nextWaiterID
  | .dependent job => ∀ chosen order, e ≠ .done job chosen order

end Client

/-- A checkpoint request, which forces the checkpoint if `forced`. -/
def Asks (forced : Bool) (request : MaintenanceRequest) : Prop :=
  request.kind = .checkpoint ∧ (forced = true → request.force = true)

/-- Merging keeps what was asked for. -/
theorem Asks.merge_left {forced : Bool} {current : MaintenanceRequest} (h : Asks forced current)
    (incoming : MaintenanceRequest) : Asks forced (mergeMaintenanceRequest current incoming) := by
  have hset : current.kind ≠ .unset := by simp [h.1]
  refine ⟨(mergeMaintenanceRequest_kind incoming hset).trans h.1, fun hf => ?_⟩
  simp [mergeMaintenanceRequest, hset, h.2 hf]

/-- Merging takes over what is asked for. -/
theorem Asks.merge_right {forced : Bool} (h : Asks forced incoming)
    (hkind : current.kind = .unset ∨ current.kind = .checkpoint) :
    Asks forced (mergeMaintenanceRequest current incoming) := by
  rcases hkind with hunset | hset
  · rwa [mergeMaintenanceRequest_of_unset hunset]
  · have hne : current.kind ≠ .unset := by simp [hset]
    refine ⟨(mergeMaintenanceRequest_kind incoming hne).trans hset, fun hf => ?_⟩
    simp [mergeMaintenanceRequest, hne, h.2 hf]

/-- The instance was launched after the observations `past`. -/
def StartedSince (past : List Observation) (id : Nat) (worker : MaintenanceWorker) (trace : List Observation) :
    Prop :=
  ∃ later phase, trace = later ++ past ∧ .ran id worker phase ∈ later

/-- **The client's request is met by no older run.** -/
structure Fresh (past : List Observation) (forced : Bool) (c : Client) (e : SchedulerEvent) (a : Actor) :
    Prop where
  since : ∃ later, a.state.trace = later ++ past
  arrival : (∀ request, e.requests request → Asks forced request) ∨ c.settled e a.state
  hand : a.hand.of e
  now : ∀ id job, a.state.jobs id = some job → c.now job.engagement →
    Asks forced job.request ∧ Asks forced job.worker.request ∧
      ∀ worker, a.state.active id = some worker → StartedSince past id worker a.state.trace
  later : ∀ id job, a.state.jobs id = some job → c.later job.engagement →
    job.request.kind = .checkpoint ∧ Asks forced job.nextRequest
  admitted : ∀ id request next dependent, a.hand = .admitted id request next dependent → Asks forced request →
    ∃ job, a.state.jobs id = some job ∧
      ((next = true ∧ job.runAgain = true ∧ (a.state.active id).isSome = true ∧
          job.request.kind = .checkpoint ∧ Asks forced job.nextRequest) ∨
        (next = false ∧ a.state.active id = none ∧ Asks forced job.request ∧ Asks forced job.worker.request))

namespace Fresh

variable {past : List Observation} {forced : Bool} {c : Client}

/-- A run goes on, or is launched now. -/
theorem started (h : Fresh past forced c e a) (m : Move e a b)
    (hold : ∀ worker, a.state.active id = some worker → StartedSince past id worker a.state.trace) :
    ∀ worker, b.state.active id = some worker → StartedSince past id worker b.state.trace := by
  intro worker hrun
  rcases m.running hrun with hactive | ⟨-, phase, htrace⟩
  · obtain ⟨later, phase, hlater, hmem⟩ := hold worker hactive
    obtain ⟨new, hnew⟩ := m.trace
    exact ⟨new ++ later, phase, by rw [hnew, hlater, append_assoc], mem_append_right _ hmem⟩
  · obtain ⟨later, hlater⟩ := h.since
    exact ⟨.ran id worker phase :: later, phase, by rw [htrace, hlater]; rfl, mem_cons_self⟩

theorem settled_move (hwf : WellFormed a.state) (m : Move e a b) (h : c.settled e a.state) : c.settled e b.state := by
  cases c with
  | waiter number =>
    have hle : number ≤ a.state.nextWaiterID := h
    show number ≤ b.state.nextWaiterID
    rcases m.number hwf with hn | ⟨hn, -⟩ <;> omega
  | dependent job => exact h

/-- The request in hand is the client's, if the client can come at all. -/
theorem arrives (h : Fresh past forced c e a) {target dependent : Nat} {next : Bool}
    (hhand : a.hand = .admitted target request next dependent) (hnew : ¬ c.settled e a.state)
    (hold : a.state.jobs target = some old) :
    (next = true ∧ old.runAgain = true ∧ (a.state.active target).isSome = true ∧
        old.request.kind = .checkpoint ∧ Asks forced old.nextRequest) ∨
      (next = false ∧ a.state.active target = none ∧ Asks forced old.request ∧ Asks forced old.worker.request) := by
  have hof := h.hand
  rw [hhand] at hof
  have hasks : Asks forced request := (h.arrival.resolve_right hnew) request hof.1
  obtain ⟨job, hjob, hcase⟩ := h.admitted target request next dependent hhand hasks
  obtain rfl := mem_unique hold hjob
  exact hcase

/-- A waiter that was not listed is the one that a submission brings, and is new. -/
theorem unsettled_waiter {waiters : List Nat} {keep : Nat → Bool} {number : Nat} (hnot : number ∉ waiters)
    (hmem : number ∈ waiters.filter keep ++ [a.state.nextWaiterID + 1]) :
    ¬ (Client.waiter number).settled e a.state := by
  rcases mem_append.mp hmem with hold | hnew
  · exact absurd (mem_filter.mp hold).1 hnot
  · have hnumber : number = a.state.nextWaiterID + 1 := mem_singleton.mp hnew
    show ¬ number ≤ a.state.nextWaiterID
    omega

/-- The dependent that joins a job is the one that returned. -/
theorem unsettled_dependent (h : Fresh past forced c e a) {target dependent job : Nat} {next : Bool} {ids : List Nat}
    (hhand : a.hand = .admitted target request next dependent) (hdep : dependent ≠ 0) (hnot : job ∉ ids)
    (hmem : job ∈ insertID ids dependent) : ¬ (Client.dependent job).settled e a.state := by
  obtain rfl : job = dependent := (mem_insertID.mp hmem).resolve_left hnot
  have hof := h.hand
  rw [hhand] at hof
  obtain ⟨chosen, order, he⟩ := hof.2 hdep
  exact fun hs => hs chosen order he

theorem now_move (hwf : WellFormed a.state) (h : Fresh past forced c e a) (m : Move e a b) (id : Nat)
    (new : MaintenanceJob) (hnew : b.state.jobs id = some new) (hn : c.now new.engagement) :
    Asks forced new.request ∧ Asks forced new.worker.request ∧
      ∀ worker, b.state.active id = some worker → StartedSince past id worker b.state.trace := by
  have hgoal : ∀ x : Engagement, new.engagement = x → (Asks forced x.request ∧ Asks forced x.built ∧
      ∀ worker, a.state.active id = some worker → StartedSince past id worker a.state.trace) →
      Asks forced new.request ∧ Asks forced new.worker.request ∧
        ∀ worker, b.state.active id = some worker → StartedSince past id worker b.state.trace := by
    rintro x heng ⟨hreq, hbuilt, hstarted⟩
    have hrequest : new.request = x.request := congrArg Engagement.request heng
    have hworker : new.worker.request = x.built := congrArg Engagement.built heng
    exact ⟨hrequest ▸ hreq, hworker ▸ hbuilt, h.started m hstarted⟩
  have hidle : a.state.active id = none →
      ∀ worker, a.state.active id = some worker → StartedSince past id worker a.state.trace := by
    intro hnone worker hsome
    rw [hnone] at hsome
    cases hsome
  rcases m.record hwf hnew with ⟨request, policy, -, -, -, -, heng⟩ | ⟨old, hold, change⟩
  · rw [heng] at hn
    cases c <;> cases hn
  · -- the client was listed before, except where it comes or its turn comes
    have hnow := fun (x : Engagement) (heng : new.engagement = x) hwaiters hdependents =>
      h.now id old hold (Client.now_of_subset heng hn hwaiters hdependents)
    cases change with
    | keep heng => exact hgoal _ heng (h.now id old hold (heng ▸ hn))
    | restart hnone heng =>
      obtain ⟨hreq, -, -⟩ := hnow _ heng (Subset.refl _) (Subset.refl _)
      exact hgoal _ heng ⟨hreq, hreq, hidle hnone⟩
    | rerun request policy hreq hp hkey heng =>
      exact hgoal _ heng (hnow _ heng (Subset.refl _) (Subset.refl _))
    | rebuild request policy serial hreq hp hkey hnone heng =>
      obtain ⟨hasks, -, -⟩ := hnow _ heng (Subset.refl _) (Subset.refl _)
      exact hgoal _ heng ⟨hasks.merge_left request, hasks.merge_left request, hidle hnone⟩
    | waiter request next hhand heng =>
      split at heng
      · exact hgoal _ heng (hnow _ heng (Subset.refl _) (Subset.refl _))
      · rename_i hturn
        by_cases hwas : c.now old.engagement
        · exact hgoal _ heng (h.now id old hold hwas)
        · have harrives : ¬ c.settled e a.state := by
            rw [heng] at hn
            cases c with
            | dependent job => exact absurd hn hwas
            | waiter number => exact unsettled_waiter hwas hn
          rcases h.arrives hhand harrives hold with ⟨-, hagain, hrun, -, -⟩ | ⟨-, hnone, hreq, hbuilt⟩
          · simp [hagain, hrun] at hturn
          · exact hgoal _ heng ⟨hreq, hbuilt, hidle hnone⟩
    | depend request next dependent hhand hdep heng =>
      by_cases hwas : c.now old.engagement
      · refine hgoal _ heng ?_
        unfold addDependent
        split <;> exact h.now id old hold hwas
      · have harrives : next = false ∧ ¬ c.settled e a.state := by
          rw [heng] at hn
          unfold addDependent at hn
          split at hn
          · cases c <;> exact absurd hn hwas
          · rename_i hnext
            refine ⟨by simpa using hnext, ?_⟩
            cases c with
            | waiter number => exact absurd hn hwas
            | dependent job => exact h.unsettled_dependent hhand hdep hwas hn
        rcases h.arrives hhand harrives.2 hold with ⟨hnext, -⟩ | ⟨-, hnone, hreq, hbuilt⟩
        · rw [harrives.1] at hnext
          cases hnext
        · refine hgoal _ heng ?_
          unfold addDependent
          split <;> exact ⟨hreq, hbuilt, hidle hnone⟩
    | dropWaiter waiter heng =>
      exact hgoal _ heng (hnow _ heng (filter_subset_self _) (Subset.refl _))
    | answer heng | shutdown heng =>
      exact hgoal _ heng (hnow _ heng (nil_subset _) (Subset.refl _))
    | resume dependent heng =>
      exact hgoal _ heng (hnow _ heng (Subset.refl _) erase_subset)
    | again serial hnone hwaiters hdeps heng =>
      have hwas : c.later old.engagement := by
        rw [heng] at hn
        cases c <;> exact hn
      obtain ⟨hkind, hasks⟩ := h.later id old hold hwas
      have hmerged := hasks.merge_right (.inr hkind)
      exact hgoal _ heng ⟨hmerged, hmerged, hidle hnone⟩

theorem later_move (hwf : WellFormed a.state) (h : Fresh past forced c e a) (m : Move e a b) (id : Nat)
    (new : MaintenanceJob) (hnew : b.state.jobs id = some new) (hl : c.later new.engagement) :
    new.request.kind = .checkpoint ∧ Asks forced new.nextRequest := by
  have hgoal : ∀ x : Engagement, new.engagement = x → (x.request.kind = .checkpoint ∧ Asks forced x.nextRequest) →
      new.request.kind = .checkpoint ∧ Asks forced new.nextRequest := by
    rintro x heng ⟨hkind, hasks⟩
    have hrequest : new.request = x.request := congrArg Engagement.request heng
    have hnext : new.nextRequest = x.nextRequest := congrArg Engagement.nextRequest heng
    exact ⟨hrequest ▸ hkind, hnext ▸ hasks⟩
  rcases m.record hwf hnew with ⟨request, policy, -, -, -, -, heng⟩ | ⟨old, hold, change⟩
  · rw [heng] at hl
    cases c <;> cases hl
  · have hset := hwf.job_kind id old hold
    have hlater := fun (x : Engagement) (heng : new.engagement = x) hwaiters hdependents =>
      h.later id old hold (Client.later_of_subset heng hl hwaiters hdependents)
    cases change with
    | keep heng => exact hgoal _ heng (h.later id old hold (heng ▸ hl))
    | restart hnone heng | answer heng | resume dependent heng =>
      exact hgoal _ heng (hlater _ heng (Subset.refl _) (Subset.refl _))
    | rerun request policy hreq hp hkey heng =>
      obtain ⟨hkind, hasks⟩ := hlater _ heng (Subset.refl _) (Subset.refl _)
      exact hgoal _ heng ⟨hkind, hasks.merge_left request⟩
    | rebuild request policy serial hreq hp hkey hnone heng =>
      obtain ⟨hkind, hasks⟩ := hlater _ heng (Subset.refl _) (Subset.refl _)
      exact hgoal _ heng ⟨(mergeMaintenanceRequest_kind request hset).trans hkind, hasks⟩
    | waiter request next hhand heng =>
      split at heng
      · rename_i hturn
        by_cases hwas : c.later old.engagement
        · exact hgoal _ heng (h.later id old hold hwas)
        · have harrives : ¬ c.settled e a.state := by
            rw [heng] at hl
            cases c with
            | dependent job => exact absurd hl hwas
            | waiter number => exact unsettled_waiter hwas hl
          rcases h.arrives hhand harrives hold with ⟨-, -, -, hkind, hasks⟩ | ⟨-, hnone, -, -⟩
          · exact hgoal _ heng ⟨hkind, hasks⟩
          · simp [hnone] at hturn
      · exact hgoal _ heng (hlater _ heng (Subset.refl _) (Subset.refl _))
    | depend request next dependent hhand hdep heng =>
      have hfields : (addDependent old next dependent).engagement.request = old.request ∧
          (addDependent old next dependent).engagement.nextRequest = old.nextRequest := by
        unfold addDependent
        split <;> exact ⟨rfl, rfl⟩
      refine hgoal _ heng ?_
      rw [hfields.1, hfields.2]
      by_cases hwas : c.later old.engagement
      · exact h.later id old hold hwas
      · have harrives : next = true ∧ ¬ c.settled e a.state := by
          rw [heng] at hl
          unfold addDependent at hl
          split at hl
          · rename_i hnext
            refine ⟨hnext, ?_⟩
            cases c with
            | waiter number => exact absurd hl hwas
            | dependent job => exact h.unsettled_dependent hhand hdep hwas hl
          · cases c <;> exact absurd hl hwas
        rcases h.arrives hhand harrives.2 hold with ⟨-, -, -, hkind, hasks⟩ | ⟨hnext, -⟩
        · exact ⟨hkind, hasks⟩
        · rw [harrives.1] at hnext
          cases hnext
    | dropWaiter waiter heng =>
      exact hgoal _ heng (hlater _ heng (filter_subset_self _) (Subset.refl _))
    | again serial hnone hwaiters hdeps heng =>
      rw [heng] at hl
      cases c <;> cases hl
    | shutdown heng =>
      exact hgoal _ heng (hlater _ heng (nil_subset _) (Subset.refl _))

/-- A checkpoint request that was just taken: a running job owes it another run, an idle one has a worker
for it. -/
theorem admitted_move (hkeyed : Keyed a.state) (h : Fresh past forced c e a) (m : Move e a b) :
    ∀ id request next dependent, b.hand = .admitted id request next dependent → Asks forced request →
      ∃ job, b.state.jobs id = some job ∧
        ((next = true ∧ job.runAgain = true ∧ (b.state.active id).isSome = true ∧
            job.request.kind = .checkpoint ∧ Asks forced job.nextRequest) ∨
          (next = false ∧ b.state.active id = none ∧ Asks forced job.request ∧
            Asks forced job.worker.request)) := by
  have hcheckpoint : ∀ {request : MaintenanceRequest} {policy : RequestPolicy},
      maintenanceRequestPolicy request = .ok policy → Asks forced request →
      policy.key = some .checkpoint ∧ policy.rerun = true := by
    intro request policy hp hasks
    unfold maintenanceRequestPolicy at hp
    rw [hasks.1] at hp
    cases hp
    exact ⟨rfl, rfl⟩
  induction m with
  | configure | note => exact h.admitted
  | create s hand hasked =>
    rintro id request next dependent rfl
    cases hasked
  | rerun s hand job worker hasked hp hjob hkey ha hr =>
    rintro id asked next dependent ⟨⟩ hasks
    obtain ⟨hpkey, -⟩ := hcheckpoint hp hasks
    obtain ⟨hkind, hnext⟩ := hkeyed job.id job .checkpoint .checkpoint hjob (hkey.trans hpkey) rfl
    refine ⟨_, Function.update_self .., .inl ⟨rfl, rfl, ?_, hkind, hasks.merge_right hnext⟩⟩
    exact isSome_iff_exists.mpr ⟨worker, ha⟩
  | join s hand job worker hasked hp hjob hkey ha hr =>
    rintro id asked next dependent ⟨⟩ hasks
    rw [(hcheckpoint hp hasks).2] at hr
    cases hr
  | rebuild s hand job hasked hp hjob hkey hidle =>
    rintro id asked next dependent ⟨⟩ hasks
    obtain ⟨hpkey, -⟩ := hcheckpoint hp hasks
    obtain ⟨hkind, -⟩ := hkeyed job.id job .checkpoint .checkpoint hjob (hkey.trans hpkey) rfl
    have hmerged := hasks.merge_right (.inr hkind)
    exact ⟨_, Function.update_self .., .inr ⟨rfl, hidle, hmerged, hmerged⟩⟩
  | _ => exact fun _ _ _ _ hhand => by cases hhand

/-- **No move lets an older run meet the request.** -/
theorem move (hwf : WellFormed a.state) (hkeyed : Keyed a.state) (h : Fresh past forced c e a)
    (m : Move e a b) : Fresh past forced c e b where
  since := by
    obtain ⟨later, hlater⟩ := h.since
    obtain ⟨new, hnew⟩ := m.trace
    exact ⟨new ++ later, by rw [hnew, hlater, append_assoc]⟩
  arrival := h.arrival.imp_right (settled_move hwf m)
  hand := m.hand h.hand
  now := h.now_move hwf m
  later := h.later_move hwf m
  admitted := h.admitted_move hkeyed m

end Fresh

/-! ## §3 — From the request to its completion -/

theorem reachable_keyed (h : scheduler.Reachable s) : WellFormed s ∧ Keyed s :=
  scheduler_invariant (fun a => Keyed a.state) (fun _ _ _ _ hjob => by cases hjob)
    (fun _ _ _ hwf hinv m => hinv.move hwf m) h

/-- `Fresh` between two events, where nothing can come. -/
abbrev Rests (past : List Observation) (forced : Bool) (c : Client) (s : SchedulerState) : Prop :=
  Fresh past forced c .shutdown ⟨s, .free⟩

variable {past : List Observation} {forced : Bool} {c : Client} {worker : MaintenanceWorker}

theorem Fresh.rests {e' : SchedulerEvent} (h : Fresh past forced c e ⟨s, .free⟩)
    (harrival : (∀ request, e'.requests request → Asks forced request) ∨ c.settled e' s) :
    Fresh past forced c e' ⟨s, .free⟩ :=
  ⟨h.since, harrival, trivial, h.now, h.later, fun _ _ _ _ hhand => by cases hhand⟩

/-- One event. -/
theorem Fresh.step (hreach : scheduler.Reachable s) (h : Fresh past forced c e ⟨s, .free⟩)
    (hstep : scheduler.step s e = some s') : Rests past forced c s' := by
  obtain ⟨hwf, hkeyed⟩ := reachable_keyed hreach
  have hmoved := (step_moves hwf hstep).invariant (fun a => Keyed a.state ∧ Fresh past forced c e a)
    (fun _ _ hwf hinv m => ⟨hinv.1.move hwf m, hinv.2.move hwf hinv.1 m⟩) hwf ⟨hkeyed, h⟩
  exact hmoved.2.2.rests (.inl fun _ hreq => hreq.elim)

variable {chosen : MaintenanceTransition}

/-- The wrapper of a failed dependency never returns without an error. -/
theorem built_of_accepted
    (h : (accepted job (worker.run chosen)).err = none) : ∃ serial asked, worker = .built serial asked := by
  cases worker with
  | built serial asked => exact ⟨serial, asked, rfl⟩
  | failedDependency next err =>
    unfold accepted at h
    split at h <;> cases h

/-- A run that ends without an error for the client is a checkpoint run, and a new one. -/
theorem Rests.completed (hwf : WellFormed s) (h : Rests past forced c s)
    (hjob : s.jobs id = some job) (ha : s.active id = some worker)
    (hnow : c.now job.engagement) (herr : (accepted job (worker.run chosen)).err = none) :
    ∃ serial asked, worker = .built serial asked ∧ Asks forced asked ∧ StartedSince past id worker s.trace := by
  obtain ⟨-, hbuilt, hstarted⟩ := h.now id job hjob hnow
  obtain ⟨found, hfound, hworker, -⟩ := hwf.active_job id worker ha
  obtain rfl := mem_unique hjob hfound
  obtain ⟨serial, asked, rfl⟩ := built_of_accepted herr
  rw [hworker] at hbuilt
  exact ⟨serial, asked, rfl, hbuilt, hstarted _ ha⟩

/-- **A checkpoint request is accepted for a client**: a submission takes a waiter's number, or a running
job returns with the request as its dependency and waits. -/
inductive Accepts (request : MaintenanceRequest) : Client → SchedulerState → SchedulerEvent → SchedulerState → Prop
  | waiter {s s' : SchedulerState} (hstep : scheduler.step s (.submit request true) = some s')
      (hnumber : s'.nextWaiterID = s.nextWaiterID + 1) :
      Accepts request (.waiter (s.nextWaiterID + 1)) s (.submit request true) s'
  | dependent {s s' : SchedulerState} {job : Nat} {chosen : MaintenanceTransition} {order : List Nat}
      (hrunning : s.active job ≠ none) (hdep : chosen.dependency = some request)
      (hstep : scheduler.step s (.done job chosen order) = some s') (hwaits : Waits s' job) :
      Accepts request (.dependent job) s (.done job chosen order) s'

theorem Accepts.step (h : Accepts request c s e s') : scheduler.step s e = some s' := by
  cases h with
  | waiter hstep | dependent _ _ hstep => exact hstep

/-- The client has not been served yet. -/
def Client.unserved : Client → SchedulerState → Prop
  | .waiter number, s => ¬ Answered s number
  | .dependent job, s => Waits s job

/-- The event serves the client without an error: a nil completion for the waiter, or the end, without an
error, of the run that lists the waiting job. -/
def Client.served (s : SchedulerState) (e : SchedulerEvent) (s' : SchedulerState) (owner : Nat) : Client → Prop
  | .waiter number => (owner, number, none) ∈ s'.completions
  | .dependent waiting => ∃ worker job chosen order, e = .done owner chosen order ∧ s.active owner = some worker ∧
      s.jobs owner = some job ∧ completes s job worker chosen = true ∧ waiting ∈ job.dependents ∧
      (accepted job (worker.run chosen)).err = none

/-- The client is new when its request comes. -/
theorem Accepts.fresh (hreach : scheduler.Reachable s) (hkind : request.kind = .checkpoint)
    (h : Accepts request c s e s') : Fresh s.trace request.force c e ⟨s, .free⟩ := by
  cases h with
  | waiter hstep hnumber =>
    obtain ⟨-, htickets⟩ := scheduler_invariant (fun a => Tickets a.state) Tickets.initial
      (fun _ _ _ hwf hinv m => hinv.move hwf m) hreach
    have hnone : ∀ id job, s.jobs id = some job → s.nextWaiterID + 1 ∉ job.allWaiters := by
      intro id job hjob hmem
      have hle : s.nextWaiterID + 1 ≤ s.nextWaiterID := htickets.sits_bound _ id ⟨job, hjob, hmem⟩
      omega
    refine ⟨⟨[], rfl⟩, .inl ?_, trivial, ?_, ?_, fun _ _ _ _ hhand => by cases hhand⟩
    · rintro asked rfl
      exact ⟨hkind, id⟩
    · exact fun id job hjob hn => absurd (mem_append_left _ hn) (hnone id job hjob)
    · exact fun id job hjob hl => absurd (mem_append_right _ hl) (hnone id job hjob)
  | @dependent _ _ waiting chosen order hrunning hdep =>
    obtain ⟨hwf, hlinked⟩ := scheduler_invariant Linked Linked.initial
      (fun _ _ _ hwf hinv m => hinv.move hwf m) hreach
    have hnone : ∀ owner, ¬ Lists s owner waiting := by
      intro owner hlists
      obtain ⟨worker, hworker⟩ := ne_none_iff_exists'.mp hrunning
      exact hwf.active_not_waits hworker (hlinked.waits owner waiting hlists)
    refine ⟨⟨[], rfl⟩, .inl ?_, trivial, ?_, ?_, fun _ _ _ _ hhand => by cases hhand⟩
    · intro asked hasked
      obtain rfl := mem_unique hdep hasked
      exact ⟨hkind, id⟩
    · exact fun owner job hjob hn => absurd ⟨job, hjob, mem_append_left _ hn⟩ (hnone owner)
    · exact fun owner job hjob hl => absurd ⟨job, hjob, mem_append_right _ hl⟩ (hnone owner)

/-- The client's number has been given out, as long as it waits. -/
def Client.known : Client → SchedulerState → Prop
  | .waiter number, s => number ≤ s.nextWaiterID
  | .dependent job, s => Waits s job

theorem Accepts.known (h : Accepts request c s e s') : c.known s' := by
  cases h with
  | waiter hstep hnumber => exact Nat.le_of_eq hnumber.symm
  | dependent hrunning hdep hstep hwaits => exact hwaits

/-- While the client waits, no event brings it again. -/
theorem Rests.step (hreach : scheduler.Reachable s) (h : Rests past forced c s) (hknown : c.known s)
    (hstep : scheduler.step s e = some s') : Rests past forced c s' := by
  cases c with
  | waiter number => exact (h.rests (.inr hknown)).step hreach hstep
  | dependent waiting =>
    by_cases hown : ∃ chosen order, e = .done waiting chosen order
    · -- it is not running, so the event is not about it
      obtain ⟨chosen, order, rfl⟩ := hown
      have hidle : s.active waiting = none := by
        refine eq_none_iff_forall_ne_some.mpr fun worker hworker => ?_
        exact (reachable_keyed hreach).1.active_not_waits hworker hknown
      have hsame : s.handle (.done waiting chosen order) = some s := by simp [handle, hidle]
      simp only [scheduler, hsame] at hstep
      split at hstep <;> cases hstep
      exact h
    · exact (h.rests (.inr fun chosen order he => hown ⟨chosen, order, he⟩)).step hreach hstep

/-- A client stays known until it is served. -/
theorem known_step (hreach : scheduler.Reachable s) (hknown : c.known s) (hunserved : c.unserved s')
    (hstep : scheduler.step s e = some s') : c.known s' := by
  cases c with
  | waiter number => exact Nat.le_trans hknown (step_number (reachable_keyed hreach).1 hstep)
  | dependent waiting => exact hunserved

/-- The completions of one event, seen by a waiter that got no error. -/
theorem answered_done {owner number : Nat} (h : (owner, number, none) ∈ answersOf s e) :
    ∃ worker job chosen order, e = .done owner chosen order ∧ s.active owner = some worker ∧
      s.jobs owner = some job ∧ completes s job worker chosen = true ∧ number ∈ job.waiters ∧
      (accepted job (worker.run chosen)).err = none := by
  unfold answersOf at h
  split at h
  · rename_i target chosen order
    split at h
    · rename_i worker job ha hjob
      split at h
      · rename_i hcompletes
        obtain ⟨waiter, hmem, heq⟩ := mem_map.mp h
        simp only [Prod.mk.injEq] at heq
        obtain ⟨rfl, rfl, herr⟩ := heq
        exact ⟨worker, job, chosen, order, rfl, ha, hjob, hcompletes, hmem, herr⟩
      · cases h
    · cases h
  · -- shutdown answers with an error
    obtain ⟨target, -, hmem⟩ := mem_flatMap.mp h
    split at hmem
    · cases hmem
    · obtain ⟨waiter, -, heq⟩ := mem_map.mp hmem
      simp at heq
  · cases h

/-- **Who serves a client.**  The event is the end, without an error, of a run that lists it. -/
theorem Client.served.done {owner : Nat} (hwf : WellFormed s) (hstep : scheduler.step s e = some s')
    (hunserved : c.unserved s) (h : c.served s e s' owner) :
    ∃ worker job chosen order, e = .done owner chosen order ∧ s.active owner = some worker ∧
      s.jobs owner = some job ∧ completes s job worker chosen = true ∧ c.now job.engagement ∧
      (accepted job (worker.run chosen)).err = none := by
  cases c with
  | dependent waiting => exact h
  | waiter number =>
    have hmem : (owner, number, none) ∈ s'.completions := h
    rw [step_completions hwf hstep] at hmem
    rcases mem_append.mp hmem with hold | hnew
    · exact absurd (mem_map.mpr ⟨_, hold, rfl⟩) hunserved
    · exact answered_done hnew

/-- A run that serves the client is a checkpoint run, built for its request and launched after it. -/
theorem Rests.served {owner : Nat} (hreach : scheduler.Reachable s) (h : Rests past forced c s)
    (hstep : scheduler.step s e = some s') (hunserved : c.unserved s) (hserved : c.served s e s' owner) :
    ∃ chosen order serial asked, e = .done owner chosen order ∧ s.active owner = some (.built serial asked) ∧
      Asks forced asked ∧ StartedSince past owner (.built serial asked) s.trace := by
  have hwf := (reachable_keyed hreach).1
  obtain ⟨worker, job, chosen, order, rfl, ha, hjob, -, hnow, herr⟩ := hserved.done hwf hstep hunserved
  obtain ⟨serial, asked, rfl, hasks, hstarted⟩ := h.completed hwf hjob ha hnow herr
  exact ⟨chosen, order, serial, asked, rfl, ha, hasks, hstarted⟩

/-- A run of the scheduler through which the client waits. -/
theorem Rests.exec (hreach : scheduler.Reachable s) (h : Rests past forced c s) (hknown : c.known s)
    (hrun : scheduler.exec s es = some t)
    (hunserved : ∀ before after u, es = before ++ after → scheduler.exec s before = some u → c.unserved u) :
    Rests past forced c t := by
  induction es generalizing s with
  | nil =>
    cases hrun
    exact h
  | cons e es ih =>
    obtain ⟨u, hstep, hrest⟩ := bind_eq_some_iff.mp hrun
    have hahead : ∀ before v, scheduler.exec u before = some v → scheduler.exec s (e :: before) = some v :=
      fun before v hv => bind_eq_some_iff.mpr ⟨u, hstep, hv⟩
    have hu : c.unserved u := hunserved [e] es u rfl (hahead [] u rfl)
    refine ih (.next hreach trivial hstep) (h.step hreach hknown hstep) (known_step hreach hknown hu hstep) hrest ?_
    intro before after v hes hv
    exact hunserved (e :: before) after v (by rw [hes]; rfl) (hahead before v hv)

end Ridstore.Engine
