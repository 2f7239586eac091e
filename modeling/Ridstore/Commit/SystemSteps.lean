import Ridstore.Commit.System

/-
# Ridstore.Commit.SystemSteps — what a step of the callers and of the coordinator can do

Every step in one of a few forms, with the facts that the code has checked on the way.  The invariants are
derived from these forms; nothing below them unfolds a step again.
-/

namespace Ridstore.Commit

open Option

open RecordLog (LogPos)
open Mapping (Ledger GroupPlan)
open Transaction (Batch Limits Prepared)

variable {config : Config} {limits : Limits} {s s' : System}

/-! ## §1 — The callers -/

namespace System

/-- The state with another ledger. -/
def withLedger (s : System) (ledger : Ledger) : System := { s with shared := { s.shared with ledger := ledger } }

/-- A caller that may enter: a submission of an open batch or a valid relocation. -/
def Enters (s : System) : Admission → Prop
  | .reserved ticket batch => ticket = s.issued ∧ (s.shared.batches batch).state = .opened
  | .ready r => r.ticket = s.issued ∧ ∃ relocation, r.work = .relocation relocation

/-- **The steps of the callers.** -/
inductive Acts (config : Config) (limits : Limits) (s : System) : System → Prop
  | call (batch : Nat) (c : Batch.Call) :
      Acts config limits s
        { s with shared := s.shared.setBatch batch ((s.shared.batches batch).call limits c) }
  | enter (a : Admission) (entries : Nat) (ledger : Ledger) (hfence : s.fence = none) (henters : s.Enters a)
      (hreserve : s.shared.ledger.reserve s.issued entries = .ok ledger) :
      Acts config limits s
        { s.withLedger ledger with issued := s.issued + 1, admitting := s.admitting ++ [a] }
  | prepare (ticket batch : Nat) (b : Batch) (prepared : Prepared)
      (hmem : .reserved ticket batch ∈ s.admitting)
      (hprepare : (s.shared.batches batch).prepare = (b, .ok prepared)) :
      Acts config limits s
        { s with
          shared := s.shared.setBatch batch b
          admitting := s.admitting.filter (fun a => a.ticket ≠ ticket) ++
            [.ready ⟨ticket, .commit batch prepared⟩] }
  | unprepared (ticket batch : Nat) (b : Batch) (err : StoreError)
      (hmem : .reserved ticket batch ∈ s.admitting)
      (hprepare : (s.shared.batches batch).prepare = (b, .error err)) :
      Acts config limits s { s.leave ticket with shared := (s.shared.release ticket).setBatch batch b }
  | withdrawCommit (ticket batch : Nat) (prepared : Prepared)
      (hmem : .ready ⟨ticket, .commit batch prepared⟩ ∈ s.admitting) :
      Acts config limits s
        { s.leave ticket with
          shared := (s.shared.release ticket).setBatch batch (s.shared.batches batch).markAborted.1 }
  | withdrawRelocation (ticket : Nat) (r : Relocation) (hmem : .ready ⟨ticket, .relocation r⟩ ∈ s.admitting) :
      Acts config limits s { s.leave ticket with shared := s.shared.release ticket }
  | enqueue (r : Request) (hmem : .ready r ∈ s.admitting) (hadmits : s.admits config) :
      Acts config limits s ((s.leave r.ticket).push (.request r))
  | barrier (hfree : s.unlocked) (hadmits : s.admits config) :
      Acts config limits s { s.pushCommand .barrier with fence := some (.checkpoint s.issued) }
  | install (table : Redirects) (hvalid : table.Valid) (hadmits : s.admits config) :
      Acts config limits s (s.pushCommand (.redirect ⟨table, 0⟩))
  | release (generation : Nat) (hgranted : s.granted generation) (hfree : s.unlocked) (hadmits : s.admits config) :
      Acts config limits s (s.pushCommand (.redirect ⟨[], generation⟩))
  | unfence : Acts config limits s { s with fence := none }
  | close (hfree : s.unlocked) (hopen : s.coordinator.closed = false) :
      Acts config limits s
        { s with coordinator := { s.coordinator with closed := true }, fence := some .closing }
  | discharge (bytes : Nat) : Acts config limits s (s.withLedger (s.shared.ledger.discharge bytes))

theorem enter_eq_some {entries : Nat} {a : Admission} (h : s.enter entries a = some s') (henters : s.Enters a) :
    s.Acts config limits s' := by
  obtain ⟨hfence, h⟩ := ite_none_right_eq_some.mp h
  split at h
  next => cases h
  next ledger hreserve =>
    cases h
    exact .enter a entries ledger hfence henters hreserve

theorem submit_eq_some {batch entries : Nat} (h : s.submit batch entries = some s') : s.Acts config limits s' := by
  simp only [submit] at h
  split at h
  next => cases h
  next ids hids =>
    obtain ⟨-, h⟩ := ite_none_right_eq_some.mp h
    have hopen : (s.shared.batches batch).state = .opened := Batch.mutationIDs_eq_ok hids
    exact enter_eq_some h ⟨rfl, hopen⟩

variable {ticket : Nat}

theorem admission_eq_some {a : Admission} (h : s.admission ticket = some a) :
    a ∈ s.admitting ∧ a.ticket = ticket := by
  have hfound := List.find?_some h
  exact ⟨List.mem_of_find?_eq_some h, of_decide_eq_true hfound⟩

theorem prepare_eq_some (h : s.prepare ticket = some s') : s.Acts config limits s' := by
  simp only [prepare] at h
  split at h
  next ticket' batch hadm =>
    obtain ⟨hmem, rfl⟩ := admission_eq_some hadm
    split at h
    next b prepared hprep =>
      cases h
      exact .prepare _ batch b prepared hmem hprep
    next b err hprep =>
      cases h
      exact .unprepared _ batch b err hmem hprep
  next => cases h

theorem relocate_eq_some {r : Relocation} {entries : Nat} (h : s.relocate r entries = some s') :
    s.Acts config limits s' := by
  obtain ⟨-, h⟩ := ite_none_right_eq_some.mp h
  exact enter_eq_some h ⟨rfl, r, rfl⟩

theorem withdraw_eq_some (h : s.withdraw ticket = some s') : s.Acts config limits s' := by
  simp only [withdraw] at h
  split at h
  next ticket' batch prepared hadm =>
    obtain ⟨hmem, rfl⟩ := admission_eq_some hadm
    cases h
    exact .withdrawCommit _ batch prepared hmem
  next ticket' r hadm =>
    obtain ⟨hmem, rfl⟩ := admission_eq_some hadm
    cases h
    exact .withdrawRelocation _ r hmem
  next => cases h

theorem enqueue_eq_some (h : s.enqueue config ticket = some s') : s.Acts config limits s' := by
  simp only [enqueue] at h
  split at h
  next r hadm =>
    obtain ⟨hmem, rfl⟩ := admission_eq_some hadm
    obtain ⟨hadmits, h⟩ := ite_none_right_eq_some.mp h
    cases h
    exact .enqueue r hmem hadmits
  next => cases h

theorem unfence_eq_some (h : s.unfence = some s') : s.Acts config limits s' := by
  simp only [unfence] at h
  split at h
  next =>
    obtain ⟨-, h⟩ := ite_none_right_eq_some.mp h
    cases h
    exact .unfence
  next =>
    obtain ⟨-, h⟩ := ite_none_right_eq_some.mp h
    cases h
    exact .unfence
  next => cases h

/-- **Every step of a caller has one of the forms.** -/
theorem act_cases {a : Action} (h : s.act config limits a = some s') : s.Acts config limits s' := by
  cases a with
  | call batch c =>
    cases h
    exact .call batch c
  | submit batch entries => exact submit_eq_some h
  | prepare ticket => exact prepare_eq_some h
  | relocate r entries => exact relocate_eq_some h
  | withdraw ticket => exact withdraw_eq_some h
  | enqueue ticket => exact enqueue_eq_some h
  | barrier =>
    obtain ⟨hok, heq⟩ := ite_none_right_eq_some.mp h
    cases heq
    exact .barrier hok.1 hok.2
  | unfence => exact unfence_eq_some h
  | install table =>
    obtain ⟨hok, heq⟩ := ite_none_right_eq_some.mp h
    cases heq
    exact .install table hok.1 hok.2
  | release generation =>
    obtain ⟨hok, heq⟩ := ite_none_right_eq_some.mp h
    cases heq
    exact .release generation hok.1 hok.2.1 hok.2.2
  | close =>
    obtain ⟨hok, heq⟩ := ite_none_right_eq_some.mp h
    cases heq
    exact .close hok.1 hok.2
  | discharge bytes =>
    cases h
    exact .discharge bytes

/-! ## §2 — The coordinator -/

/-- The state with another control state of the coordinator. -/
def withControl (s : System) (control : Control) : System :=
  { s with coordinator := { s.coordinator with control := control } }

/-- The state after an element was taken from the queue. -/
def take (s : System) (rest : List Queued) (control : Control) : System :=
  { s with coordinator := { s.coordinator with queue := rest, control := control } }

/-- The state with a fault, unless it has one already. -/
def failed (s : System) (cause : Cause) : System := { s with coordinator := s.coordinator.fail cause }

/-- **The steps of the coordinator.** -/
inductive Turns (config : Config) (s : System) : System → Prop
  | exit (hcontrol : s.coordinator.control = .idle) (hqueue : s.coordinator.queue = [])
      (hclosed : s.coordinator.closed = true) : Turns config s (s.withControl .exited)
  | serve (ticket : Nat) (c : Command) (rest : List Queued) (hcontrol : s.coordinator.control = .idle)
      (hqueue : s.coordinator.queue = .command ticket c :: rest) :
      Turns config s (s.take rest (.serving ticket c))
  | reject (r : Request) (rest : List Queued) (cause : Cause) (hcontrol : s.coordinator.control = .idle)
      (hqueue : s.coordinator.queue = .request r :: rest) :
      Turns config s (s.take rest (.completing [(r, .failure cause false false)] .loop))
  | start (r : Request) (rest : List Queued) (bytes : Nat) (hcontrol : s.coordinator.control = .idle)
      (hqueue : s.coordinator.queue = .request r :: rest) (halone : Coordinator.alone config r = .ok bytes) :
      Turns config s (s.take rest (.collecting [r] bytes))
  | collectExit (group : List Request) (bytes : Nat) (hcontrol : s.coordinator.control = .collecting group bytes)
      (hqueue : s.coordinator.queue = []) (hclosed : s.coordinator.closed = true) :
      Turns config s (s.withControl (.processing group .exit))
  | collectServe (group : List Request) (bytes ticket : Nat) (c : Command) (rest : List Queued)
      (hcontrol : s.coordinator.control = .collecting group bytes)
      (hqueue : s.coordinator.queue = .command ticket c :: rest) :
      Turns config s (s.take rest (.processing group (.serve ticket c)))
  | collectReject (group : List Request) (bytes : Nat) (r : Request) (rest : List Queued) (cause : Cause)
      (hcontrol : s.coordinator.control = .collecting group bytes)
      (hqueue : s.coordinator.queue = .request r :: rest) :
      Turns config s (s.take rest (.completing [(r, .failure cause false false)] (.collect group bytes)))
  | overflow (group : List Request) (bytes : Nat) (r : Request) (rest : List Queued) (single : Nat)
      (hcontrol : s.coordinator.control = .collecting group bytes)
      (hqueue : s.coordinator.queue = .request r :: rest) (halone : Coordinator.alone config r = .ok single) :
      Turns config s (s.take rest (.processing group (.collect [r] single)))
  | collect (group : List Request) (bytes : Nat) (r : Request) (rest : List Queued) (single : Nat)
      (hcontrol : s.coordinator.control = .collecting group bytes)
      (hlength : group.length < config.maxGroupBatches)
      (hqueue : s.coordinator.queue = .request r :: rest) (halone : Coordinator.alone config r = .ok single)
      (hfits : bytes ≤ config.maxGroupPayload - (single - RecordCodec.commitGroupHeadSize)) :
      Turns config s
        (s.take rest (.collecting (group ++ [r]) (bytes + (single - RecordCodec.commitGroupHeadSize))))
  | stop (group : List Request) (bytes : Nat) (hcontrol : s.coordinator.control = .collecting group bytes) :
      Turns config s (s.withControl (.processing group .loop))
  | refuse (group refused : List Request) (after : After) (cause : Cause) (fault : Option Cause)
      (hcontrol : s.coordinator.control = .processing group after)
      (hrefused : refused = group ∨ refused = s.coordinator.active group)
      (hfault : fault = s.coordinator.fault ∨ s.coordinator.fault = none ∧ fault ≠ none) :
      Turns config s
        { s with
          coordinator := { s.coordinator with
            fault := fault
            control := .completing (Coordinator.rejectGroup refused cause) after }
          groups := s.groups ++ [⟨group, []⟩] }
  | assign (group : List Request) (after : After) (plan : GroupPlan) (entries : List Entry) (next : Nat)
      (hcontrol : s.coordinator.control = .processing group after) (hfault : s.coordinator.fault = none)
      (hplan : plan.proposals.length = group.length)
      (hassign : Coordinator.assignSequences s.coordinator.next
        ((s.coordinator.active group).zip plan.proposals) = some (entries, next))
      (hencode : RecordCodec.encodeCommitGroup (descriptors entries) config.maxGroupPayload = .ok ())
      (hresolve : ∃ view : Mapping.View,
        view.resolveGroup ((s.coordinator.active group).map Request.proposal) = .ok plan) :
      Turns config s
        { s.withControl (.appending ⟨plan, entries, next⟩ after) with
          groups := s.groups ++ [⟨group, Commit.accepted entries⟩] }
  | appendFailed (job : Job) (after : After) (cause : Cause) (poisoned : Bool)
      (hcontrol : s.coordinator.control = .appending job after) :
      Turns config s
        ((s.failed cause).withControl
          (.completing (Coordinator.verdicts job.entries fun _ => .failure cause poisoned true) after))
  | append (job : Job) (after : After) (hcontrol : s.coordinator.control = .appending job after) :
      Turns config s (s.withControl (.publishing job after))
  | publishFailed (job : Job) (after : After) (cause : Cause) (ledger : Ledger)
      (hcontrol : s.coordinator.control = .publishing job after)
      (hledger : ledger = s.shared.ledger ∨ ledger = (settleReservations s.shared.ledger 0 job.entries).1) :
      Turns config s
        (((s.failed cause).withControl
          (.completing (Coordinator.verdicts job.entries fun _ => .failure cause true true) after)).withLedger
          ledger)
  | publish (job : Job) (after : After) (ledger : Ledger)
      (hcontrol : s.coordinator.control = .publishing job after)
      (hledger : settleReservations s.shared.ledger 0 job.entries = (ledger, .ok ())) :
      Turns config s
        ({ s with
          coordinator := { s.coordinator with
            next := job.next
            control := .completing
              (Coordinator.verdicts job.entries fun e => .success e.seq e.resolved) after } }.withLedger ledger)
  | complete (r : Request) (verdict : Verdict) (todo : List (Request × Verdict)) (after : After)
      (fault : Option Cause) (hcontrol : s.coordinator.control = .completing ((r, verdict) :: todo) after)
      (hfault : fault = s.coordinator.fault ∨ s.coordinator.fault = none ∧ fault ≠ none) :
      Turns config s
        { s with
          coordinator := { s.coordinator with fault := fault, control := .completing todo after }
          shared := (s.shared.complete r verdict).1 }
  | resume (after : After) (hcontrol : s.coordinator.control = .completing [] after) :
      Turns config s (s.withControl after.control)
  | checkpoint (ticket covered : Nat) (outcome : Except Cause LogPos)
      (hcontrol : s.coordinator.control = .serving ticket .barrier) :
      Turns config s (s.answer ticket (s.coordinator.processCheckpoint covered outcome))
  | redirect (ticket : Nat) (command : RedirectRequest)
      (hcontrol : s.coordinator.control = .serving ticket (.redirect command)) :
      Turns config s (s.answer ticket (s.coordinator.processRedirect command))

section Inversion

variable {c : Coordinator}

theorem receive_eq_some (h : s.coordinator.receive config = some c) : s.Turns config { s with coordinator := c } := by
  simp only [Coordinator.receive] at h
  split at h
  next hcontrol =>
    simp only [Coordinator.receiveFirst] at h
    split at h
    next hqueue =>
      obtain ⟨hclosed, heq⟩ := ite_none_right_eq_some.mp h
      cases heq
      exact .exit hcontrol hqueue hclosed
    next ticket command rest hqueue =>
      cases h
      exact .serve ticket command rest hcontrol hqueue
    next r rest hqueue =>
      split at h
      next cause halone =>
        cases h
        exact .reject r rest cause hcontrol hqueue
      next bytes halone =>
        cases h
        exact .start r rest bytes hcontrol hqueue halone
  next group bytes hcontrol =>
    obtain ⟨hlength, h⟩ := ite_none_left_eq_some.mp h
    split at h
    next hqueue =>
      obtain ⟨hclosed, heq⟩ := ite_none_right_eq_some.mp h
      cases heq
      exact .collectExit group bytes hcontrol hqueue hclosed
    next ticket command rest hqueue =>
      cases h
      exact .collectServe group bytes ticket command rest hcontrol hqueue
    next r rest hqueue =>
      split at h
      next cause halone =>
        cases h
        exact .collectReject group bytes r rest cause hcontrol hqueue
      next single halone =>
        split at h
        next =>
          cases h
          exact .overflow group bytes r rest single hcontrol hqueue halone
        next hfits =>
          cases h
          exact .collect group bytes r rest single hcontrol (Nat.lt_of_not_le hlength) hqueue halone
            (Nat.le_of_not_lt hfits)
  next => cases h

theorem stopCollecting_eq_some (h : s.coordinator.stopCollecting config = some c) :
    s.Turns config { s with coordinator := c } := by
  simp only [Coordinator.stopCollecting] at h
  split at h
  next group bytes hcontrol =>
    obtain ⟨_, heq⟩ := ite_none_right_eq_some.mp h
    cases heq
    exact .stop group bytes hcontrol
  next => cases h

/-- A fault that is recorded is the first one, or nothing changes. -/
theorem fail_fault (c : Coordinator) (cause : Cause) :
    (c.fail cause).fault = c.fault ∨ c.fault = none ∧ (c.fail cause).fault ≠ none := by
  cases hfault : c.fault with
  | none =>
    refine .inr ⟨rfl, ?_⟩
    simp only [Coordinator.fail, hfault, none_or, ne_eq, reduceCtorEq, not_false_eq_true]
  | some fault => exact .inl (by simp only [Coordinator.fail, hfault, some_or])

theorem resolve_eq_ok {mapping : Except Cause Mapping.View} {group : List Request} {plan : GroupPlan}
    (h : c.resolve group mapping = .ok plan) :
    ∃ view : Mapping.View, view.resolveGroup ((c.active group).map Request.proposal) = .ok plan := by
  unfold Coordinator.resolve at h
  split at h
  · cases h
  next view =>
    split at h
    · cases h
    next hview =>
      cases h
      exact ⟨view, hview⟩

theorem active_length (c : Coordinator) (group : List Request) : (c.active group).length = group.length := by
  rw [Coordinator.active, List.length_map]
  exact (List.filter_append_perm Request.isUser group).length_eq

/-- A plan has a resolution for every request of the group. -/
theorem length_plan {mapping : Except Cause Mapping.View} {group : List Request} {plan : GroupPlan}
    (h : c.resolve group mapping = .ok plan) : plan.proposals.length = group.length := by
  obtain ⟨view, hview⟩ := resolve_eq_ok h
  rw [(Mapping.View.resolveGroup_resolves hview).1.length_eq, List.length_map, active_length]

theorem process_eq_some {mapping : Except Cause Mapping.View} (h : s.process config mapping = some s') :
    s.Turns config s' := by
  simp only [process] at h
  split at h
  next group after hcontrol =>
    cases h
    simp only [Coordinator.process]
    split
    next fault hfault => exact .refuse group group after _ _ hcontrol (.inl rfl) (.inl rfl)
    next hfault =>
      split
      next cause _ => exact .refuse group _ after cause _ hcontrol (.inr rfl) (fail_fault _ cause)
      next plan hresolve =>
        have hplan := length_plan hresolve
        split
        next => exact .refuse group _ after _ _ hcontrol (.inr rfl) (.inl rfl)
        next entries next hassign =>
          split
          next => exact .refuse group _ after _ _ hcontrol (.inr rfl) (.inl rfl)
          next =>
            split
            next err _ => exact .refuse group _ after [err] _ hcontrol (.inr rfl) (fail_fault _ _)
            next hencode =>
              exact .assign group after plan entries next hcontrol hfault hplan hassign hencode (resolve_eq_ok hresolve)
  next => cases h

theorem appended_eq_some {outcome : Except Cause Unit} {poisoned : Bool}
    (h : s.appended outcome poisoned = some s') : s.Turns config s' := by
  simp only [appended] at h
  split at h
  next job after hcontrol =>
    cases h
    cases outcome with
    | error cause => exact .appendFailed job after cause poisoned hcontrol
    | ok _ => exact .append job after hcontrol
  next => cases h

/-- A publication is accepted with the expected result only. -/
theorem published_cases (job : Job) (after : After) (outcome : Except Cause Coordinator.PublishResult) :
    (∃ cause, c.published job after outcome =
        (c.fail cause).complete (Coordinator.verdicts job.entries fun _ => .failure cause true true) after) ∨
      c.published job after outcome = { c with next := job.next }.complete
        (Coordinator.verdicts job.entries fun e => .success e.seq e.resolved) after := by
  cases outcome with
  | error cause => exact .inl ⟨cause, rfl⟩
  | ok result =>
    by_cases hresult : result = Coordinator.expectedResult job.entries
    · refine .inr ?_
      simp only [Coordinator.published, hresult, if_true]
    · refine .inl ⟨[.corrupt], ?_⟩
      simp only [Coordinator.published, hresult, if_false]

theorem published_eq_some {early : Option Cause} {outcome : Except Cause Coordinator.PublishResult}
    (h : s.published early outcome = some s') : s.Turns config s' := by
  simp only [published] at h
  split at h
  next job after hcontrol =>
    split at h
    next cause =>
      cases h
      exact .publishFailed job after cause _ hcontrol (.inl rfl)
    next =>
      split at h
      next ledger cause hsettle =>
        cases h
        exact .publishFailed job after cause ledger hcontrol (.inr (by rw [hsettle]))
      next ledger _ hsettle =>
        cases h
        rcases published_cases (c := s.coordinator) job after outcome with ⟨cause, heq⟩ | heq
        · rw [heq]
          exact .publishFailed job after cause ledger hcontrol (.inr (by rw [hsettle]))
        · rw [heq]
          exact .publish job after ledger hcontrol hsettle
  next => cases h

theorem complete_eq_some (h : s.complete = some s') : s.Turns config s' := by
  simp only [complete] at h
  split at h
  next after hcontrol =>
    cases h
    exact .resume after hcontrol
  next r verdict todo after hcontrol =>
    split at h
    next =>
      cases h
      exact .complete r verdict todo after _ hcontrol (.inl rfl)
    next cause _ =>
      cases h
      exact .complete r verdict todo after _ hcontrol (fail_fault _ cause)
  next => cases h

end Inversion

/-- **Every step of the coordinator has one of the forms.** -/
theorem turn_cases {t : Turn} (h : s.turn config t = some s') : s.Turns config s' := by
  cases t with
  | receive =>
    obtain ⟨c, hc, rfl⟩ := map_eq_some_iff.mp h
    exact receive_eq_some hc
  | stopCollecting =>
    obtain ⟨c, hc, rfl⟩ := map_eq_some_iff.mp h
    exact stopCollecting_eq_some hc
  | process resolved => exact process_eq_some h
  | appended outcome poisoned => exact appended_eq_some h
  | published early outcome => exact published_eq_some h
  | complete => exact complete_eq_some h
  | checkpoint covered outcome =>
    simp only [turn, checkpoint] at h
    split at h
    next ticket hcontrol =>
      cases h
      exact .checkpoint ticket covered outcome hcontrol
    next => cases h
  | redirect =>
    simp only [turn, redirect] at h
    split at h
    next ticket command hcontrol =>
      cases h
      exact .redirect ticket command hcontrol
    next => cases h

end System

end Ridstore.Commit
