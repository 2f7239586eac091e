import Ridstore.Commit.Outcomes

/-
# Ridstore.Commit.OutcomeSteps — the steps of the commits, as far as the log is concerned

What a caller can do to a batch, where a new request comes from, and the few turns of the coordinator that
have to do with a record: the group is given its sequences, its append returns, it is published, and its
requests are answered.
-/

namespace Ridstore.Commit

open Function List
open Transaction (Batch Limits Prepared)

variable {config : Config} {limits : Limits} {s s' : System}

/-! ## §1 — What the callers do to the batches -/

/-- A batch before and after a step of the callers. -/
structure BatchStep (b b' : Batch) : Prop where
  id : b'.id = b.id
  untouched : b'.untouched → b.untouched
  ended : ¬ b.untouched → b' = b ∨ b.state = .committing ∧ b'.state = .aborted

theorem BatchStep.refl (b : Batch) : BatchStep b b := ⟨rfl, fun h => h, fun _ => .inl rfl⟩

variable {batch : Nat}

theorem BatchStep.update {batches : Nat → Batch} {b : Batch} (h : BatchStep (batches batch) b) (n : Nat) :
    BatchStep (batches n) (update batches batch b n) := by
  by_cases heq : n = batch
  · subst heq
    rw [update_self]
    exact h
  · rw [update_of_ne heq]
    exact BatchStep.refl _

theorem BatchStep.call (b : Batch) (c : Batch.Call) : BatchStep b (b.call limits c) where
  id := b.call_id c
  untouched := Batch.untouched_of_call c
  ended := fun h => .inl (Batch.call_of_ne (fun ho => h (.inl ho)) (fun hf => h (.inr hf)) c)

theorem BatchStep.markAborted (b : Batch) : BatchStep b b.markAborted.1 := by
  by_cases hstate : b.state = .committing
  · have hmark : b.markAborted = (b.ended .aborted, .ok ()) := Batch.markTerminal_of_committing hstate _
    rw [hmark]
    refine ⟨rfl, fun h => ?_, fun _ => .inr ⟨hstate, rfl⟩⟩
    rcases h with h | h <;> cases h
  · have hmark : b.markAborted.1 = b := by
      rw [Batch.markAborted, Batch.markTerminal, if_neg hstate]
    rw [hmark]
    exact BatchStep.refl b

theorem System.Acts.batchStep (h : s.Acts config limits s') (n : Nat) :
    BatchStep (s.shared.batches n) (s'.shared.batches n) := by
  cases h with
  | call batch c => exact (BatchStep.call _ c).update n
  | prepare ticket batch b prepared hmem hprepare =>
    obtain ⟨hopen, hb, -⟩ := Batch.prepare_eq_ok hprepare
    have hstep : BatchStep (s.shared.batches batch) b := by
      refine ⟨by rw [hb], fun hun => ?_, fun hne => absurd (.inl hopen) hne⟩
      rw [hb] at hun
      rcases hun with hun | hun <;> cases hun
    exact hstep.update n
  | unprepared ticket batch b err hmem hprepare =>
    refine BatchStep.update ?_ n
    rcases Batch.prepare_eq_error hprepare with rfl | ⟨hopen, rfl⟩
    · exact BatchStep.refl _
    · exact ⟨rfl, fun _ => .inl hopen, fun hne => absurd (.inl hopen) hne⟩
  | withdrawCommit => exact (BatchStep.markAborted _).update n
  | _ => exact BatchStep.refl _

/-- The requests that were handed over or are about to be. -/
def System.holds (s : System) (r : Request) : Prop := .ready r ∈ s.admitting ∨ .request r ∈ s.accepted

/-- A new request of a batch is prepared from it. -/
theorem System.Acts.holds (h : s.Acts config limits s') {r : Request} (hr : s'.holds r) {p : Prepared}
    (hwork : r.work = .commit batch p) : s.holds r ∨ p.batchID = (s.shared.batches batch).id := by
  have hleave : ∀ {ticket : Nat}, .ready r ∈ (s.leave ticket).admitting → s.holds r := fun hin =>
    .inl (mem_filter.mp hin).1
  cases h with
  | enter a entries ledger hfence henters hreserve =>
    refine .inl (hr.imp_left fun hin => ?_)
    rcases Lib.mem_snoc.mp hin with hold | rfl
    · exact hold
    · obtain ⟨-, relocation, hrelocation⟩ := henters
      rw [hwork] at hrelocation
      cases hrelocation
  | prepare ticket batch' b prepared hmem hprepare =>
    rcases hr with hin | hin
    · rcases Lib.mem_snoc.mp hin with hold | hnew
      · exact .inl (.inl (mem_filter.mp hold).1)
      · have heq := hnew
        injection heq with heq
        rw [heq] at hwork
        injection hwork with hbatch hp
        obtain ⟨-, -, hprepared⟩ := Batch.prepare_eq_ok hprepare
        rw [← hp, ← hbatch, hprepared]
        exact .inr rfl
    · exact .inl (.inr hin)
  | unprepared | withdrawCommit | withdrawRelocation => exact .inl (hr.elim hleave .inr)
  | enqueue r' hmem hadmits =>
    rcases hr with hin | hin
    · exact .inl (hleave hin)
    · rcases Lib.mem_snoc.mp hin with hold | hnew
      · exact .inl (.inr hold)
      · injection hnew with heq
        exact .inl (.inl (heq ▸ hmem))
  | call | unfence | close | discharge => exact .inl hr
  | _ =>
    refine .inl (hr.imp_right fun hin => (mem_append.mp hin).resolve_right fun hnew => ?_)
    cases mem_singleton.mp hnew

/-- A commit that is not answered was not before, or its batch was open. -/
theorem System.Acts.unanswered (h : s.Acts config limits s') {x : Slot} (hx : x ∈ s'.unanswered)
    (hkind : x.kind = .commit batch) : x ∈ s.unanswered ∨ (s.shared.batches batch).state = .opened := by
  have hcommand : ∀ {c : Command}, x ∈ (s.pushCommand c).unanswered → x ∈ s.unanswered := by
    intro c hin
    have hin' : x ∈ (s.push (.command s.issued c)).unanswered := hin
    rcases Owned.mem_push_unanswered hin' with hold | hnew
    · exact hold
    · rw [hnew] at hkind
      cases hkind
  cases h with
  | enter a entries ledger hfence henters hreserve =>
    refine .inl ?_
    rcases mem_append.mp hx with hready | hpending
    · rw [filterMap_append, mem_append] at hready
      rcases hready with hold | hnew
      · exact mem_append_left _ hold
      · obtain ⟨r, hr, hslot⟩ := mem_readySlots.mp hnew
        obtain rfl := mem_singleton.mp hr
        obtain ⟨-, relocation, hrelocation⟩ := henters
        rw [← hslot, Request.slot, hrelocation] at hkind
        cases hkind
    · exact mem_append_right _ hpending
  | prepare ticket batch' b prepared hmem hprepare =>
    rcases mem_append.mp hx with hready | hpending
    · rw [filterMap_append, mem_append] at hready
      rcases hready with hold | hnew
      · exact .inl (mem_append_left _ (Owned.mem_leave hold).1)
      · obtain ⟨r, hr, hslot⟩ := mem_readySlots.mp hnew
        injection mem_singleton.mp hr with heq
        rw [← hslot, heq] at hkind
        injection hkind with hbatch
        exact .inr (hbatch ▸ (Batch.prepare_eq_ok hprepare).1)
    · exact .inl (mem_append_right _ hpending)
  | enqueue r hmem hadmits =>
    refine .inl ?_
    rcases Owned.mem_push_unanswered hx with hold | hnew
    · exact Owned.mem_leave_unanswered hold
    · exact mem_append_left _ (mem_readySlots.mpr ⟨r, hmem, hnew.symm⟩)
  | barrier | install | release => exact .inl (hcommand hx)
  | call | unfence | close | discharge => exact .inl hx
  | _ => exact .inl (Owned.mem_leave_unanswered hx)

/-! ## §2 — What the coordinator does to the requests -/

/-- **The requests whose descriptor may be in the log.** -/
def Control.exposed : Control → List Slot
  | .appending job _ | .publishing job _ => (accepted job.entries).map fun e => e.request.slot
  | .completing todo _ => (todo.filter fun x => x.2.exposes).map fun x => x.1.slot
  | .idle | .collecting _ _ | .processing _ _ | .serving _ _ | .exited => []

/-- The requests that are about to be answered with success. -/
def Control.successes : Control → List (Request × Nat)
  | .completing todo _ => todo.filterMap fun x =>
    match x.2 with
    | .success seq _ => some (x.1, seq)
    | .failure _ _ _ => none
  | .idle | .collecting _ _ | .processing _ _ | .appending _ _ | .publishing _ _ | .serving _ _ | .exited => []

/-- A turn outside of the writing of a group. -/
structure Plain (s s' : System) : Prop where
  before : s.coordinator.control.exposed = [] ∧ s.coordinator.control.job = none
  after : s'.coordinator.control.exposed = [] ∧ s'.coordinator.control.job = none ∧
    s'.coordinator.control.successes = []
  batches : s'.shared.batches = s.shared.batches
  next : s'.coordinator.next = s.coordinator.next
  fault : s'.coordinator.fault = none → s.coordinator.fault = none
  answers : s'.shared.answers = s.shared.answers ∨ ∃ ticket c a, s.coordinator.control = .serving ticket c ∧
    s'.shared.answers = s.shared.answers ++ [(ticket, a)]

/-- **The turns**, as far as the log is concerned. -/
inductive Journals (s s' : System) : Prop
  | plain (h : Plain s s')
  | assign (group : List Request) (after : After) (plan : Mapping.GroupPlan) (entries : List Entry) (next : Nat)
      (hcontrol : s.coordinator.control = .processing group after) (hfault : s.coordinator.fault = none)
      (hassign : Coordinator.assignSequences s.coordinator.next
        ((s.coordinator.active group).zip plan.proposals) = some (entries, next))
      (hs' : s' = { s.withControl (.appending ⟨plan, entries, next⟩ after) with
        groups := s.groups ++ [⟨group, Commit.accepted entries⟩] })
  | appendFailed (job : Job) (after : After) (cause : Cause) (poisoned : Bool)
      (hcontrol : s.coordinator.control = .appending job after)
      (hs' : s' = (s.failed cause).withControl
        (.completing (Coordinator.verdicts job.entries fun _ => .failure cause poisoned true) after))
  | append (job : Job) (after : After) (hcontrol : s.coordinator.control = .appending job after)
      (hs' : s' = s.withControl (.publishing job after))
  | publishFailed (job : Job) (after : After) (cause : Cause) (ledger : Mapping.Ledger)
      (hcontrol : s.coordinator.control = .publishing job after)
      (hs' : s' = ((s.failed cause).withControl
        (.completing (Coordinator.verdicts job.entries fun _ => .failure cause true true) after)).withLedger ledger)
  | publish (job : Job) (after : After) (ledger : Mapping.Ledger)
      (hcontrol : s.coordinator.control = .publishing job after)
      (hs' : s' = { s with
          coordinator := { s.coordinator with
            next := job.next
            control := .completing
              (Coordinator.verdicts job.entries fun e => .success e.seq e.resolved) after } }.withLedger ledger)
  | complete (r : Request) (verdict : Verdict) (todo : List (Request × Verdict)) (after : After)
      (fault : Option Cause) (hcontrol : s.coordinator.control = .completing ((r, verdict) :: todo) after)
      (hfault : fault = s.coordinator.fault ∨ s.coordinator.fault = none ∧ fault ≠ none)
      (hs' : s' = { s with
          coordinator := { s.coordinator with fault := fault, control := .completing todo after }
          shared := (s.shared.complete r verdict).1 })

theorem After.exposed_control (after : After) : after.control.exposed = [] ∧ after.control.successes = [] := by
  cases after <;> exact ⟨rfl, rfl⟩

theorem rejectGroup_exposed (group : List Request) (cause : Cause) (after : After) :
    (Control.completing (Coordinator.rejectGroup group cause) after).exposed = [] ∧
      (Control.completing (Coordinator.rejectGroup group cause) after).successes = [] := by
  constructor
  · show List.map _ (List.filter _ (Coordinator.rejectGroup group cause)) = []
    rw [map_eq_nil_iff, filter_eq_nil_iff]
    intro x hx
    obtain ⟨r, -, rfl⟩ := mem_map.mp hx
    exact Bool.false_ne_true
  · refine filterMap_eq_nil_iff.mpr fun x hx => ?_
    obtain ⟨r, -, rfl⟩ := mem_map.mp hx
    rfl

/-- A turn of the loop that answers nothing and writes nothing. -/
theorem Plain.of_control {control : Control} (hbefore : s.coordinator.control.exposed = [] ∧ s.coordinator.control.job = none)
    (hafter : control.exposed = [] ∧ control.job = none ∧ control.successes = [])
    (hcontrol : s'.coordinator.control = control) (hshared : s'.shared = s.shared)
    (hnext : s'.coordinator.next = s.coordinator.next)
    (hfault : s'.coordinator.fault = none → s.coordinator.fault = none) : Plain s s' :=
  ⟨hbefore, hcontrol ▸ hafter, by rw [hshared], hnext, hfault, .inl (by rw [hshared])⟩

theorem System.Turns.journals (h : s.Turns config s') : Journals s s' := by
  have hquiet : ∀ {control : Control}, control.exposed = [] ∧ control.job = none ∧ control.successes = [] →
      ∀ {rest : List Queued}, s.coordinator.control.exposed = [] ∧ s.coordinator.control.job = none →
        Journals s (s.take rest control) := fun hafter _ hbefore =>
    .plain (Plain.of_control hbefore hafter rfl rfl rfl id)
  cases h with
  | exit hcontrol | collectExit group bytes hcontrol | stop group bytes hcontrol =>
    exact .plain (Plain.of_control (by rw [hcontrol]; exact ⟨rfl, rfl⟩) ⟨rfl, rfl, rfl⟩ rfl rfl rfl id)
  | serve ticket c rest hcontrol | reject r rest cause hcontrol =>
    exact hquiet ⟨rfl, rfl, rfl⟩ (by rw [hcontrol]; exact ⟨rfl, rfl⟩)
  | start r rest bytes hcontrol | collectServe group bytes ticket c rest hcontrol
  | collectReject group bytes r rest cause hcontrol | overflow group bytes r rest single hcontrol
  | collect group bytes r rest single hcontrol =>
    exact hquiet ⟨rfl, rfl, rfl⟩ (by rw [hcontrol]; exact ⟨rfl, rfl⟩)
  | refuse group refused after cause fault hcontrol hrefused hfault =>
    obtain ⟨hexposed, hsuccesses⟩ := rejectGroup_exposed refused cause after
    refine .plain (Plain.of_control (by rw [hcontrol]; exact ⟨rfl, rfl⟩) ⟨hexposed, rfl, hsuccesses⟩ rfl rfl rfl ?_)
    exact Sequenced.fault_of_none hfault
  | assign group after plan entries next hcontrol hfault hplan hassign hencode =>
    exact .assign group after plan entries next hcontrol hfault hassign rfl
  | appendFailed job after cause poisoned hcontrol => exact .appendFailed job after cause poisoned hcontrol rfl
  | append job after hcontrol => exact .append job after hcontrol rfl
  | publishFailed job after cause ledger hcontrol hledger => exact .publishFailed job after cause ledger hcontrol rfl
  | publish job after ledger hcontrol hledger => exact .publish job after ledger hcontrol rfl
  | complete r verdict todo after fault hcontrol hfault =>
    exact .complete r verdict todo after fault hcontrol hfault rfl
  | resume after hcontrol =>
    refine .plain (Plain.of_control (by rw [hcontrol]; exact ⟨rfl, rfl⟩) ?_ rfl rfl rfl id)
    exact ⟨after.exposed_control.1, after.job_control, after.exposed_control.2⟩
  | checkpoint ticket covered outcome hcontrol =>
    have hserves := s.coordinator.processCheckpoint_serves covered outcome
    exact .plain ⟨by rw [hcontrol]; exact ⟨rfl, rfl⟩, ⟨rfl, rfl, rfl⟩, rfl, hserves.next, hserves.fault,
      .inr ⟨ticket, _, _, hcontrol, rfl⟩⟩
  | redirect ticket command hcontrol =>
    have hserves := s.coordinator.processRedirect_serves command
    exact .plain ⟨by rw [hcontrol]; exact ⟨rfl, rfl⟩, ⟨rfl, rfl, rfl⟩, rfl, hserves.next, hserves.fault,
      .inr ⟨ticket, _, _, hcontrol, rfl⟩⟩

/-- What is not answered after a turn was not before. -/
theorem System.Turns.unanswered (h : s.Turns config s') {x : Slot} (hx : x ∈ s'.unanswered) : x ∈ s.unanswered := by
  obtain ⟨-, hadmitting, -⟩ := h.callers
  rw [System.unanswered, hadmitting] at hx
  rcases mem_append.mp hx with hready | hpending
  · exact mem_append_left _ hready
  · refine mem_append_right _ ?_
    cases h.effect with
    | move hperm hanswers hbatches => exact hperm.mem_iff.mp hpending
    | complete r verdict todo after hcontrol hperm hshared =>
      exact hperm.mem_iff.mpr (mem_cons_of_mem _ hpending)
    | answer ticket a hperm hanswers hbatches => exact hperm.mem_iff.mpr (mem_cons_of_mem _ hpending)

end Ridstore.Commit
