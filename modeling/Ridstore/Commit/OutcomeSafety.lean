import Ridstore.Commit.OutcomeInvariant
import Ridstore.Replay.Status

/-
# Ridstore.Commit.OutcomeSafety — what the callers of a commit were told is true

The turns of the coordinator and the crashes keep the invariant.  A commit that was answered with success is in
every recovered log with its mutations and its sequence, a commit that was answered with an error has no
descriptor there unless its outcome was called unknown, and replay sees the end of every batch once.
-/

namespace Ridstore.Commit

open RecordCodec (Descriptor)
open Function List
open RecordLog (Writer WriterConfig)
open Transaction (Batch Limits Prepared)

variable {config : Config} {limits : Limits} {log : WriterConfig} {s s' : Store} {job : Job} {system system' : System}
  {control : Control}

/-! ## §1 — The coordinator -/

/-- The state after a turn: no append is awaited, and there may be a report. -/
def Store.turned (s : Store) (system : System) (new : List Report) : Store :=
  { s with system := system, append := none, reports := s.reports ++ new }

variable {t : Turn} {after : After}

/-- While the coordinator appends, its next turn is the end of the append. -/
theorem turn_appending (hs : system.turn config t = some system')
    (hcontrol : system.coordinator.control = .appending job after) :
    ∃ outcome poisoned, t = .appended outcome poisoned ∧
      system' = { system with coordinator := system.coordinator.appended job after outcome poisoned } := by
  cases t with
  | appended outcome poisoned =>
    simp only [System.turn, System.appended, hcontrol, Option.some.injEq] at hs
    exact ⟨outcome, poisoned, rfl, hs.symm⟩
  | receive => simp only [System.turn, Coordinator.receive, hcontrol, Option.map_none, reduceCtorEq] at hs
  | stopCollecting =>
    simp only [System.turn, Coordinator.stopCollecting, hcontrol, Option.map_none, reduceCtorEq] at hs
  | process resolved => simp only [System.turn, System.process, hcontrol, reduceCtorEq] at hs
  | published early outcome => simp only [System.turn, System.published, hcontrol, reduceCtorEq] at hs
  | complete => simp only [System.turn, System.complete, hcontrol, reduceCtorEq] at hs
  | checkpoint covered outcome => simp only [System.turn, System.checkpoint, hcontrol, reduceCtorEq] at hs
  | redirect => simp only [System.turn, System.redirect, hcontrol, reduceCtorEq] at hs

/-- The coordinator awaits no append after a turn: it goes on when there is a response. -/
theorem Writing.awaits (h : Writing s) (hs : s.system.turn config t = some system') : t.awaits s.append = none := by
  by_cases hcontrol : ∃ job after, s.system.coordinator.control = .appending job after
  · obtain ⟨job, after, hcontrol⟩ := hcontrol
    obtain ⟨outcome, poisoned, rfl, -⟩ := turn_appending hs hcontrol
    rfl
  · have hnone := h.idle fun job after heq => hcontrol ⟨job, after, heq⟩
    cases t <;> first | rfl | exact hnone

theorem turn_eq_some (h : Writing s) (hs : s.turn config t = some s') :
    ∃ system', s.system.turn config t = some system' ∧ s.mayTurn t ∧
      s' = s.turned system'
        ((system'.shared.answers.drop s.system.shared.answers.length).filterMap s.system.reportOf) := by
  obtain ⟨hmay, hmap⟩ := Option.ite_none_right_eq_some.mp hs
  obtain ⟨system', hsystem, rfl⟩ := Option.map_eq_some_iff.mp hmap
  refine ⟨system', hsystem, hmay, ?_⟩
  rw [h.awaits hsystem]
  rfl

/-- A batch before and after a step of the coordinator. -/
structure Kept (b b' : Batch) : Prop where
  id : b'.id = b.id
  untouched : b'.untouched → b.untouched
  aborted : b.state = .aborted → b'.state = .aborted

variable {new : List Report}

/-- The batches and the log after a turn. -/
theorem Ended.turned (h : Ended s) (hturn : s.system.Turns config system')
    (hbatches : ∀ n, Kept (s.system.shared.batches n) (system'.shared.batches n))
    (hclean : ∀ x ∈ system'.unanswered, ∀ batch, x.kind = .commit batch →
      x ∉ system'.coordinator.control.exposed → s.base + batch ∉ terminalsOf s.writer.items)
    (hnew : ∀ report ∈ new, report.Holds (s.turned system' new)) : Ended (s.turned system' new) where
  ids := fun n => (hbatches n).id.trans (h.ids n)
  known := by
    intro r batch p hr hwork
    obtain ⟨haccepted, hadmitting, -⟩ := hturn.callers
    refine h.known r batch p ?_ hwork
    have hr' : system'.holds r := hr
    rw [System.holds, haccepted, hadmitting] at hr'
    exact hr'
  once := h.once
  fresh := fun n hn => h.fresh n ((hbatches n).untouched hn)
  pending := h.pending
  aborts := by
    intro id hid
    obtain ⟨hclear, n, heq, hstate⟩ := h.aborts id hid
    exact ⟨hclear, n, heq, (hbatches n).aborted hstate⟩
  clean := hclean
  reports := by
    intro report hreport
    rcases mem_append.mp hreport with hold | hin
    · have hholds := h.reports report hold
      cases report with
      | committed => exact hholds
      | failed batchID => exact ⟨hholds.1, hholds.2.1, fun n hn => (hbatches n).aborted (hholds.2.2 n hn)⟩
    · exact hnew report hin

theorem Kept.of_eq {batches batches' : Nat → Batch} (h : batches' = batches) (n : Nat) : Kept (batches n) (batches' n) := by
  rw [h]
  exact ⟨rfl, fun hn => hn, fun hn => hn⟩

/-- A turn that answers nobody makes no report. -/
theorem reports_nil (h : system'.shared.answers = system.shared.answers) :
    (system'.shared.answers.drop system.shared.answers.length).filterMap system.reportOf = [] := by
  rw [h, drop_length]
  rfl

variable {p : Prepared}

theorem preparedOf_eq_some {ticket : Nat} (h : system.preparedOf ticket = some p) :
    ∃ batch, .request ⟨ticket, .commit batch p⟩ ∈ system.accepted := by
  obtain ⟨q, hq, hmatch⟩ := exists_of_findSome?_eq_some h
  split at hmatch
  next t batch prepared =>
    obtain ⟨ht, rfl⟩ := Lib.when_eq_some hmatch
    exact ⟨batch, ht ▸ hq⟩
  next => cases hmatch

/-- The prepared batch of a pending request is that of a commit. -/
theorem Recorded.prepared_slot (h : Recorded config s) {x : Slot} (hx : x ∈ s.system.pending)
    (hp : s.system.preparedOf x.ticket = some p) :
    ∃ batch, x.kind = .commit batch ∧ .request ⟨x.ticket, .commit batch p⟩ ∈ s.system.accepted := by
  obtain ⟨batch, hin⟩ := preparedOf_eq_some hp
  obtain ⟨taken, hflow⟩ := h.tabled.flow
  have hslot : (⟨x.ticket, .commit batch⟩ : Slot) ∈ s.system.slots :=
    mem_append_right _ (mem_map_of_mem hin)
  have heq := h.tabled.ticketed.slot_eq (mem_append_right _ (hflow.pending_accepted hx)) hslot rfl
  exact ⟨batch, congrArg Slot.kind heq, hin⟩

theorem reportOf_eq_none {ticket : Nat} (h : system.preparedOf ticket = none) (a : Answer) :
    system.reportOf (ticket, a) = none := by
  cases a with
  | committed batchID seq => simp only [System.reportOf, h, Option.map_none]
  | failed cause => simp only [System.reportOf, h, Option.map_none, ite_self]
  | _ => rfl

theorem bound_of_job_none (h : s.system.coordinator.control.job = none) : s.bound = s.system.coordinator.next := by
  unfold Store.bound
  split
  next job after hcontrol =>
    rw [hcontrol] at h
    cases h
  next job after hcontrol =>
    rw [hcontrol] at h
    cases h
  next => rfl

theorem not_appending (h : control.job = none) (job : Job) (after : After) : control ≠ .appending job after := by
  intro hcontrol
  rw [hcontrol] at h
  cases h

theorem not_publishing (h : control.job = none) (job : Job) (after : After) : control ≠ .publishing job after := by
  intro hcontrol
  rw [hcontrol] at h
  cases h

/-- Outside of a group there is nothing to say about the writing, apart from the successes. -/
theorem Writing.of_job_none (hjob : system'.coordinator.control.job = none)
    (hsuccesses : ∀ x ∈ system'.coordinator.control.successes, Durable s.writer (x.1.descriptor x.2) ∧
      ∃ r, .request r ∈ system'.accepted ∧ x.1 = r.applyCommitRedirects system'.coordinator.redirects) :
    Writing (s.turned system' new) where
  idle := fun _ => rfl
  unwritten := fun job after hcontrol => absurd hcontrol (not_appending hjob job after)
  awaited := fun job after _ hcontrol => absurd hcontrol (not_appending hjob job after)
  written := fun job after hcontrol => absurd hcontrol (not_publishing hjob job after)
  successes := hsuccesses

/-- The numbers of the records after a turn outside of a group. -/
theorem Numbering.of_job_none (h : Numbering s)
    (hjob : system'.coordinator.control.job = none)
    (hbound : system'.coordinator.fault = none → s.system.coordinator.fault = none ∧ s.bound ≤ system'.coordinator.next) :
    Numbering (s.turned system' new) where
  nodup := h.nodup
  bound := by
    intro hfault d hd
    obtain ⟨hnone, hle⟩ := hbound hfault
    rw [bound_of_job_none (s := s.turned system' new) hjob]
    exact Nat.lt_of_lt_of_le (h.bound hnone d hd) hle
  job := by
    intro job hsome
    have hsome' : system'.coordinator.control.job = some job := hsome
    rw [hjob] at hsome'
    cases hsome'

/-- A turn outside of the writing of a group. -/
theorem Recorded.plain (h : Recorded config s) (hturn : s.system.Turns config system')
    (hplain : Plain s.system system') : Recorded config (s.turned system'
      ((system'.shared.answers.drop s.system.shared.answers.length).filterMap s.system.reportOf)) := by
  have hnone : (system'.shared.answers.drop s.system.shared.answers.length).filterMap s.system.reportOf = [] := by
    rcases hplain.answers with hsame | ⟨ticket, c, a, hcontrol, hanswers⟩
    · exact reports_nil hsame
    · -- the command has a ticket of its own
      have hpending : (⟨ticket, .command⟩ : Slot) ∈ s.system.pending := by
        refine mem_append_right _ ?_
        rw [hcontrol]
        exact mem_cons_self
      have hprepared : s.system.preparedOf ticket = none := by
        cases hp : s.system.preparedOf ticket with
        | none => rfl
        | some p =>
          obtain ⟨batch, hkind, -⟩ := h.prepared_slot hpending hp
          cases hkind
      rw [hanswers, drop_left, filterMap_cons_none (reportOf_eq_none hprepared a)]
      rfl
  rw [hnone]
  refine ⟨h.tabled.turn hturn, h.writer, ?_, ?_, ?_⟩
  · refine h.ended.turned hturn (Kept.of_eq hplain.batches) ?_ nofun
    intro x hx batch hkind _
    refine h.ended.clean x (hturn.unanswered hx) batch hkind ?_
    rw [hplain.before.1]
    exact not_mem_nil
  · refine Writing.of_job_none hplain.after.2.1 ?_
    rw [hplain.after.2.2]
    exact nofun
  · refine h.numbering.of_job_none hplain.after.2.1 fun hfault => ⟨hplain.fault hfault, ?_⟩
    rw [bound_of_job_none hplain.before.2, hplain.next]

variable {entries : List Entry}

/-- **A group gets its sequences**: nothing of it is in the log. -/
theorem Recorded.assign (h : Recorded config s) (hturn : s.system.Turns config system')
    {group : List Request} {plan : Mapping.GroupPlan} {next : Nat}
    (hcontrol : s.system.coordinator.control = .processing group after)
    (hfault : s.system.coordinator.fault = none)
    (hassign : Coordinator.assignSequences s.system.coordinator.next
      ((s.system.coordinator.active group).zip plan.proposals) = some (entries, next))
    (hs' : system' = { s.system.withControl (.appending ⟨plan, entries, next⟩ after) with
      groups := s.system.groups ++ [⟨group, Commit.accepted entries⟩] }) : Recorded config (s.turned system' []) := by
  have hclean : ∀ x ∈ system'.unanswered, ∀ batch, x.kind = .commit batch →
      s.base + batch ∉ terminalsOf s.writer.items := by
    intro x hx batch hkind
    refine h.ended.clean x (hturn.unanswered hx) batch hkind ?_
    rw [hcontrol]
    exact not_mem_nil
  subst hs'
  refine ⟨h.tabled.turn hturn, h.writer, ?_, ?_, ?_⟩
  · refine h.ended.turned hturn (Kept.of_eq rfl) ?_ nofun
    exact fun x hx batch hkind _ => hclean x hx batch hkind
  · refine ⟨fun _ => rfl, ?_, fun _ _ _ _ hticket => (nomatch hticket), nofun, nofun⟩
    intro job after' hcontrol' _ e he batch hkind
    cases hcontrol'
    exact hclean _ (entry_unanswered (s := s.turned _ []) rfl (mem_accepted he)) batch hkind
  · refine ⟨h.numbering.nodup, fun _ d hd => ?_, fun job hsome => ?_⟩
    · rw [Store.bound_unappended (s := s.turned _ []) rfl rfl]
      exact bound_of_job_none (s := s) (by rw [hcontrol]; rfl) ▸ h.numbering.bound hfault d hd
    · cases hsome
      exact ⟨hfault, assignSequences_seqs hassign⟩

/-- The requests that may be in the log when the verdicts of a group are given. -/
theorem verdicts_exposed (entries : List Entry) (verdict : Entry → Verdict) (after : After) :
    (Control.completing (Coordinator.verdicts entries verdict) after).exposed =
      ((accepted entries).filter fun e => (verdict e).exposes).map fun e => e.request.slot := by
  show (((Coordinator.verdicts entries verdict).filter _).map _) = _
  rw [Coordinator.verdicts, filter_map, map_map, accepted, filter_filter]
  congr 1
  refine filter_congr fun e _ => ?_
  show Verdict.exposes (if e.resolved.accepted = true then verdict e else .failure [.conflict] false false) = _
  cases e.resolved.accepted with
  | true => rw [if_pos rfl, Bool.and_true]
  | false =>
    rw [if_neg Bool.false_ne_true, Bool.and_false]
    rfl

theorem verdicts_exposed_all {verdict : Entry → Verdict} (after : After) (h : ∀ e, (verdict e).exposes = true) :
    (Control.completing (Coordinator.verdicts entries verdict) after).exposed =
      (accepted entries).map fun e => e.request.slot := by
  rw [verdicts_exposed, filter_eq_self.mpr fun e _ => h e]

theorem verdicts_successes_failure (entries : List Entry) (cause : Cause) (unknown : Bool) (after : After) :
    (Control.completing (Coordinator.verdicts entries fun _ => .failure cause unknown true) after).successes = [] := by
  refine filterMap_eq_nil_iff.mpr fun x hx => ?_
  obtain ⟨e, -, rfl⟩ := mem_map.mp hx
  cases e.resolved.accepted <;> rfl

theorem mem_verdicts_success {x : Request × Nat}
    (h : x ∈ (Control.completing (Coordinator.verdicts entries fun e => .success e.seq e.resolved) after).successes) :
    ∃ e ∈ accepted entries, x = (e.request, e.seq) := by
  obtain ⟨y, hy, hsome⟩ := mem_filterMap.mp h
  obtain ⟨e, he, rfl⟩ := mem_map.mp hy
  cases haccepted : e.resolved.accepted with
  | true =>
    simp only [haccepted, if_true, Option.some.injEq] at hsome
    exact ⟨e, mem_filter.mpr ⟨he, haccepted⟩, hsome.symm⟩
  | false =>
    simp only [haccepted, Bool.false_eq_true, if_false, reduceCtorEq] at hsome

/-- A turn after which the requests of the group may still be in the log. -/
theorem Recorded.clean_of_exposed (h : Recorded config s) (hturn : s.system.Turns config system')
    (hsame : system'.coordinator.control.exposed = s.system.coordinator.control.exposed) :
    ∀ x ∈ system'.unanswered, ∀ batch, x.kind = .commit batch →
      x ∉ system'.coordinator.control.exposed → s.base + batch ∉ terminalsOf s.writer.items :=
  fun x hx batch hkind hout => h.ended.clean x (hturn.unanswered hx) batch hkind (hsame ▸ hout)

/-- The turn after the append has a response of the writer. -/
theorem responded (hmay : s.mayTurn t) (hs : s.system.turn config t = some system')
    (hcontrol : s.system.coordinator.control = .appending job after) :
    ∃ outcome poisoned, t = .appended outcome poisoned ∧ s.responds outcome poisoned ∧
      system' = { s.system with coordinator := s.system.coordinator.appended job after outcome poisoned } := by
  obtain ⟨outcome, poisoned, rfl, heq⟩ := turn_appending hs hcontrol
  exact ⟨outcome, poisoned, rfl, hmay, heq⟩

section

variable (h : Recorded config s) (hturn : s.system.Turns config system')

include h hturn

variable {cause : Cause}

/-- A group has failed: none of its requests succeeds, and no later group is appended. -/
theorem Recorded.groupFailed
    {unknown : Bool}
    (hafter : system'.coordinator.control =
      .completing (Coordinator.verdicts job.entries fun _ => .failure cause unknown true) after)
    (hkept : system'.shared.batches = s.system.shared.batches) (hfault : system'.coordinator.fault ≠ none)
    (hclean : ∀ x ∈ system'.unanswered, ∀ batch, x.kind = .commit batch →
      x ∉ system'.coordinator.control.exposed → s.base + batch ∉ terminalsOf s.writer.items) :
    Recorded config (s.turned system' []) := by
  have hnone : system'.coordinator.control.job = none := by rw [hafter]; rfl
  refine ⟨h.tabled.turn hturn, h.writer, ?_, ?_, ?_⟩
  · exact h.ended.turned hturn (Kept.of_eq hkept) hclean nofun
  · refine Writing.of_job_none hnone ?_
    rw [hafter, verdicts_successes_failure]
    exact nofun
  · exact h.numbering.of_job_none hnone fun hnofault => absurd hnofault hfault

variable {poisoned : Bool}

/-- **The append has returned an error.**  When the log is not poisoned, the record is not there and never comes. -/
theorem Recorded.appendFailed
    (hcontrol : s.system.coordinator.control = .appending job after)
    (hresponds : s.responds (.error cause) poisoned)
    (hs' : system' = (s.system.failed cause).withControl
      (.completing (Coordinator.verdicts job.entries fun _ => .failure cause poisoned true) after)) :
    Recorded config (s.turned system' []) := by
  subst hs'
  refine h.groupFailed hturn rfl rfl (Sequenced.fail_ne_none _ _) ?_
  cases poisoned with
  | true => exact h.clean_of_exposed hturn (by rw [hcontrol]; exact verdicts_exposed_all _ fun _ => rfl)
  | false =>
    obtain ⟨hpoisoned, ticket, happend, hresponse⟩ := hresponds
    have hawaited := h.writing.awaited job after ticket hcontrol happend
    have hnowhere : ∀ r ∈ s.writer.items, r.ticket ≠ ticket := by
      rcases h.writer.core.failed ticket hresponse with hfault | hnowhere
      · rw [hfault] at hpoisoned
        cases hpoisoned
      · exact hnowhere
    intro x hx batch hkind _ hin
    refine h.ended.clean x (hturn.unanswered hx) batch hkind (fun hexposed => ?_) hin
    rw [hcontrol] at hexposed
    obtain ⟨e, he, rfl⟩ := mem_map.mp hexposed
    obtain ⟨r, hr, hterminal⟩ := mem_terminalsOf.mp hin
    exact hawaited.exclusive r hr (hnowhere r hr) e he batch hkind hterminal

/-- **The append has returned**: the record is durable. -/
theorem Recorded.append (hcontrol : s.system.coordinator.control = .appending job after)
    (hresponds : s.responds (.ok ()) poisoned) (hs' : system' = s.system.withControl (.publishing job after)) :
    Recorded config (s.turned system' []) := by
  obtain ⟨-, ticket, happend, hresponse⟩ := hresponds
  subst hs'
  refine ⟨h.tabled.turn hturn, h.writer, ?_, ⟨fun _ => rfl, nofun, nofun, ?_, nofun⟩, ?_⟩
  · exact h.ended.turned hturn (Kept.of_eq rfl) (h.clean_of_exposed hturn (by rw [hcontrol]; rfl)) nofun
  · intro job' after' heq d hd
    cases heq
    rcases (h.writing.awaited job after ticket hcontrol happend).origin with ⟨r, hr, hticket, hsync, hpayload⟩ | ⟨-, hnot⟩
    · exact ⟨r, h.writer.core.appended r hr hsync (hticket ▸ hresponse), hpayload ▸ hd⟩
    · exact absurd hresponse hnot
  · refine ⟨h.numbering.nodup, fun hfault d hd => ?_, fun job' hjob' => ?_⟩
    · show d.commitSeq < job.next
      rw [← Store.bound_appended hcontrol happend]
      exact h.numbering.bound hfault d hd
    · cases hjob'
      exact h.numbering.job job (by rw [hcontrol]; rfl)

/-- The publication has failed. -/
theorem Recorded.publishFailed {ledger : Mapping.Ledger}
    (hcontrol : s.system.coordinator.control = .publishing job after)
    (hs' : system' = ((s.system.failed cause).withControl
      (.completing (Coordinator.verdicts job.entries fun _ => .failure cause true true) after)).withLedger ledger) :
    Recorded config (s.turned system' []) := by
  subst hs'
  refine h.groupFailed hturn rfl rfl (Sequenced.fail_ne_none _ _) ?_
  exact h.clean_of_exposed hturn (by rw [hcontrol]; exact verdicts_exposed_all _ fun _ => rfl)

/-- **A group is published**: its requests are answered with success. -/
theorem Recorded.publish {ledger : Mapping.Ledger}
    (hcontrol : s.system.coordinator.control = .publishing job after)
    (hs' : system' = { s.system with
        coordinator := { s.system.coordinator with
          next := job.next
          control := .completing
            (Coordinator.verdicts job.entries fun e => .success e.seq e.resolved) after } }.withLedger ledger) :
    Recorded config (s.turned system' []) := by
  subst hs'
  refine ⟨h.tabled.turn hturn, h.writer, ?_, ?_, ?_⟩
  · refine h.ended.turned hturn (Kept.of_eq rfl) ?_ nofun
    exact h.clean_of_exposed hturn (by rw [hcontrol]; exact verdicts_exposed_all _ fun _ => rfl)
  · refine Writing.of_job_none rfl fun x hx => ?_
    obtain ⟨e, he, rfl⟩ := mem_verdicts_success hx
    obtain ⟨r, hr, heq⟩ := h.tabled.redirected job (by rw [hcontrol]; rfl) e (mem_accepted he)
    exact ⟨h.writing.written job after hcontrol _ (mem_map_of_mem he), r, hr, heq⟩
  · refine h.numbering.of_job_none rfl fun hfault => ⟨hfault, ?_⟩
    unfold Store.bound
    rw [hcontrol]
    exact Nat.le_refl _

end

/-- The descriptor of a redirected commit. -/
theorem descriptor_redirected {ticket batch : Nat} (table : Redirects) (seq : Nat) :
    ((⟨ticket, .commit batch p⟩ : Request).applyCommitRedirects table).descriptor seq =
      committedDescriptor p table seq := rfl

variable {verdict : Verdict} {todo : List (Request × Verdict)}

/-- **The report of a completed commit is true.** -/
theorem Recorded.report_holds (h : Recorded config s) {r : Request}
    {batch : Nat} {b : Batch}
    {a : Answer} (hcontrol : s.system.coordinator.control = .completing ((r, verdict) :: todo) after)
    (hwork : r.work = .commit batch p) (hfresh : r.slot ∉ (Control.completing todo after).exposed)
    (hb : system'.shared.batches batch = b)
    (hcases : (∃ seq resolved, verdict = .success seq resolved ∧ a = .committed p.batchID seq) ∨
      (∃ cause, a = .failed cause ∧ .commitUnknown ∈ cause) ∨
      verdict.exposes = false ∧ b.state = .aborted ∧ ∃ cause, a = .failed cause)
    {report : Report} (hreport : s.system.reportOf (r.ticket, a) = some report) :
    report.Holds (s.turned system' new) := by
  have hkind : r.slot.kind = .commit batch := by rw [Request.slot, hwork]
  have hpending : r.slot ∈ s.system.pending := by
    refine mem_append_right _ ?_
    rw [hcontrol]
    exact mem_append_left _ mem_cons_self
  have hticket := r.slot_ticket
  -- the request with the ticket is the one that was handed over
  have hprepared : ∀ p₀, s.system.preparedOf r.ticket = some p₀ →
      .request ⟨r.ticket, .commit batch p₀⟩ ∈ s.system.accepted := by
    intro p₀ hp₀
    obtain ⟨batch', hkind', hin⟩ := h.prepared_slot hpending (hticket.symm ▸ hp₀)
    rw [hkind] at hkind'
    injection hkind' with hbatch
    rw [hbatch, ← hticket]
    exact hin
  rcases hcases with ⟨seq, resolved, rfl, rfl⟩ | ⟨cause, rfl, hunknown⟩ | ⟨hexposes, hstate, cause, rfl⟩
  · obtain ⟨p₀, hp₀, rfl⟩ := Option.map_eq_some_iff.mp hreport
    have hsuccess : (r, seq) ∈ s.system.coordinator.control.successes := by
      rw [hcontrol]
      exact mem_cons_self
    obtain ⟨hdurable, r₀, hr₀, heq⟩ := h.writing.successes _ hsuccess
    have heq' : r = r₀.applyCommitRedirects s.system.coordinator.redirects := heq
    have hsame : Queued.request r₀ = .request ⟨r.ticket, .commit batch p₀⟩ := by
      refine inj_on_of_nodup_map h.tabled.ticketed.accepted hr₀ (hprepared p₀ hp₀) ?_
      show r₀.ticket = r.ticket
      rw [← r₀.slot_ticket, ← r₀.slot_applyCommitRedirects s.system.coordinator.redirects, ← heq', hticket]
    injection hsame with hsame
    have hdurable' : Durable s.writer (r.descriptor seq) := hdurable
    rw [heq', hsame, descriptor_redirected] at hdurable'
    exact hdurable'
  · simp only [System.reportOf, if_pos hunknown, reduceCtorEq] at hreport
  · obtain ⟨-, hmap⟩ := Option.ite_none_left_eq_some.mp hreport
    obtain ⟨p₀, hp₀, rfl⟩ := Option.map_eq_some_iff.mp hmap
    have hid : p₀.batchID = s.base + batch := h.ended.known _ batch p₀ (.inr (hprepared p₀ hp₀)) rfl
    have hun : r.slot ∈ s.system.unanswered := mem_append_right _ hpending
    refine ⟨?_, ?_, ?_⟩
    · rw [hid]
      refine h.ended.clean _ hun batch hkind ?_
      rw [hcontrol]
      show r.slot ∉ (((r, verdict) :: todo).filter fun x => x.2.exposes).map fun x => x.1.slot
      rw [filter_cons_of_neg (by rw [hexposes]; exact Bool.false_ne_true)]
      exact hfresh
    · intro hin
      obtain ⟨-, n, heq, haborted⟩ := h.ended.aborts _ hin
      rw [hid] at heq
      rw [← Nat.add_left_cancel heq, h.tabled.owned.committing _ hun batch hkind] at haborted
      cases haborted
    · intro n hn
      have hn' : p₀.batchID = s.base + n := hn
      rw [hid] at hn'
      rw [← Nat.add_left_cancel hn']
      show (system'.shared.batches batch).state = .aborted
      rw [hb]
      exact hstate

/-- **A request of a group is answered.** -/
theorem Recorded.complete (h : Recorded config s) (hturn : s.system.Turns config system')
    {r : Request} {fault : Option Cause}
    (hcontrol : s.system.coordinator.control = .completing ((r, verdict) :: todo) after)
    (hfault : fault = s.system.coordinator.fault ∨ s.system.coordinator.fault = none ∧ fault ≠ none)
    (hs' : system' = { s.system with
        coordinator := { s.system.coordinator with fault := fault, control := .completing todo after }
        shared := (s.system.shared.complete r verdict).1 }) :
    Recorded config (s.turned system'
      ((system'.shared.answers.drop s.system.shared.answers.length).filterMap s.system.reportOf)) := by
  subst hs'
  obtain ⟨taken, hflow⟩ := h.tabled.flow
  have hheld : s.system.coordinator.control.held = r.slot :: (Control.completing todo after).held := by
    rw [hcontrol]
    rfl
  have hpending : r.slot ∈ s.system.pending := by
    refine mem_append_right _ ?_
    rw [hheld]
    exact mem_cons_self
  -- the request is not pending any more
  have hgone : r.slot ∉ System.unanswered { s.system with
      coordinator := { s.system.coordinator with fault := fault, control := .completing todo after }
      shared := (s.system.shared.complete r verdict).1 } := by
    have hnodup := unanswered_nodup h.tabled.ticketed hflow
    rw [System.unanswered, System.pending, hheld, ← append_assoc] at hnodup
    rw [System.unanswered, System.pending, ← append_assoc]
    exact (nodup_cons.mp (perm_middle.nodup_iff.mp hnodup)).1
  have hfresh : r.slot ∉ (Control.completing todo after).exposed := fun hin =>
    hgone (mem_append_right _ (mem_append_right _ (Control.exposed_held hin)))
  have hclean : ∀ x ∈ System.unanswered { s.system with
      coordinator := { s.system.coordinator with fault := fault, control := .completing todo after }
      shared := (s.system.shared.complete r verdict).1 }, ∀ batch, x.kind = .commit batch →
      x ∉ (Control.completing todo after).exposed → s.base + batch ∉ terminalsOf s.writer.items := by
    intro x hx batch hkind hout
    refine h.ended.clean x (hturn.unanswered hx) batch hkind fun hin => ?_
    rw [hcontrol] at hin
    obtain ⟨y, hy, rfl⟩ := mem_map.mp hin
    obtain ⟨hmem, hexposes⟩ := mem_filter.mp hy
    rcases mem_cons.mp hmem with rfl | hmem
    · exact hgone hx
    · exact hout (mem_map_of_mem (mem_filter.mpr ⟨hmem, hexposes⟩))
  refine ⟨h.tabled.turn hturn, h.writer, ?_, ?_, ?_⟩
  · cases hwork : r.work with
    | commit batch p =>
      have hkind : r.slot.kind = .commit batch := by rw [Request.slot, hwork]
      have hstate := h.tabled.owned.committing _ (mem_append_right _ hpending) batch hkind
      have hseq : ∀ seq resolved, verdict = .success seq resolved → seq ≠ 0 := by
        rintro seq resolved rfl
        refine Nat.ne_of_gt (h.tabled.positive.seqs seq ?_)
        rw [hcontrol]
        exact mem_cons_self
      obtain ⟨a, b, hanswers, hbatches, hid, hends, hcases⟩ := complete_commit hwork hstate hseq
      refine h.ended.turned hturn (fun n => ?_) hclean fun report hreport => ?_
      · show Kept _ ((s.system.shared.complete r verdict).1.batches n)
        rw [hbatches]
        by_cases heq : n = batch
        · subst heq
          rw [update_self]
          refine ⟨hid, fun hun => absurd hun hends.touched, fun haborted => ?_⟩
          rw [hstate] at haborted
          cases haborted
        · rw [update_of_ne heq]
          exact ⟨rfl, fun hn => hn, fun hn => hn⟩
      · obtain ⟨answer, hin, hsome⟩ := mem_filterMap.mp hreport
        rw [hanswers, drop_left] at hin
        obtain rfl := mem_singleton.mp hin
        exact h.report_holds hcontrol hwork hfresh (by rw [hbatches, update_self]) hcases hsome
    | relocation relocation =>
      have hkind : ∀ batch, r.slot.kind ≠ .commit batch := by
        intro batch heq
        rw [Request.slot, hwork] at heq
        cases heq
      refine h.ended.turned hturn (Kept.of_eq (complete_relocation hkind)) hclean fun report hreport => ?_
      obtain ⟨a, hanswers, -⟩ := complete_answers s.system.shared r verdict
      obtain ⟨answer, hin, hsome⟩ := mem_filterMap.mp hreport
      rw [hanswers, drop_left] at hin
      obtain rfl := mem_singleton.mp hin
      cases hp : s.system.preparedOf r.ticket with
      | none =>
        rw [reportOf_eq_none hp] at hsome
        cases hsome
      | some p =>
        obtain ⟨batch, heq, -⟩ := h.prepared_slot hpending (r.slot_ticket.symm ▸ hp)
        exact absurd heq (hkind batch)
  · refine Writing.of_job_none rfl fun x hx => h.writing.successes x ?_
    rw [hcontrol]
    obtain ⟨y, hy, hsome⟩ := mem_filterMap.mp hx
    exact mem_filterMap.mpr ⟨y, mem_cons_of_mem _ hy, hsome⟩
  · refine h.numbering.of_job_none rfl fun hnone => ⟨Sequenced.fault_of_none hfault hnone, Nat.le_of_eq ?_⟩
    exact bound_of_job_none (by rw [hcontrol]; rfl)

/-- **A step of the coordinator.** -/
theorem Recorded.turn (h : Recorded config s) (hs : s.turn config t = some s') : Recorded config s' := by
  obtain ⟨system', hsystem, hmay, rfl⟩ := turn_eq_some h.writing hs
  have hturn : s.system.Turns config system' := System.turn_cases hsystem
  have hquiet : system'.shared.answers = s.system.shared.answers → Recorded config (s.turned system' []) →
      Recorded config (s.turned system'
        ((system'.shared.answers.drop s.system.shared.answers.length).filterMap s.system.reportOf)) := by
    intro hanswers hrecorded
    rw [reports_nil hanswers]
    exact hrecorded
  cases hturn.journals with
  | plain hplain => exact h.plain hturn hplain
  | assign group after plan entries next hcontrol hfault hassign hs' =>
    exact hquiet (by rw [hs']; rfl) (h.assign hturn hcontrol hfault hassign hs')
  | appendFailed job after cause poisoned hcontrol hs' =>
    obtain ⟨outcome, poisoned', rfl, hresponds, heq⟩ := responded hmay hsystem hcontrol
    refine hquiet (by rw [hs']; rfl) ?_
    cases outcome with
    | ok value =>
      have hsame := heq.symm.trans hs'
      exact absurd (congrArg (fun x : System => x.coordinator.control) hsame) nofun
    | error cause' => exact h.appendFailed hturn hcontrol hresponds heq
  | append job after hcontrol hs' =>
    obtain ⟨outcome, poisoned, rfl, hresponds, heq⟩ := responded hmay hsystem hcontrol
    refine hquiet (by rw [hs']; rfl) ?_
    cases outcome with
    | ok value => exact h.append hturn hcontrol hresponds hs'
    | error cause =>
      have hsame := heq.symm.trans hs'
      exact absurd (congrArg (fun x : System => x.coordinator.control) hsame) nofun
  | publishFailed job after cause ledger hcontrol hs' =>
    exact hquiet (by rw [hs']; rfl) (h.publishFailed hturn hcontrol hs')
  | publish job after ledger hcontrol hs' => exact hquiet (by rw [hs']; rfl) (h.publish hturn hcontrol hs')
  | complete r verdict todo after fault hcontrol hfault hs' => exact h.complete hturn hcontrol hfault hs'

/-! ## §2 — A crash and the next start -/

variable {budget : Mapping.DeltaBudget}

/-- The system of a store that was just opened is an initial one. -/
theorem opened_initial {covered base : Nat} (hlimits : limits.Valid) (hcovered : covered < maxUint64)
    (hbase : 0 < base) (hbudget : idleBudget budget) : (System.opened covered base budget).Initial limits where
  coordinator := ⟨covered, hcovered, rfl⟩
  batches := by
    intro batch
    refine ⟨base + batch, ?_⟩
    rw [Batch.new, if_neg (not_or.mpr ⟨by omega, not_not.mpr hlimits⟩)]
    rfl
  answers := rfl
  ledger := ⟨hbudget.1, by
    show budget.charged + budget.reserved ≤ budget.hard
    rw [hbudget.1]
    exact hbudget.2, fun _ _ => rfl⟩
  issued := rfl
  admitting := rfl
  fence := rfl
  accepted := rfl
  groups := rfl

theorem le_lastSeq {records : List LogRecord} {d : Descriptor} (h : d ∈ records.flatMap LogRecord.descriptors) :
    d.commitSeq ≤ lastSeq records := by
  unfold lastSeq
  generalize records.flatMap LogRecord.descriptors = l at h
  induction l with
  | nil => exact absurd h not_mem_nil
  | cons x rest ih =>
    rcases mem_cons.mp h with rfl | hin
    · exact Nat.le_max_left _ _
    · exact Nat.le_trans (ih hin) (Nat.le_max_right _ _)

variable {w : Writer LogRecord}

/-- **The store is opened** over a log that names no batch from the new ones on. -/
theorem Recorded.opened (hvalid : config.Valid) (hlimits : limits.Valid) (hw : w.Inv)
    {base : Nat} {reports : List Report}
    (hitems : w.items = w.written)
    (hcovered : lastSeq (w.written.map fun r => r.payload) < maxUint64) (hbase : 0 < base) (hbudget : idleBudget budget)
    (honce : (terminalsOf w.items).Nodup) (hnodup : ((descriptorsOf w.items).map Descriptor.commitSeq).Nodup)
    (hspent : ∀ id ∈ terminalsOf w.items, id < base) (hnamed : ∀ report ∈ reports, report.batchID < base)
    (hcommitted : ∀ prepared redirects seq, .committed prepared redirects seq ∈ reports →
      Durable w (committedDescriptor prepared redirects seq))
    (hfailed : ∀ batchID, .failed batchID ∈ reports → batchID ∉ terminalsOf w.items) :
    Recorded config ⟨.opened (lastSeq (w.written.map fun r => r.payload)) base budget, w, base, none, [], reports⟩ where
  tabled := Tabled.initial hvalid (opened_initial hlimits hcovered hbase hbudget)
  writer := hw
  ended := by
    have hbatches : ∀ n, base + n ∉ terminalsOf w.items := fun n hin =>
      absurd (hspent _ hin) (Nat.not_lt.mpr (Nat.le_add_right _ _))
    refine ⟨fun n => rfl, fun r _ _ hr _ => ?_, honce, fun n _ => ⟨hbatches n, not_mem_nil⟩, nodup_nil,
      nofun, nofun, fun report hreport => ?_⟩
    · rcases hr with hr | hr <;> exact absurd hr not_mem_nil
    · cases report with
      | committed prepared redirects seq => exact hcommitted prepared redirects seq hreport
      | failed batchID =>
        refine ⟨hfailed batchID hreport, not_mem_nil, fun n hn => ?_⟩
        have hlt : batchID < base := hnamed _ hreport
        rw [hn] at hlt
        exact absurd hlt (Nat.not_lt.mpr (Nat.le_add_right _ _))
  writing := ⟨fun _ => rfl, fun _ _ hcontrol => (nomatch hcontrol), fun _ _ _ hcontrol => (nomatch hcontrol),
    fun _ _ hcontrol => (nomatch hcontrol), nofun⟩
  numbering := by
    refine ⟨hnodup, fun _ d hd => ?_, fun _ hjob => (nomatch hjob)⟩
    refine Nat.lt_succ_of_le (le_lastSeq ?_)
    rw [hitems] at hd
    obtain ⟨r, hr, hin⟩ := mem_descriptorsOf.mp hd
    exact mem_flatMap.mpr ⟨r.payload, mem_map_of_mem hr, hin⟩

/-- What a crash leaves of the records. -/
theorem Fewer.reopen {survivors : Nat} (hdurable : w.durable ≤ survivors) (remaining : Nat) :
    Fewer w (w.reopen survivors remaining) := by
  have hsub : List.Sublist (w.written.take survivors) w.items :=
    (take_sublist _ _).trans ((sublist_append_right _ _).trans (sublist_append_right _ _))
  have hterminals : List.Sublist (terminalsOf (w.reopen survivors remaining).items) (terminalsOf w.items) :=
    hsub.flatMap _
  have hdescriptors : List.Sublist (descriptorsOf (w.reopen survivors remaining).items) (descriptorsOf w.items) :=
    hsub.flatMap _
  refine ⟨fun id hid => hterminals.subset hid, fun hnodup => hnodup.sublist hterminals,
    fun d hd => hdescriptors.subset hd, fun hnodup => hnodup.sublist (hdescriptors.map _), fun d hd => ?_⟩
  obtain ⟨r, hr, hin⟩ := hd
  refine ⟨r, ?_, hin⟩
  show r ∈ (w.written.take survivors).take w.durable
  rw [take_take, Nat.min_eq_left hdurable]
  exact hr

/-- **A crash.** -/
theorem Recorded.crash (h : Recorded config s) (hlimits : limits.Valid) {survivors remaining base : Nat}
    (hs : s.crash survivors remaining base budget = some s') : Recorded config s' := by
  obtain ⟨⟨hdurable, hspent, hbase, hbudget, hcovered⟩, rfl⟩ := Lib.when_eq_some hs
  have hfewer := Fewer.reopen hdurable remaining
  refine Recorded.opened h.tabled.valid hlimits (h.writer.reopen hdurable remaining) rfl hcovered hbase hbudget
    (hfewer.once h.ended.once) (hfewer.nodup h.numbering.nodup) ?_ ?_ ?_ ?_
  · intro id hid
    refine hspent id (mem_append_left _ ?_)
    obtain ⟨r, hr, hin⟩ := mem_terminalsOf.mp hid
    exact mem_flatMap.mpr ⟨r, mem_of_mem_take hr, hin⟩
  · exact fun report hreport => hspent _ (mem_append_right _ (mem_map_of_mem hreport))
  · exact fun prepared redirects seq hreport => hfewer.durable _ (h.ended.reports _ hreport)
  · exact fun batchID hreport hin => (h.ended.reports _ hreport).1 (hfewer.terminals _ hin)

theorem Recorded.fresh (hvalid : config.Valid) (hlimits : limits.Valid) {remaining base : Nat} (hbase : 0 < base)
    (hbudget : idleBudget budget) : Recorded config (.fresh remaining base budget) :=
  Recorded.opened hvalid hlimits (Writer.Inv.fresh remaining) rfl (show 0 < maxUint64 by decide) hbase hbudget nodup_nil
    nodup_nil nofun nofun
    nofun nofun

/-- **The step lemma.** -/
theorem Recorded.step (h : Recorded config s) (hlimits : limits.Valid) {e : StoreEvent}
    (hs : s.step config limits log e = some s') : Recorded config s' := by
  cases e with
  | act action => exact h.act hs
  | turn turn => exact h.turn hs
  | append physical => exact h.appendGroup hs
  | appendRefused => exact h.refuseGroup hs
  | abortAppend batchID physical => exact h.abortAppend hs
  | abortRefused batchID => exact h.abortRefused hs
  | put physical sync =>
    obtain ⟨w', hw', rfl⟩ := Option.map_eq_some_iff.mp hs
    exact h.put hw'
  | putRefused =>
    cases hs
    exact h.refused
  | log event =>
    obtain ⟨w', hw', rfl⟩ := Option.map_eq_some_iff.mp hs
    exact h.advance (h.writer.step hw')
  | closeLog =>
    obtain ⟨w', hw', rfl⟩ := Option.map_eq_some_iff.mp hs
    exact h.advance (h.writer.close hw')
  | crash => exact h.crash hlimits hs

theorem Recorded.reachable (h : (journal config limits log).Reachable s) : Recorded config s ∧ limits.Valid := by
  refine Lib.Machine.Reach.invariant (M := journal config limits log) (fun s => Recorded config s ∧ limits.Valid)
    ?_ ?_ h
  · rintro s ⟨hvalid, hlimits, remaining, base, budget, hbase, hbudget, rfl⟩
    exact ⟨Recorded.fresh hvalid hlimits hbase hbudget, hlimits⟩
  · intro s e s' ⟨hrecorded, hlimits⟩ _ hs
    exact ⟨hrecorded.step hlimits hs, hlimits⟩

/-! ## §3 — The outcomes of the commits -/

/-- A record as replay sees it. -/
def LogRecord.status : LogRecord → Replay.LogRecord
  | .group descriptors => .group ((descriptors.filter fun d => d.kind = .userCommit).map Descriptor.batchID)
  | .abort batchID => .abort batchID
  | .other => .other

theorem ends_status (records : List LogRecord) :
    Replay.ends (records.map LogRecord.status) = records.flatMap LogRecord.terminals := by
  rw [Replay.ends, flatMap_map]
  refine flatMap_congr fun record _ => ?_
  cases record <;> rfl

/-- **The outcomes are truthful**: a commit that was reported is in every recovered log, with its final mutations
and its sequence, and is there only once; a commit that was reported as failed is in none; and replay, from
wherever it starts, does not find a second end of a batch. -/
structure Truthful (s : Store) : Prop where
  committed : ∀ prepared redirects seq, .committed prepared redirects seq ∈ s.reports →
    ∀ survivors, s.writer.durable ≤ survivors →
      ((s.recovered survivors).flatMap LogRecord.commits).filter (fun d => d.batchID = prepared.batchID) =
        [committedDescriptor prepared redirects seq] ∧
      ((s.recovered survivors).flatMap LogRecord.descriptors).filter (fun d => d.commitSeq = seq) =
        [committedDescriptor prepared redirects seq]
  failed : ∀ batchID, .failed batchID ∈ s.reports → ∀ survivors,
    ∀ d ∈ (s.recovered survivors).flatMap LogRecord.commits, d.batchID ≠ batchID
  once : ∀ survivors, ((s.recovered survivors).flatMap LogRecord.terminals).Nodup
  replayed : ∀ survivors start capacity openBatchIDs, openBatchIDs.Nodup → 0 ∉ openBatchIDs →
    Replay.recover capacity openBatchIDs (((s.recovered survivors).drop start).map LogRecord.status) ≠ .error .corrupt

/-- The one element of a list with a key. -/
theorem filter_eq_singleton {α : Type*} {f : α → Nat} {l : List α} {a : α} (hnodup : (l.map f).Nodup) (ha : a ∈ l) :
    (l.filter fun x => f x = f a) = [a] := by
  obtain ⟨before, after, rfl⟩ := append_of_mem ha
  have hne : ∀ x ∈ before ++ after, ¬ f x = f a := by
    intro x hx heq
    have hperm : ((before ++ a :: after).map f).Perm (f a :: (before ++ after).map f) :=
      (perm_middle.map f)
    exact (nodup_cons.mp (hperm.nodup_iff.mp hnodup)).1 (heq ▸ mem_map_of_mem hx)
  have hnil : ∀ part : List α, (∀ x ∈ part, x ∈ before ++ after) → (part.filter fun x => f x = f a) = [] := by
    intro part hpart
    refine filter_eq_nil_iff.mpr fun x hx => ?_
    rw [decide_eq_true_eq]
    exact hne x (hpart x hx)
  have hself : decide (f a = f a) = true := decide_eq_true rfl
  rw [filter_append, hnil before fun x => mem_append_left _, filter_cons, if_pos hself,
    hnil after fun x => mem_append_right _]
  rfl

theorem terminals_commits (record : LogRecord) :
    List.Sublist (record.commits.map Descriptor.batchID) record.terminals := by
  cases record with
  | abort batchID => exact nil_sublist _
  | _ => exact List.Sublist.refl _

section Recovered

variable (s) (survivors : Nat)

theorem recovered_eq {β : Type*} (f : LogRecord → List β) :
    (s.recovered survivors).flatMap f = (s.writer.written.take survivors).flatMap fun r => f r.payload := by
  rw [Store.recovered, flatMap_map]

theorem taken_sublist : List.Sublist (s.writer.written.take survivors) s.writer.items :=
  (take_sublist _ _).trans ((sublist_append_right _ _).trans (sublist_append_right _ _))

theorem recovered_terminals :
    List.Sublist ((s.recovered survivors).flatMap LogRecord.terminals) (terminalsOf s.writer.items) := by
  rw [recovered_eq]
  exact (taken_sublist s survivors).flatMap _

theorem recovered_descriptors :
    List.Sublist ((s.recovered survivors).flatMap LogRecord.descriptors) (descriptorsOf s.writer.items) := by
  rw [recovered_eq]
  exact (taken_sublist s survivors).flatMap _

theorem recovered_commits : List.Sublist (((s.recovered survivors).flatMap LogRecord.commits).map Descriptor.batchID)
    ((s.recovered survivors).flatMap LogRecord.terminals) := by
  rw [map_flatMap]
  exact List.Sublist.flatMap_right _ fun record _ => terminals_commits record

end Recovered

/-- The outcomes of commits are truthful across crashes. -/
theorem commit_outcomes_truthful (h : (journal config limits log).Reachable s) : Truthful s := by
  obtain ⟨hrecorded, -⟩ := Recorded.reachable h
  have honce : ∀ survivors, ((s.recovered survivors).flatMap LogRecord.terminals).Nodup := fun survivors =>
    hrecorded.ended.once.sublist (recovered_terminals s survivors)
  refine ⟨?_, ?_, honce, ?_⟩
  · intro prepared redirects seq hreport survivors hdurable
    obtain ⟨r, hr, hd⟩ : Durable s.writer (committedDescriptor prepared redirects seq) :=
      hrecorded.ended.reports _ hreport
    have hr' : r ∈ s.writer.written.take survivors := take_subset_take_left _ hdurable hr
    have hdescriptor : committedDescriptor prepared redirects seq ∈
        (s.recovered survivors).flatMap LogRecord.descriptors :=
      mem_flatMap.mpr ⟨r.payload, mem_map_of_mem hr', hd⟩
    have hcommit : committedDescriptor prepared redirects seq ∈ (s.recovered survivors).flatMap LogRecord.commits :=
      mem_flatMap.mpr ⟨r.payload, mem_map_of_mem hr', mem_filter.mpr ⟨hd, decide_eq_true rfl⟩⟩
    refine ⟨filter_eq_singleton ((honce survivors).sublist (recovered_commits s survivors)) hcommit, ?_⟩
    exact filter_eq_singleton
      (hrecorded.numbering.nodup.sublist ((recovered_descriptors s survivors).map _)) hdescriptor
  · intro batchID hreport survivors d hd heq
    obtain ⟨hclear, -⟩ : batchID ∉ terminalsOf s.writer.items ∧ _ := hrecorded.ended.reports _ hreport
    refine hclear ((recovered_terminals s survivors).subset ((recovered_commits s survivors).subset ?_))
    exact heq ▸ mem_map_of_mem hd
  · intro survivors start capacity openBatchIDs hopen hzero
    refine Replay.recover_ne_corrupt hopen hzero ?_
    rw [ends_status]
    exact (honce survivors).sublist ((drop_sublist _ _).flatMap _)

/-- Of two tables that were installed, the first has the lower generation and was released. -/
def System.InTurn (s : System) : Prop :=
  ∀ t t' R R' g g', s.Installs t R → s.Installs t' R' → s.Grants t g → s.Grants t' g' → t < t' →
    g < g' ∧ ∃ u, s.Releases u g

/-- **Redirect tables are installed one after the other**, never two at a time. -/
theorem redirects_in_turn (h : (journal config limits log).Reachable s) : s.system.InTurn := by
  intro t t' R R' g g' hinstall hinstall' hgrant hgrant' hlt
  have hgen := (Recorded.reachable h).1.tabled.generational
  have hless := hgen.order t t' R R' g g' hinstall hinstall' hgrant hgrant' hlt
  have hpast := Nat.lt_of_lt_of_le hless (hgen.bound t' g' hgrant')
  exact ⟨hless, hgen.done t R g hinstall hgrant (.inr (Nat.ne_of_lt hpast))⟩

/-! ## §4 — A run -/

namespace Demo

def logSettings : WriterConfig := ⟨8, 4096, 8⟩

def journalStart : Store := .fresh 4096 7 ⟨64, 1024, 0, 0⟩

/-- A batch is committed. -/
def committing : List StoreEvent :=
  [.act (.call 0 (.put 1 8 true (.ok ref))), .act (.submit 0 1), .act (.prepare 0), .act (.enqueue 0), .turn .receive,
    .turn .stopCollecting, .turn (.process (.ok (empty 0))), .append 128, .log .receive, .log (.stage false none true),
    .log .flush, .log (.write none), .log (.sync true), .log .answer, .log .answer, .turn (.appended (.ok ()) false),
    .turn (.published none (.ok ⟨1, 1, 0⟩)), .turn .complete, .turn .complete]

/-- A second one fails in the write, a third one gives up, a fourth one is aborted; then the store is opened
again. -/
def failing : List StoreEvent :=
  [.act (.call 3 .abort), .abortAppend 10 32, .act (.call 1 (.put 1 8 true (.ok ref))), .act (.submit 1 1),
    .act (.call 2 (.put 1 8 true (.ok ref))), .act (.submit 2 1), .act (.prepare 1), .act (.prepare 2),
    .act (.enqueue 1), .act (.withdraw 2), .turn .receive, .turn .stopCollecting, .turn (.process (.ok (empty 0))),
    .appendRefused, .turn (.appended (.error [.closed]) false), .turn .complete, .turn .complete, .log .receive,
    .log (.stage false none true), .log .flush, .log (.write none), .crash 2 4096 20 ⟨64, 1024, 0, 0⟩]

/-- A table is installed. -/
def installing : List StoreEvent :=
  [.act (.install [(ref.addr, ⟨⟨2 ^ 63 + 64⟩, 64⟩)]), .turn .receive, .turn .redirect]

theorem journalStart_init : (journal settings bounds logSettings).init journalStart :=
  ⟨by decide, by decide, 4096, 7, ⟨64, 1024, 0, 0⟩, by decide, by decide, rfl⟩

end Demo

theorem commit_outcomes_truthful_demo :
    ∃ s, (journal Demo.settings Demo.bounds Demo.logSettings).Reachable s ∧
      s.reports = [.committed ⟨7, [⟨1, .put, Demo.ref, 8⟩], [], 8⟩ [] 1, .failed 9, .failed 8] ∧
      s.recovered 2 = [.group [committedDescriptor ⟨7, [⟨1, .put, Demo.ref, 8⟩], [], 8⟩ [] 1], .abort 10] ∧
      Truthful s := by
  have hrun : ((journal Demo.settings Demo.bounds Demo.logSettings).exec Demo.journalStart
      (Demo.committing ++ Demo.failing)).map (fun s => (s.reports, s.recovered 2)) =
      some ([.committed ⟨7, [⟨1, .put, Demo.ref, 8⟩], [], 8⟩ [] 1, .failed 9, .failed 8],
        [.group [committedDescriptor ⟨7, [⟨1, .put, Demo.ref, 8⟩], [], 8⟩ [] 1], .abort 10]) := by
    decide +kernel
  obtain ⟨s, hs, heq⟩ := Option.map_eq_some_iff.mp hrun
  have hreach : (journal Demo.settings Demo.bounds Demo.logSettings).Reachable s :=
    Lib.Machine.Reach.exec (.start Demo.journalStart_init) _ (fun _ _ _ => trivial) hs
  exact ⟨s, hreach, congrArg Prod.fst heq, congrArg Prod.snd heq, commit_outcomes_truthful hreach⟩

theorem redirects_in_turn_demo : ∃ s, (journal Demo.settings Demo.bounds Demo.logSettings).Reachable s ∧
    s.system.coordinator.redirectGen = 2 ∧ s.system.InTurn := by
  have hrun : ((journal Demo.settings Demo.bounds Demo.logSettings).exec Demo.journalStart
      (Demo.installing ++ [.act (.release 1), .turn .receive, .turn .redirect] ++ Demo.installing)).map
        (·.system.coordinator.redirectGen) = some 2 := by
    decide +kernel
  obtain ⟨s, hs, hgen⟩ := Option.map_eq_some_iff.mp hrun
  have hreach := Lib.Machine.Reach.exec (.start Demo.journalStart_init) _ (fun _ _ _ => trivial) hs
  exact ⟨s, hreach, hgen, redirects_in_turn hreach⟩

/-- A second `Commit` of a committed batch returns `ErrBatchClosed`, and the descriptor of the batch is durable. -/
theorem second_commit_of_committed_batch :
    ∃ s, (journal Demo.settings Demo.bounds Demo.logSettings).Reachable s ∧
      (s.system.shared.batches 0).mutationIDs = .error .batchClosed ∧
      (∀ survivors, s.writer.durable ≤ survivors →
        ∃ d ∈ (s.recovered survivors).flatMap LogRecord.commits, d.batchID = (s.system.shared.batches 0).id) := by
  have hrun : ((journal Demo.settings Demo.bounds Demo.logSettings).exec Demo.journalStart Demo.committing).map
      (fun s => ((s.system.shared.batches 0).mutationIDs, s.writer.durable, (s.system.shared.batches 0).id,
        ((s.recovered 1).flatMap LogRecord.commits).map Descriptor.batchID)) =
      some (.error .batchClosed, 1, 7, [7]) := by
    decide +kernel
  obtain ⟨s, hs, heq⟩ := Option.map_eq_some_iff.mp hrun
  have hreach : (journal Demo.settings Demo.bounds Demo.logSettings).Reachable s :=
    Lib.Machine.Reach.exec (.start Demo.journalStart_init) _ (fun _ _ _ => trivial) hs
  have hdurable : s.writer.durable = 1 := congrArg (fun x => x.2.1) heq
  have hid : (s.system.shared.batches 0).id = 7 := congrArg (fun x => x.2.2.1) heq
  have hcommits : ((s.recovered 1).flatMap LogRecord.commits).map Descriptor.batchID = [7] :=
    congrArg (fun x => x.2.2.2) heq
  refine ⟨s, hreach, congrArg Prod.fst heq, fun survivors hle => ?_⟩
  obtain ⟨d, hd, hbatch⟩ := mem_map.mp (hcommits ▸ mem_cons_self : 7 ∈ _)
  refine ⟨d, ?_, hbatch.trans hid.symm⟩
  obtain ⟨record, hrecord, hin⟩ := mem_flatMap.mp hd
  obtain ⟨r, hr, rfl⟩ := mem_map.mp hrecord
  exact mem_flatMap.mpr ⟨_, mem_map_of_mem (take_subset_take_left _ (hdurable ▸ hle) hr), hin⟩

end Ridstore.Commit
