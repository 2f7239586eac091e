import Ridstore.Commit.Endings

/-
# Ridstore.Commit.ExactlyOnce — the coordinator serves every request once and in order

The invariants together, the measure that every step of the coordinator lowers, and what follows for a whole
run.
-/

namespace Ridstore.Commit

open Transaction (Batch Limits)
open List

variable {config : Config} {limits : Limits} {s s' : System}

/-! ## §1 — The invariant -/

structure Inv (config : Config) (s : System) : Prop where
  valid : config.Valid
  ticketed : s.Ticketed
  flow : ∃ taken, Flow s taken
  lined : ∃ taken, Lined s taken
  sized : Sized config s
  sequenced : ∃ first, Sequenced s first
  inOrder : GroupsInOrder s
  positive : Positive s
  owned : Owned s
  settled : Settled s
  attributed : Attributed s

theorem Inv.initial (hvalid : config.Valid) (h : s.Initial limits) : Inv config s := by
  obtain ⟨covered, -, hcoordinator⟩ := h.coordinator
  have hcontrol : s.coordinator.control = .idle := by rw [hcoordinator]; rfl
  have hqueue : s.coordinator.queue = [] := by rw [hcoordinator]; rfl
  have hnext : s.coordinator.next = covered + 1 := by rw [hcoordinator]; rfl
  have htickets : s.tickets = [] := by rw [System.tickets, h.admitting, h.accepted]; rfl
  have hslots : s.slots = [] := by rw [System.slots, h.admitting, h.accepted]; rfl
  have hpending : s.pending = [] := by rw [System.pending, hqueue, hcontrol]; rfl
  have hunanswered : s.unanswered = [] := by rw [System.unanswered, h.admitting, hpending]; rfl
  have hassigned : s.assigned = [] := by rw [System.assigned, h.groups]; rfl
  refine ⟨hvalid, ⟨?_, ?_⟩, ⟨[], ?_⟩, ⟨[], ?_, ?_⟩, ⟨?_, ?_⟩, ⟨covered + 1, ?_, fun _ => ?_⟩, ?_, ⟨?_, ?_, ?_⟩,
    ⟨?_, ?_, ?_⟩, ⟨?_, ?_, ?_, ?_⟩, ⟨?_, ?_⟩⟩
  · rw [htickets]
    exact nodup_nil
  · rw [htickets]
    rintro _ ⟨⟩
  · refine ⟨?_, ?_, ?_, ?_, ?_, ?_⟩
    · rw [h.accepted, hqueue]; rfl
    · rw [h.answers, hcontrol]; exact List.Perm.refl _
    · rw [hcontrol]; rintro _ ⟨⟩
    · rw [hcontrol]; rintro _ _ ⟨⟩
    · rw [h.accepted]
      intro before ticket c rest heq
      exact absurd heq.symm (append_ne_nil_of_right_ne_nil _ (cons_ne_nil _ _))
    · rw [hcontrol]; rintro ⟨⟩
  · rw [h.accepted, hqueue]; rfl
  · rw [System.collected, h.groups, hcontrol]; exact List.Sublist.refl _
  · rw [hcontrol]; exact trivial
  · rw [h.groups]; rintro _ ⟨⟩
  · rw [hassigned]; rfl
  · rw [Coordinator.nextSeq, hcontrol, hassigned, hnext]; rfl
  · rw [GroupsInOrder, h.groups]; rintro _ ⟨⟩
  · rw [hnext]; exact Nat.succ_pos _
  · rw [hcontrol]; rintro _ ⟨⟩
  · rw [hcontrol]; rintro _ ⟨⟩
  · rw [hslots]; rintro _ ⟨⟩
  · rw [hunanswered]; rintro _ ⟨⟩
  · rw [h.answers]; rintro _ ⟨⟩
  · rw [h.issued]; exact h.ledger
  · rw [h.answers]; rintro _ ⟨⟩
  · rw [hcontrol]; rintro _ ⟨⟩
  · rw [h.accepted]; rintro _ _ ⟨⟩
  · rw [hcontrol]; rintro _ ⟨⟩
  · rw [h.answers]; rintro _ ⟨⟩

theorem Inv.act (h : Inv config s) (hact : s.Acts config limits s') : Inv config s' := by
  obtain ⟨taken, hflow⟩ := h.flow
  obtain ⟨lined, hlined⟩ := h.lined
  obtain ⟨first, hseq⟩ := h.sequenced
  have ht' := h.ticketed.act hact
  refine ⟨h.valid, ht', ⟨taken, hflow.act ht' hact⟩, ⟨lined, hlined.act hact⟩, h.sized.act hact,
    ⟨first, hseq.act hact⟩, ?_, h.positive.act hact, h.owned.act h.ticketed hflow ht' hact,
    h.settled.act h.ticketed hflow hact, h.attributed.act hact⟩
  rw [GroupsInOrder, hact.groups]
  exact h.inOrder

theorem Inv.turn (h : Inv config s) (hturn : s.Turns config s') : Inv config s' := by
  obtain ⟨taken, hflow⟩ := h.flow
  obtain ⟨lined, hlined⟩ := h.lined
  obtain ⟨first, hseq⟩ := h.sequenced
  refine ⟨h.valid, h.ticketed.turn hturn, hflow.turn h.ticketed hturn, hlined.turn hturn,
    h.sized.turn h.valid hturn, ⟨first, hseq.turn hturn⟩, h.inOrder.turn hturn, h.positive.turn hturn,
    h.owned.turn h.ticketed hflow hturn ?_, h.settled.turn hflow hturn, h.attributed.turn hturn⟩
  intro r seq resolved todo after hcontrol
  refine Nat.ne_of_gt (h.positive.seqs seq ?_)
  rw [hcontrol]
  exact mem_filterMap.mpr ⟨_, mem_cons_self, rfl⟩

/-- **The invariant holds in every run.** -/
theorem Inv.reachable (h : (system config limits).Reachable s) : Inv config s := by
  refine Lib.Machine.Reach.invariant (M := system config limits) (Inv config)
    (fun s hinit => Inv.initial hinit.1 hinit.2) ?_ h
  intro s e s' hinv _ hstep
  cases e with
  | act action => exact hinv.act (System.act_cases hstep)
  | turn turn => exact hinv.turn (System.turn_cases hstep)

/-! ## §2 — Progress -/

def After.work : After → Nat
  | .loop => 1
  | .exit => 0
  | .serve _ _ => 2
  | .collect group _ => group.length + 6

/-- The steps that the requests at hand may still take. -/
def Control.work : Control → Nat
  | .idle => 1
  | .exited => 0
  | .serving _ _ => 2
  | .collecting group _ => group.length + 6
  | .processing group after => group.length + 4 + after.work
  | .appending job after => job.entries.length + 3 + after.work
  | .publishing job after => job.entries.length + 2 + after.work
  | .completing todo after => todo.length + 1 + after.work

/-- **A bound on the steps of the coordinator** until everything accepted is answered. -/
def System.work (s : System) : Nat := s.coordinator.queue.length * 8 + s.coordinator.control.work

theorem After.work_control (after : After) : after.control.work = after.work := by
  cases after <;> rfl

theorem assignSequences_length {c : Coordinator} {group : List Request} {plan : Mapping.GroupPlan}
    {entries : List Entry} {next next' : Nat} (hplan : plan.proposals.length = group.length)
    (h : Coordinator.assignSequences next ((c.active group).zip plan.proposals) = some (entries, next')) :
    entries.length = group.length := by
  have hslots := congrArg List.length (assignSequences_slots hplan h)
  rw [length_map, length_map, System.active_length] at hslots
  exact hslots

/-- **Every step of the coordinator lowers the measure.** -/
theorem System.Turns.work_lt (h : s.Turns config s') : s'.work < s.work := by
  cases h with
  | exit hcontrol | append job after hcontrol =>
    simp only [System.work, System.withControl, hcontrol, Control.work]
    omega
  | serve ticket c rest hcontrol hqueue | reject r rest cause hcontrol hqueue
  | start r rest bytes hcontrol hqueue | collectServe group bytes ticket c rest hcontrol hqueue
  | collectReject group bytes r rest cause hcontrol hqueue | overflow group bytes r rest single hcontrol hqueue
  | collect group bytes r rest single hcontrol hlength hqueue =>
    simp only [System.work, System.take, hcontrol, hqueue, Control.work, After.work, length_cons,
      length_append, length_nil]
    omega
  | collectExit group bytes hcontrol | stop group bytes hcontrol =>
    simp only [System.work, System.withControl, hcontrol, Control.work, After.work]
    omega
  | refuse group refused after cause fault hcontrol hrefused hfault =>
    have hlength : refused.length = group.length := by
      rcases hrefused with rfl | rfl
      · rfl
      · exact System.active_length _ _
    simp only [System.work, hcontrol, Control.work, Coordinator.rejectGroup, length_map, hlength]
    omega
  | assign group after plan entries next hcontrol hfault hplan hassign hencode =>
    simp only [System.work, System.withControl, hcontrol, Control.work, assignSequences_length hplan hassign]
    omega
  | appendFailed job after cause poisoned hcontrol | publishFailed job after cause ledger hcontrol
  | publish job after ledger hcontrol =>
    simp only [System.work, System.withLedger, System.withControl, System.failed, Coordinator.fail, hcontrol,
      Control.work, Coordinator.verdicts, length_map]
    omega
  | complete r verdict todo after fault hcontrol hfault =>
    simp only [System.work, hcontrol, Control.work, length_cons]
    omega
  | resume after hcontrol =>
    simp only [System.work, System.withControl, hcontrol]
    rw [after.work_control]
    simp only [Control.work, length_nil]
    omega
  | checkpoint ticket covered outcome hcontrol =>
    simp only [System.work, System.answer, hcontrol, Control.work,
      (s.coordinator.processCheckpoint_serves covered outcome).queue]
    omega
  | redirect ticket command hcontrol =>
    simp only [System.work, System.answer, hcontrol, Control.work,
      (s.coordinator.processRedirect_serves command).queue]
    omega

/-- **The coordinator stops only when nothing is pending.** -/
theorem pending_of_stuck (hinv : Inv config s) (hstuck : ∀ t, s.turn config t = none) : s.pending = [] := by
  obtain ⟨taken, hflow⟩ := hinv.flow
  cases hcontrol : s.coordinator.control with
  | idle =>
    have hreceive := hstuck .receive
    cases hqueue : s.coordinator.queue with
    | nil => rw [System.pending, hqueue, hcontrol]; rfl
    | cons q rest =>
      cases q with
      | command ticket c =>
        simp only [System.turn, Coordinator.receive, hcontrol, Coordinator.receiveFirst, hqueue,
          Option.map_some, reduceCtorEq] at hreceive
      | request r =>
        simp only [System.turn, Coordinator.receive, hcontrol, Coordinator.receiveFirst, hqueue] at hreceive
        split at hreceive <;> cases hreceive
  | collecting group bytes =>
    have hreceive := hstuck .receive
    have hstop := hstuck .stopCollecting
    simp only [System.turn, Coordinator.stopCollecting, hcontrol, Option.map_eq_none_iff,
      ite_eq_right_iff, reduceCtorEq, imp_false, not_or, not_and, Nat.not_le] at hstop
    obtain ⟨hlength, -, hopen⟩ := hstop
    simp only [System.turn, Coordinator.receive, hcontrol, Coordinator.receiveNext,
      if_neg (Nat.not_le_of_lt hlength), Option.map_eq_none_iff] at hreceive
    split at hreceive
    next hqueue =>
      split at hreceive
      next => cases hreceive
      next hclosed => exact absurd (Bool.eq_false_of_not_eq_true hclosed) (hopen hqueue)
    next => cases hreceive
    next =>
      split at hreceive
      next => cases hreceive
      next => split at hreceive <;> cases hreceive
  | processing group after =>
    have hprocess := hstuck (.process (.error []))
    simp only [System.turn, System.process, hcontrol, reduceCtorEq] at hprocess
  | appending job after =>
    have happended := hstuck (.appended (.ok ()) false)
    simp only [System.turn, System.appended, hcontrol, reduceCtorEq] at happended
  | publishing job after =>
    have hpublished := hstuck (.published (some []) (.error []))
    simp only [System.turn, System.published, hcontrol, reduceCtorEq] at hpublished
  | completing todo after =>
    have hcomplete := hstuck .complete
    cases todo with
    | nil => simp only [System.turn, System.complete, hcontrol, reduceCtorEq] at hcomplete
    | cons x todo =>
      obtain ⟨r, verdict⟩ := x
      simp only [System.turn, System.complete, hcontrol] at hcomplete
      split at hcomplete <;> cases hcomplete
  | serving ticket c =>
    cases c with
    | barrier =>
      have hserve := hstuck (.checkpoint 0 (.error []))
      simp only [System.turn, System.checkpoint, hcontrol, reduceCtorEq] at hserve
    | redirect command =>
      have hserve := hstuck .redirect
      simp only [System.turn, System.redirect, hcontrol, reduceCtorEq] at hserve
  | exited =>
    have hqueue := (hflow.exiting (by rw [hcontrol]; rfl)).1
    rw [System.pending, hqueue, hcontrol]
    rfl

/-! ## §3 — What a run has done -/

/-- The requests that were given a sequence, of the users or of the relocations, in the order of the groups. -/
def System.assignedOf (s : System) (user : Bool) : List Slot :=
  (s.assigned.map fun e => e.request.slot).filter fun x => x.isUser = user

/-- The accepted ones of them. -/
def System.acceptedOf (s : System) (user : Bool) : List Slot :=
  (s.accepted.map Queued.slot).filter fun x => x.isUser = user

/-- **A run serves every request once and in order.** -/
structure ServesOnce (config : Config) (s : System) : Prop where
  /-- No request is answered twice, and only accepted ones are answered. -/
  once : (s.shared.answers.map Prod.fst).Nodup
  accepted : ∀ t ∈ s.shared.answers.map Prod.fst, t ∈ s.accepted.map Queued.ticket
  /-- The coordinator cannot go on for ever without new requests, and when it cannot go on at all every
  accepted request has been answered. -/
  progress : ∀ t s', s.turn config t = some s' → s'.work < s.work
  drained : (∀ t, s.turn config t = none) →
    (s.shared.answers.map Prod.fst).Perm (s.accepted.map Queued.ticket)
  /-- A batch ends in the terminal state of its answer. -/
  batches : ∀ r batch prepared, .request r ∈ s.accepted → r.work = .commit batch prepared →
    ∀ a, (r.ticket, a) ∈ s.shared.answers →
      Ends (s.shared.batches batch) a ∧ (s.shared.batches batch).state.terminal = true
  /-- The reservation of an answered request is settled, and the budget holds exactly the others. -/
  settled : ∀ t ∈ s.shared.answers.map Prod.fst, s.shared.ledger.held t = false
  reserved : s.shared.ledger.budget.reserved = ∑ t ∈ Finset.range s.issued, s.shared.ledger.holding t
  /-- No group is larger than the limits. -/
  groups : ∀ g ∈ s.groups, g.collected.length ≤ config.maxGroupBatches ∧
    groupPayload g.collected ≤ config.maxGroupPayload
  /-- What comes before a command is answered before it, and what comes after it later. -/
  commands : Ordered s.accepted (s.shared.answers.map Prod.fst)
  /-- An answer with a commit sequence tells the one that its request was assigned. -/
  replies : ∀ p ∈ s.shared.answers, p.2.sequenced = true →
    ∃ e ∈ s.assigned, e.request.ticket = p.1 ∧ p.2 = e.reply
  /-- The commit sequences are contiguous. -/
  sequences : ∃ first, s.assigned.map Entry.seq = List.range' first s.assigned.length
  /-- Users and relocations are each in the order of the queue, and inside of a group users come first. -/
  fifo : ∀ user, (s.assignedOf user).Sublist (s.acceptedOf user)
  usersFirst : ∀ g ∈ s.groups,
    (g.assigned.map fun e => e.request.slot).Pairwise fun a b => b.isUser = true → a.isUser = true

/-- The groups, one after the other, keep the order of each class. -/
theorem assignedOf_sublist {groups : List Group} (h : ∀ g ∈ groups, g.InOrder) (user : Bool) :
    (((groups.flatMap Group.assigned).map fun e => e.request.slot).filter fun x => x.isUser = user).Sublist
      (((groups.flatMap Group.collected).map Request.slot).filter fun x => x.isUser = user) := by
  induction groups with
  | nil => exact List.Sublist.refl _
  | cons g groups ih =>
    simp only [flatMap_cons, map_append, filter_append]
    refine ((h g mem_cons_self).fifo user).append (ih fun g' hg' => h g' ?_)
    exact mem_cons_of_mem _ hg'

theorem Inv.fifo (h : Inv config s) (user : Bool) : (s.assignedOf user).Sublist (s.acceptedOf user) := by
  obtain ⟨taken, hlined⟩ := h.lined
  refine (assignedOf_sublist h.inOrder user).trans (List.Sublist.filter _ ?_)
  have hcollected : ((s.groups.flatMap Group.collected).map Queued.request).Sublist s.accepted := by
    rw [hlined.accepted]
    refine (List.Sublist.map _ (sublist_append_left _ s.coordinator.control.waiting)).trans ?_
    exact hlined.sublist.trans (sublist_append_left _ _)
  have hmap := hcollected.map Queued.slot
  rwa [map_map] at hmap

theorem Inv.drained (h : Inv config s) (hstuck : ∀ t, s.turn config t = none) :
    (s.shared.answers.map Prod.fst).Perm (s.accepted.map Queued.ticket) := by
  obtain ⟨taken, hflow⟩ := h.flow
  have hpending := pending_of_stuck h hstuck
  rw [System.pending, append_eq_nil_iff, map_eq_nil_iff] at hpending
  have hperm := hflow.perm
  rw [hpending.2, map_nil, append_nil] at hperm
  rw [hflow.accepted, hpending.1, append_nil]
  exact hperm.symm

/-- **Exactly once and in order**, for every sequence of requests and every outcome of the log and of the
mapping. -/
theorem coordinator_serves_once (h : (system config limits).Reachable s) : ServesOnce config s := by
  have hinv := Inv.reachable h
  obtain ⟨taken, hflow⟩ := hinv.flow
  obtain ⟨first, hseq⟩ := hinv.sequenced
  refine ⟨?_, fun t ht => ?_, fun t s' hturn => (System.turn_cases hturn).work_lt, hinv.drained, ?_,
    hinv.settled.answered, hinv.settled.sound.reserved, hinv.sized.groups, hflow.ordered,
    hinv.attributed.answered, ⟨first, hseq.seqs⟩, hinv.fifo, fun g hg => (hinv.inOrder g hg).pairwise⟩
  · exact (nodup_append.mp (hflow.nodup hinv.ticketed)).1
  · rw [hflow.accepted, map_append]
    exact mem_append_left _ (hflow.answered_subset ht)
  · intro r batch prepared hmem hwork a hanswer
    have hslot : (⟨r.ticket, .commit batch⟩ : Slot) ∈ s.accepted.map Queued.slot := by
      refine mem_map.mpr ⟨_, hmem, ?_⟩
      simp only [Queued.slot, Request.slot, hwork]
    have hends := hinv.owned.answered (r.ticket, a) hanswer batch hslot
    exact ⟨hends, hends.terminal⟩

/-! ## §4 — A run -/

namespace Demo

def settings : Config := ⟨4, 2, 1024, 0⟩

def bounds : Limits := ⟨64, 256, 4, 4⟩

def start : System :=
  { coordinator := .new 0
    shared := ⟨⟨⟨64, 128, 0, 0⟩, fun _ => ⟨0, true⟩⟩, fun batch => ⟨batch + 7, .opened, [], [], 0, 0⟩, []⟩
    issued := 0
    admitting := []
    fence := none
    accepted := []
    groups := [] }

def ref : RecordLog.RecordRef := ⟨⟨2 ^ 32 + 64⟩, 64⟩

/-- The mapping without a reference. -/
def empty (covered : Nat) : Mapping.View := ⟨covered, fun _ => none, fun _ => false⟩

/-- A batch with one put is committed, and a checkpoint cuts the log behind it. -/
def events : List Event :=
  [.act (.call 0 (.put 1 8 true (.ok ref))), .act (.submit 0 1), .act (.prepare 0), .act (.enqueue 0),
    .act .barrier, .turn .receive, .turn .receive, .turn (.process (.ok (empty 0))),
    .turn (.appended (.ok ()) false), .turn (.published none (.ok ⟨1, 1, 0⟩)), .turn .complete, .turn .complete,
    .turn (.checkpoint 1 (.ok ⟨1, 256⟩))]

theorem start_initial : (system settings bounds).init start := by
  refine ⟨by decide, ⟨⟨0, by decide, rfl⟩, fun batch => ⟨batch + 7, ?_⟩, rfl, ⟨rfl, by decide, fun _ _ => rfl⟩, rfl,
    rfl, rfl, rfl, rfl⟩⟩
  have hvalid : bounds.Valid := by decide
  rw [Batch.new, if_neg (not_or.mpr ⟨Nat.succ_ne_zero _, not_not.mpr hvalid⟩)]
  rfl

end Demo

theorem coordinator_serves_once_demo :
    ∃ s, (system Demo.settings Demo.bounds).Reachable s ∧
      s.shared.answers = [(0, .committed 7 1), (1, .cut 1 ⟨1, 256⟩)] ∧ ServesOnce Demo.settings s := by
  have hrun : ((system Demo.settings Demo.bounds).exec Demo.start Demo.events).map (fun s => s.shared.answers) =
      some [(0, .committed 7 1), (1, .cut 1 ⟨1, 256⟩)] := by
    decide +kernel
  obtain ⟨s, hs, hanswers⟩ := Option.map_eq_some_iff.mp hrun
  have hreach : (system Demo.settings Demo.bounds).Reachable s :=
    Lib.Machine.Reach.exec (.start Demo.start_initial) Demo.events (fun _ _ _ => trivial) hs
  exact ⟨s, hreach, hanswers, coordinator_serves_once hreach⟩

end Ridstore.Commit
