import Ridstore.Commit.Groups

/-
# Ridstore.Commit.Endings — how batches and reservations end

A batch that was handed over is committing until its request is answered and is in the terminal state of the
answer from then on.  A reservation is open until it is released or consumed, and the budget holds exactly
the open ones; none is left when the request has been answered.
-/

namespace Ridstore.Commit

open Transaction (Batch Limits Prepared)
open Function List
open Mapping (Ledger)

variable {config : Config} {limits : Limits} {s s' : System} {control : Control} {shared : Shared}

/-! ## §1 — What a turn does to the requests at hand -/

/-- The requests of the queue and of the coordinator. -/
def System.pending (s : System) : List Slot :=
  s.coordinator.queue.map Queued.slot ++ s.coordinator.control.held

/-- The requests stay pending, or one of them is answered. -/
inductive System.Effect (s s' : System) : Prop
  | move (hpending : s'.pending.Perm s.pending) (hanswers : s'.shared.answers = s.shared.answers)
      (hbatches : s'.shared.batches = s.shared.batches)
  | complete (r : Request) (verdict : Verdict) (todo : List (Request × Verdict)) (after : After)
      (hcontrol : s.coordinator.control = .completing ((r, verdict) :: todo) after)
      (hpending : s.pending.Perm (r.slot :: s'.pending)) (hshared : s'.shared = (s.shared.complete r verdict).1)
  | answer (ticket : Nat) (a : Answer) (hpending : s.pending.Perm (⟨ticket, .command⟩ :: s'.pending))
      (hanswers : s'.shared.answers = s.shared.answers ++ [(ticket, a)])
      (hbatches : s'.shared.batches = s.shared.batches)

variable {q : Queued}

/-- An element goes from the queue into the hands of the coordinator. -/
theorem take_pending {rest : List Queued} (hqueue : s.coordinator.queue = q :: rest)
    (hheld : control.held.Perm (q.slot :: s.coordinator.control.held)) :
    (s.take rest control).pending.Perm s.pending := by
  show (rest.map Queued.slot ++ control.held).Perm _
  rw [System.pending, hqueue, map_cons, cons_append]
  exact (hheld.append_left _).trans perm_middle

/-- The elements at hand change their form only. -/
theorem keep_pending (hqueue : s'.coordinator.queue = s.coordinator.queue)
    (hheld : s'.coordinator.control.held.Perm s.coordinator.control.held) : s'.pending.Perm s.pending := by
  rw [System.pending, System.pending, hqueue]
  exact hheld.append_left _

variable {x : Slot}

theorem answer_pending (hqueue : s'.coordinator.queue = s.coordinator.queue)
    (hheld : s.coordinator.control.held = x :: s'.coordinator.control.held) : s.pending.Perm (x :: s'.pending) := by
  rw [System.pending, System.pending, hqueue, hheld]
  exact perm_middle

theorem System.Turns.effect (h : s.Turns config s') : s.Effect s' := by
  cases h with
  | exit hcontrol | append job after hcontrol =>
    refine .move (keep_pending rfl ?_) rfl rfl
    rw [hcontrol]
    exact List.Perm.refl _
  | serve ticket c rest hcontrol hqueue | reject r rest cause hcontrol hqueue
  | start r rest bytes hcontrol hqueue | collectReject group bytes r rest cause hcontrol hqueue =>
    refine .move (take_pending hqueue ?_) rfl rfl
    rw [hcontrol]
    exact List.Perm.refl _
  | collectExit group bytes hcontrol | stop group bytes hcontrol =>
    refine .move (keep_pending rfl ?_) rfl rfl
    rw [hcontrol]
    exact List.Perm.of_eq (append_nil _)
  | collectServe group bytes ticket c rest hcontrol hqueue | overflow group bytes r rest single hcontrol hqueue =>
    refine .move (take_pending hqueue ?_) rfl rfl
    rw [hcontrol]
    exact perm_append_singleton _ _
  | collect group bytes r rest single hcontrol hlength hqueue halone hfits =>
    refine .move (take_pending hqueue ?_) rfl rfl
    rw [hcontrol]
    simp only [Control.held, map_append, map_cons, map_nil]
    exact perm_append_singleton _ _
  | refuse group refused after cause fault hcontrol hrefused hfault =>
    refine .move (keep_pending rfl ?_) rfl rfl
    rw [hcontrol]
    simp only [Control.held, rejectGroup_slots]
    refine List.Perm.append_right _ ?_
    rcases hrefused with rfl | rfl
    · exact List.Perm.refl _
    · exact active_slots _ _
  | assign group after plan entries next hcontrol hfault hplan hassign hencode =>
    refine .move (keep_pending rfl ?_) rfl rfl
    rw [hcontrol]
    simp only [System.withControl, Control.held, assignSequences_slots hplan hassign]
    exact (active_slots _ _).append_right _
  | appendFailed job after cause poisoned hcontrol | publishFailed job after cause ledger hcontrol
  | publish job after ledger hcontrol =>
    refine .move (keep_pending rfl ?_) rfl rfl
    rw [hcontrol]
    simp only [System.withLedger, System.withControl, Control.held, verdicts_slots]
    exact List.Perm.refl _
  | complete r verdict todo after fault hcontrol hfault =>
    refine .complete r verdict todo after hcontrol (answer_pending rfl ?_) rfl
    rw [hcontrol]
    rfl
  | resume after hcontrol =>
    refine .move (keep_pending rfl ?_) rfl rfl
    rw [hcontrol]
    simp only [System.withControl, After.held_control]
    exact List.Perm.refl _
  | checkpoint ticket covered outcome hcontrol =>
    refine .answer ticket _ (answer_pending (s.coordinator.processCheckpoint_serves _ _).queue ?_) rfl rfl
    rw [hcontrol]
    rfl
  | redirect ticket command hcontrol =>
    refine .answer ticket _ (answer_pending (s.coordinator.processRedirect_serves _).queue ?_) rfl rfl
    rw [hcontrol]
    rfl

/-! ## §2 — The batches -/

/-- The request of a caller that has only to be queued. -/
def Admission.slot : Admission → Option Slot
  | .ready r => some r.slot
  | .reserved _ _ => none

/-- The requests that were handed over: those of the callers that only have to queue them, and the accepted
ones. -/
def System.slots (s : System) : List Slot := s.admitting.filterMap Admission.slot ++ s.accepted.map Queued.slot

/-- The ones of them that were not answered. -/
def System.unanswered (s : System) : List Slot := s.admitting.filterMap Admission.slot ++ s.pending

/-- The batch is in the terminal state that the answer tells. -/
def Ends (b : Batch) : Answer → Prop
  | .committed _ seq => b.state = .committed ∧ b.commitSeq = seq
  | .failed cause => b.state = .aborted ∨ b.state = .commitUnknown ∧ .commitUnknown ∈ cause
  | .relocated _ _ _ _ | .cut _ _ | .redirected _ => False

variable {b : Batch} {a : Answer}

theorem Ends.terminal (h : Ends b a) : b.state.terminal = true := by
  cases a with
  | committed batchID seq => rw [h.1]; rfl
  | failed cause =>
    rcases h with habort | ⟨hunknown, -⟩
    · rw [habort]; rfl
    · rw [hunknown]; rfl
  | _ => exact h.elim

theorem Ends.touched (h : Ends b a) : ¬ b.untouched := by
  have hterminal := h.terminal
  rintro (hstate | hstate)
  · rw [hstate] at hterminal
    cases hterminal
  · rw [hstate] at hterminal
    cases hterminal

/-- **The batches of the requests**: each belongs to one request, is committing until the answer and in the
state of the answer afterwards. -/
structure Owned (s : System) : Prop where
  unique : ∀ x ∈ s.slots, ∀ y ∈ s.slots, ∀ batch, x.kind = .commit batch → y.kind = .commit batch → x = y
  committing : ∀ x ∈ s.unanswered, ∀ batch, x.kind = .commit batch →
    (s.shared.batches batch).state = .committing
  answered : ∀ p ∈ s.shared.answers, ∀ batch, ⟨p.1, .commit batch⟩ ∈ s.accepted.map Queued.slot →
    Ends (s.shared.batches batch) p.2

theorem mem_readySlots {l : List Admission} : x ∈ l.filterMap Admission.slot ↔ ∃ r, .ready r ∈ l ∧ r.slot = x := by
  rw [mem_filterMap]
  constructor
  · rintro ⟨a, ha, hslot⟩
    cases a with
    | reserved ticket batch => cases hslot
    | ready r => exact ⟨r, ha, Option.some.inj hslot⟩
  · rintro ⟨r, hr, rfl⟩
    exact ⟨_, hr, rfl⟩

theorem readySlots_tickets (l : List Admission) :
    ((l.filterMap Admission.slot).map Slot.ticket).Sublist (l.map Admission.ticket) := by
  induction l with
  | nil => exact List.Sublist.refl _
  | cons a l ih =>
    cases a with
    | reserved ticket batch => exact ih.cons _
    | ready r =>
      have hcons : (Admission.ready r :: l).filterMap Admission.slot = r.slot :: l.filterMap Admission.slot :=
        rfl
      rw [hcons, map_cons, map_cons, Request.slot_ticket]
      exact ih.cons_cons _

/-- A ticket belongs to one request. -/
theorem System.Ticketed.slot_eq (h : s.Ticketed) {x y : Slot} (hx : x ∈ s.slots) (hy : y ∈ s.slots)
    (hticket : x.ticket = y.ticket) : x = y := by
  have hsub : (s.slots.map Slot.ticket).Sublist s.tickets := by
    rw [System.slots, map_append, map_map]
    have haccepted : s.accepted.map (Slot.ticket ∘ Queued.slot) = s.accepted.map Queued.ticket :=
      map_congr_left fun q _ => q.slot_ticket
    rw [haccepted]
    exact (readySlots_tickets _).append_right _
  exact inj_on_of_nodup_map (h.nodup.sublist hsub) hx hy hticket

variable {taken : List Queued}

theorem Flow.pending_accepted (h : Flow s taken) (hx : x ∈ s.pending) : x ∈ s.accepted.map Queued.slot := by
  rw [h.accepted, map_append, mem_append]
  rcases mem_append.mp hx with hqueue | hheld
  · exact .inr hqueue
  · exact .inl (h.held x hheld)

theorem Flow.unanswered_slots (h : Flow s taken) (hx : x ∈ s.unanswered) : x ∈ s.slots := by
  rcases mem_append.mp hx with hready | hpending
  · exact mem_append_left _ hready
  · exact mem_append_right _ (h.pending_accepted hpending)

/-- The command that is being served was accepted. -/
theorem Flow.serving {ticket : Nat} {c : Command} (h : Flow s taken)
    (hcontrol : s.coordinator.control = .serving ticket c) : .command ticket c ∈ s.accepted := by
  obtain ⟨before, htaken⟩ := h.command ticket c (by rw [hcontrol]; rfl)
  rw [h.accepted, htaken]
  simp only [append_assoc, mem_append, mem_cons, true_or, or_true]

/-- What was taken is answered or at hand. -/
theorem Flow.taken_cases (h : Flow s taken) (ht : s.Ticketed)
    (hq : q ∈ taken) : q.ticket ∈ s.shared.answers.map Prod.fst ∨ q.slot ∈ s.coordinator.control.held := by
  rcases mem_append.mp (h.perm.mem_iff.mp (mem_map_of_mem hq)) with hanswer | hheld
  · exact .inl hanswer
  · obtain ⟨x, hx, hticket⟩ := mem_map.mp hheld
    obtain ⟨q', hq', rfl⟩ := mem_map.mp (h.held x hx)
    rw [Queued.slot_ticket] at hticket
    have hsame : q' = q := inj_on_of_nodup_map (h.taken_nodup ht) hq' hq hticket
    exact .inr (hsame ▸ hx)

/-- What was answered is no longer pending. -/
theorem Flow.not_answered (h : Flow s taken) (ht : s.Ticketed)
    (hx : x ∈ s.pending) : x.ticket ∉ s.shared.answers.map Prod.fst := by
  intro hmem
  rcases mem_append.mp hx with hqueue | hheld
  · have hnodup := ht.accepted
    rw [h.accepted, map_append, nodup_append] at hnodup
    obtain ⟨q, hq, rfl⟩ := mem_map.mp hqueue
    rw [Queued.slot_ticket] at hmem
    exact hnodup.2.2 _ (h.answered_subset hmem) _ (mem_map_of_mem hq) rfl
  · exact (nodup_append.mp (h.nodup ht)).2.2 _ hmem _ (mem_map_of_mem hheld) rfl

theorem unanswered_nodup (ht : s.Ticketed) (hflow : Flow s taken) : s.unanswered.Nodup := by
  have hqueue : s.coordinator.queue.map (Slot.ticket ∘ Queued.slot) = s.coordinator.queue.map Queued.ticket :=
    map_congr_left fun q _ => q.slot_ticket
  -- the tickets of the pending requests are those of the accepted ones without the answered ones
  have hperm : (s.accepted.map Queued.ticket).Perm
      (s.shared.answers.map Prod.fst ++ s.pending.map Slot.ticket) := by
    rw [hflow.accepted, map_append, System.pending, map_append, map_map, hqueue]
    refine (hflow.perm.append_right _).trans ?_
    rw [append_assoc]
    exact perm_append_comm.append_left _
  have htickets : (s.unanswered.map Slot.ticket).Nodup := by
    have hnodup : (s.admitting.map Admission.ticket ++
        (s.shared.answers.map Prod.fst ++ s.pending.map Slot.ticket)).Nodup :=
      (hperm.append_left _).nodup_iff.mp ht.nodup
    rw [System.unanswered, map_append]
    exact hnodup.sublist ((readySlots_tickets _).append (sublist_append_right _ _))
  exact List.Nodup.of_map _ htickets

/-- The batch of the request may have a descriptor in the log. -/
def Verdict.exposes : Verdict → Bool
  | .success _ _ => true
  | .failure _ unknown accepted => unknown && accepted

variable {r : Request} {verdict : Verdict}

/-- **The ending of a commit**: the batch takes the terminal state that is answered. -/
theorem complete_commit {batch : Nat} {p : Prepared}
    (hwork : r.work = .commit batch p) (hstate : (shared.batches batch).state = .committing)
    (hseq : ∀ seq resolved, verdict = .success seq resolved → seq ≠ 0) :
    ∃ a b, (shared.complete r verdict).1.answers = shared.answers ++ [(r.ticket, a)] ∧
      (shared.complete r verdict).1.batches = update shared.batches batch b ∧
      b.id = (shared.batches batch).id ∧ Ends b a ∧
      ((∃ seq resolved, verdict = .success seq resolved ∧ a = .committed p.batchID seq) ∨
        (∃ cause, a = .failed cause ∧ .commitUnknown ∈ cause) ∨
        verdict.exposes = false ∧ b.state = .aborted ∧ ∃ cause, a = .failed cause) := by
  cases verdict with
  | success seq resolved =>
    have hmark := Batch.markCommitted_of_committing hstate (hseq seq resolved rfl)
    simp only [Shared.complete, Shared.completeSuccess, hwork, hmark]
    exact ⟨_, _, rfl, rfl, rfl, ⟨rfl, rfl⟩, .inl ⟨seq, resolved, rfl, rfl⟩⟩
  | failure cause unknown accepted =>
    have hmark := Batch.markTerminal_of_committing hstate
    cases hunknown : unknown && accepted with
    | true =>
      simp only [Shared.complete, Shared.completeFailure, hwork, hunknown, Shared.release,
        Batch.markCommitUnknown, hmark]
      exact ⟨_, _, rfl, rfl, rfl, .inr ⟨rfl, mem_cons_self⟩, .inr (.inl ⟨_, rfl, mem_cons_self⟩)⟩
    | false =>
      simp only [Shared.complete, Shared.completeFailure, hwork, hunknown, Shared.release, Batch.markAborted, hmark]
      exact ⟨_, _, rfl, rfl, rfl, .inl rfl, .inr (.inr ⟨hunknown, rfl, _, rfl⟩)⟩

theorem complete_relocation (hkind : ∀ batch, r.slot.kind ≠ .commit batch) :
    (shared.complete r verdict).1.batches = shared.batches := by
  obtain ⟨ticket, work⟩ := r
  cases work with
  | commit batch prepared => exact absurd rfl (hkind batch)
  | relocation relocation =>
    cases verdict with
    | success seq resolved => rfl
    | failure cause unknown accepted =>
      simp only [Shared.complete, Shared.completeFailure]
      cases unknown && accepted <;> rfl

namespace Owned

variable {batch : Nat}

/-- A batch that was handed over has left the open states. -/
theorem given (h : Owned s) (ht : s.Ticketed) (hflow : Flow s taken) (hx : x ∈ s.slots)
    (hkind : x.kind = .commit batch) :
    (s.shared.batches batch).state ≠ .opened ∧ (s.shared.batches batch).state ≠ .failed := by
  by_cases hunanswered : x ∈ s.unanswered
  · rw [h.committing x hunanswered batch hkind]
    decide
  · rcases mem_append.mp hx with hready | haccepted
    · exact absurd (mem_append_left _ hready) hunanswered
    · -- it was taken and is not at hand, so it was answered
      obtain ⟨q, hq, rfl⟩ := mem_map.mp haccepted
      rw [hflow.accepted] at hq
      have hanswered : q.ticket ∈ s.shared.answers.map Prod.fst := by
        rcases mem_append.mp hq with htaken | hqueue
        · rcases hflow.taken_cases ht htaken with hanswer | hheld
          · exact hanswer
          · exact absurd (mem_append_right _ (mem_append_right _ hheld)) hunanswered
        · refine absurd (mem_append_right _ (mem_append_left _ ?_)) hunanswered
          exact mem_map_of_mem hqueue
      obtain ⟨p, hp, hticket⟩ := mem_map.mp hanswered
      have hslot : (⟨p.1, .commit batch⟩ : Slot) ∈ s.accepted.map Queued.slot := by
        have : (⟨p.1, .commit batch⟩ : Slot) = q.slot := by
          rw [hticket, ← Queued.slot_ticket, ← hkind]
        rw [this]
        exact haccepted
      exact not_or.mp (h.answered p hp batch hslot).touched

/-- A step of the callers that gives no request a batch and changes only batches that no request has. -/
theorem frame (h : Owned s) (hflow : Flow s taken) (ht' : s'.Ticketed) (hact : s.Acts config limits s')
    (hslots : ∀ x ∈ s'.slots, ∀ batch, x.kind = .commit batch → x ∈ s.slots)
    (hunanswered : ∀ x ∈ s'.unanswered, ∀ batch, x.kind = .commit batch → x ∈ s.unanswered)
    (hbatches : ∀ x ∈ s'.slots, ∀ batch, x.kind = .commit batch →
      s'.shared.batches batch = s.shared.batches batch) : Owned s' := by
  obtain ⟨new, hf⟩ := hact.framed
  refine ⟨fun x hx y hy batch hkx hky => ?_, fun x hx batch hkind => ?_, fun p hp batch hslot => ?_⟩
  · exact h.unique x (hslots x hx batch hkx) y (hslots y hy batch hky) batch hkx hky
  · rw [hbatches x ((hflow.act ht' hact).unanswered_slots hx) batch hkind]
    exact h.committing x (hunanswered x hx batch hkind) batch hkind
  · rw [hf.answers] at hp
    rw [hbatches _ (mem_append_right _ hslot) batch rfl]
    refine h.answered p hp batch ?_
    -- the request of an answer was accepted before the step
    obtain ⟨q, hq, hticket⟩ := mem_map.mp (hflow.answered_subset (mem_map_of_mem hp))
    have hold : q.slot ∈ s.accepted.map Queued.slot := by
      rw [hflow.accepted, map_append]
      exact mem_append_left _ (mem_map_of_mem hq)
    have hnew : q.slot ∈ s'.slots := by
      rw [System.slots, hf.accepted, map_append]
      exact mem_append_right _ (mem_append_left _ hold)
    have hsame := ht'.slot_eq hnew (mem_append_right _ hslot) (by rw [Queued.slot_ticket, hticket])
    rw [← hsame]
    exact hold

variable {ticket : Nat}

/-- A caller that leaves takes its request with it. -/
theorem mem_leave (hx : x ∈ (s.leave ticket).admitting.filterMap Admission.slot) :
    x ∈ s.admitting.filterMap Admission.slot ∧ x.ticket ≠ ticket := by
  obtain ⟨r, hr, rfl⟩ := mem_readySlots.mp hx
  obtain ⟨hmem, hne⟩ := mem_filter.mp hr
  refine ⟨mem_readySlots.mpr ⟨r, hmem, rfl⟩, ?_⟩
  rw [Request.slot_ticket]
  exact of_decide_eq_true hne

theorem mem_leave_slots (hx : x ∈ (s.leave ticket).slots) : x ∈ s.slots := by
  rcases mem_append.mp hx with hready | haccepted
  · exact mem_append_left _ (mem_leave hready).1
  · exact mem_append_right _ haccepted

theorem mem_leave_unanswered (hx : x ∈ (s.leave ticket).unanswered) : x ∈ s.unanswered := by
  rcases mem_append.mp hx with hready | hpending
  · exact mem_append_left _ (mem_leave hready).1
  · exact mem_append_right _ hpending

/-- A queued element is one more accepted and pending one. -/
theorem mem_push_slots (hx : x ∈ (s.push q).slots) : x ∈ s.slots ∨ x = q.slot := by
  rcases mem_append.mp hx with hready | haccepted
  · exact .inl (mem_append_left _ hready)
  · have hmap : x ∈ (s.accepted ++ [q]).map Queued.slot := haccepted
    rw [map_append, mem_append] at hmap
    rcases hmap with hold | hnew
    · exact .inl (mem_append_right _ hold)
    · exact .inr (mem_singleton.mp hnew)

theorem mem_push_unanswered (hx : x ∈ (s.push q).unanswered) : x ∈ s.unanswered ∨ x = q.slot := by
  rcases mem_append.mp hx with hready | hpending
  · exact .inl (mem_append_left _ hready)
  · have hmap : x ∈ (s.coordinator.queue ++ [q]).map Queued.slot ++ s.coordinator.control.held := hpending
    rw [map_append, append_assoc, mem_append, mem_append] at hmap
    rcases hmap with hqueue | hnew | hheld
    · exact .inl (mem_append_right _ (mem_append_left _ hqueue))
    · exact .inr (mem_singleton.mp hnew)
    · exact .inl (mem_append_right _ (mem_append_right _ hheld))

/-- Another value of a batch that no request has. -/
theorem update_of_given {b : Batch} (h : Owned s) (ht : s.Ticketed) (hflow : Flow s taken)
    (hb : (s.shared.batches batch).state ≠ .opened → (s.shared.batches batch).state ≠ .failed →
      b = s.shared.batches batch) (hx : x ∈ s.slots) {batch' : Nat} (hkind : x.kind = .commit batch') :
    update s.shared.batches batch b batch' = s.shared.batches batch' := by
  by_cases heq : batch' = batch
  · subst heq
    obtain ⟨hopen, hfailed⟩ := h.given ht hflow hx hkind
    rw [update_self]
    exact hb hopen hfailed
  · rw [update_of_ne heq]

/-- A command has no batch. -/
theorem pushCommand {c : Command} {fence : Option Fence} (h : Owned s) (hflow : Flow s taken)
    (ht' : System.Ticketed { s.pushCommand c with fence })
    (hact : s.Acts config limits { s.pushCommand c with fence }) : Owned { s.pushCommand c with fence } := by
  refine h.frame hflow ht' hact (fun x hx batch hkind => ?_) (fun x hx batch hkind => ?_) fun _ _ _ _ => rfl
  · rcases mem_push_slots (s := s) (q := .command s.issued c) hx with hold | rfl
    · exact hold
    · cases hkind
  · rcases mem_push_unanswered (s := s) (q := .command s.issued c) hx with hold | rfl
    · exact hold
    · cases hkind

section

variable (h : Owned s) (ht : s.Ticketed) (hflow : Flow s taken)

include h ht hflow

/-- A batch is prepared: it was open, so that no request had it. -/
theorem prepare {b : Batch} {ticket batch : Nat} {prepared : Prepared}
    (hprepare : (s.shared.batches batch).prepare = (b, .ok prepared)) :
    Owned { s with
      shared := s.shared.setBatch batch b
      admitting := (s.leave ticket).admitting ++ [.ready ⟨ticket, .commit batch prepared⟩] } := by
  obtain ⟨hopen, rfl, -⟩ := Batch.prepare_eq_ok hprepare
  have hfresh : ∀ x ∈ s.slots, x.kind ≠ .commit batch := fun x hx hkind =>
    (h.given ht hflow hx hkind).1 hopen
  -- the requests before, and the one of the batch
  have hcases : ∀ {rest : List Slot}, ∀ x ∈ ((s.leave ticket).admitting ++
      [Admission.ready ⟨ticket, .commit batch prepared⟩]).filterMap Admission.slot ++ rest,
      x ∈ s.admitting.filterMap Admission.slot ++ rest ∨ x = ⟨ticket, .commit batch⟩ := by
    intro rest x hx
    rw [filterMap_append] at hx
    rcases mem_append.mp hx with hready | hrest
    · rcases Lib.mem_snoc.mp hready with hold | hnew
      · exact .inl (mem_append_left _ (mem_leave hold).1)
      · exact .inr hnew
    · exact .inl (mem_append_right _ hrest)
  have hbatches : ∀ b, ∀ x ∈ s.slots, ∀ batch', x.kind = .commit batch' →
      update s.shared.batches batch b batch' = s.shared.batches batch' := by
    rintro b x hx batch' hkind
    refine update_of_ne ?_ _ _
    rintro rfl
    exact hfresh x hx hkind
  refine ⟨fun x hx y hy batch' hkx hky => ?_, fun x hx batch' hkind => ?_, fun p hp batch' hslot => ?_⟩
  · rcases hcases x hx with hxo | rfl <;> rcases hcases y hy with hyo | rfl
    · exact h.unique x hxo y hyo batch' hkx hky
    · cases hky
      exact absurd hkx (hfresh x hxo)
    · cases hkx
      exact absurd hky (hfresh y hyo)
    · rfl
  · rcases hcases x hx with hold | rfl
    · show (update s.shared.batches batch _ batch').state = _
      rw [hbatches _ x (hflow.unanswered_slots hold) batch' hkind]
      exact h.committing x hold batch' hkind
    · cases hkind
      simp only [Shared.setBatch, update_self]
  · show Ends (update s.shared.batches batch _ batch') p.2
    rw [hbatches _ _ (mem_append_right _ hslot) batch' rfl]
    exact h.answered p hp batch' hslot

theorem act (ht' : s'.Ticketed) (hact : s.Acts config limits s') : Owned s' := by
  have hact' := hact
  cases hact with
  | call batch c =>
    refine h.frame hflow ht' hact' (fun x hx _ _ => hx) (fun x hx _ _ => hx) fun x hx batch' hkind => ?_
    exact h.update_of_given ht hflow (fun hopen hfailed => Batch.call_of_ne hopen hfailed c) hx hkind
  | enter a entries ledger hfence henters hreserve =>
    -- a caller that enters has no prepared batch yet
    have hready : ∀ x ∈ (s.admitting ++ [a]).filterMap Admission.slot, ∀ batch, x.kind = .commit batch →
        x ∈ s.admitting.filterMap Admission.slot := by
      intro x hx batch hkind
      rw [filterMap_append, mem_append] at hx
      rcases hx with hold | hnew
      · exact hold
      · obtain ⟨r, hr, rfl⟩ := mem_readySlots.mp hnew
        have heq := mem_singleton.mp hr
        subst heq
        obtain ⟨-, relocation, hwork⟩ := henters
        simp only [Request.slot, hwork, reduceCtorEq] at hkind
    refine h.frame hflow ht' hact' (fun x hx batch hkind => ?_) (fun x hx batch hkind => ?_)
      fun x _ batch _ => rfl
    · rcases mem_append.mp hx with hadm | hacc
      · exact mem_append_left _ (hready x hadm batch hkind)
      · exact mem_append_right _ hacc
    · rcases mem_append.mp hx with hadm | hpend
      · exact mem_append_left _ (hready x hadm batch hkind)
      · exact mem_append_right _ hpend
  | prepare ticket batch b prepared hmem hprepare =>
    exact h.prepare ht hflow hprepare
  | unprepared ticket batch b err hmem hprepare =>
    refine h.frame hflow ht' hact' (fun x hx _ _ => mem_leave_slots hx)
      (fun x hx _ _ => mem_leave_unanswered hx) fun x hx batch' hkind => ?_
    refine h.update_of_given ht hflow (fun hopen _ => ?_) (mem_leave_slots hx) hkind
    rcases Batch.prepare_eq_error hprepare with heq | ⟨hstate, -⟩
    · exact heq
    · exact absurd hstate hopen
  | withdrawCommit ticket batch prepared hmem =>
    refine h.frame hflow ht' hact' (fun x hx _ _ => mem_leave_slots hx)
      (fun x hx _ _ => mem_leave_unanswered hx) fun x hx batch' hkind => ?_
    -- no other request has the batch of the request that is withdrawn
    have hmine : (⟨ticket, .commit batch⟩ : Slot) ∈ s.admitting.filterMap Admission.slot :=
      mem_readySlots.mpr ⟨_, hmem, rfl⟩
    have hne : batch' ≠ batch := by
      rintro rfl
      have hsame := h.unique x (mem_leave_slots hx) _ (mem_append_left _ hmine) batch' hkind rfl
      subst hsame
      rcases mem_append.mp hx with hready | haccepted
      · exact (mem_leave hready).2 rfl
      · obtain ⟨q, hq, hslot⟩ := mem_map.mp haccepted
        have hticket : q.ticket = ticket := by
          rw [← Queued.slot_ticket, hslot]
        refine (nodup_append.mp ht.nodup).2.2 ticket ?_ ticket ?_ rfl
        · exact mem_map_of_mem (f := Admission.ticket) hmem
        · rw [← hticket]
          exact mem_map_of_mem hq
    exact update_of_ne hne _ _
  | withdrawRelocation =>
    exact h.frame hflow ht' hact' (fun x hx _ _ => mem_leave_slots hx)
      (fun x hx _ _ => mem_leave_unanswered hx) fun x _ batch _ => rfl
  | enqueue r hmem hadmits =>
    have hready : r.slot ∈ s.admitting.filterMap Admission.slot := mem_readySlots.mpr ⟨r, hmem, rfl⟩
    refine h.frame hflow ht' hact' (fun x hx _ _ => ?_) (fun x hx _ _ => ?_) fun x _ batch _ => rfl
    · rcases mem_push_slots hx with hold | rfl
      · exact mem_leave_slots hold
      · exact mem_append_left _ hready
    · rcases mem_push_unanswered hx with hold | rfl
      · exact mem_leave_unanswered hold
      · exact mem_append_left _ hready
  | barrier | install | release => exact h.pushCommand hflow ht' hact'
  | _ => exact h.frame hflow ht' hact' (fun x hx _ _ => hx) (fun x hx _ _ => hx) fun x _ batch _ => rfl

/-- One request is answered.  If it has a batch, this is in the state of the answer; the other requests have other
batches. -/
theorem answer {x : Slot} {a : Answer}
    (hslots : s'.slots = s.slots) (haccepted : s'.accepted = s.accepted)
    (hunanswered : s.unanswered.Perm (x :: s'.unanswered)) (hmem : x ∈ s.pending)
    (hanswers : s'.shared.answers = s.shared.answers ++ [(x.ticket, a)])
    (hother : ∀ y ∈ s.slots, y ≠ x → ∀ batch, y.kind = .commit batch →
      s'.shared.batches batch = s.shared.batches batch)
    (hends : ∀ batch, x.kind = .commit batch → Ends (s'.shared.batches batch) a) : Owned s' := by
  have hmine : x ∈ s.accepted.map Queued.slot := hflow.pending_accepted hmem
  refine ⟨?_, fun y hy batch hkind => ?_, fun p hp batch hslot => ?_⟩
  · rw [hslots]
    exact h.unique
  · have hold : y ∈ s.unanswered := hunanswered.mem_iff.mpr (mem_cons_of_mem _ hy)
    have hne : y ≠ x := by
      rintro rfl
      have hnodup := unanswered_nodup ht hflow
      exact (nodup_cons.mp (hunanswered.nodup_iff.mp hnodup)).1 hy
    rw [hother y (hflow.unanswered_slots hold) hne batch hkind]
    exact h.committing y hold batch hkind
  · rw [haccepted] at hslot
    rw [hanswers] at hp
    rcases Lib.mem_snoc.mp hp with hbefore | hnow
    · have hne : (⟨p.1, .commit batch⟩ : Slot) ≠ x := by
        rintro rfl
        exact hflow.not_answered ht hmem (mem_map_of_mem hbefore)
      rw [hother _ (mem_append_right _ hslot) hne batch rfl]
      exact h.answered p hbefore batch hslot
    · rw [hnow] at hslot ⊢
      have hsame := ht.slot_eq (mem_append_right _ hslot) (mem_append_right _ hmine) rfl
      exact hends batch (by rw [← hsame])

/-- One request is answered, and its batch ends with the answer if it has one. -/
theorem complete {r : Request} {verdict : Verdict} (hslots : s'.slots = s.slots) (haccepted : s'.accepted = s.accepted)
    (hunanswered : s.unanswered.Perm (r.slot :: s'.unanswered)) (hmem : r.slot ∈ s.pending)
    (hshared : s'.shared = (s.shared.complete r verdict).1)
    (hseq : ∀ seq resolved, verdict = .success seq resolved → seq ≠ 0) : Owned s' := by
  cases hwork : r.work with
  | commit batch p =>
    have hkind : r.slot.kind = .commit batch := by rw [Request.slot, hwork]
    have hstate := h.committing r.slot (mem_append_right _ hmem) batch hkind
    obtain ⟨a, b, hanswers, hbatches, -, hends, -⟩ := complete_commit hwork hstate hseq
    refine h.answer (a := a) ht hflow hslots haccepted hunanswered hmem ?_ (fun y hy hne batch' hky => ?_)
      fun batch' hkind' => ?_
    · rw [hshared, hanswers, Request.slot_ticket]
    · have hne' : batch' ≠ batch := by
        rintro rfl
        exact hne (h.unique y hy _ (mem_append_right _ (hflow.pending_accepted hmem)) batch' hky hkind)
      rw [hshared, hbatches]
      exact update_of_ne hne' _ _
    · cases hkind.symm.trans hkind'
      rw [hshared, hbatches, update_self]
      exact hends
  | relocation relocation =>
    have hnone : ∀ batch, r.slot.kind ≠ .commit batch := by
      intro batch hkind
      rw [Request.slot, hwork] at hkind
      cases hkind
    obtain ⟨a, ha, -⟩ := complete_answers s.shared r verdict
    refine h.answer (a := a) ht hflow hslots haccepted hunanswered hmem ?_ (fun _ _ _ batch' _ => ?_)
      fun batch' hkind' => absurd hkind' (hnone batch')
    · rw [hshared, ha, Request.slot_ticket]
    · rw [hshared, complete_relocation hnone]

theorem turn (hturn : s.Turns config s')
    (hseq : ∀ r seq resolved todo after,
      s.coordinator.control = .completing ((r, .success seq resolved) :: todo) after → seq ≠ 0) : Owned s' := by
  obtain ⟨haccepted, hadmitting, -, -⟩ := hturn.callers
  have hslots : s'.slots = s.slots := by rw [System.slots, System.slots, haccepted, hadmitting]
  have hperm : ∀ {x : Slot}, s.pending.Perm (x :: s'.pending) → s.unanswered.Perm (x :: s'.unanswered) := by
    intro x hpending
    rw [System.unanswered, System.unanswered, hadmitting]
    exact (hpending.append_left _).trans perm_middle
  cases hturn.effect with
  | move hpending hanswers hbatches =>
    refine ⟨?_, fun x hx batch hkind => ?_, fun p hp batch hslot => ?_⟩
    · rw [hslots]
      exact h.unique
    · rw [System.unanswered, hadmitting] at hx
      rw [hbatches]
      exact h.committing x ((hpending.append_left _).mem_iff.mp hx) batch hkind
    · rw [hanswers] at hp
      rw [haccepted] at hslot
      rw [hbatches]
      exact h.answered p hp batch hslot
  | complete r verdict todo after hcontrol hpending hshared =>
    refine h.complete ht hflow hslots haccepted (hperm hpending) ?_ hshared ?_
    · exact hpending.mem_iff.mpr mem_cons_self
    · rintro seq resolved rfl
      exact hseq r seq resolved todo after hcontrol
  | answer ticket a hpending hanswers hbatches =>
    refine h.answer (x := ⟨ticket, .command⟩) ht hflow hslots haccepted (hperm hpending) ?_ hanswers
      (fun _ _ _ batch _ => by rw [hbatches]) fun _ hkind => nomatch hkind
    exact hpending.mem_iff.mpr mem_cons_self

end

end Owned

/-! ## §3 — Positive sequences -/

def Verdict.seq : Verdict → Option Nat
  | .success seq _ => some seq
  | .failure _ _ _ => none

/-- The sequences that the requests at hand are to be answered with. -/
def Control.seqs : Control → List Nat
  | .appending job _ | .publishing job _ => (accepted job.entries).map Entry.seq
  | .completing todo _ => todo.filterMap fun x => x.2.seq
  | .idle | .collecting _ _ | .processing _ _ | .serving _ _ | .exited => []

/-- The group that is being written or published. -/
def Control.job : Control → Option Job
  | .appending job _ | .publishing job _ => some job
  | .idle | .collecting _ _ | .processing _ _ | .completing _ _ | .serving _ _ | .exited => none

/-- No request is given the sequence zero. -/
structure Positive (s : System) : Prop where
  next : 0 < s.coordinator.next
  job : ∀ job, s.coordinator.control.job = some job → 0 < job.next
  seqs : ∀ seq ∈ s.coordinator.control.seqs, 0 < seq

theorem After.seqs_control (after : After) : after.control.seqs = [] := by
  cases after <;> rfl

theorem After.job_control (after : After) : after.control.job = none := by
  cases after <;> rfl

theorem rejectGroup_seqs (group : List Request) (cause : Cause) :
    (Coordinator.rejectGroup group cause).filterMap (fun x => x.2.seq) = [] := by
  rw [Coordinator.rejectGroup, filterMap_map]
  exact filterMap_eq_nil_iff.mpr fun r _ => rfl

theorem verdicts_seqs_failure (entries : List Entry) (cause : Cause) (unknown : Bool) :
    (Coordinator.verdicts entries fun _ => .failure cause unknown true).filterMap (fun x => x.2.seq) = [] := by
  rw [Coordinator.verdicts, filterMap_map]
  refine filterMap_eq_nil_iff.mpr fun e _ => ?_
  simp only [comp_apply]
  split <;> rfl

theorem verdicts_seqs_success (entries : List Entry) :
    (Coordinator.verdicts entries fun e => .success e.seq e.resolved).filterMap (fun x => x.2.seq) =
      (accepted entries).map Entry.seq := by
  rw [Coordinator.verdicts, filterMap_map, accepted, ← filterMap_eq_map, filterMap_filter]
  refine filterMap_congr fun e _ => ?_
  simp only [comp_apply]
  split <;> rfl

theorem Positive.act (h : Positive s) (hact : s.Acts config limits s') : Positive s' := by
  obtain ⟨new, hf⟩ := hact.framed
  refine ⟨?_, ?_, ?_⟩
  · rw [hact.coordinator.1]
    exact h.next
  · rw [hf.control]
    exact h.job
  · rw [hf.control]
    exact h.seqs

theorem Positive.turn (h : Positive s) (hturn : s.Turns config s') : Positive s' := by
  -- most control states have neither a job nor a sequence
  have hplain : ∀ t : System, t.coordinator.control.job = none → t.coordinator.control.seqs = [] →
      0 < t.coordinator.next → Positive t := by
    intro t hjob hseqs hnext
    refine ⟨hnext, fun job hsome => ?_, ?_⟩
    · rw [hjob] at hsome
      cases hsome
    · rw [hseqs]
      exact nofun
  cases hturn with
  | refuse group refused after cause =>
    exact hplain _ rfl (rejectGroup_seqs refused cause) h.next
  | assign group after plan entries next hcontrol hfault hplan hassign hencode =>
    obtain ⟨hseqs, hnext⟩ := assignSequences_seqs hassign
    have hpos := h.next
    refine ⟨h.next, fun job hsome => ?_, fun seq hseq => ?_⟩
    · cases hsome
      show 0 < next
      omega
    · have hmem : seq ∈ (Commit.accepted entries).map Entry.seq := hseq
      rw [hseqs, mem_range'_1] at hmem
      omega
  | appendFailed | publishFailed =>
    exact hplain _ rfl (verdicts_seqs_failure _ _ _) h.next
  | append job after hcontrol =>
    refine ⟨h.next, fun job' hsome => h.job job' ?_, fun seq hseq => h.seqs seq ?_⟩
    · rw [hcontrol]
      exact hsome
    · rw [hcontrol]
      exact hseq
  | publish job after ledger hcontrol hledger =>
    refine ⟨h.job job (by rw [hcontrol]; rfl), fun job' hsome => ?_, fun seq hseq => h.seqs seq ?_⟩
    · cases hsome
    · rw [hcontrol]
      have hmem : seq ∈ (Coordinator.verdicts job.entries fun e => .success e.seq e.resolved).filterMap
          fun x => x.2.seq := hseq
      rw [verdicts_seqs_success] at hmem
      exact hmem
  | complete r verdict todo after fault hcontrol hfault =>
    refine ⟨h.next, fun job' hsome => ?_, fun seq hseq => h.seqs seq ?_⟩
    · cases hsome
    · rw [hcontrol]
      have hmem : seq ∈ todo.filterMap fun x => x.2.seq := hseq
      show seq ∈ ((r, verdict) :: todo).filterMap fun x => x.2.seq
      rw [mem_filterMap] at hmem ⊢
      obtain ⟨x, hx, hxs⟩ := hmem
      exact ⟨x, mem_cons_of_mem _ hx, hxs⟩
  | resume after hcontrol =>
    exact hplain _ after.job_control after.seqs_control h.next
  | checkpoint ticket covered outcome hcontrol =>
    refine hplain _ rfl rfl ?_
    show 0 < (s.coordinator.processCheckpoint covered outcome).1.next
    rw [(s.coordinator.processCheckpoint_serves covered outcome).next]
    exact h.next
  | redirect ticket command hcontrol =>
    refine hplain _ rfl rfl ?_
    show 0 < (s.coordinator.processRedirect command).1.next
    rw [(s.coordinator.processRedirect_serves command).next]
    exact h.next
  | _ => exact hplain _ rfl rfl h.next

/-! ## §4 — The sequences of the answers -/

/-- The entry that a success answers. -/
def Verdict.entry (r : Request) : Verdict → Option Entry
  | .success seq resolved => some ⟨r, resolved, seq⟩
  | .failure _ _ _ => none

/-- The entries that the requests at hand may still be answered with. -/
def Control.entries : Control → List Entry
  | .appending job _ | .publishing job _ => accepted job.entries
  | .completing todo _ => todo.filterMap fun x => x.2.entry x.1
  | .idle | .collecting _ _ | .processing _ _ | .serving _ _ | .exited => []

/-- The answer tells a commit sequence. -/
def Answer.sequenced : Answer → Bool
  | .committed _ _ | .relocated _ _ _ _ => true
  | .cut _ _ | .redirected _ | .failed _ => false

/-- **The sequences that are told are the assigned ones**: each belongs to an entry of the request it answers. -/
structure Attributed (s : System) : Prop where
  held : ∀ e ∈ s.coordinator.control.entries, e ∈ s.assigned
  answered : ∀ p ∈ s.shared.answers, p.2.sequenced = true → ∃ e ∈ s.assigned, e.request.ticket = p.1 ∧ p.2 = e.reply

theorem verdicts_entries_failure (entries : List Entry) (cause : Cause) (unknown : Bool) :
    (Coordinator.verdicts entries fun _ => .failure cause unknown true).filterMap (fun x => x.2.entry x.1) = [] := by
  rw [Coordinator.verdicts, filterMap_map]
  refine filterMap_eq_nil_iff.mpr fun e _ => ?_
  simp only [comp_apply]
  split <;> rfl

theorem mem_verdicts_entries {entries : List Entry} {e : Entry}
    (h : e ∈ (Coordinator.verdicts entries fun e => .success e.seq e.resolved).filterMap fun x => x.2.entry x.1) :
    e ∈ accepted entries := by
  rw [Coordinator.verdicts, filterMap_map] at h
  obtain ⟨e', he', heq⟩ := mem_filterMap.mp h
  simp only [comp_apply] at heq
  split at heq
  next haccepted =>
    cases heq
    exact mem_filter.mpr ⟨he', haccepted⟩
  next => cases heq

theorem Attributed.act (h : Attributed s) (hact : s.Acts config limits s') : Attributed s' := by
  obtain ⟨new, hf⟩ := hact.framed
  have hassigned : s'.assigned = s.assigned := by rw [System.assigned, System.assigned, hact.groups]
  refine ⟨?_, ?_⟩
  · rw [hf.control, hassigned]
    exact h.held
  · rw [hf.answers, hassigned]
    exact h.answered

/-- Nothing is told with a new answer that has no sequence. -/
theorem Attributed.answer (h : Attributed s) {ticket : Nat} {a : Answer} (ha : a.sequenced = false)
    {p : Nat × Answer} (hp : p ∈ s.shared.answers ++ [(ticket, a)]) (hseq : p.2.sequenced = true) :
    ∃ e ∈ s.assigned, e.request.ticket = p.1 ∧ p.2 = e.reply := by
  rcases Lib.mem_snoc.mp hp with hold | rfl
  · exact h.answered p hold hseq
  · rw [ha] at hseq
    cases hseq

theorem processCheckpoint_sequenced (c : Coordinator) (covered : Nat) (outcome : Except Cause RecordLog.LogPos) :
    (c.processCheckpoint covered outcome).2.sequenced = false := by
  unfold Coordinator.processCheckpoint
  split
  · rfl
  · split
    · rfl
    · split <;> rfl

theorem processRedirect_sequenced (c : Coordinator) (command : RedirectRequest) :
    (c.processRedirect command).2.sequenced = false := by
  unfold Coordinator.processRedirect
  split
  · rfl
  · split <;> split <;> rfl

theorem Attributed.turn (h : Attributed s) (hturn : s.Turns config s') : Attributed s' := by
  -- most control states have no entry at hand
  have hplain : ∀ t : System, t.coordinator.control.entries = [] → t.assigned = s.assigned →
      t.shared.answers = s.shared.answers → Attributed t := by
    intro t hentries hassigned hanswers
    refine ⟨?_, ?_⟩
    · rw [hentries]
      exact nofun
    · rw [hanswers, hassigned]
      exact h.answered
  cases hturn with
  | refuse group refused after cause =>
    refine hplain _ ?_ ?_ rfl
    · show (Coordinator.rejectGroup refused cause).filterMap (fun x => x.2.entry x.1) = []
      rw [Coordinator.rejectGroup, filterMap_map]
      exact filterMap_eq_nil_iff.mpr fun r _ => rfl
    · simp only [System.assigned, flatMap_append, flatMap_singleton, append_nil]
  | assign group after plan entries next hcontrol =>
    have hassigned : ∀ e, e ∈ s.groups.flatMap Group.assigned ++ Commit.accepted entries →
        e ∈ (s.groups ++ [(⟨group, Commit.accepted entries⟩ : Group)]).flatMap Group.assigned := by
      intro e he
      rwa [flatMap_append, flatMap_singleton]
    refine ⟨fun e he => hassigned e (mem_append_right _ he), fun p hp hseq => ?_⟩
    obtain ⟨e, he, hrest⟩ := h.answered p hp hseq
    exact ⟨e, hassigned e (mem_append_left _ he), hrest⟩
  | appendFailed | publishFailed => exact hplain _ (verdicts_entries_failure _ _ _) rfl rfl
  | append job after hcontrol =>
    refine ⟨fun e he => h.held e ?_, h.answered⟩
    rw [hcontrol]
    exact he
  | publish job after ledger hcontrol =>
    refine ⟨fun e he => h.held e ?_, h.answered⟩
    rw [hcontrol]
    exact mem_verdicts_entries he
  | complete r verdict todo after fault hcontrol =>
    have htodo : ∀ e ∈ ((r, verdict) :: todo).filterMap (fun x => x.2.entry x.1), e ∈ s.assigned := by
      have hheld := h.held
      rw [hcontrol] at hheld
      exact hheld
    obtain ⟨a, ha, hreply⟩ := complete_answers s.shared r verdict
    refine ⟨fun e he => htodo e ?_, fun p hp hseq => ?_⟩
    · obtain ⟨x, hx, hentry⟩ := mem_filterMap.mp he
      exact mem_filterMap.mpr ⟨x, mem_cons_of_mem _ hx, hentry⟩
    · have hp' : p ∈ (s.shared.complete r verdict).1.answers := hp
      rw [ha] at hp'
      rcases hreply with ⟨cause, rfl⟩ | ⟨seq, resolved, rfl, rfl⟩
      · exact h.answer rfl hp' hseq
      · rcases Lib.mem_snoc.mp hp' with hold | rfl
        · exact h.answered p hold hseq
        · exact ⟨_, htodo _ (mem_filterMap.mpr ⟨_, mem_cons_self, rfl⟩), rfl, rfl⟩
  | resume after => exact hplain _ (by cases after <;> rfl) rfl rfl
  | checkpoint ticket covered outcome =>
    exact ⟨fun _ he => absurd he not_mem_nil, fun p hp => h.answer (processCheckpoint_sequenced _ _ _) hp⟩
  | redirect ticket command =>
    exact ⟨fun _ he => absurd he not_mem_nil, fun p hp => h.answer (processRedirect_sequenced _ _) hp⟩
  | _ => exact hplain _ rfl rfl rfl

/-! ## §5 — The reservations -/

/-- The tickets at hand that are to be answered with a success. -/
def Control.succeeding : Control → List Nat
  | .completing todo _ => todo.filterMap fun x => x.2.seq.map fun _ => x.1.ticket
  | .idle | .collecting _ _ | .processing _ _ | .appending _ _ | .publishing _ _ | .serving _ _ | .exited => []

theorem Control.succeeding_held {ticket : Nat} (h : ticket ∈ control.succeeding) : ticket ∈ control.held.map Slot.ticket := by
  cases control with
  | completing todo after =>
    obtain ⟨x, hx, hsome⟩ := mem_filterMap.mp h
    obtain ⟨seq, -, rfl⟩ := Option.map_eq_some_iff.mp hsome
    rw [Control.held, map_append, mem_append]
    refine .inl (mem_map.mpr ⟨x.1.slot, mem_map_of_mem hx, x.1.slot_ticket⟩)
  | _ => cases h

/-- **The reservations**: the budget holds exactly the open ones, and the ones of answered requests and of
requests whose success is to be answered are settled. -/
structure Settled (s : System) : Prop where
  sound : s.shared.ledger.Sound s.issued
  answered : ∀ t ∈ s.shared.answers.map Prod.fst, s.shared.ledger.held t = false
  succeeding : ∀ t ∈ s.coordinator.control.succeeding, s.shared.ledger.held t = false
  commands : ∀ ticket c, .command ticket c ∈ s.accepted → s.shared.ledger.held ticket = false

theorem succeeding_failure (entries : List Entry) (cause : Cause) (unknown : Bool) (after : After) :
    (Control.completing (Coordinator.verdicts entries fun _ => .failure cause unknown true) after).succeeding =
      [] := by
  rw [Control.succeeding, Coordinator.verdicts, filterMap_map]
  refine filterMap_eq_nil_iff.mpr fun e _ => ?_
  simp only [comp_apply]
  split <;> rfl

theorem settleReservations_sound {ledger : Ledger} {issued : Nat} (h : ledger.Sound issued) (charged : Nat)
    (entries : List Entry) :
    (settleReservations ledger charged entries).1.Sound issued ∧
      (∀ t, ledger.held t = false → (settleReservations ledger charged entries).1.held t = false) ∧
      ((settleReservations ledger charged entries).2 = .ok () →
        ∀ e ∈ accepted entries, (settleReservations ledger charged entries).1.held e.request.ticket = false) := by
  induction entries generalizing ledger charged with
  | nil => exact ⟨h, fun _ ht => ht, nofun⟩
  | cons e entries ih =>
    simp only [settleReservations]
    by_cases haccepted : e.resolved.accepted = true
    · rw [if_pos haccepted]
      have hcons : accepted (e :: entries) = e :: accepted entries := filter_cons_of_pos haccepted
      rcases h.consume e.request.ticket e.resolved.deltaEntries with
        ⟨err, heq⟩ | ⟨ledger', actual, heq, hsound, -, hsettled, hothers⟩
      · rw [heq]
        exact ⟨h, fun _ ht => ht, fun hok => by cases hok⟩
      · rw [heq]
        have hkeep : ∀ t, ledger.held t = false → ledger'.held t = false := by
          intro t ht
          by_cases hte : t = e.request.ticket
          · rw [hte]
            exact hsettled
          · rw [hothers t hte]
            exact ht
        dsimp only
        by_cases hover : maxUint64 < charged + actual
        · rw [if_pos hover]
          exact ⟨hsound, hkeep, fun hok => by cases hok⟩
        · rw [if_neg hover, hcons]
          obtain ⟨hs, hk, hall⟩ := ih hsound (charged + actual)
          refine ⟨hs, fun t ht => hk t (hkeep t ht), fun hok e' he' => ?_⟩
          rcases mem_cons.mp he' with rfl | hrest
          · exact hk _ hsettled
          · exact hall hok e' hrest
    · rw [if_neg haccepted]
      have hcons : accepted (e :: entries) = accepted entries := filter_cons_of_neg haccepted
      obtain ⟨hsound, hsettled, hothers⟩ := h.release (t := e.request.ticket)
      obtain ⟨hs, hk, hall⟩ := ih hsound charged
      refine ⟨hs, fun t ht => hk t ?_, ?_⟩
      · by_cases hte : t = e.request.ticket
        · rw [hte]
          exact hsettled
        · rw [hothers t hte]
          exact ht
      · rw [hcons]
        exact hall

namespace Settled

/-- A ticket that was answered, or will be with a success, has been issued. -/
theorem ticket_lt (ht : s.Ticketed) (hflow : Flow s taken) {t : Nat}
    (hmem : t ∈ s.shared.answers.map Prod.fst ++ s.coordinator.control.succeeding) : t < s.issued := by
  have htaken : t ∈ taken.map Queued.ticket := by
    refine hflow.perm.mem_iff.mpr ?_
    rcases mem_append.mp hmem with hanswer | hsucc
    · exact mem_append_left _ hanswer
    · exact mem_append_right _ (Control.succeeding_held hsucc)
  refine ht.issued t (mem_append_right _ ?_)
  rw [hflow.accepted, map_append]
  exact mem_append_left _ htaken

section

variable (h : Settled s)

include h

/-- A step of the callers that opens no old reservation. -/
theorem keep (ht : s.Ticketed) (hflow : Flow s taken) (hact : s.Acts config limits s')
    (hsound : s'.shared.ledger.Sound s'.issued)
    (hheld : ∀ t < s.issued, s.shared.ledger.held t = false → s'.shared.ledger.held t = false)
    (hcommands : ∀ ticket c, .command ticket c ∈ s'.accepted →
      .command ticket c ∈ s.accepted ∨ s'.shared.ledger.held ticket = false) : Settled s' := by
  obtain ⟨new, hf⟩ := hact.framed
  refine ⟨hsound, ?_, ?_, fun ticket c hmem => ?_⟩
  · rw [hf.answers]
    exact fun t hmem => hheld t (ticket_lt ht hflow (mem_append_left _ hmem)) (h.answered t hmem)
  · rw [hf.control]
    exact fun t hmem => hheld t (ticket_lt ht hflow (mem_append_right _ hmem)) (h.succeeding t hmem)
  · rcases hcommands ticket c hmem with hold | hnew
    · refine hheld ticket (ht.issued ticket (mem_append_right _ ?_)) (h.commands ticket c hold)
      exact mem_map_of_mem (f := Queued.ticket) hold
    · exact hnew

variable {c : Command}

/-- A command takes nothing of the budget. -/
theorem pushCommand {fence : Option Fence} (ht : s.Ticketed) (hflow : Flow s taken)
    (hact : s.Acts config limits { s.pushCommand c with fence }) : Settled { s.pushCommand c with fence } := by
  refine h.keep ht hflow hact h.sound.issue (fun t _ hheld => hheld) fun ticket c' hmem => ?_
  refine (Lib.mem_snoc.mp hmem).imp_right fun hnew => ?_
  cases hnew
  exact h.sound.unissued s.issued (Nat.le_refl _)

/-- A release settles one reservation and opens none. -/
theorem release_held (ticket : Nat) {t : Nat} (ht : s.shared.ledger.held t = false) :
    (s.shared.ledger.release ticket).held t = false := by
  obtain ⟨-, hsettled, hothers⟩ := h.sound.release (t := ticket)
  by_cases heq : t = ticket
  · rw [heq]
    exact hsettled
  · rw [hothers t heq]
    exact ht

theorem act (ht : s.Ticketed) (hflow : Flow s taken) (hact : s.Acts config limits s') : Settled s' := by
  have hact' := hact
  have hsame : ∀ t < s.issued, s.shared.ledger.held t = false → s.shared.ledger.held t = false :=
    fun _ _ hheld => hheld
  cases hact with
  | enter a entries ledger hfence henters hreserve =>
    obtain ⟨hsound, -, hothers⟩ := h.sound.reserve hreserve
    refine h.keep ht hflow hact' hsound (fun t hlt hheld => ?_) fun _ _ hmem => .inl hmem
    show ledger.held t = false
    rw [hothers t (Nat.ne_of_lt hlt)]
    exact hheld
  | prepare ticket batch b prepared hmem hprepare =>
    exact h.keep ht hflow hact' h.sound hsame fun _ _ hmem => .inl hmem
  | unprepared ticket batch b err hmem | withdrawCommit ticket batch prepared hmem
  | withdrawRelocation ticket r hmem =>
    exact h.keep ht hflow hact' (h.sound.release (t := ticket)).1
      (fun _ _ hheld => h.release_held ticket hheld) fun _ _ hmem => .inl hmem
  | enqueue r hmem hadmits =>
    refine h.keep ht hflow hact' h.sound hsame fun ticket c hmem' => .inl ?_
    have hpush : .command ticket c ∈ s.accepted ++ [Queued.request r] := hmem'
    rcases Lib.mem_snoc.mp hpush with hold | hnew
    · exact hold
    · cases hnew
  | barrier | install | release => exact h.pushCommand ht hflow hact'
  | discharge bytes => exact h.keep ht hflow hact' h.sound.discharge hsame fun _ _ hmem => .inl hmem
  | _ => exact h.keep ht hflow hact' h.sound hsame fun _ _ hmem => .inl hmem

/-- A turn to a control state without a success to be answered. -/
theorem plain (hturn : s.Turns config s') (hledger : s'.shared.ledger.Sound s.issued)
    (hanswers : s'.shared.answers = s.shared.answers) (hsucceeding : s'.coordinator.control.succeeding = [])
    (hheld : ∀ t, s.shared.ledger.held t = false → s'.shared.ledger.held t = false) : Settled s' := by
  obtain ⟨haccepted, -, hissued, -⟩ := hturn.callers
  refine ⟨?_, ?_, ?_, ?_⟩
  · rw [hissued]
    exact hledger
  · rw [hanswers]
    exact fun t ht => hheld t (h.answered t ht)
  · rw [hsucceeding]
    exact nofun
  · rw [haccepted]
    exact fun ticket c hmem => hheld ticket (h.commands ticket c hmem)

/-- The answer to a command. -/
theorem serve {ticket : Nat} (hflow : Flow s taken) {result : Coordinator × Answer}
    (hcontrol : s.coordinator.control = .serving ticket c) : Settled (s.answer ticket result) := by
  refine ⟨h.sound, fun t ht => ?_, nofun, h.commands⟩
  have hmem : t ∈ (s.shared.answers ++ [(ticket, result.2)]).map Prod.fst := ht
  rw [map_append, mem_append] at hmem
  rcases hmem with hbefore | hnow
  · exact h.answered t hbefore
  · rw [mem_singleton.mp hnow]
    exact h.commands ticket c (hflow.serving hcontrol)

/-- The ending of a request settles its reservation. -/
theorem complete_ledger {verdict : Verdict} {r : Request} (hsuccess : verdict.seq ≠ none → s.shared.ledger.held r.ticket = false) :
    (s.shared.complete r verdict).1.ledger.Sound s.issued ∧
      (s.shared.complete r verdict).1.ledger.held r.ticket = false ∧
      ∀ t, s.shared.ledger.held t = false → (s.shared.complete r verdict).1.ledger.held t = false := by
  cases verdict with
  | success seq resolved =>
    have hledger : (s.shared.complete r (.success seq resolved)).1.ledger = s.shared.ledger := by
      simp only [Shared.complete, Shared.completeSuccess]
      split
      next => rfl
      next => split <;> rfl
    rw [hledger]
    exact ⟨h.sound, hsuccess (Option.some_ne_none _), fun _ ht => ht⟩
  | failure cause unknown accepted =>
    have hledger : (s.shared.complete r (.failure cause unknown accepted)).1.ledger =
        s.shared.ledger.release r.ticket := by
      simp only [Shared.complete, Shared.completeFailure]
      split <;> rfl
    rw [hledger]
    obtain ⟨hsound, hsettled, -⟩ := h.sound.release (t := r.ticket)
    exact ⟨hsound, hsettled, fun _ ht => h.release_held r.ticket ht⟩

theorem turn (hflow : Flow s taken) (hturn : s.Turns config s') : Settled s' := by
  have hturn' := hturn
  cases hturn with
  | refuse =>
    refine h.plain hturn' h.sound rfl ?_ fun _ hheld => hheld
    simp only [Control.succeeding, Coordinator.rejectGroup, filterMap_map]
    exact filterMap_eq_nil_iff.mpr fun r _ => rfl
  | appendFailed job after cause poisoned hcontrol =>
    refine h.plain hturn' h.sound rfl ?_ fun _ hheld => hheld
    exact succeeding_failure job.entries cause poisoned after
  | publishFailed job after cause ledger hcontrol hledger =>
    have hspec := settleReservations_sound h.sound 0 job.entries
    rcases hledger with rfl | rfl
    · exact h.plain hturn' h.sound rfl (succeeding_failure job.entries cause true after) fun _ hheld => hheld
    · exact h.plain hturn' hspec.1 rfl (succeeding_failure job.entries cause true after) hspec.2.1
  | publish job after ledger hcontrol hledger =>
    obtain ⟨hsound, hkeep, hall⟩ := settleReservations_sound h.sound 0 job.entries
    rw [hledger] at hsound hkeep hall
    refine ⟨hsound, fun t ht => hkeep t (h.answered t ht), fun t ht => ?_,
      fun ticket c hmem => hkeep ticket (h.commands ticket c hmem)⟩
    obtain ⟨x, hx, hsome⟩ := mem_filterMap.mp ht
    obtain ⟨e, he, rfl⟩ := mem_map.mp hx
    obtain ⟨seq, hseq, rfl⟩ := Option.map_eq_some_iff.mp hsome
    by_cases haccepted : e.resolved.accepted = true
    · exact hall rfl e (mem_filter.mpr ⟨he, haccepted⟩)
    · simp only [haccepted, Bool.false_eq_true, if_false, Verdict.seq, reduceCtorEq] at hseq
  | complete r verdict todo after fault hcontrol hfault =>
    have hsucceeding : s.coordinator.control.succeeding =
        ((r, verdict) :: todo).filterMap fun x => x.2.seq.map fun _ => x.1.ticket := by
      rw [hcontrol]
      rfl
    have hsuccess : verdict.seq ≠ none → s.shared.ledger.held r.ticket = false := by
      intro hne
      obtain ⟨seq, hseq⟩ := Option.ne_none_iff_exists'.mp hne
      refine h.succeeding r.ticket ?_
      rw [hsucceeding]
      refine mem_filterMap.mpr ⟨(r, verdict), mem_cons_self, ?_⟩
      rw [hseq]
      rfl
    obtain ⟨hsound, hmine, hkeep⟩ := h.complete_ledger hsuccess
    obtain ⟨a, ha, -⟩ := complete_answers s.shared r verdict
    refine ⟨hsound, fun t ht => ?_, fun t ht => hkeep t (h.succeeding t ?_),
      fun ticket c hmem => hkeep ticket (h.commands ticket c hmem)⟩
    · have hmem : t ∈ (s.shared.complete r verdict).1.answers.map Prod.fst := ht
      rw [ha, map_append, mem_append] at hmem
      rcases hmem with hbefore | hnow
      · exact hkeep t (h.answered t hbefore)
      · rw [mem_singleton.mp hnow]
        exact hmine
    · rw [hsucceeding]
      obtain ⟨x, hx, hsome⟩ := mem_filterMap.mp ht
      exact mem_filterMap.mpr ⟨x, mem_cons_of_mem _ hx, hsome⟩
  | resume after hcontrol =>
    refine h.plain hturn' h.sound rfl ?_ fun _ hheld => hheld
    cases after <;> rfl
  | checkpoint ticket covered outcome hcontrol | redirect ticket command hcontrol => exact h.serve hflow hcontrol
  | _ => exact h.plain hturn' h.sound rfl rfl fun _ hheld => hheld

end

end Settled

end Ridstore.Commit
