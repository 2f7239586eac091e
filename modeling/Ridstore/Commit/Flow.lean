import Ridstore.Commit.SystemSteps

/-
# Ridstore.Commit.Flow — every accepted request is answered once, in order

A request is in the queue, in the hands of the coordinator, or answered; these three partition what was
accepted.  A command that the coordinator has in its hands is the last element it has taken, so that all
requests before the command are answered when the command is.
-/

namespace Ridstore.Commit

open Transaction (Limits)
open List

variable {config : Config} {limits : Limits} {s s' : System}

/-! ## §1 — Tickets -/

/-- Taking the element with a given key out of a list in which the keys are distinct. -/
theorem perm_cons_filter_ne {α : Type*} {f : α → Nat} {l : List α} {a : α} (hnodup : (l.map f).Nodup)
    (hmem : a ∈ l) : (l.map f).Perm (f a :: (l.filter fun x => f x ≠ f a).map f) := by
  have hfilter : (l.filter fun x => f x ≠ f a).map f = (l.map f).erase (f a) := by
    rw [hnodup.erase_eq_filter, filter_map]
    congr 1
    refine filter_congr fun x _ => ?_
    simp only [ne_eq, decide_not, Function.comp_apply, bne, BEq.beq]
  rw [hfilter]
  exact perm_cons_erase (mem_map_of_mem hmem)

/-- A key occurs at one place of a list in which the keys are distinct. -/
theorem eq_of_nodup_split {α : Type*} {f : α → Nat} {l l' r r' : List α} {a a' : α}
    (hnodup : ((l ++ a :: r).map f).Nodup) (heq : l ++ a :: r = l' ++ a' :: r') (hkey : f a = f a') : l = l' := by
  induction l generalizing l' with
  | nil =>
    cases l' with
    | nil => rfl
    | cons x xs =>
      obtain ⟨rfl, rfl⟩ := List.cons.inj heq
      rw [nil_append, map_cons, nodup_cons] at hnodup
      exact absurd (hkey ▸ mem_map_of_mem (mem_append_right xs mem_cons_self)) hnodup.1
  | cons y ys ih =>
    cases l' with
    | nil =>
      obtain ⟨rfl, -⟩ := List.cons.inj heq
      rw [cons_append, map_cons, nodup_cons] at hnodup
      exact absurd (hkey ▸ mem_map_of_mem (mem_append_right ys mem_cons_self)) hnodup.1
    | cons x xs =>
      obtain ⟨rfl, htail⟩ := List.cons.inj heq
      rw [cons_append, map_cons, nodup_cons] at hnodup
      rw [ih hnodup.2 htail]

/-- The tickets in use, of the callers and of what was accepted. -/
def System.tickets (s : System) : List Nat := s.admitting.map Admission.ticket ++ s.accepted.map Queued.ticket

/-- **Tickets are distinct** and were issued. -/
structure System.Ticketed (s : System) : Prop where
  nodup : s.tickets.Nodup
  issued : ∀ t ∈ s.tickets, t < s.issued

namespace System.Ticketed

section

variable (h : s.Ticketed)

include h

theorem of_perm (hperm : s'.tickets.Perm s.tickets) (hissued : s'.issued = s.issued) : s'.Ticketed :=
  ⟨hperm.nodup_iff.mpr h.nodup, fun t ht => hissued ▸ h.issued t (hperm.mem_iff.mp ht)⟩

theorem of_sublist (hsub : s'.tickets.Sublist s.tickets) (hissued : s'.issued = s.issued) : s'.Ticketed :=
  ⟨h.nodup.sublist hsub, fun t ht => hissued ▸ h.issued t (hsub.subset ht)⟩

/-- One more ticket is issued. -/
theorem of_issue (hperm : s'.tickets.Perm (s.issued :: s.tickets))
    (hissued : s'.issued = s.issued + 1) : s'.Ticketed := by
  refine ⟨hperm.nodup_iff.mpr (nodup_cons.mpr ⟨fun hmem => ?_, h.nodup⟩), fun t ht => ?_⟩
  · exact Nat.lt_irrefl _ (h.issued _ hmem)
  · rw [hissued]
    rcases mem_cons.mp (hperm.mem_iff.mp ht) with rfl | hmem
    · exact Nat.lt_succ_self _
    · exact Nat.lt_succ_of_lt (h.issued t hmem)

theorem admitting : (s.admitting.map Admission.ticket).Nodup :=
  (nodup_append.mp h.nodup).1

theorem accepted : (s.accepted.map Queued.ticket).Nodup :=
  (nodup_append.mp h.nodup).2.1

/-- A caller that leaves takes its ticket with it. -/
theorem leave (ticket : Nat) : (s.leave ticket).Ticketed :=
  h.of_sublist ((filter_sublist.map _).append_right _) rfl

theorem pushCommand (c : Command) : (s.pushCommand c).Ticketed := by
  refine h.of_issue ?_ rfl
  simp only [System.tickets, System.pushCommand, System.push, map_append, map_cons, map_nil,
    Queued.ticket, ← append_assoc]
  exact perm_append_singleton _ _

/-- The ticket of a caller goes over to its request. -/
theorem enqueue {r : Request} (hmem : .ready r ∈ s.admitting) : ((s.leave r.ticket).push (.request r)).Ticketed := by
  refine h.of_perm ?_ rfl
  have hperm := perm_cons_filter_ne h.admitting hmem
  simp only [System.tickets, System.push, System.leave, map_append, map_cons, map_nil,
    Queued.ticket, ← append_assoc]
  refine (perm_append_singleton _ _).trans ?_
  exact (hperm.append_right (s.accepted.map Queued.ticket)).symm

theorem act (hact : s.Acts config limits s') : s'.Ticketed := by
  cases hact with
  | enter a entries ledger hfence henters hreserve =>
    refine h.of_issue ?_ rfl
    have hticket : a.ticket = s.issued := by
      cases a with
      | reserved | ready => exact henters.1
    simp only [System.tickets, map_append, map_cons, map_nil, hticket, append_assoc]
    exact perm_middle
  | prepare ticket batch b prepared hmem hprepare =>
    refine h.of_perm ?_ rfl
    have hperm := perm_cons_filter_ne h.admitting hmem
    simp only [System.tickets, map_append, map_cons, map_nil]
    refine List.Perm.append_right _ ?_
    exact (perm_append_singleton _ _).trans hperm.symm
  | unprepared ticket | withdrawCommit ticket | withdrawRelocation ticket =>
    exact (h.leave ticket).of_perm (List.Perm.refl _) rfl
  | enqueue r hmem hadmits => exact h.enqueue hmem
  | barrier hfree hadmits => exact (h.pushCommand .barrier).of_perm (List.Perm.refl _) rfl
  | install | release => exact h.pushCommand _
  | _ => exact h.of_perm (List.Perm.refl _) rfl

end

end System.Ticketed

/-- The coordinator leaves the callers and what was accepted alone. -/
theorem System.Turns.callers (h : s.Turns config s') :
    s'.accepted = s.accepted ∧ s'.admitting = s.admitting ∧ s'.issued = s.issued ∧ s'.fence = s.fence := by
  cases h <;> exact ⟨rfl, rfl, rfl, rfl⟩

theorem System.Ticketed.turn (h : s.Ticketed) (hturn : s.Turns config s') : s'.Ticketed := by
  obtain ⟨haccepted, hadmitting, hissued, -⟩ := hturn.callers
  refine h.of_perm ?_ hissued
  rw [System.tickets, System.tickets, haccepted, hadmitting]

/-! ## §2 — What the coordinator has in its hands -/

inductive Kind
  | commit (batch : Nat)
  | relocation
  | command
  deriving DecidableEq, Repr

/-- A request without its payload, which the redirects may rewrite. -/
structure Slot where
  ticket : Nat
  kind : Kind
  deriving DecidableEq, Repr

def Request.slot (r : Request) : Slot :=
  match r.work with
  | .commit batch _ => ⟨r.ticket, .commit batch⟩
  | .relocation _ => ⟨r.ticket, .relocation⟩

def Queued.slot : Queued → Slot
  | .request r => r.slot
  | .command ticket _ => ⟨ticket, .command⟩

@[simp] theorem Request.slot_ticket (r : Request) : r.slot.ticket = r.ticket := by
  unfold Request.slot
  split <;> rfl

theorem Request.slot_kind_ne (r : Request) : r.slot.kind ≠ .command := by
  unfold Request.slot
  split <;> simp only [ne_eq, reduceCtorEq, not_false_eq_true]

@[simp] theorem Queued.slot_ticket (q : Queued) : q.slot.ticket = q.ticket := by
  cases q with
  | request r => exact r.slot_ticket
  | command ticket c => rfl

@[simp] theorem Request.slot_applyCommitRedirects (r : Request) (table : Redirects) :
    (r.applyCommitRedirects table).slot = r.slot := by
  simp only [Request.applyCommitRedirects]
  split
  next batch prepared hwork => simp only [Request.slot, hwork]
  next => rfl

def After.held : After → List Slot
  | .loop | .exit => []
  | .serve ticket _ => [⟨ticket, .command⟩]
  | .collect group _ => group.map Request.slot

/-- **The requests the coordinator has taken and not answered.** -/
def Control.held : Control → List Slot
  | .idle | .exited => []
  | .collecting group _ => group.map Request.slot
  | .processing group after => group.map Request.slot ++ after.held
  | .appending job after | .publishing job after => job.entries.map (fun e => e.request.slot) ++ after.held
  | .completing todo after => todo.map (fun x => x.1.slot) ++ after.held
  | .serving ticket _ => [⟨ticket, .command⟩]

def After.command : After → Option (Nat × Command)
  | .serve ticket c => some (ticket, c)
  | .loop | .exit | .collect _ _ => none

/-- The command the coordinator has taken. -/
def Control.command : Control → Option (Nat × Command)
  | .processing _ after | .appending _ after | .publishing _ after | .completing _ after => after.command
  | .serving ticket c => some (ticket, c)
  | .idle | .exited | .collecting _ _ => none

def After.exiting : After → Bool
  | .exit => true
  | .loop | .serve _ _ | .collect _ _ => false

/-- The coordinator has seen the end of the queue. -/
def Control.exiting : Control → Bool
  | .processing _ after | .appending _ after | .publishing _ after | .completing _ after => after.exiting
  | .exited => true
  | .idle | .collecting _ _ | .serving _ _ => false

@[simp] theorem After.held_control (after : After) : after.control.held = after.held := by
  cases after <;> rfl

@[simp] theorem After.command_control (after : After) : after.control.command = after.command := by
  cases after <;> rfl

@[simp] theorem After.exiting_control (after : After) : after.control.exiting = after.exiting := by
  cases after <;> rfl

/-- The requests of a group in the order of `process`. -/
theorem active_slots (c : Coordinator) (group : List Request) :
    ((c.active group).map Request.slot).Perm (group.map Request.slot) := by
  have hslots : (c.active group).map Request.slot = (orderUserBeforeRelocation group).map Request.slot := by
    rw [Coordinator.active, map_map]
    exact map_congr_left fun r _ => r.slot_applyCommitRedirects c.redirects
  rw [hslots, orderUserBeforeRelocation]
  exact (filter_append_perm Request.isUser group).map Request.slot

variable {next next' : Nat} {entries : List Entry}

/-- The entries of a group are its requests with their resolutions. -/
theorem assignSequences_pairs {pairs : List (Request × Mapping.ResolvedProposal)}
    (h : Coordinator.assignSequences next pairs = some (entries, next')) :
    entries.map (fun e => (e.request, e.resolved)) = pairs := by
  induction pairs generalizing next entries with
  | nil =>
    cases h
    rfl
  | cons pair rest ih =>
    obtain ⟨r, resolved⟩ := pair
    simp only [Coordinator.assignSequences] at h
    split at h
    next =>
      split at h
      next => cases h
      next =>
        obtain ⟨⟨entries', last⟩, hrest, heq⟩ := Option.map_eq_some_iff.mp h
        cases heq
        simp only [map_cons, ih hrest]
    next =>
      obtain ⟨⟨entries', last⟩, hrest, heq⟩ := Option.map_eq_some_iff.mp h
      cases heq
      simp only [map_cons, ih hrest]

theorem assignSequences_requests {c : Coordinator} {group : List Request} {plan : Mapping.GroupPlan}
    (hplan : plan.proposals.length = group.length)
    (h : Coordinator.assignSequences next ((c.active group).zip plan.proposals) = some (entries, next')) :
    entries.map Entry.request = c.active group ∧ entries.map Entry.resolved = plan.proposals := by
  have hlength : (c.active group).length = plan.proposals.length := by rw [System.active_length, hplan]
  have hpairs := assignSequences_pairs h
  constructor
  · rw [← map_fst_zip hlength.le, ← hpairs, map_map]
    rfl
  · rw [← map_snd_zip hlength.ge, ← hpairs, map_map]
    rfl

/-- The entries of a group have the slots of its active requests. -/
theorem assignSequences_slots {c : Coordinator} {group : List Request} {plan : Mapping.GroupPlan}
    (hplan : plan.proposals.length = group.length)
    (h : Coordinator.assignSequences next ((c.active group).zip plan.proposals) = some (entries, next')) :
    entries.map (fun e => e.request.slot) = (c.active group).map Request.slot := by
  rw [← (assignSequences_requests hplan h).1, map_map]
  rfl

theorem rejectGroup_slots (group : List Request) (cause : Cause) :
    (Coordinator.rejectGroup group cause).map (fun x => x.1.slot) = group.map Request.slot := by
  simp only [Coordinator.rejectGroup, map_map, Function.comp_def]

theorem verdicts_slots (entries : List Entry) (verdict : Entry → Verdict) :
    (Coordinator.verdicts entries verdict).map (fun x => x.1.slot) = entries.map fun e => e.request.slot := by
  simp only [Coordinator.verdicts, map_map, Function.comp_def]

/-- The answer to a request that was published with its sequence. -/
def Entry.reply (e : Entry) : Answer :=
  match e.request.work with
  | .commit _ prepared => .committed prepared.batchID e.seq
  | .relocation relocation =>
    let applied := e.resolved.changes.countP fun change => change.apply
    .relocated relocation.batchID e.seq applied (e.resolved.changes.length - applied)

/-- Every ending of a request is one response on its own channel: an error, or what was published. -/
theorem complete_answers (shared : Shared) (r : Request) (verdict : Verdict) :
    ∃ answer, (shared.complete r verdict).1.answers = shared.answers ++ [(r.ticket, answer)] ∧
      ((∃ cause, answer = .failed cause) ∨
        ∃ seq resolved, verdict = .success seq resolved ∧ answer = Entry.reply ⟨r, resolved, seq⟩) := by
  cases verdict with
  | success seq resolved =>
    simp only [Shared.complete, Shared.completeSuccess]
    split
    next hwork => exact ⟨_, rfl, .inr ⟨seq, resolved, rfl, by simp only [Entry.reply, hwork]⟩⟩
    next hwork =>
      split
      next => exact ⟨_, rfl, .inl ⟨_, rfl⟩⟩
      next => exact ⟨_, rfl, .inr ⟨seq, resolved, rfl, by simp only [Entry.reply, hwork]⟩⟩
  | failure =>
    simp only [Shared.complete, Shared.completeFailure]
    split <;> exact ⟨_, rfl, .inl ⟨_, rfl⟩⟩

/-! ## §3 — The flow of the requests -/

/-- Requests before a command are answered before it, and requests after it later. -/
def Ordered (accepted : List Queued) (answered : List Nat) : Prop :=
  ∀ before ticket c rest, accepted = before ++ .command ticket c :: rest →
    ∀ first last, answered = first ++ ticket :: last → first.Perm (before.map Queued.ticket)

/-- **The flow of the requests**: what was taken from the queue is answered or in the hands of the
coordinator, and a command there is the last element that was taken. -/
structure Flow (s : System) (taken : List Queued) : Prop where
  accepted : s.accepted = taken ++ s.coordinator.queue
  perm : (taken.map Queued.ticket).Perm
    (s.shared.answers.map Prod.fst ++ s.coordinator.control.held.map Slot.ticket)
  held : ∀ x ∈ s.coordinator.control.held, x ∈ taken.map Queued.slot
  command : ∀ ticket c, s.coordinator.control.command = some (ticket, c) →
    ∃ before, taken = before ++ [.command ticket c]
  ordered : Ordered s.accepted (s.shared.answers.map Prod.fst)
  exiting : s.coordinator.control.exiting = true → s.coordinator.queue = [] ∧ s.coordinator.closed = true

/-- What a caller changes of the flow: it may put one element into an open queue, or close it. -/
structure Framed (s s' : System) (new : List Queued) : Prop where
  accepted : s'.accepted = s.accepted ++ new
  queue : s'.coordinator.queue = s.coordinator.queue ++ new
  control : s'.coordinator.control = s.coordinator.control
  answers : s'.shared.answers = s.shared.answers
  admits : new = [] ∨ ∃ q, new = [q] ∧ s.coordinator.closed = false
  closed : s.coordinator.closed = true → s'.coordinator.closed = true

theorem System.Acts.framed (h : s.Acts config limits s') : ∃ new, Framed s s' new := by
  have hkeep : ∀ t : System, t.accepted = s.accepted → t.coordinator = s.coordinator →
      t.shared.answers = s.shared.answers → ∃ new, Framed s t new := by
    intro t haccepted hcoordinator hanswers
    refine ⟨[], ?_, ?_, ?_, hanswers, .inl rfl, ?_⟩
    · rw [haccepted, append_nil]
    · rw [hcoordinator, append_nil]
    · rw [hcoordinator]
    · rw [hcoordinator]
      exact id
  have hpush : ∀ q, ∀ t : System, s.admits config → t.accepted = s.accepted ++ [q] →
      t.coordinator = { s.coordinator with queue := s.coordinator.queue ++ [q] } →
      t.shared.answers = s.shared.answers → ∃ new, Framed s t new := by
    intro q t hadmits haccepted hcoordinator hanswers
    refine ⟨[q], haccepted, ?_, ?_, hanswers, .inr ⟨q, rfl, hadmits.1⟩, ?_⟩
    · rw [hcoordinator]
    · rw [hcoordinator]
    · rw [hcoordinator]
      exact id
  cases h with
  | enqueue r hmem hadmits => exact hpush (.request r) _ hadmits rfl rfl rfl
  | barrier hfree hadmits => exact hpush (.command s.issued .barrier) _ hadmits rfl rfl rfl
  | install table hvalid hadmits | release generation hgranted hfree hadmits => exact hpush _ _ hadmits rfl rfl rfl
  | close hfree hopen =>
    exact ⟨[], (append_nil _).symm, (append_nil _).symm, rfl, rfl, .inl rfl, fun _ => rfl⟩
  | _ => exact hkeep _ rfl rfl rfl

/-- The callers leave the groups and the rest of the coordinator alone. -/
theorem System.Acts.groups (h : s.Acts config limits s') : s'.groups = s.groups := by
  cases h <;> rfl

theorem System.Acts.coordinator (h : s.Acts config limits s') :
    s'.coordinator.next = s.coordinator.next ∧ s'.coordinator.fault = s.coordinator.fault ∧
      s'.coordinator.redirects = s.coordinator.redirects ∧
      s'.coordinator.redirectGen = s.coordinator.redirectGen := by
  cases h <;> exact ⟨rfl, rfl, rfl, rfl⟩

/-- The answer to a command leaves the queue and the next sequence alone and takes no fault back. -/
structure Coordinator.Serves (c c' : Coordinator) : Prop where
  queue : c'.queue = c.queue
  closed : c'.closed = c.closed
  next : c'.next = c.next
  fault : c'.fault = none → c.fault = none

theorem Coordinator.processRedirect_serves (c : Coordinator) (command : RedirectRequest) :
    c.Serves (c.processRedirect command).1 := by
  simp only [Coordinator.processRedirect]
  split
  next => exact ⟨rfl, rfl, rfl, id⟩
  next hfault =>
    split
    · split <;> exact ⟨rfl, rfl, rfl, fun _ => hfault⟩
    · split <;> exact ⟨rfl, rfl, rfl, fun _ => hfault⟩

theorem Coordinator.processCheckpoint_serves (c : Coordinator) (covered : Nat)
    (outcome : Except Cause RecordLog.LogPos) : c.Serves (c.processCheckpoint covered outcome).1 := by
  simp only [Coordinator.processCheckpoint]
  split
  next => exact ⟨rfl, rfl, rfl, id⟩
  next hfault =>
    split
    · exact ⟨rfl, rfl, rfl, fun _ => hfault⟩
    · split <;> exact ⟨rfl, rfl, rfl, fun _ => hfault⟩

namespace Flow

variable {taken : List Queued}

section

variable (h : Flow s taken)

include h

/-- What was answered was taken. -/
theorem answered_subset {ticket : Nat} (hmem : ticket ∈ s.shared.answers.map Prod.fst) :
    ticket ∈ taken.map Queued.ticket :=
  h.perm.mem_iff.mpr (mem_append_left _ hmem)

theorem taken_nodup (ht : s.Ticketed) : (taken.map Queued.ticket).Nodup := by
  have hnodup := ht.accepted
  rw [h.accepted, map_append] at hnodup
  exact (nodup_append.mp hnodup).1

/-- The answered tickets and the ones at hand are distinct. -/
theorem nodup (ht : s.Ticketed) :
    (s.shared.answers.map Prod.fst ++ s.coordinator.control.held.map Slot.ticket).Nodup :=
  h.perm.nodup_iff.mp (h.taken_nodup ht)

/-- A step of the callers. -/
theorem act (ht' : s'.Ticketed) (hact : s.Acts config limits s') : Flow s' taken := by
  obtain ⟨new, hf⟩ := hact.framed
  refine ⟨?_, ?_, ?_, ?_, ?_, ?_⟩
  · rw [hf.accepted, hf.queue, h.accepted, append_assoc]
  · rw [hf.answers, hf.control]
    exact h.perm
  · rw [hf.control]
    exact h.held
  · rw [hf.control]
    exact h.command
  · rw [hf.answers]
    rcases hf.admits with rfl | ⟨q, rfl, -⟩
    · rw [hf.accepted, append_nil]
      exact h.ordered
    · intro before ticket c rest haccepted first last hanswered
      have hnodup := ht'.accepted
      rw [haccepted] at hnodup
      rw [hf.accepted] at haccepted
      -- the new element has not been answered, so the command stands before it
      rcases eq_nil_or_concat rest with rfl | ⟨rest', x, rfl⟩
      · have hlast := (append_inj' haccepted rfl).1
        have hmem : ticket ∈ before.map Queued.ticket := by
          have hanswer : ticket ∈ taken.map Queued.ticket := h.answered_subset (by rw [hanswered]; simp)
          rw [← hlast, h.accepted, map_append]
          exact mem_append_left _ hanswer
        rw [map_append, nodup_append] at hnodup
        exact absurd rfl (hnodup.2.2 ticket hmem ticket mem_cons_self)
      · have hsplit : s.accepted = before ++ .command ticket c :: rest' := by
          rw [concat_eq_append, ← cons_append, ← append_assoc] at haccepted
          exact (append_inj' haccepted rfl).1
        exact h.ordered before ticket c rest' hsplit first last hanswered
  · rw [hf.control]
    intro hexit
    obtain ⟨hqueue, hclosed⟩ := h.exiting hexit
    refine ⟨?_, hf.closed hclosed⟩
    rcases hf.admits with rfl | ⟨q, rfl, hopen⟩
    · rw [hf.queue, hqueue, append_nil]
    · rw [hopen] at hclosed
      cases hclosed

/-- A turn that neither takes nor answers. -/
theorem keep (haccepted : s'.accepted = s.accepted)
    (hqueue : s'.coordinator.queue = s.coordinator.queue) (hclosed : s'.coordinator.closed = s.coordinator.closed)
    (hanswers : s'.shared.answers = s.shared.answers)
    (hheld : s'.coordinator.control.held.Perm s.coordinator.control.held)
    (hcommand : s'.coordinator.control.command = s.coordinator.control.command)
    (hexiting : s'.coordinator.control.exiting = true →
      s.coordinator.control.exiting = true ∨ s.coordinator.queue = [] ∧ s.coordinator.closed = true) :
    Flow s' taken := by
  refine ⟨?_, ?_, fun x hx => h.held x (hheld.mem_iff.mp hx), ?_, ?_, fun hexit => ?_⟩
  · rw [haccepted, hqueue, h.accepted]
  · rw [hanswers]
    exact h.perm.trans ((hheld.map Slot.ticket).symm.append_left _)
  · rw [hcommand]
    exact h.command
  · rw [haccepted, hanswers]
    exact h.ordered
  · rw [hqueue, hclosed]
    rcases hexiting hexit with hexit | hend
    · exact h.exiting hexit
    · exact hend

/-- A turn that takes an element from the queue. -/
theorem receive {q : Queued} {rest : List Queued} {control : Control} (hqueue : s.coordinator.queue = q :: rest)
    (hheld : control.held.Perm (q.slot :: s.coordinator.control.held))
    (hcommand : ∀ ticket c, control.command = some (ticket, c) → q = .command ticket c)
    (hexiting : control.exiting = false) : Flow (s.take rest control) (taken ++ [q]) := by
  refine ⟨?_, ?_, ?_, fun ticket c hc => ⟨taken, by rw [hcommand ticket c hc]⟩, h.ordered, ?_⟩
  · show s.accepted = taken ++ [q] ++ rest
    rw [h.accepted, hqueue, append_assoc, singleton_append]
  · rw [map_append]
    have hmap : (control.held.map Slot.ticket).Perm
        (q.ticket :: s.coordinator.control.held.map Slot.ticket) := by
      simpa only [map_cons, Queued.slot_ticket] using hheld.map Slot.ticket
    refine (perm_append_singleton _ _).trans ?_
    refine (h.perm.cons q.ticket).trans ?_
    exact perm_middle.symm.trans (hmap.symm.append_left _)
  · intro x hx
    rw [map_append, mem_append]
    rcases mem_cons.mp (hheld.mem_iff.mp hx) with rfl | hold
    · exact .inr mem_cons_self
    · exact .inl (h.held x hold)
  · intro hexit
    have hcontrol : control.exiting = true := hexit
    rw [hexiting] at hcontrol
    cases hcontrol

/-- Answering a ticket that is at hand keeps the order of the commands that were answered before. -/
theorem ordered_answer (ht : s.Ticketed) {x : Slot}
    (hmem : x ∈ s.coordinator.control.held)
    (hlast : x.kind = .command → ∃ before c, taken = before ++ [.command x.ticket c] ∧
      (s.shared.answers.map Prod.fst).Perm (before.map Queued.ticket)) :
    Ordered s.accepted (s.shared.answers.map Prod.fst ++ [x.ticket]) := by
  intro before ticket c rest haccepted first last hanswered
  rcases eq_nil_or_concat last with rfl | ⟨last', y, rfl⟩
  · -- the command is the one that is answered
    obtain ⟨hfirst, heq⟩ := append_inj' hanswered rfl
    have hticket : x.ticket = ticket := singleton_inj.mp heq
    subst hticket
    obtain ⟨q, hq, hslot⟩ := mem_map.mp (h.held x hmem)
    have hqeq : q = .command x.ticket c := by
      refine inj_on_of_nodup_map ht.accepted ?_ ?_ ?_
      · rw [h.accepted]
        exact mem_append_left _ hq
      · rw [haccepted]
        exact mem_append_right _ mem_cons_self
      · rw [← Queued.slot_ticket, hslot]
        rfl
    have hkind : x.kind = .command := by
      rw [← hslot, hqeq]
      rfl
    obtain ⟨before', c', htaken, hperm⟩ := hlast hkind
    have hsame : before = before' := by
      have hsplit : before ++ .command x.ticket c :: rest =
          before' ++ .command x.ticket c' :: s.coordinator.queue := by
        rw [← haccepted, h.accepted, htaken, append_assoc, singleton_append]
      have hnodup := ht.accepted
      rw [haccepted] at hnodup
      exact eq_of_nodup_split hnodup hsplit rfl
    rw [← hfirst, hsame]
    exact hperm
  · rw [concat_eq_append, ← cons_append, ← append_assoc] at hanswered
    exact h.ordered before ticket c rest haccepted first last' (append_inj' hanswered rfl).1

/-- A turn that answers a ticket that is at hand. -/
theorem answer (ht : s.Ticketed) {x : Slot} {a : Answer}
    (haccepted : s'.accepted = s.accepted) (hqueue : s'.coordinator.queue = s.coordinator.queue)
    (hclosed : s'.coordinator.closed = s.coordinator.closed)
    (hanswers : s'.shared.answers = s.shared.answers ++ [(x.ticket, a)])
    (hheld : s.coordinator.control.held = x :: s'.coordinator.control.held)
    (hlast : x.kind = .command → ∃ before c, taken = before ++ [.command x.ticket c] ∧
      (s.shared.answers.map Prod.fst).Perm (before.map Queued.ticket))
    (hcommand : ∀ ticket c, s'.coordinator.control.command = some (ticket, c) →
      s.coordinator.control.command = some (ticket, c))
    (hexiting : s'.coordinator.control.exiting = true → s.coordinator.control.exiting = true) :
    Flow s' taken := by
  have hmap : s'.shared.answers.map Prod.fst = s.shared.answers.map Prod.fst ++ [x.ticket] := by
    rw [hanswers, map_append]
    rfl
  refine ⟨?_, ?_, fun y hy => h.held y ?_, fun ticket c hc => h.command ticket c (hcommand ticket c hc), ?_, ?_⟩
  · rw [haccepted, hqueue, h.accepted]
  · rw [hmap, append_assoc, singleton_append, ← map_cons, ← hheld]
    exact h.perm
  · rw [hheld]
    exact mem_cons_of_mem _ hy
  · rw [haccepted, hmap]
    refine h.ordered_answer ht ?_ hlast
    rw [hheld]
    exact mem_cons_self
  · intro hexit
    rw [hqueue, hclosed]
    exact h.exiting (hexiting hexit)

/-- The answer to the command that is being served. -/
theorem serve (ht : s.Ticketed) {ticket : Nat} {c : Command} {result : Coordinator × Answer}
    (hcontrol : s.coordinator.control = .serving ticket c) (hserves : s.coordinator.Serves result.1) :
    Flow (s.answer ticket result) taken := by
  have hheld : s.coordinator.control.held = [⟨ticket, .command⟩] := by
    rw [hcontrol]
    rfl
  refine h.answer (x := ⟨ticket, .command⟩) (a := result.2) ht rfl hserves.queue hserves.closed rfl hheld
    (fun _ => ?_) (fun _ _ hc => ?_) (fun hexit => ?_)
  · obtain ⟨before, htaken⟩ := h.command ticket c (by rw [hcontrol]; rfl)
    refine ⟨before, c, htaken, ?_⟩
    have hperm := h.perm
    rw [htaken, hheld, map_append] at hperm
    exact ((perm_append_right_iff _).mp hperm).symm
  · cases hc
  · cases hexit

/-- **A step of the coordinator.** -/
theorem turn (ht : s.Ticketed) (hturn : s.Turns config s') : ∃ taken', Flow s' taken' := by
  cases hturn with
  | exit hcontrol hqueue hclosed =>
    refine ⟨taken, h.keep rfl rfl rfl rfl ?_ ?_ fun _ => .inr ⟨hqueue, hclosed⟩⟩ <;> rw [hcontrol]
    · exact List.Perm.refl _
    · rfl
  | serve ticket c rest hcontrol hqueue =>
    refine ⟨_, h.receive hqueue ?_ (fun ticket' c' hc => ?_) rfl⟩
    · rw [hcontrol]
      exact List.Perm.refl _
    · cases hc
      rfl
  | reject r rest cause hcontrol hqueue | start r rest bytes hcontrol hqueue
  | collectReject group bytes r rest cause hcontrol hqueue =>
    refine ⟨_, h.receive hqueue ?_ (fun _ _ hc => ?_) rfl⟩
    · rw [hcontrol]
      exact List.Perm.refl _
    · cases hc
  | collectExit group bytes hcontrol hqueue hclosed =>
    refine ⟨taken, h.keep rfl rfl rfl rfl ?_ ?_ fun _ => .inr ⟨hqueue, hclosed⟩⟩ <;> rw [hcontrol]
    · exact List.Perm.of_eq (append_nil _)
    · rfl
  | collectServe group bytes ticket c rest hcontrol hqueue =>
    refine ⟨_, h.receive hqueue ?_ (fun ticket' c' hc => ?_) rfl⟩
    · rw [hcontrol]
      exact perm_append_singleton _ _
    · cases hc
      rfl
  | overflow group bytes r rest single hcontrol hqueue halone =>
    refine ⟨_, h.receive hqueue ?_ (fun _ _ hc => ?_) rfl⟩
    · rw [hcontrol]
      exact perm_append_singleton _ _
    · cases hc
  | collect group bytes r rest single hcontrol hlength hqueue halone hfits =>
    refine ⟨_, h.receive hqueue ?_ (fun _ _ hc => ?_) rfl⟩
    · rw [hcontrol]
      simp only [Control.held, map_append, map_cons, map_nil]
      exact perm_append_singleton _ _
    · cases hc
  | stop group bytes hcontrol =>
    refine ⟨taken, h.keep rfl rfl rfl rfl ?_ ?_ fun hexit => ?_⟩
    · rw [hcontrol]
      exact List.Perm.of_eq (append_nil _)
    · rw [hcontrol]
      rfl
    · cases hexit
  | refuse group refused after cause fault hcontrol hrefused hfault =>
    refine ⟨taken, h.keep rfl rfl rfl rfl ?_ ?_ fun hexit => .inl ?_⟩ <;> rw [hcontrol]
    · simp only [Control.held, rejectGroup_slots]
      refine List.Perm.append_right _ ?_
      rcases hrefused with rfl | rfl
      · exact List.Perm.refl _
      · exact active_slots _ _
    · rfl
    · exact hexit
  | assign group after plan entries next hcontrol hfault hplan hassign hencode =>
    refine ⟨taken, h.keep rfl rfl rfl rfl ?_ ?_ fun hexit => .inl ?_⟩ <;> rw [hcontrol]
    · simp only [System.withControl, Control.held, assignSequences_slots hplan hassign]
      exact (active_slots _ _).append_right _
    · rfl
    · exact hexit
  | append job after hcontrol =>
    refine ⟨taken, h.keep rfl rfl rfl rfl ?_ ?_ fun hexit => .inl ?_⟩ <;> rw [hcontrol]
    · exact List.Perm.refl _
    · rfl
    · exact hexit
  | appendFailed job after cause poisoned hcontrol | publishFailed job after cause ledger hcontrol
  | publish job after ledger hcontrol =>
    refine ⟨taken, h.keep rfl rfl rfl rfl ?_ ?_ fun hexit => .inl ?_⟩ <;> rw [hcontrol]
    · simp only [System.withLedger, System.withControl, Control.held, verdicts_slots]
      exact List.Perm.refl _
    · rfl
    · exact hexit
  | complete r verdict todo after fault hcontrol hfault =>
    obtain ⟨a, ha, -⟩ := complete_answers s.shared r verdict
    refine ⟨taken, h.answer (x := r.slot) (a := a) ht rfl rfl rfl ?_ ?_ (fun hkind => ?_) (fun _ _ hc => ?_)
      fun hexit => ?_⟩
    · rw [Request.slot_ticket]
      exact ha
    · rw [hcontrol]
      rfl
    · exact absurd hkind r.slot_kind_ne
    · rw [hcontrol]
      exact hc
    · rw [hcontrol]
      exact hexit
  | resume after hcontrol =>
    refine ⟨taken, h.keep rfl rfl rfl rfl ?_ ?_ fun hexit => .inl ?_⟩ <;> rw [hcontrol]
    · simp only [System.withControl, After.held_control]
      exact List.Perm.refl _
    · exact after.command_control
    · have hafter : after.control.exiting = true := hexit
      rw [After.exiting_control] at hafter
      exact hafter
  | checkpoint ticket covered outcome hcontrol =>
    exact ⟨taken, h.serve ht hcontrol (s.coordinator.processCheckpoint_serves covered outcome)⟩
  | redirect ticket command hcontrol =>
    exact ⟨taken, h.serve ht hcontrol (s.coordinator.processRedirect_serves command)⟩

end

end Flow

end Ridstore.Commit
