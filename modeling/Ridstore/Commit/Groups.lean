import Ridstore.Commit.Flow

/-
# Ridstore.Commit.Groups — the groups of a run

The collected groups, one after the other, are what was accepted without the commands and the requests that
fit no group; no group is larger than the limits; and the commit sequences that were assigned are contiguous
over the whole run, because a group that could not be published leaves a fault and no later group is given
any.
-/

namespace Ridstore.Commit

open Transaction (Limits)
open List

variable {config : Config} {limits : Limits} {s s' : System} {g : Group}

/-! ## §1 — The order of the groups -/

def After.waiting : After → List Request
  | .collect group _ => group
  | .loop | .exit | .serve _ _ => []

/-- The requests that a later group is made of. -/
def Control.waiting : Control → List Request
  | .collecting group _ => group
  | .processing group after => group ++ after.waiting
  | .appending _ after | .publishing _ after | .completing _ after => after.waiting
  | .idle | .exited | .serving _ _ => []

@[simp] theorem After.waiting_control (after : After) : after.control.waiting = after.waiting := by
  cases after <;> rfl

/-- The collected requests of the run, those of the next group at the end. -/
def System.collected (s : System) : List Request :=
  s.groups.flatMap Group.collected ++ s.coordinator.control.waiting

/-- **The groups follow the queue.** -/
structure Lined (s : System) (taken : List Queued) : Prop where
  accepted : s.accepted = taken ++ s.coordinator.queue
  sublist : (s.collected.map Queued.request).Sublist taken

namespace Lined

variable {taken : List Queued} {control : Control}

theorem act (h : Lined s taken) (hact : s.Acts config limits s') : Lined s' taken := by
  obtain ⟨new, hf⟩ := hact.framed
  refine ⟨by rw [hf.accepted, hf.queue, h.accepted, append_assoc], ?_⟩
  rw [System.collected, hf.control, hact.groups]
  exact h.sublist

/-- A turn that takes nothing. -/
theorem keep (h : Lined s taken) (haccepted : s'.accepted = s.accepted)
    (hqueue : s'.coordinator.queue = s.coordinator.queue) (hcollected : s'.collected = s.collected) :
    Lined s' taken := by
  refine ⟨by rw [haccepted, hqueue, h.accepted], ?_⟩
  rw [hcollected]
  exact h.sublist

variable {rest : List Queued}

/-- A turn that takes an element which no group will have. -/
theorem skip (h : Lined s taken) {q : Queued} (hqueue : s.coordinator.queue = q :: rest)
    (hwaiting : control.waiting = s.coordinator.control.waiting) : Lined (s.take rest control) (taken ++ [q]) := by
  refine ⟨?_, ?_⟩
  · show s.accepted = taken ++ [q] ++ rest
    rw [h.accepted, hqueue, append_assoc, singleton_append]
  · have hcollected : (s.take rest control).collected = s.collected := by
      show s.groups.flatMap Group.collected ++ control.waiting = _
      rw [hwaiting]
      rfl
    rw [hcollected]
    exact h.sublist.trans (sublist_append_left _ _)

/-- A turn that takes a request of a group. -/
theorem join (h : Lined s taken) {r : Request} (hqueue : s.coordinator.queue = .request r :: rest)
    (hwaiting : control.waiting = s.coordinator.control.waiting ++ [r]) :
    Lined (s.take rest control) (taken ++ [.request r]) := by
  refine ⟨?_, ?_⟩
  · show s.accepted = taken ++ [.request r] ++ rest
    rw [h.accepted, hqueue, append_assoc, singleton_append]
  · have hcollected : (s.take rest control).collected = s.collected ++ [r] := by
      show s.groups.flatMap Group.collected ++ control.waiting = _
      rw [hwaiting, ← append_assoc]
      rfl
    rw [hcollected, map_append]
    exact h.sublist.append (List.Sublist.refl _)

/-- A processed group moves into the history. -/
theorem collected_process {group : List Request} {assigned : List Entry} {after : After} {t : System}
    (hcontrol : s.coordinator.control = .processing group after)
    (hgroups : t.groups = s.groups ++ [⟨group, assigned⟩]) (hafter : t.coordinator.control = control)
    (hwaiting : control.waiting = after.waiting) : t.collected = s.collected := by
  rw [System.collected, System.collected, hgroups, hafter, hwaiting, hcontrol, flatMap_append,
    flatMap_singleton, append_assoc]
  rfl

theorem turn (h : Lined s taken) (hturn : s.Turns config s') : ∃ taken', Lined s' taken' := by
  cases hturn with
  | exit hcontrol | appendFailed job after cause poisoned hcontrol | append job after hcontrol
  | publishFailed job after cause ledger hcontrol | publish job after ledger hcontrol
  | complete r verdict todo after fault hcontrol =>
    refine ⟨taken, h.keep rfl rfl ?_⟩
    rw [System.collected, System.collected, hcontrol]
    rfl
  | serve ticket c rest hcontrol hqueue | reject r rest cause hcontrol hqueue
  | collectReject group bytes r rest cause hcontrol hqueue =>
    refine ⟨_, h.skip hqueue ?_⟩
    rw [hcontrol]
    rfl
  | start r rest bytes hcontrol hqueue | overflow group bytes r rest single hcontrol hqueue
  | collect group bytes r rest single hcontrol hlength hqueue =>
    refine ⟨_, h.join hqueue ?_⟩
    rw [hcontrol]
    rfl
  | collectExit group bytes hcontrol | stop group bytes hcontrol =>
    refine ⟨taken, h.keep rfl rfl ?_⟩
    rw [System.collected, System.collected, hcontrol]
    exact congrArg _ (append_nil _)
  | collectServe group bytes ticket c rest hcontrol hqueue =>
    refine ⟨_, h.skip hqueue ?_⟩
    rw [hcontrol]
    exact append_nil _
  | refuse group refused after cause fault hcontrol | assign group after plan entries next hcontrol =>
    exact ⟨taken, h.keep rfl rfl (collected_process hcontrol rfl rfl rfl)⟩
  | resume after hcontrol =>
    refine ⟨taken, h.keep rfl rfl ?_⟩
    rw [System.collected, System.collected, hcontrol]
    exact congrArg _ after.waiting_control
  | checkpoint ticket covered outcome hcontrol =>
    refine ⟨taken, h.keep rfl (s.coordinator.processCheckpoint_serves _ _).queue ?_⟩
    rw [System.collected, System.collected, hcontrol]
    rfl
  | redirect ticket command hcontrol =>
    refine ⟨taken, h.keep rfl (s.coordinator.processRedirect_serves _).queue ?_⟩
    rw [System.collected, System.collected, hcontrol]
    rfl

end Lined

/-! ## §2 — The size of the groups -/

/-- The bytes of the descriptor of a request. -/
def Request.bytes (r : Request) : Nat :=
  match r.work with
  | .commit _ prepared => RecordCodec.descriptorHeadSize + prepared.mutations.length * RecordCodec.mutationSize
  | .relocation relocation =>
    RecordCodec.descriptorHeadSize + relocation.changes.length * RecordCodec.mutationSize

/-- The bytes of a record with a descriptor for every request of a group. -/
def groupPayload (group : List Request) : Nat := RecordCodec.commitGroupHeadSize + (group.map Request.bytes).sum

/-- The group is within the limits. -/
def Within (config : Config) (group : List Request) : Prop :=
  group.length ≤ config.maxGroupBatches ∧ groupPayload group ≤ config.maxGroupPayload

theorem descriptorSize_eq_ok {r : Request} {size : Nat} (h : r.descriptorSize = .ok size) : size = r.bytes := by
  simp only [Request.descriptorSize] at h
  split at h
  next batch prepared hwork =>
    simp only [RecordCodec.descriptorSize] at h
    split at h
    next =>
      cases h
      simp only [Request.bytes, hwork]
    next => cases h
  next relocation hwork =>
    simp only [RecordCodec.descriptorSize] at h
    split at h
    next =>
      cases h
      simp only [Request.bytes, hwork]
    next => cases h

theorem alone_eq_ok {r : Request} {bytes : Nat} (h : Coordinator.alone config r = .ok bytes) :
    bytes = groupPayload [r] ∧ groupPayload [r] ≤ config.maxGroupPayload := by
  simp only [Coordinator.alone] at h
  split at h
  next => cases h
  next size hsize =>
    obtain ⟨hfits, h⟩ := Lib.guard_eq_ok h
    cases h
    have hpayload : groupPayload [r] = RecordCodec.commitGroupHeadSize + size := by
      rw [descriptorSize_eq_ok hsize]
      simp only [groupPayload, map_cons, map_nil, sum_cons, sum_nil, Nat.add_zero]
    rw [hpayload]
    exact ⟨rfl, Nat.le_of_not_lt hfits⟩

theorem groupPayload_concat (group : List Request) (r : Request) :
    groupPayload (group ++ [r]) = groupPayload group + r.bytes := by
  simp only [groupPayload, map_append, sum_append, map_cons, map_nil, sum_cons,
    sum_nil, Nat.add_zero, Nat.add_assoc]

def After.Sized (config : Config) : After → Prop
  | .collect group bytes => Within config group ∧ bytes = groupPayload group
  | .loop | .exit | .serve _ _ => True

/-- The group at hand is within the limits, and its bytes are counted. -/
def Control.Sized (config : Config) : Control → Prop
  | .collecting group bytes => Within config group ∧ bytes = groupPayload group
  | .processing group after => Within config group ∧ after.Sized config
  | .appending _ after | .publishing _ after | .completing _ after => after.Sized config
  | .idle | .exited | .serving _ _ => True

theorem After.sized_control (after : After) : after.control.Sized config ↔ after.Sized config := by
  cases after <;> exact Iff.rfl

/-- **No group is larger than the limits.** -/
structure Sized (config : Config) (s : System) : Prop where
  control : s.coordinator.control.Sized config
  groups : ∀ g ∈ s.groups, Within config g.collected

namespace Sized

theorem act (h : Sized config s) (hact : s.Acts config limits s') : Sized config s' := by
  obtain ⟨new, hf⟩ := hact.framed
  refine ⟨?_, ?_⟩
  · rw [hf.control]
    exact h.control
  · rw [hact.groups]
    exact h.groups

/-- A group of one request. -/
theorem within_single (hvalid : config.Valid) {r : Request} {bytes : Nat}
    (halone : Coordinator.alone config r = .ok bytes) : Within config [r] ∧ bytes = groupPayload [r] :=
  ⟨⟨hvalid.2.1, (alone_eq_ok halone).2⟩, (alone_eq_ok halone).1⟩

variable {group : List Request}

/-- One request more, as far as the collecting loop allows. -/
theorem within_concat {r : Request} {single : Nat}
    (hlength : group.length < config.maxGroupBatches) (halone : Coordinator.alone config r = .ok single)
    (hfits : groupPayload group ≤ config.maxGroupPayload - (single - RecordCodec.commitGroupHeadSize)) :
    Within config (group ++ [r]) ∧
      groupPayload group + (single - RecordCodec.commitGroupHeadSize) = groupPayload (group ++ [r]) := by
  obtain ⟨hsingle, hmax⟩ := alone_eq_ok halone
  have hbytes : single - RecordCodec.commitGroupHeadSize = r.bytes := by
    rw [hsingle]
    simp only [groupPayload, map_cons, map_nil, sum_cons, sum_nil, Nat.add_zero,
      Nat.add_sub_cancel_left]
  have hle : r.bytes ≤ config.maxGroupPayload := by
    rw [← hbytes, hsingle]
    exact (Nat.sub_le _ _).trans hmax
  rw [hbytes] at hfits ⊢
  refine ⟨⟨?_, ?_⟩, (groupPayload_concat group r).symm⟩
  · rw [length_append, length_singleton]
    exact hlength
  · rw [groupPayload_concat]
    omega

/-- The group at hand goes into the history. -/
theorem groups_process (h : Sized config s) {after : After} {assigned : List Entry}
    (hcontrol : s.coordinator.control = .processing group after) :
    ∀ g ∈ s.groups ++ [⟨group, assigned⟩], Within config g.collected := by
  have hgroup := h.control
  rw [hcontrol] at hgroup
  intro g hg
  rcases Lib.mem_snoc.mp hg with hold | hnew
  · exact h.groups g hold
  · rw [hnew]
    exact hgroup.1

theorem turn (hvalid : config.Valid) (h : Sized config s) (hturn : s.Turns config s') : Sized config s' := by
  have hsized := h.control
  cases hturn with
  | start r rest bytes hcontrol hqueue halone => exact ⟨within_single hvalid halone, h.groups⟩
  | collectExit group bytes hcontrol | collectServe group bytes ticket c rest hcontrol
  | stop group bytes hcontrol =>
    rw [hcontrol] at hsized
    exact ⟨⟨hsized.1, trivial⟩, h.groups⟩
  | collectReject group bytes r rest cause hcontrol | appendFailed job after cause poisoned hcontrol
  | append job after hcontrol | publishFailed job after cause ledger hcontrol
  | publish job after ledger hcontrol | complete r verdict todo after fault hcontrol =>
    rw [hcontrol] at hsized
    exact ⟨hsized, h.groups⟩
  | overflow group bytes r rest single hcontrol hqueue halone =>
    rw [hcontrol] at hsized
    exact ⟨⟨hsized.1, within_single hvalid halone⟩, h.groups⟩
  | collect group bytes r rest single hcontrol hlength hqueue halone hfits =>
    rw [hcontrol] at hsized
    obtain ⟨hgroup, rfl⟩ := hsized
    exact ⟨within_concat hlength halone hfits, h.groups⟩
  | refuse group refused after cause fault hcontrol | assign group after plan entries next hcontrol =>
    rw [hcontrol] at hsized
    exact ⟨hsized.2, h.groups_process hcontrol⟩
  | resume after hcontrol =>
    rw [hcontrol] at hsized
    exact ⟨after.sized_control.mpr hsized, h.groups⟩
  | _ => exact ⟨trivial, h.groups⟩

end Sized

/-! ## §3 — The commit sequences -/

/-- The sequence that the next group starts with. -/
def Coordinator.nextSeq (c : Coordinator) : Nat :=
  match c.control with
  | .appending job _ | .publishing job _ => job.next
  | .idle | .collecting _ _ | .processing _ _ | .completing _ _ | .serving _ _ | .exited => c.next

/-- The requests that were given a commit sequence, in the order of the groups. -/
def System.assigned (s : System) : List Entry := s.groups.flatMap Group.assigned

variable {next next' : Nat} {entries : List Entry}

/-- The sequences of a group are contiguous. -/
theorem assignSequences_seqs {pairs : List (Request × Mapping.ResolvedProposal)}
    (h : Coordinator.assignSequences next pairs = some (entries, next')) :
    (accepted entries).map Entry.seq = List.range' next (accepted entries).length ∧
      next' = next + (accepted entries).length := by
  induction pairs generalizing next entries with
  | nil =>
    cases h
    exact ⟨rfl, rfl⟩
  | cons pair rest ih =>
    obtain ⟨r, resolved⟩ := pair
    simp only [Coordinator.assignSequences] at h
    split at h
    next haccepted =>
      split at h
      next => cases h
      next =>
        obtain ⟨⟨entries', last⟩, hrest, heq⟩ := Option.map_eq_some_iff.mp h
        cases heq
        obtain ⟨hseqs, hnext⟩ := ih hrest
        have hcons : accepted (⟨r, resolved, next⟩ :: entries') = ⟨r, resolved, next⟩ :: accepted entries' :=
          filter_cons_of_pos haccepted
        rw [hcons, map_cons, length_cons, List.range'_succ, hseqs]
        exact ⟨rfl, by omega⟩
    next haccepted =>
      obtain ⟨⟨entries', last⟩, hrest, heq⟩ := Option.map_eq_some_iff.mp h
      cases heq
      have hcons : accepted (⟨r, resolved, 0⟩ :: entries') = accepted entries' :=
        filter_cons_of_neg haccepted
      rw [hcons]
      exact ih hrest

/-- **The assigned sequences are contiguous**, and without a fault the next group goes on with them. -/
structure Sequenced (s : System) (first : Nat) : Prop where
  seqs : s.assigned.map Entry.seq = List.range' first s.assigned.length
  next : s.coordinator.fault = none → s.coordinator.nextSeq = first + s.assigned.length

namespace Sequenced

variable {first : Nat}

theorem act (h : Sequenced s first) (hact : s.Acts config limits s') : Sequenced s' first := by
  obtain ⟨new, hf⟩ := hact.framed
  obtain ⟨hnext, hfault, -, -⟩ := hact.coordinator
  have hassigned : s'.assigned = s.assigned := by rw [System.assigned, System.assigned, hact.groups]
  have hseq : s'.coordinator.nextSeq = s.coordinator.nextSeq := by
    rw [Coordinator.nextSeq, Coordinator.nextSeq, hf.control, hnext]
  refine ⟨?_, ?_⟩
  · rw [hassigned]
    exact h.seqs
  · rw [hassigned, hfault, hseq]
    exact h.next

/-- A turn that assigns nothing. -/
theorem keep (h : Sequenced s first) (hassigned : s'.assigned = s.assigned)
    (hnext : s'.coordinator.fault = none →
      s.coordinator.fault = none ∧ s'.coordinator.nextSeq = s.coordinator.nextSeq) : Sequenced s' first := by
  refine ⟨?_, fun hfault => ?_⟩
  · rw [hassigned]
    exact h.seqs
  · obtain ⟨hbefore, hseq⟩ := hnext hfault
    rw [hassigned, hseq]
    exact h.next hbefore

theorem fail_ne_none (c : Coordinator) (cause : Cause) : (c.fail cause).fault ≠ none := by
  cases hfault : c.fault <;> simp only [Coordinator.fail, hfault, Option.none_or, Option.some_or, ne_eq,
    reduceCtorEq, not_false_eq_true]

/-- A fault that was recorded with a turn. -/
theorem fault_of_none {c : Coordinator} {fault : Option Cause}
    (h : fault = c.fault ∨ c.fault = none ∧ fault ≠ none) (hnone : fault = none) : c.fault = none := by
  rcases h with rfl | ⟨-, hne⟩
  · exact hnone
  · exact absurd hnone hne

theorem turn (h : Sequenced s first) (hturn : s.Turns config s') : Sequenced s' first := by
  cases hturn with
  | exit hcontrol | collectExit group bytes hcontrol | stop group bytes hcontrol | append job after hcontrol =>
    refine h.keep rfl fun hfault => ⟨hfault, ?_⟩
    simp only [Coordinator.nextSeq, hcontrol, System.withControl]
  | serve ticket c rest hcontrol | reject r rest cause hcontrol | start r rest bytes hcontrol
  | collectServe group bytes ticket c rest hcontrol | collectReject group bytes r rest cause hcontrol
  | overflow group bytes r rest single hcontrol | collect group bytes r rest single hcontrol =>
    refine h.keep rfl fun hfault => ⟨hfault, ?_⟩
    simp only [Coordinator.nextSeq, hcontrol, System.take]
  | refuse group refused after cause fault hcontrol hrefused hfault =>
    refine h.keep ?_ fun hnone => ⟨fault_of_none hfault hnone, ?_⟩
    · simp only [System.assigned, flatMap_append, flatMap_singleton, append_nil]
    · simp only [Coordinator.nextSeq, hcontrol]
  | assign group after plan entries next hcontrol hfault hplan hassign hencode =>
    obtain ⟨hseqs, hnext⟩ := assignSequences_seqs hassign
    have hbefore : s.coordinator.next = first + s.assigned.length := by
      have := h.next hfault
      simpa only [Coordinator.nextSeq, hcontrol] using this
    have hassigned : s.groups.flatMap Group.assigned ++ Commit.accepted entries =
        s.assigned ++ Commit.accepted entries := rfl
    refine ⟨?_, fun _ => ?_⟩
    · simp only [System.assigned, flatMap_append, flatMap_singleton]
      rw [hassigned, map_append, length_append, h.seqs, hseqs, hbefore, List.range'_append_1]
    · simp only [System.assigned, flatMap_append, flatMap_singleton, System.withControl,
        Coordinator.nextSeq]
      rw [hassigned, length_append, hnext, hbefore, Nat.add_assoc]
  | appendFailed job after cause | publishFailed job after cause =>
    exact h.keep rfl fun hnone => absurd hnone (fail_ne_none s.coordinator cause)
  | publish job after ledger hcontrol hledger =>
    refine h.keep rfl fun hfault => ⟨hfault, ?_⟩
    simp only [Coordinator.nextSeq, hcontrol, System.withLedger]
  | complete r verdict todo after fault hcontrol hfault =>
    refine h.keep rfl fun hnone => ⟨fault_of_none hfault hnone, ?_⟩
    simp only [Coordinator.nextSeq, hcontrol]
  | resume after hcontrol =>
    refine h.keep rfl fun hfault => ⟨hfault, ?_⟩
    cases after <;> simp only [Coordinator.nextSeq, hcontrol, System.withControl, After.control]
  | checkpoint ticket covered outcome hcontrol =>
    have hserves := s.coordinator.processCheckpoint_serves covered outcome
    refine h.keep rfl fun hnone => ⟨hserves.fault hnone, ?_⟩
    simp only [Coordinator.nextSeq, hcontrol, System.answer]
    exact hserves.next
  | redirect ticket command hcontrol =>
    have hserves := s.coordinator.processRedirect_serves command
    refine h.keep rfl fun hnone => ⟨hserves.fault hnone, ?_⟩
    simp only [Coordinator.nextSeq, hcontrol, System.answer]
    exact hserves.next

end Sequenced

/-! ## §4 — The order inside of a group -/

def Slot.isUser (x : Slot) : Bool :=
  match x.kind with
  | .commit _ => true
  | .relocation | .command => false

@[simp] theorem Request.isUser_slot (r : Request) : r.slot.isUser = r.isUser := by
  obtain ⟨ticket, work⟩ := r
  cases work <;> rfl

/-- **Inside of a group users come first**: what was assigned follows the group with its users in front. -/
def Group.InOrder (g : Group) : Prop :=
  (g.assigned.map fun e => e.request.slot).Sublist ((orderUserBeforeRelocation g.collected).map Request.slot)

theorem inOrder_assign {group : List Request} {c : Coordinator} {plan : Mapping.GroupPlan} (hplan : plan.proposals.length = group.length)
    (h : Coordinator.assignSequences next ((c.active group).zip plan.proposals) = some (entries, next')) :
    Group.InOrder ⟨group, accepted entries⟩ := by
  have hactive : (c.active group).map Request.slot = (orderUserBeforeRelocation group).map Request.slot := by
    rw [Coordinator.active, map_map]
    exact map_congr_left fun r _ => r.slot_applyCommitRedirects c.redirects
  rw [Group.InOrder, ← hactive, ← assignSequences_slots hplan h]
  exact filter_sublist.map _

/-- The groups of a run are in order. -/
def GroupsInOrder (s : System) : Prop := ∀ g ∈ s.groups, g.InOrder

theorem GroupsInOrder.concat (h : GroupsInOrder s) (hg : g.InOrder)
    (hgroups : s'.groups = s.groups ++ [g]) : GroupsInOrder s' := by
  intro g' hg'
  rw [hgroups] at hg'
  rcases Lib.mem_snoc.mp hg' with hold | hnew
  · exact h g' hold
  · rw [hnew]
    exact hg

theorem GroupsInOrder.turn (h : GroupsInOrder s) (hturn : s.Turns config s') : GroupsInOrder s' := by
  cases hturn with
  | refuse group =>
    exact h.concat (g := ⟨group, []⟩) (nil_sublist _) rfl
  | assign group after plan entries next hcontrol hfault hplan hassign hencode =>
    exact h.concat (inOrder_assign hplan hassign) rfl
  | _ => exact h

/-- The users of a group in the order of the queue, and its relocations likewise. -/
theorem Group.InOrder.fifo (h : g.InOrder) (user : Bool) :
    ((g.assigned.map fun e => e.request.slot).filter fun x => x.isUser = user).Sublist
      ((g.collected.map Request.slot).filter fun x => x.isUser = user) := by
  refine (List.Sublist.filter _ h).trans ?_
  rw [orderUserBeforeRelocation, map_append, filter_append, filter_map, filter_map,
    filter_map, filter_filter, filter_filter, ← map_append]
  refine List.Sublist.map _ ?_
  cases user with
  | true =>
    have hnone : (g.collected.filter fun r =>
        (fun x : Slot => decide (x.isUser = true)) (r.slot) && !r.isUser) = [] := by
      refine filter_eq_nil_iff.mpr fun r _ => ?_
      simp
    simp only [Function.comp_def] at hnone ⊢
    rw [hnone, append_nil]
    exact monotone_filter_right _ fun r => by simp
  | false =>
    have hnone : (g.collected.filter fun r =>
        (fun x : Slot => decide (x.isUser = false)) (r.slot) && r.isUser) = [] := by
      refine filter_eq_nil_iff.mpr fun r _ => ?_
      simp
    simp only [Function.comp_def] at hnone ⊢
    rw [hnone, nil_append]
    exact monotone_filter_right _ fun r => by simp

/-- The users come before the relocations. -/
theorem Group.InOrder.pairwise (h : g.InOrder) :
    (g.assigned.map fun e => e.request.slot).Pairwise fun a b => b.isUser = true → a.isUser = true := by
  refine List.Pairwise.sublist h ?_
  rw [orderUserBeforeRelocation, map_append, pairwise_append]
  refine ⟨?_, ?_, ?_⟩
  · refine pairwise_of_forall_mem_list fun a ha b _ _ => ?_
    obtain ⟨r, hr, rfl⟩ := mem_map.mp ha
    rw [Request.isUser_slot]
    exact (mem_filter.mp hr).2
  · refine pairwise_of_forall_mem_list fun a _ b hb huser => ?_
    obtain ⟨r, hr, rfl⟩ := mem_map.mp hb
    rw [Request.isUser_slot] at huser
    have := (mem_filter.mp hr).2
    simp only [huser, Bool.not_true, Bool.false_eq_true] at this
  · intro a ha b _ _
    obtain ⟨r, hr, rfl⟩ := mem_map.mp ha
    rw [Request.isUser_slot]
    exact (mem_filter.mp hr).2

end Ridstore.Commit
