import Ridstore.Commit.OutcomeSteps

/-
# Ridstore.Commit.OutcomeInvariant — the batches and the records of the log

The batches of requests that have no record on its way are in no record at all; these are all the unanswered
ones but those of the group that is appended, and of a group that is answered with success or with an unknown
outcome.  The writer makes a record durable before it answers the append with success, and poisons the log
before it answers the append of a staged record with an error.  So a batch that is reported as committed has
its descriptor in the durable part of the log, and one that is reported as failed has none and never gets one.
-/

namespace Ridstore.Commit

open RecordCodec (Descriptor)
open Function List
open RecordLog (Writer WriterConfig AppendRequest)
open Transaction (Batch Limits Prepared)

variable {config : Config} {limits : Limits} {log : WriterConfig} {s s' : Store} {w w' : Writer LogRecord} {job : Job}
  {system system' : System} {control : Control}

/-! ## §1 — The records on their way and in the log -/

/-- The batches that the records of some requests end. -/
def terminalsOf (items : List (AppendRequest LogRecord)) : List Nat := items.flatMap fun r => r.payload.terminals

/-- The descriptors of some requests. -/
def descriptorsOf (items : List (AppendRequest LogRecord)) : List Descriptor :=
  items.flatMap fun r => r.payload.descriptors

/-- The descriptor is in the durable part of the log. -/
def Durable (w : Writer LogRecord) (d : Descriptor) : Prop := ∃ r ∈ w.written.take w.durable, d ∈ r.payload.descriptors

/-- The group record that the coordinator waits for: it is the only one that may end the batches of the group,
and the response to the ticket is that of the record. -/
structure Awaited (w : Writer LogRecord) (base : Nat) (entries : List Entry) (ticket : Nat) : Prop where
  issued : ticket < w.issued
  exclusive : ∀ r ∈ w.items, r.ticket ≠ ticket → ∀ e ∈ accepted entries, ∀ batch, e.request.slot.kind = .commit batch →
    base + batch ∉ r.payload.terminals
  origin : (∃ r ∈ w.accepted, r.ticket = ticket ∧ r.sync = true ∧ r.payload = .group (descriptors entries)) ∨
    ticket ∉ w.accepted.map AppendRequest.ticket ∧ (ticket, .appended) ∉ w.responses

/-- **The group in the hands of the coordinator.** -/
structure Writing (s : Store) : Prop where
  idle : (∀ job after, s.system.coordinator.control ≠ .appending job after) → s.append = none
  unwritten : ∀ job after, s.system.coordinator.control = .appending job after → s.append = none →
    ∀ e ∈ accepted job.entries, ∀ batch, e.request.slot.kind = .commit batch →
      s.base + batch ∉ terminalsOf s.writer.items
  awaited : ∀ job after ticket, s.system.coordinator.control = .appending job after → s.append = some ticket →
    Awaited s.writer s.base job.entries ticket
  written : ∀ job after, s.system.coordinator.control = .publishing job after →
    ∀ d ∈ descriptors job.entries, Durable s.writer d
  successes : ∀ x ∈ s.system.coordinator.control.successes, Durable s.writer (x.1.descriptor x.2) ∧
    ∃ r, .request r ∈ s.system.accepted ∧ x.1 = r.applyCommitRedirects s.system.coordinator.redirects

/-- The first sequence that no record on its way has. -/
def Store.bound (s : Store) : Nat :=
  match s.system.coordinator.control with
  | .appending job _ => if s.append = none then s.system.coordinator.next else job.next
  | .publishing job _ => job.next
  | _ => s.system.coordinator.next

/-- **The commit sequences of the records.** -/
structure Numbering (s : Store) : Prop where
  nodup : ((descriptorsOf s.writer.items).map Descriptor.commitSeq).Nodup
  bound : s.system.coordinator.fault = none → ∀ d ∈ descriptorsOf s.writer.items, d.commitSeq < s.bound
  job : ∀ job, s.system.coordinator.control.job = some job → s.system.coordinator.fault = none ∧
    (accepted job.entries).map Entry.seq = List.range' s.system.coordinator.next (accepted job.entries).length ∧
    job.next = s.system.coordinator.next + (accepted job.entries).length

/-- A report is true of the log and stays so. -/
def Report.Holds (s : Store) : Report → Prop
  | .committed prepared redirects seq => Durable s.writer (committedDescriptor prepared redirects seq)
  | .failed batchID => batchID ∉ terminalsOf s.writer.items ∧ batchID ∉ s.aborts ∧
      ∀ n, batchID = s.base + n → (s.system.shared.batches n).state = .aborted

/-- **The batches and the log.** -/
structure Ended (s : Store) : Prop where
  ids : ∀ n, (s.system.shared.batches n).id = s.base + n
  known : ∀ r batch p, s.system.holds r → r.work = .commit batch p → p.batchID = s.base + batch
  once : (terminalsOf s.writer.items).Nodup
  fresh : ∀ n, (s.system.shared.batches n).untouched →
    s.base + n ∉ terminalsOf s.writer.items ∧ s.base + n ∉ s.aborts
  pending : s.aborts.Nodup
  aborts : ∀ id ∈ s.aborts, id ∉ terminalsOf s.writer.items ∧
    ∃ n, id = s.base + n ∧ (s.system.shared.batches n).state = .aborted
  clean : ∀ x ∈ s.system.unanswered, ∀ batch, x.kind = .commit batch →
    x ∉ s.system.coordinator.control.exposed → s.base + batch ∉ terminalsOf s.writer.items
  reports : ∀ report ∈ s.reports, report.Holds s

/-- **The invariant of the store.** -/
structure Recorded (config : Config) (s : Store) : Prop where
  tabled : Tabled config s.system
  writer : s.writer.Inv
  ended : Ended s
  writing : Writing s
  numbering : Numbering s

/-! ## §2 — The records move on -/

variable {items : List (AppendRequest LogRecord)}

theorem mem_terminalsOf {id : Nat} :
    id ∈ terminalsOf items ↔ ∃ r ∈ items, id ∈ r.payload.terminals := mem_flatMap

theorem mem_descriptorsOf {d : Descriptor} :
    d ∈ descriptorsOf items ↔ ∃ r ∈ items, d ∈ r.payload.descriptors := mem_flatMap

/-- What the writer leaves of the records. -/
structure Fewer (w w' : Writer LogRecord) : Prop where
  terminals : ∀ id ∈ terminalsOf w'.items, id ∈ terminalsOf w.items
  once : (terminalsOf w.items).Nodup → (terminalsOf w'.items).Nodup
  descriptors : ∀ d ∈ descriptorsOf w'.items, d ∈ descriptorsOf w.items
  nodup : ((descriptorsOf w.items).map Descriptor.commitSeq).Nodup →
    ((descriptorsOf w'.items).map Descriptor.commitSeq).Nodup
  durable : ∀ d, Durable w d → Durable w' d

theorem Fewer.of_perm (terminals : List Nat) (descriptors : List Descriptor)
    (hterminals : (terminalsOf w.items).Perm (terminalsOf w'.items ++ terminals))
    (hdescriptors : (descriptorsOf w.items).Perm (descriptorsOf w'.items ++ descriptors))
    (hdurable : ∀ d, Durable w d → Durable w' d) : Fewer w w' := by
  refine ⟨fun id hid => hterminals.mem_iff.mpr (mem_append_left _ hid), fun hnodup => ?_,
    fun d hd => hdescriptors.mem_iff.mpr (mem_append_left _ hd), fun hnodup => ?_, hdurable⟩
  · exact (nodup_append.mp (hterminals.nodup_iff.mp hnodup)).1
  · have hmap := (hdescriptors.map Descriptor.commitSeq).nodup_iff.mp hnodup
    rw [map_append] at hmap
    exact (nodup_append.mp hmap).1

theorem Fewer.of_advances (h : w.Advances w') : Fewer w w' := by
  obtain ⟨dropped, hperm⟩ := h.items
  have hterminals := hperm.flatMap_right fun r => r.payload.terminals
  have hdescriptors := hperm.flatMap_right fun r => r.payload.descriptors
  rw [flatMap_append] at hterminals hdescriptors
  exact .of_perm _ _ hterminals hdescriptors fun d ⟨r, hr, hd⟩ => ⟨r, h.mem_durable hr, hd⟩

/-- **The batches and the log after a step of the writer**, which may have got a record: the batches that it ends
are in no other one, have been given up or are committing, and were not reported as failed. -/
theorem Ended.moves (h : Ended s) {new aborts : List Nat} {append : Option Nat}
    (honce : (terminalsOf w'.items).Nodup)
    (hcases : ∀ id ∈ terminalsOf w'.items, id ∈ new ∨ id ∈ terminalsOf s.writer.items)
    (hdurable : ∀ d, Durable s.writer d → Durable w' d) (haborts : aborts.Sublist s.aborts)
    (hnew : ∀ id ∈ new, id ∉ aborts ∧ .failed id ∉ s.reports ∧ ∃ n, id = s.base + n ∧
      ¬ (s.system.shared.batches n).untouched ∧
      ∀ x ∈ s.system.unanswered, x.kind = .commit n → x ∈ s.system.coordinator.control.exposed) :
    Ended { s with writer := w', aborts := aborts, append := append } where
  ids := h.ids
  known := h.known
  once := honce
  fresh := by
    intro n hn
    refine ⟨fun hin => ?_, fun hin => (h.fresh n hn).2 (haborts.subset hin)⟩
    rcases hcases _ hin with hin | hold
    · obtain ⟨-, -, m, heq, hun, -⟩ := hnew _ hin
      exact hun (Nat.add_left_cancel heq ▸ hn)
    · exact (h.fresh n hn).1 hold
  pending := h.pending.sublist haborts
  aborts := by
    intro id hid
    obtain ⟨hclear, hended⟩ := h.aborts id (haborts.subset hid)
    exact ⟨fun hin => (hcases _ hin).elim (fun hin => (hnew _ hin).1 hid) hclear, hended⟩
  clean := by
    intro x hx batch hkind hout hin
    rcases hcases _ hin with hin | hold
    · obtain ⟨-, -, m, heq, -, hexposed⟩ := hnew _ hin
      exact hout (hexposed x hx (Nat.add_left_cancel heq ▸ hkind))
    · exact h.clean x hx batch hkind hout hold
  reports := by
    intro report hreport
    have hold := h.reports report hreport
    cases report with
    | committed => exact hdurable _ hold
    | failed batchID =>
      refine ⟨fun hin => ?_, fun hin => hold.2.1 (haborts.subset hin), hold.2.2⟩
      exact (hcases _ hin).elim (fun hin => (hnew _ hin).2.1 hreport) hold.1

/-- No record is new. -/
theorem Ended.fewer (h : Ended s) (hw : Fewer s.writer w') {aborts : List Nat} {append : Option Nat}
    (haborts : aborts.Sublist s.aborts) : Ended { s with writer := w', aborts := aborts, append := append } :=
  h.moves (hw.once h.once) (fun id hid => .inr (hw.terminals id hid)) hw.durable haborts
    fun _ hid => absurd hid not_mem_nil

theorem Numbering.fewer (h : Numbering s) (hw : Fewer s.writer w') : Numbering { s with writer := w' } where
  nodup := hw.nodup h.nodup
  bound := fun hfault d hd => h.bound hfault d (hw.descriptors d hd)
  job := h.job

variable {entries : List Entry}

theorem Awaited.advances {base ticket : Nat}
    (h : Awaited w base entries ticket) (hcore : w.Core) (hadv : w.Advances w') : Awaited w' base entries ticket where
  issued := hadv.issued ▸ h.issued
  exclusive := fun r hr => h.exclusive r (hadv.subset hr)
  origin := by
    rw [hadv.accepted]
    refine h.origin.imp_right fun ⟨hnone, hunanswered⟩ => ⟨hnone, fun hin => ?_⟩
    obtain ⟨new, hresponses, hright⟩ := hadv.responses
    rw [hresponses, mem_append] at hin
    rcases hin with hold | hnew
    · exact hunanswered hold
    · obtain ⟨r, hr, hticket, -⟩ := hright _ hnew
      have hticket' : r.ticket = ticket := hticket
      exact hnone (hticket' ▸ mem_map_of_mem (hcore.known r hr))

/-- A step of the writer, as far as the group in the hands of the coordinator is concerned. -/
theorem Writing.fewer (h : Writing s) (hw : Fewer s.writer w')
    (hawaited : ∀ entries ticket, Awaited s.writer s.base entries ticket → Awaited w' s.base entries ticket) :
    Writing { s with writer := w' } where
  idle := h.idle
  unwritten := fun job after hcontrol happend e he batch hkind hin =>
    h.unwritten job after hcontrol happend e he batch hkind (hw.terminals _ hin)
  awaited := fun job after ticket hcontrol happend => hawaited _ _ (h.awaited job after ticket hcontrol happend)
  written := fun job after hcontrol d hd => hw.durable d (h.written job after hcontrol d hd)
  successes := fun x hx => ⟨hw.durable _ (h.successes x hx).1, (h.successes x hx).2⟩

/-- The coordinator begins to wait for its record. -/
theorem Writing.awaiting (h : Writing s) {after : After} {ticket : Nat}
    (hcontrol : s.system.coordinator.control = .appending job after)
    (hdurable : ∀ d, Durable s.writer d → Durable w' d) (hawaited : Awaited w' s.base job.entries ticket) :
    Writing { s with writer := w', append := some ticket } where
  idle := fun hne => absurd hcontrol (hne job after)
  unwritten := fun _ _ _ hnone => (nomatch hnone)
  awaited := by
    intro job' after' ticket' hcontrol' hticket'
    have heq : Control.appending job after = .appending job' after' := hcontrol.symm.trans hcontrol'
    cases heq
    cases hticket'
    exact hawaited
  written := fun job after hcontrol d hd => hdurable d (h.written job after hcontrol d hd)
  successes := fun x hx => ⟨hdurable _ (h.successes x hx).1, (h.successes x hx).2⟩

theorem Store.bound_unappended {after : After} (hcontrol : s.system.coordinator.control = .appending job after)
    (happend : s.append = none) : s.bound = s.system.coordinator.next := by
  unfold Store.bound
  rw [hcontrol]
  exact if_pos happend

theorem Store.bound_appended {after : After} {ticket : Nat}
    (hcontrol : s.system.coordinator.control = .appending job after) (happend : s.append = some ticket) :
    s.bound = job.next := by
  unfold Store.bound
  rw [hcontrol]
  exact if_neg (happend ▸ Option.some_ne_none _)

/-- **A step of the writer.** -/
theorem Recorded.advance (h : Recorded config s) (hw : w'.Inv ∧ s.writer.Advances w') :
    Recorded config { s with writer := w' } :=
  have hfewer := Fewer.of_advances hw.2
  ⟨h.tabled, hw.1, h.ended.fewer hfewer (.refl _),
    h.writing.fewer hfewer fun _ _ ha => ha.advances h.writer.core hw.2, h.numbering.fewer hfewer⟩

/-! ## §3 — A record is handed over -/

section HandOver

variable {r : AppendRequest LogRecord}

theorem terminalsOf_handOver (h : (w.handOver r).items.Perm (r :: w.items)) :
    (terminalsOf (w.handOver r).items).Perm (r.payload.terminals ++ terminalsOf w.items) := by
  have hperm := h.flatMap_right fun x : AppendRequest LogRecord => x.payload.terminals
  rw [flatMap_cons] at hperm
  exact hperm

theorem descriptorsOf_handOver (h : (w.handOver r).items.Perm (r :: w.items)) :
    (descriptorsOf (w.handOver r).items).Perm (r.payload.descriptors ++ descriptorsOf w.items) := by
  have hperm := h.flatMap_right fun x : AppendRequest LogRecord => x.payload.descriptors
  rw [flatMap_cons] at hperm
  exact hperm

variable {base ticket : Nat}

/-- The awaited record and a new one that ends no batch of the group. -/
theorem Awaited.handOver
    (h : Awaited w base entries ticket) (hticket : r.ticket = w.issued) (hperm : (w.handOver r).items.Perm (r :: w.items))
    (hother : ∀ e ∈ accepted entries, ∀ batch, e.request.slot.kind = .commit batch → base + batch ∉ r.payload.terminals) :
    Awaited (w.handOver r) base entries ticket where
  issued := Nat.lt_succ_of_lt h.issued
  exclusive := by
    intro x hx hne
    rcases mem_cons.mp (hperm.mem_iff.mp hx) with rfl | hin
    · exact hother
    · exact h.exclusive x hin hne
  origin := by
    rcases h.origin with ⟨x, hx, hrest⟩ | ⟨hnone, hunanswered⟩
    · exact .inl ⟨x, mem_append_left _ hx, hrest⟩
    · refine .inr ⟨fun hin => ?_, hunanswered⟩
      obtain ⟨x, hx, heq⟩ := mem_map.mp hin
      rcases Lib.mem_snoc.mp hx with hold | hlast
      · exact hnone (heq ▸ mem_map_of_mem hold)
      · rw [hlast, hticket] at heq
        exact absurd h.issued (heq ▸ Nat.lt_irrefl _)

theorem Awaited.refuse (h : Awaited w base entries ticket) : Awaited w.refuse base entries ticket where
  issued := Nat.lt_succ_of_lt h.issued
  exclusive := h.exclusive
  origin := by
    refine h.origin.imp_right fun ⟨hnone, hunanswered⟩ => ⟨hnone, fun hin => ?_⟩
    rcases Lib.mem_snoc.mp hin with hold | hlast
    · exact hunanswered hold
    · exact absurd (congrArg Prod.snd hlast) nofun

variable {physical : Nat}

theorem accept_eq_some {payload : LogRecord} {sync : Bool}
    (h : w.accept log payload physical sync = some w') : w' = w.handOver ⟨w.issued, payload, physical, sync⟩ := by
  obtain ⟨-, heq⟩ := Option.ite_none_right_eq_some.mp h
  exact (Option.some.inj heq).symm

/-- Another record. -/
theorem Recorded.put (h : Recorded config s) {sync : Bool}
    (hs : s.writer.accept log .other physical sync = some w') : Recorded config { s with writer := w' } := by
  obtain rfl := accept_eq_some hs
  obtain ⟨hinv, hperm⟩ := h.writer.handOver (r := ⟨s.writer.issued, .other, physical, sync⟩) rfl
  have hfewer : Fewer s.writer (s.writer.handOver ⟨s.writer.issued, .other, physical, sync⟩) := by
    refine .of_perm [] [] ?_ ?_ fun _ hd => hd
    · rw [append_nil]
      exact (terminalsOf_handOver hperm).symm
    · rw [append_nil]
      exact (descriptorsOf_handOver hperm).symm
  exact ⟨h.tabled, hinv, h.ended.fewer hfewer (.refl _),
    h.writing.fewer hfewer fun _ _ ha => ha.handOver rfl hperm fun _ _ _ _ => not_mem_nil,
    h.numbering.fewer hfewer⟩

theorem Fewer.refuse : Fewer w w.refuse :=
  ⟨fun _ hid => hid, fun hnodup => hnodup, fun _ hd => hd, fun hnodup => hnodup, fun _ hd => hd⟩

theorem Recorded.refused (h : Recorded config s) : Recorded config { s with writer := s.writer.refuse } :=
  ⟨h.tabled, h.writer.refuse, h.ended.fewer .refuse (.refl _), h.writing.fewer .refuse fun _ _ ha => ha.refuse,
    h.numbering.fewer .refuse⟩

end HandOver

/-! ## §4 — The batches of a group -/

/-- The coordinator has the requests it writes in its hands. -/
theorem Control.job_held (hjob : control.job = some job) :
    List.Sublist (job.entries.map fun e => e.request.slot) control.held := by
  cases control with
  | appending | publishing =>
    cases hjob
    exact sublist_append_left _ _
  | _ => cases hjob

theorem Control.job_appending {after : After} (hcontrol : control = .appending job after) : control.job = some job := by
  rw [hcontrol]
  rfl

variable {e : Entry}

/-- A request that the coordinator writes is not answered yet. -/
theorem Recorded.entry_unanswered (hjob : s.system.coordinator.control.job = some job)
    (he : e ∈ job.entries) : e.request.slot ∈ s.system.unanswered :=
  mem_append_right _ (mem_append_right _ ((Control.job_held hjob).subset (mem_map_of_mem he)))

variable {batch : Nat}

theorem Recorded.entry_committing (h : Recorded config s)
    (hjob : s.system.coordinator.control.job = some job) (he : e ∈ job.entries)
    (hkind : e.request.slot.kind = .commit batch) : (s.system.shared.batches batch).state = .committing :=
  h.tabled.owned.committing _ (entry_unanswered hjob he) batch hkind

variable {p : Prepared}

/-- A redirected request keeps the identifier of its batch. -/
theorem redirected_batchID {r r₀ : Request} {table : Redirects} (heq : r = r₀.applyCommitRedirects table)
    (hwork : r.work = .commit batch p) : ∃ p₀, r₀.work = .commit batch p₀ ∧ p.batchID = p₀.batchID := by
  obtain ⟨ticket, work⟩ := r₀
  cases work with
  | commit batch₀ p₀ =>
    rw [heq] at hwork
    obtain ⟨rfl, rfl⟩ := hwork
    exact ⟨p₀, rfl, rfl⟩
  | relocation relocation =>
    rw [heq] at hwork
    cases hwork

theorem Recorded.entry_named (h : Recorded config s) (hjob : s.system.coordinator.control.job = some job)
    (he : e ∈ job.entries) (hwork : e.request.work = .commit batch p) : p.batchID = s.base + batch := by
  obtain ⟨r, hr, heq⟩ := h.tabled.redirected job hjob e he
  obtain ⟨p₀, hwork₀, hid⟩ := redirected_batchID heq hwork
  rw [hid]
  exact h.ended.known r batch p₀ (.inr hr) hwork₀

theorem mem_accepted (h : e ∈ accepted entries) : e ∈ entries :=
  (mem_filter.mp h).1

section

variable (h : Recorded config s)

include h

/-- A descriptor of the group that ends a batch is that of an accepted commit. -/
theorem Recorded.userCommit_batch (hjob : s.system.coordinator.control.job = some job) (he : e ∈ job.entries)
    (hkind : (e.request.descriptor e.seq).kind = .userCommit) :
    ∃ batch, e.request.slot.kind = .commit batch ∧ (e.request.descriptor e.seq).batchID = s.base + batch := by
  cases hwork : e.request.work with
  | commit batch p =>
    refine ⟨batch, by rw [Request.slot, hwork], ?_⟩
    rw [Request.descriptor, hwork]
    exact h.entry_named hjob he hwork
  | relocation relocation =>
    rw [Request.descriptor, hwork] at hkind
    cases hkind

/-- **The batches that a group record ends** are those of the accepted commits. -/
theorem Recorded.mem_terminals (hjob : s.system.coordinator.control.job = some job) {id : Nat}
    (hid : id ∈ LogRecord.terminals (.group (descriptors job.entries))) :
    ∃ e ∈ accepted job.entries, ∃ batch, e.request.slot.kind = .commit batch ∧ id = s.base + batch := by
  obtain ⟨d, hd, rfl⟩ := mem_map.mp hid
  obtain ⟨hin, hkind⟩ := mem_filter.mp hd
  obtain ⟨e, he, rfl⟩ := mem_map.mp hin
  exact ⟨e, he, h.userCommit_batch hjob (mem_accepted he) (of_decide_eq_true hkind)⟩

theorem Recorded.unanswered_slots {x : Slot} (hx : x ∈ s.system.unanswered) : x ∈ s.system.slots := by
  obtain ⟨taken, hflow⟩ := h.tabled.flow
  exact hflow.unanswered_slots hx

/-- A group record ends a batch once. -/
theorem Recorded.terminals_nodup (hjob : s.system.coordinator.control.job = some job) :
    (LogRecord.terminals (.group (descriptors job.entries))).Nodup := by
  obtain ⟨taken, hflow⟩ := h.tabled.flow
  have hslots : ((accepted job.entries).map fun e => e.request.slot).Nodup := by
    have hall := unanswered_nodup h.tabled.ticketed hflow
    refine hall.sublist ((filter_sublist.map _).trans ((Control.job_held hjob).trans ?_))
    exact (sublist_append_right _ _).trans (sublist_append_right _ _)
  have hentries : (accepted job.entries).Nodup := List.Nodup.of_map _ hslots
  show (((accepted job.entries).map fun e => e.request.descriptor e.seq).filter _ |>.map Descriptor.batchID).Nodup
  rw [filter_map, map_map]
  refine List.Nodup.map_on ?_ (hentries.filter _)
  intro e he e' he' heq
  -- entries with the same identifier are those of one batch, which has one request
  have hcommit : ∀ x ∈ (accepted job.entries).filter
      ((fun d : Descriptor => decide (d.kind = .userCommit)) ∘ fun e => e.request.descriptor e.seq),
      ∃ batch, x.request.slot.kind = .commit batch ∧ (x.request.descriptor x.seq).batchID = s.base + batch := by
    intro x hx
    obtain ⟨hin, hkind⟩ := mem_filter.mp hx
    exact h.userCommit_batch hjob (mem_accepted hin) (of_decide_eq_true hkind)
  obtain ⟨batch, hkind, hid⟩ := hcommit e he
  obtain ⟨batch', hkind', hid'⟩ := hcommit e' he'
  have hbatch : batch = batch' := by
    have hsame : (e.request.descriptor e.seq).batchID = (e'.request.descriptor e'.seq).batchID := heq
    rw [hid, hid'] at hsame
    exact Nat.add_left_cancel hsame
  have hmem : ∀ x ∈ accepted job.entries, x.request.slot ∈ s.system.slots := fun x hx =>
    h.unanswered_slots (entry_unanswered hjob (mem_accepted hx))
  have hslot := h.tabled.owned.unique _ (hmem e (mem_filter.mp he).1) _ (hmem e' (mem_filter.mp he').1) batch
    hkind (hbatch ▸ hkind')
  exact inj_on_of_nodup_map hslots (mem_filter.mp he).1 (mem_filter.mp he').1 hslot

/-- **The coordinator hands its group record over.** -/
theorem Recorded.appendGroup {physical : Nat} (hs : s.appendGroup log physical = some s') : Recorded config s' := by
  unfold Store.appendGroup at hs
  split at hs
  next job after hcontrol happend =>
    obtain ⟨w', hw', rfl⟩ := Option.map_eq_some_iff.mp hs
    obtain rfl := accept_eq_some hw'
    generalize hr : (⟨s.writer.issued, .group (descriptors job.entries), physical, true⟩ : AppendRequest LogRecord) = r
    have hticket : r.ticket = s.writer.issued := by rw [← hr]
    have hpayload : r.payload = .group (descriptors job.entries) := by rw [← hr]
    have hsync : r.sync = true := by rw [← hr]
    obtain ⟨hinv, hperm⟩ := h.writer.handOver hticket
    have hterminals := terminalsOf_handOver hperm
    have hdescriptors := descriptorsOf_handOver hperm
    rw [hpayload] at hterminals hdescriptors
    have hjob := Control.job_appending hcontrol
    obtain ⟨hfault, hseqs, hnext⟩ := h.numbering.job job hjob
    -- the batches of the group are committing, so that they are none of the others
    refine ⟨h.tabled, hinv, h.ended.moves ?_ (fun id hid => mem_append.mp (hterminals.mem_iff.mp hid)) (fun _ hd => hd)
      (.refl _) fun id hid => ?_, h.writing.awaiting hcontrol (fun _ hd => hd) ?_, ?_⟩
    · rw [hterminals.nodup_iff]
      refine nodup_append.mpr ⟨h.terminals_nodup hjob, h.ended.once, fun a ha b hb heq => ?_⟩
      subst heq
      obtain ⟨e, he, batch, hkind, rfl⟩ := h.mem_terminals hjob ha
      exact h.writing.unwritten job after hcontrol happend e he batch hkind hb
    · obtain ⟨e, he, batch, hkind, rfl⟩ := h.mem_terminals hjob hid
      have hstate := h.entry_committing hjob (mem_accepted he) hkind
      refine ⟨fun hin => ?_, fun hin => ?_, batch, rfl, ?_, fun x hx hkind' => ?_⟩
      · obtain ⟨-, n, heq, haborted⟩ := h.ended.aborts _ hin
        rw [← Nat.add_left_cancel heq, hstate] at haborted
        cases haborted
      · have haborted := (h.ended.reports _ hin).2.2 batch rfl
        rw [hstate] at haborted
        cases haborted
      · rintro (hun | hun) <;> rw [hstate] at hun <;> cases hun
      · have hsame := h.tabled.owned.unique _ (h.unanswered_slots hx) _
          (h.unanswered_slots (entry_unanswered hjob (mem_accepted he))) batch hkind' hkind
        rw [hcontrol, hsame]
        exact mem_map_of_mem he
    · refine ⟨Nat.lt_succ_self _, fun x hx hne e he batch hkind hin => ?_, .inl ⟨r, ?_, hticket, hsync, hpayload⟩⟩
      · rcases mem_cons.mp (hperm.mem_iff.mp hx) with rfl | hold
        · exact hne hticket
        · exact h.writing.unwritten job after hcontrol happend e he batch hkind (mem_terminalsOf.mpr ⟨x, hold, hin⟩)
      · exact mem_append_right _ mem_cons_self
    · have hbound := h.numbering.bound hfault
      have hbefore := Store.bound_unappended hcontrol happend
      have hmap : (descriptors job.entries).map Descriptor.commitSeq =
          List.range' s.system.coordinator.next (accepted job.entries).length := by
        rw [← hseqs, descriptors, map_map]
        refine map_congr_left fun e _ => ?_
        simp only [comp_apply, Request.descriptor]
        split <;> rfl
      refine ⟨?_, fun _ d hd => ?_, h.numbering.job⟩
      · rw [(hdescriptors.map Descriptor.commitSeq).nodup_iff, map_append]
        refine nodup_append.mpr ⟨?_, h.numbering.nodup, fun a ha b hb heq => ?_⟩
        · show ((descriptors job.entries).map Descriptor.commitSeq).Nodup
          rw [hmap]
          exact nodup_range'
        · have ha' : a ∈ (descriptors job.entries).map Descriptor.commitSeq := ha
          rw [hmap, mem_range'_1] at ha'
          obtain ⟨d, hd, rfl⟩ := mem_map.mp hb
          have hlt := hbound d hd
          omega
      · rw [Store.bound_appended (s := { s with writer := _, append := some _ }) hcontrol rfl, hnext]
        rcases mem_append.mp (hdescriptors.mem_iff.mp hd) with hnew | hold
        · have hin : d.commitSeq ∈ (descriptors job.entries).map Descriptor.commitSeq := mem_map_of_mem hnew
          rw [hmap, mem_range'_1] at hin
          exact hin.2
        · have hlt := hbound d hold
          omega
  next => cases hs

/-- The append of the coordinator is refused. -/
theorem Recorded.refuseGroup (hs : s.refuseGroup = some s') : Recorded config s' := by
  unfold Store.refuseGroup at hs
  split at hs
  next job after hcontrol happend =>
    cases hs
    have hjob := Control.job_appending hcontrol
    refine ⟨h.tabled, h.writer.refuse, h.ended.fewer .refuse (.refl _),
      h.writing.awaiting hcontrol (fun _ hd => hd) ?_, ?_⟩
    · refine ⟨Nat.lt_succ_self _, fun x hx _ e he batch hkind hin => ?_, .inr ⟨fun hin => ?_, fun hin => ?_⟩⟩
      · exact h.writing.unwritten job after hcontrol happend e he batch hkind (mem_terminalsOf.mpr ⟨x, hx, hin⟩)
      · obtain ⟨x, hx, heq⟩ := mem_map.mp hin
        exact absurd (h.writer.core.acceptedIssued x hx) (heq ▸ Nat.lt_irrefl _)
      · rcases Lib.mem_snoc.mp hin with hold | hlast
        · exact absurd (h.writer.core.answeredIssued _ hold) (Nat.lt_irrefl _)
        · exact absurd (congrArg Prod.snd hlast) nofun
    · refine ⟨h.numbering.nodup, fun hfault d hd => ?_, h.numbering.job⟩
      rw [Store.bound_appended (s := { s with writer := _, append := some _ }) hcontrol rfl, (h.numbering.job job hjob).2.2]
      exact Nat.lt_add_right _ (Store.bound_unappended hcontrol happend ▸ h.numbering.bound hfault d hd)
  next => cases hs

/-- **An abort record is handed over.** -/
theorem Recorded.abortAppend {batchID physical : Nat}
    (hs : s.abortAppend log batchID physical = some s') : Recorded config s' := by
  obtain ⟨hmem, hmap⟩ := Option.ite_none_right_eq_some.mp hs
  obtain ⟨w', hw', rfl⟩ := Option.map_eq_some_iff.mp hmap
  obtain rfl := accept_eq_some hw'
  obtain ⟨hinv, hperm⟩ := h.writer.handOver (r := ⟨s.writer.issued, .abort batchID, physical, false⟩) rfl
  obtain ⟨hclear, m, hid, hstate⟩ := h.ended.aborts batchID hmem
  have hterminals := terminalsOf_handOver hperm
  have hdescriptors := descriptorsOf_handOver hperm
  have hcases : ∀ id ∈ terminalsOf (s.writer.handOver ⟨s.writer.issued, .abort batchID, physical, false⟩).items,
      id ∈ [batchID] ∨ id ∈ terminalsOf s.writer.items := fun id hin =>
    mem_append.mp (hterminals.mem_iff.mp hin)
  have hcommitting : ∀ x ∈ s.system.unanswered, ∀ batch, x.kind = .commit batch → s.base + batch ≠ batchID := by
    intro x hx batch hkind heq
    have hcommit := h.tabled.owned.committing x hx batch hkind
    rw [Nat.add_left_cancel (heq.trans hid), hstate] at hcommit
    cases hcommit
  refine ⟨h.tabled, hinv, h.ended.moves ?_ hcases (fun _ hd => hd) erase_sublist fun id hin => ?_, ?_, ?_⟩
  · rw [hterminals.nodup_iff]
    exact nodup_cons.mpr ⟨hclear, h.ended.once⟩
  · obtain rfl := mem_singleton.mp hin
    refine ⟨h.ended.pending.not_mem_erase, fun hin => (h.ended.reports _ hin).2.1 hmem, m, hid, ?_, fun x hx hkind => ?_⟩
    · rintro (hun | hun) <;> rw [hstate] at hun <;> cases hun
    · exact absurd hid.symm (hcommitting x hx m hkind)
  · refine ⟨h.writing.idle, fun job after hcontrol happend e he batch hkind hin => ?_,
      fun job after ticket hcontrol happend => ?_, h.writing.written, h.writing.successes⟩
    · have hjob := Control.job_appending hcontrol
      rcases hcases _ hin with heq | hold
      · exact hcommitting _ (entry_unanswered hjob (mem_accepted he)) batch hkind (mem_singleton.mp heq)
      · exact h.writing.unwritten job after hcontrol happend e he batch hkind hold
    · have hjob := Control.job_appending hcontrol
      refine (h.writing.awaited job after ticket hcontrol happend).handOver rfl hperm fun e he batch hkind hin => ?_
      exact hcommitting _ (entry_unanswered hjob (mem_accepted he)) batch hkind (mem_singleton.mp hin)
  · refine ⟨?_, fun hfault d hd => ?_, h.numbering.job⟩
    · rw [(hdescriptors.map Descriptor.commitSeq).nodup_iff]
      exact h.numbering.nodup
    · exact h.numbering.bound hfault d (hdescriptors.mem_iff.mp hd)

theorem Recorded.abortRefused {batchID : Nat} (hs : s.abortRefused batchID = some s') : Recorded config s' := by
  obtain ⟨-, rfl⟩ := Lib.when_eq_some hs
  exact ⟨h.tabled, h.writer.refuse, h.ended.fewer .refuse erase_sublist, { h.refused.writing with },
    { h.refused.numbering with }⟩

end

/-! ## §5 — The callers -/

/-- The requests whose descriptor may be in the log are in the hands of the coordinator. -/
theorem Control.exposed_held {x : Slot} (h : x ∈ control.exposed) : x ∈ control.held := by
  cases control with
  | appending | publishing =>
    obtain ⟨e, he, rfl⟩ := mem_map.mp h
    exact mem_append_left _ (mem_map_of_mem (mem_accepted he))
  | completing todo after =>
    obtain ⟨p, hp, rfl⟩ := mem_map.mp h
    exact mem_append_left _ (mem_map_of_mem (mem_filter.mp hp).1)
  | _ => exact absurd h not_mem_nil

/-- An `Abort` that ends a batch. -/
theorem abortedBy_cases (system : System) (a : Action) :
    system.abortedBy a = [] ∨ ∃ batch, a = .call batch .abort ∧ (system.shared.batches batch).untouched ∧
      system.abortedBy a = [(system.shared.batches batch).id] := by
  unfold System.abortedBy
  split
  next batch =>
    split
    next hstate => exact .inr ⟨batch, rfl, hstate, rfl⟩
    next => exact .inl rfl
  next => exact .inl rfl

/-- A `Submit` that gives up after `Prepare`. -/
theorem withdrawnBy_cases (system : System) (a : Action) :
    system.withdrawnBy a = [] ∨ ∃ ticket batch p, a = .withdraw ticket ∧
      system.admission ticket = some (.ready ⟨ticket, .commit batch p⟩) ∧
      system.withdrawnBy a = [.failed p.batchID] := by
  unfold System.withdrawnBy
  split
  next ticket =>
    split
    next t batch p hadmission =>
      obtain ⟨-, ht⟩ := System.admission_eq_some hadmission
      obtain rfl : t = ticket := ht
      exact .inr ⟨t, batch, p, rfl, hadmission, rfl⟩
    next => exact .inl rfl
  next => exact .inl rfl

/-- A batch that has ended stays as it is. -/
theorem BatchStep.aborted {b b' : Batch} (h : BatchStep b b') (hstate : b.state = .aborted) : b'.state = .aborted := by
  have hne : ¬ b.untouched := by
    rintro (ho | hf)
    · rw [hstate] at ho
      cases ho
    · rw [hstate] at hf
      cases hf
  rcases h.ended hne with rfl | ⟨hcommitting, -⟩
  · exact hstate
  · rw [hstate] at hcommitting
    cases hcommitting

/-- The abort leaves its batch in the aborted state. -/
theorem abort_state (hun : (system.shared.batches batch).untouched)
    (hs : system.act config limits (.call batch .abort) = some system') :
    (system'.shared.batches batch).state = .aborted := by
  cases hs
  show (update system.shared.batches batch _ batch).state = .aborted
  rw [update_self]
  show (system.shared.batches batch).abort.1.state = .aborted
  unfold Batch.abort
  split
  · rfl
  · exact absurd hun (by assumption)

theorem withdraw_state {ticket batch : Nat}
    (hadmission : system.admission ticket = some (.ready ⟨ticket, .commit batch p⟩))
    (hcommitting : (system.shared.batches batch).state = .committing)
    (hs : system.act config limits (.withdraw ticket) = some system') :
    (system'.shared.batches batch).state = .aborted := by
  have hs' : system.withdraw ticket = some system' := hs
  rw [System.withdraw, hadmission] at hs'
  obtain rfl := Option.some.inj hs'
  show (update system.shared.batches batch _ batch).state = .aborted
  rw [update_self, Batch.markAborted, Batch.markTerminal_of_committing hcommitting]
  rfl

/-- **A step of the callers.** -/
theorem Recorded.act (h : Recorded config s) {a : Action} (hs : s.act config limits a = some s') :
    Recorded config s' := by
  obtain ⟨system', hsystem, rfl⟩ := Option.map_eq_some_iff.mp hs
  have hact : s.system.Acts config limits system' := System.act_cases hsystem
  obtain ⟨new, hframed⟩ := hact.framed
  obtain ⟨hnext, hfault, hredirects, -⟩ := hact.coordinator
  have hstep := hact.batchStep
  -- the batch of a new abort was open
  have haborted : ∀ id ∈ s.system.abortedBy a, ∃ batch, id = s.base + batch ∧
      (s.system.shared.batches batch).untouched ∧ (system'.shared.batches batch).state = .aborted ∧
      s.system.abortedBy a = [id] := by
    intro id hid
    rcases abortedBy_cases s.system a with hnone | ⟨batch, rfl, hun, heq⟩
    · rw [hnone] at hid
      exact absurd hid not_mem_nil
    · rw [heq] at hid
      obtain rfl := mem_singleton.mp hid
      exact ⟨batch, h.ended.ids batch, hun, abort_state hun hsystem, heq⟩
  have hkeep : ∀ n, (s.system.shared.batches n).state = .aborted → s.base + n ∉ s.system.abortedBy a := by
    intro n hn hin
    obtain ⟨batch, heq, hun, -⟩ := haborted _ hin
    obtain rfl := Nat.add_left_cancel heq
    rcases hun with hun | hun <;> rw [hn] at hun <;> cases hun
  refine ⟨h.tabled.act hact, h.writer, ⟨?_, ?_, h.ended.once, ?_, ?_, ?_, ?_, ?_⟩, ?_, ?_⟩
  · exact fun n => (hstep n).id.trans (h.ended.ids n)
  · intro r batch p hr hwork
    rcases hact.holds hr hwork with hold | heq
    · exact h.ended.known r batch p hold hwork
    · rw [heq]
      exact h.ended.ids batch
  · intro n hn
    obtain ⟨hclear, hnot⟩ := h.ended.fresh n ((hstep n).untouched hn)
    refine ⟨hclear, fun hin => ?_⟩
    rcases mem_append.mp hin with hold | hnew
    · exact hnot hold
    · obtain ⟨batch, heq, -, hstate, -⟩ := haborted _ hnew
      obtain rfl := Nat.add_left_cancel heq
      rcases hn with hn | hn <;> rw [hstate] at hn <;> cases hn
  · refine nodup_append.mpr ⟨h.ended.pending, ?_, fun x hx y hy heq => ?_⟩
    · rcases abortedBy_cases s.system a with hnone | ⟨batch, -, -, heq⟩
      · rw [hnone]
        exact nodup_nil
      · rw [heq]
        exact nodup_singleton _
    · obtain ⟨batch, hid, hun, -⟩ := haborted _ hy
      rw [heq, hid] at hx
      exact (h.ended.fresh batch hun).2 hx
  · intro id hid
    rcases mem_append.mp hid with hold | hnew
    · obtain ⟨hclear, n, rfl, hstate⟩ := h.ended.aborts id hold
      exact ⟨hclear, n, rfl, (hstep n).aborted hstate⟩
    · obtain ⟨batch, rfl, hun, hstate, -⟩ := haborted _ hnew
      exact ⟨(h.ended.fresh batch hun).1, batch, rfl, hstate⟩
  · intro x hx batch hkind hout
    rcases hact.unanswered hx hkind with hold | hopen
    · refine h.ended.clean x hold batch hkind fun hin => hout ?_
      rw [hframed.control]
      exact hin
    · exact (h.ended.fresh batch (.inl hopen)).1
  · intro report hreport
    rcases mem_append.mp hreport with hold | hnew
    · have hholds := h.ended.reports report hold
      cases report with
      | committed => exact hholds
      | failed batchID =>
        obtain ⟨hclear, hnot, hstate⟩ := hholds
        refine ⟨hclear, fun hin => ?_, fun n hn => (hstep n).aborted (hstate n hn)⟩
        rcases mem_append.mp hin with hin | hin
        · exact hnot hin
        · obtain ⟨batch, rfl, -⟩ := haborted _ hin
          exact hkeep batch (hstate batch rfl) hin
    · -- a `Submit` that gives up: its request has not reached the coordinator
      rcases withdrawnBy_cases s.system a with hnone | ⟨ticket, batch, p, rfl, hadmission, heq⟩
      · rw [hnone] at hnew
        exact absurd hnew not_mem_nil
      rw [heq] at hnew
      obtain rfl := mem_singleton.mp hnew
      obtain ⟨hmem, -⟩ := System.admission_eq_some hadmission
      have hid : p.batchID = s.base + batch := h.ended.known _ batch p (.inl hmem) rfl
      have hready : (⟨ticket, .commit batch⟩ : Slot) ∈ s.system.admitting.filterMap Admission.slot :=
        mem_readySlots.mpr ⟨_, hmem, rfl⟩
      have hcommitting := h.tabled.owned.committing _ (mem_append_left _ hready) batch rfl
      refine ⟨?_, ?_, fun n hn => ?_⟩
      · rw [hid]
        refine h.ended.clean _ (mem_append_left _ hready) batch rfl fun hin => ?_
        obtain ⟨taken, hflow⟩ := h.tabled.flow
        have hnodup := unanswered_nodup h.tabled.ticketed hflow
        exact (nodup_append.mp hnodup).2.2 _ hready _
          (mem_append_right _ (Control.exposed_held hin)) rfl
      · intro hin
        rcases mem_append.mp hin with hin | hin
        · obtain ⟨-, n, heq, hstate⟩ := h.ended.aborts _ hin
          rw [hid] at heq
          rw [← Nat.add_left_cancel heq, hcommitting] at hstate
          cases hstate
        · exact absurd hin not_mem_nil
      · rw [hid] at hn
        rw [← Nat.add_left_cancel hn]
        exact withdraw_state hadmission hcommitting hsystem
  · refine ⟨?_, ?_, ?_, ?_, ?_⟩
    · intro hne
      refine h.writing.idle fun job after hcontrol => hne job after ?_
      exact hframed.control.trans hcontrol
    · exact fun job after hcontrol => h.writing.unwritten job after (hframed.control.symm.trans hcontrol)
    · exact fun job after ticket hcontrol => h.writing.awaited job after ticket (hframed.control.symm.trans hcontrol)
    · exact fun job after hcontrol => h.writing.written job after (hframed.control.symm.trans hcontrol)
    · intro x hx
      have hx' : x ∈ system'.coordinator.control.successes := hx
      rw [hframed.control] at hx'
      obtain ⟨hdurable, r, hr, heq⟩ := h.writing.successes x hx'
      refine ⟨hdurable, r, ?_, by rw [heq, ← hredirects]⟩
      rw [hframed.accepted]
      exact mem_append_left _ hr
  · have hbound : Store.bound { s with
        system := system', aborts := s.aborts ++ s.system.abortedBy a
        reports := s.reports ++ s.system.withdrawnBy a } = s.bound := by
      unfold Store.bound
      rw [hframed.control, hnext]
    refine ⟨h.numbering.nodup, fun hnone d hd => ?_, fun job hjob => ?_⟩
    · rw [hbound]
      exact h.numbering.bound (hfault.symm.trans hnone) d hd
    · have hjob' : system'.coordinator.control.job = some job := hjob
      rw [hframed.control] at hjob'
      obtain ⟨hnone, hseqs, hlast⟩ := h.numbering.job job hjob'
      refine ⟨hfault.trans hnone, ?_, ?_⟩
      · rw [hnext]
        exact hseqs
      · rw [hnext]
        exact hlast

end Ridstore.Commit
