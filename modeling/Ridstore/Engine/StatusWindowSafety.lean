import Ridstore.Engine.StatusWindow

/-
# Ridstore.Engine.StatusWindowSafety — replay has room for the statuses

A snapshot of the store — the installed manifest, or the one a checkpoint is about to install — is covered
when each of its open batches and each batch with a record behind its replay start holds a slot or is among
the ended batches that are still counted.  Every step that is not one of the checkpoint's own only lets
batches move from the slots to the ended ones, adds records of batches that hold a slot, or takes back a slot
that has never been open.  The one exception is a batch whose `finish` overtakes its own abort record, or
falls between the marker and the snapshot with its record behind the marker: then the record is behind the
replay start although the batch is not counted any more.
-/

namespace Ridstore.Engine.StatusWindow

open Replay (LogRecord ends ends_append ends_cons)
open List
open State (holders)

variable {config : Config} {s t : State} {batch cut replayStart : Nat} {opens : List Nat} {id : Nat}

/-! ## §1 — The batches of the store -/

/-- **The batches**: nothing is begun twice, a batch has at most one record, none before it has ended, and an
abort that is still to append its record holds its slot. -/
structure Held (s : State) : Prop where
  nodup : (s.holders ++ s.finished).Nodup
  issued : ∀ id ∈ s.holders ++ s.finished, 0 < id ∧ id < s.issued
  positive : 0 < s.issued
  once : (ends s.log).Nodup
  written : ∀ id ∈ ends s.log, 0 < id ∧ id < s.issued
  silent : ∀ p ∈ s.slots, p.2 ≠ .ended → p.1 ∉ ends s.log
  pending : s.aborts.Nodup
  aborting : ∀ id ∈ s.aborts, (id, Phase.ended) ∈ s.slots ∧ id ∉ ends s.log

theorem mem_holders : id ∈ s.holders ↔ ∃ phase, (id, phase) ∈ s.slots := by
  rw [holders, mem_map]
  constructor
  · rintro ⟨⟨id', phase⟩, hp, rfl⟩
    exact ⟨phase, hp⟩
  · rintro ⟨phase, hp⟩
    exact ⟨_, hp, rfl⟩

@[simp] theorem holders_setPhase (batches : List Nat) (phase : Phase) :
    (s.setPhase batches phase).holders = s.holders := by
  show List.map _ (List.map _ s.slots) = _
  rw [map_map]
  refine map_congr_left fun p _ => ?_
  show Prod.fst (if p.1 ∈ batches then (p.1, phase) else p) = p.1
  split <;> rfl

variable {batches : List Nat} {phase : Phase} {p : Nat × Phase}

theorem mem_setPhase (hp : p ∈ (s.setPhase batches phase).slots) :
    (p ∈ s.slots ∧ p.1 ∉ batches) ∨ (p.1 ∈ batches ∧ p.2 = phase ∧ ∃ old, (p.1, old) ∈ s.slots) := by
  obtain ⟨q, hq, rfl⟩ := mem_map.mp hp
  split
  next hin => exact .inr ⟨hin, rfl, q.2, hq⟩
  next hout => exact .inl ⟨hq, hout⟩

theorem setPhase_of_mem {phase old : Phase} (hid : (id, old) ∈ s.slots)
    (hin : id ∈ batches) : (id, phase) ∈ (s.setPhase batches phase).slots :=
  mem_map.mpr ⟨_, hid, if_pos hin⟩

theorem setPhase_of_not_mem (hp : p ∈ s.slots) (hout : p.1 ∉ batches) : p ∈ (s.setPhase batches phase).slots :=
  mem_map.mpr ⟨p, hp, if_neg hout⟩

theorem mem_dropSlot : p ∈ (s.dropSlot batch).slots ↔ p ∈ s.slots ∧ p.1 ≠ batch := by
  show p ∈ List.filter _ _ ↔ _
  rw [mem_filter, decide_eq_true_eq]

theorem holders_dropSlot : (s.dropSlot batch).holders = s.holders.filter fun id => id ≠ batch := by
  show List.map _ (List.filter _ _) = List.filter _ (List.map _ _)
  rw [filter_map]
  rfl

theorem mem_holders_dropSlot : id ∈ (s.dropSlot batch).holders ↔ id ∈ s.holders ∧ id ≠ batch := by
  rw [holders_dropSlot, mem_filter, decide_eq_true_eq]

namespace Held

section

variable (h : Held s)

include h

/-- A batch has one phase. -/
theorem phase_unique {p : Nat × Phase} {phase : Phase} (hp : p ∈ s.slots) (hp' : (p.1, phase) ∈ s.slots) : p.2 = phase := by
  have hnodup : (s.slots.map Prod.fst).Nodup := (nodup_append.mp h.nodup).1
  exact congrArg Prod.snd (inj_on_of_nodup_map hnodup hp hp' rfl)

theorem setPhase (batches : List Nat) (phase : Phase)
    (hfrom : ∀ p ∈ s.slots, p.1 ∈ batches → p.2 ≠ .ended) : Held (s.setPhase batches phase) where
  nodup := by rw [holders_setPhase]; exact h.nodup
  issued := by rw [holders_setPhase]; exact h.issued
  positive := h.positive
  once := h.once
  written := h.written
  silent := by
    intro p hp hphase
    rcases mem_setPhase hp with ⟨hold, -⟩ | ⟨hin, -, old, hold⟩
    · exact h.silent p hold hphase
    · exact h.silent (p.1, old) hold (hfrom _ hold hin)
  pending := h.pending
  aborting := by
    intro id hid
    obtain ⟨hended, hlog⟩ := h.aborting id hid
    exact ⟨setPhase_of_not_mem hended fun hin => hfrom _ hended hin rfl, hlog⟩

/-- A record of batches that have ended without one. -/
theorem append (record : LogRecord) (hnodup : record.ends.Nodup)
    (hended : ∀ id ∈ record.ends, (id, Phase.ended) ∈ s.slots)
    (hnew : ∀ id ∈ record.ends, id ∉ ends s.log ∧ id ∉ s.aborts) : Held { s with log := s.log ++ [record] } := by
  have hends : ends (s.log ++ [record]) = ends s.log ++ record.ends := by simp [ends]
  have hholds : ∀ id ∈ record.ends, id ∈ s.holders := fun id hid => mem_holders.mpr ⟨_, hended id hid⟩
  refine { h with once := ?_, written := ?_, silent := ?_, aborting := ?_ }
  · show (ends (s.log ++ [record])).Nodup
    rw [hends]
    refine nodup_append.mpr ⟨h.once, hnodup, fun a ha b hb heq => ?_⟩
    exact (hnew b hb).1 (heq ▸ ha)
  · intro id hid
    rw [show ends _ = _ from hends, mem_append] at hid
    rcases hid with hold | hrec
    · exact h.written id hold
    · exact h.issued id (mem_append_left _ (hholds id hrec))
  · intro p hp hphase hmem
    rw [show ends _ = _ from hends, mem_append] at hmem
    rcases hmem with hold | hrec
    · exact h.silent p hp hphase hold
    · exact hphase (h.phase_unique hp (hended _ hrec))
  · intro id hid
    refine ⟨(h.aborting id hid).1, fun hmem => ?_⟩
    rw [show ends _ = _ from hends, mem_append] at hmem
    rcases hmem with hold | hrec
    · exact (h.aborting id hid).2 hold
    · exact (hnew id hrec).2 hid

theorem appendOther : Held { s with log := s.log ++ [.other] } :=
  h.append .other nodup_nil (fun _ hid => absurd hid not_mem_nil) fun _ hid =>
    absurd hid not_mem_nil

theorem begin : Held { s with issued := s.issued + 1, slots := s.slots ++ [(s.issued, .beginning)] } := by
  have hholders : ∀ id, id ∈ (s.slots ++ [(s.issued, Phase.beginning)]).map Prod.fst ++ s.finished ↔
      id ∈ s.holders ++ s.finished ∨ id = s.issued := by
    intro id
    simp only [holders, map_append, map_cons, map_nil, mem_append, mem_singleton]
    tauto
  refine { h with nodup := ?_, issued := ?_, positive := Nat.succ_pos _, written := ?_, silent := ?_
                  aborting := ?_ }
  · show ((s.slots ++ [(s.issued, Phase.beginning)]).map Prod.fst ++ s.finished).Nodup
    rw [map_append, append_assoc]
    refine (perm_append_comm_assoc _ _ _).nodup_iff.mpr (nodup_cons.mpr ⟨fun hin => ?_, h.nodup⟩)
    exact absurd (h.issued _ hin).2 (Nat.lt_irrefl _)
  · intro id hid
    rcases (hholders id).mp hid with hold | rfl
    · exact ⟨(h.issued id hold).1, Nat.lt_succ_of_lt (h.issued id hold).2⟩
    · exact ⟨h.positive, Nat.lt_succ_self _⟩
  · intro id hid
    exact ⟨(h.written id hid).1, Nat.lt_succ_of_lt (h.written id hid).2⟩
  · intro p hp hphase
    rcases Lib.mem_snoc.mp hp with hold | rfl
    · exact h.silent p hold hphase
    · exact fun hin => absurd (h.written _ hin).2 (Nat.lt_irrefl _)
  · intro id hid
    exact ⟨mem_append_left _ (h.aborting id hid).1, (h.aborting id hid).2⟩

/-- A batch leaves its slot, as an ended one or not. -/
theorem dropSlot (hpending : batch ∉ s.aborts) : Held (s.dropSlot batch) where
  nodup := by
    rw [holders_dropSlot]
    exact h.nodup.sublist (filter_sublist.append_right _)
  issued := by
    intro id hid
    refine h.issued id ?_
    rcases mem_append.mp hid with hin | hin
    · exact mem_append_left _ (mem_holders_dropSlot.mp hin).1
    · exact mem_append_right _ hin
  positive := h.positive
  once := h.once
  written := h.written
  silent := fun p hp => h.silent p (mem_dropSlot.mp hp).1
  pending := h.pending
  aborting := by
    intro id hid
    refine ⟨mem_dropSlot.mpr ⟨(h.aborting id hid).1, ?_⟩, (h.aborting id hid).2⟩
    rintro rfl
    exact hpending hid

/-- A batch that has left its slot is among the ended ones. -/
theorem retire (hbatch : batch ∈ s.holders) (hpending : batch ∉ s.aborts) :
    Held { s.dropSlot batch with finished := s.finished ++ [batch] } := by
  have hdrop := h.dropSlot hpending
  refine { hdrop with nodup := ?_, issued := ?_ }
  · show ((s.dropSlot batch).holders ++ (s.finished ++ [batch])).Nodup
    rw [← append_assoc]
    refine Lib.nodup_snoc hdrop.nodup fun hmem => ?_
    rcases mem_append.mp hmem with hin | hin
    · exact (mem_holders_dropSlot.mp hin).2 rfl
    · exact (nodup_append.mp h.nodup).2.2 batch hbatch batch hin rfl
  · intro id hid
    have hid' : id ∈ ((s.dropSlot batch).holders ++ s.finished) ++ [batch] := by
      rw [append_assoc]
      exact hid
    rcases Lib.mem_snoc.mp hid' with hold | rfl
    · exact hdrop.issued id hold
    · exact h.issued _ (mem_append_left _ hbatch)

/-- An ended batch without a record is to append it. -/
theorem addAbort (hended : (batch, Phase.ended) ∈ s.slots) (hlog : batch ∉ ends s.log)
    (hnew : batch ∉ s.aborts) : Held { s with aborts := s.aborts ++ [batch] } := by
  refine { h with pending := Lib.nodup_snoc h.pending hnew, aborting := fun id hid => ?_ }
  rcases Lib.mem_snoc.mp hid with hold | rfl
  · exact h.aborting id hold
  · exact ⟨hended, hlog⟩

theorem eraseAbort (batch : Nat) : Held { s with aborts := s.aborts.erase batch } :=
  { h with
    pending := h.pending.erase batch
    aborting := fun id hid => h.aborting id (mem_of_mem_erase hid) }

end

end Held

/-! ## §2 — Snapshots -/

/-- **A snapshot is covered**: each of its open batches and each batch with a record behind its replay start
holds a slot or has ended after the cut. -/
structure Snapshot (s : State) (replayStart : Nat) (opens : List Nat) (cut : Nat) : Prop where
  durable : replayStart ≤ s.durable
  nodup : opens.Nodup
  issued : ∀ id ∈ opens, 0 < id ∧ id < s.issued
  begun : ∀ id ∈ opens, (id, Phase.beginning) ∉ s.slots
  covered : ∀ id, id ∈ opens ∨ id ∈ ends (s.log.drop replayStart) → id ∈ s.holders ∨ id ∈ s.finished.drop cut

/-- The batches with a record behind a position hold a slot. -/
def Tail (s : State) (position : Nat) : Prop := ∀ id ∈ ends (s.log.drop position), id ∈ s.holders

/-- **A step that is not the checkpoint's**: it adds records of batches that hold a slot, and a batch leaves
its slot before it is open, or as the next of the ended ones. -/
structure Runs (s t : State) : Prop where
  stage : t.stage = s.stage
  manifest : t.manifest = s.manifest
  base : t.terminalBase = s.terminalBase
  total : s.terminalTotal ≤ t.terminalTotal
  durable : s.durable ≤ t.durable ∧ t.durable ≤ t.log.length
  issued : s.issued ≤ t.issued
  epoch : s.batchEpoch ≤ t.batchEpoch
  begun : ∀ id, (id, Phase.beginning) ∈ t.slots → (id, Phase.beginning) ∈ s.slots ∨ s.issued ≤ id
  log : ∃ records, t.log = s.log ++ records ∧ ∀ id ∈ ends records, id ∈ t.holders
  finished : s.finished <+: t.finished
  leaves : ∀ id ∈ s.holders, id ∈ t.holders ∨ (id, Phase.beginning) ∈ s.slots ∨
    (id ∈ t.finished.drop s.finished.length ∧ s.batchEpoch < t.batchEpoch ∧
      ∀ marker, s.stage = .marking marker → id ∉ ends (s.log.drop (marker + 1)))

theorem ends_sublist {log log' : List LogRecord} (h : List.Sublist log log') : List.Sublist (ends log) (ends log') := by
  induction h with
  | slnil => exact .slnil
  | cons record _ ih =>
    rw [ends_cons]
    exact ih.trans (sublist_append_right _ _)
  | cons_cons record _ ih =>
    rw [ends_cons, ends_cons]
    exact ih.append_left _

theorem ends_drop_subset (log : List LogRecord) (n : Nat) : ends (log.drop n) ⊆ ends log :=
  (ends_sublist (drop_sublist _ _)).subset

namespace Runs

theorem ends_drop (h : Runs s t) {position : Nat} (hle : position ≤ s.log.length)
    (hid : id ∈ ends (t.log.drop position)) : id ∈ ends (s.log.drop position) ∨ id ∈ t.holders := by
  obtain ⟨records, hlog, hheld⟩ := h.log
  rw [hlog, drop_append_of_le_length hle, ends_append, mem_append] at hid
  exact hid.imp_right (hheld id)

theorem snapshot (h : Runs s t) (hheld : Held s) (hlog : s.durable ≤ s.log.length) (hcut : cut ≤ s.finished.length)
    (hs : Snapshot s replayStart opens cut) : Snapshot t replayStart opens cut where
  durable := Nat.le_trans hs.durable h.durable.1
  nodup := hs.nodup
  issued := fun id hid => ⟨(hs.issued id hid).1, Nat.lt_of_lt_of_le (hs.issued id hid).2 h.issued⟩
  begun := by
    intro id hid hbegin
    rcases h.begun id hbegin with hold | hnew
    · exact hs.begun id hid hold
    · exact absurd (hs.issued id hid).2 (Nat.not_lt_of_le hnew)
  covered := by
    intro id hid
    -- a batch that the snapshot knows has been open or has a record, so it does not leave an unopened slot
    have hknown : id ∈ opens ∨ id ∈ ends (s.log.drop replayStart) → id ∈ t.holders ∨ id ∈ t.finished.drop cut := by
      intro hold
      rcases hs.covered id hold with hslot | hended
      · rcases h.leaves id hslot with hstays | hbegin | ⟨hlast, -, -⟩
        · exact .inl hstays
        · rcases hold with hopen | hrec
          · exact absurd hbegin (hs.begun id hopen)
          · exact absurd (ends_drop_subset _ _ hrec) (hheld.silent _ hbegin nofun)
        · refine .inr ?_
          obtain ⟨k, hk⟩ := Nat.exists_eq_add_of_le hcut
          rw [hk, ← drop_drop] at hlast
          exact mem_of_mem_drop hlast
      · obtain ⟨more, hmore⟩ := h.finished
        refine .inr ?_
        rw [← hmore, drop_append_of_le_length hcut]
        exact mem_append_left _ hended
    rcases hid with hopen | hrec
    · exact hknown (.inl hopen)
    · rcases h.ends_drop (Nat.le_trans hs.durable hlog) hrec with hold | hslot
      · exact hknown (.inr hold)
      · exact .inl hslot

/-- A step after which every batch still holds its slot. -/
theorem keep (hstage : t.stage = s.stage) (hmanifest : t.manifest = s.manifest)
    (hbase : t.terminalBase = s.terminalBase) (htotal : t.terminalTotal = s.terminalTotal)
    (hfinished : t.finished = s.finished) (hdurable : s.durable ≤ t.durable ∧ t.durable ≤ t.log.length)
    (hissued : s.issued ≤ t.issued) (hepoch : s.batchEpoch ≤ t.batchEpoch)
    (hbegun : ∀ id, (id, Phase.beginning) ∈ t.slots → (id, Phase.beginning) ∈ s.slots ∨ s.issued ≤ id)
    (hlog : ∃ records, t.log = s.log ++ records ∧ ∀ id ∈ ends records, id ∈ t.holders)
    (hholders : ∀ id ∈ s.holders, id ∈ t.holders) : Runs s t where
  stage := hstage
  manifest := hmanifest
  base := hbase
  total := Nat.le_of_eq htotal.symm
  durable := hdurable
  issued := hissued
  epoch := hepoch
  begun := hbegun
  log := hlog
  finished := hfinished ▸ prefix_refl _
  leaves := fun id hid => .inl (hholders id hid)

/-- Batches that change their phase, with or without a record. -/
theorem setPhase {phase : Phase} (hlog : s.durable ≤ s.log.length) (batches : List Nat) (hphase : phase ≠ .beginning)
    (records : List LogRecord) (hrecords : ∀ id ∈ ends records, id ∈ s.holders) (aborts : List Nat) {epoch : Nat}
    (hepoch : s.batchEpoch ≤ epoch) :
    Runs s { s.setPhase batches phase with log := s.log ++ records, aborts := aborts, batchEpoch := epoch } := by
  have hholders := holders_setPhase (s := s) batches phase
  refine keep rfl rfl rfl rfl rfl ⟨Nat.le_refl _, ?_⟩ (Nat.le_refl _) hepoch ?_ ⟨records, rfl, ?_⟩ ?_
  · show s.durable ≤ (s.log ++ records).length
    rw [length_append]
    exact Nat.le_add_right_of_le hlog
  · intro id hbegin
    rcases mem_setPhase hbegin with ⟨hold, -⟩ | ⟨-, heq, -⟩
    · exact .inl hold
    · exact absurd heq.symm hphase
  · intro id hid
    show id ∈ (s.setPhase batches phase).holders
    rw [hholders]
    exact hrecords id hid
  · intro id hid
    show id ∈ (s.setPhase batches phase).holders
    rw [hholders]
    exact hid

/-- A record of batches that hold a slot, or of none. -/
theorem append (hlog : s.durable ≤ s.log.length) (records : List LogRecord)
    (hrecords : ∀ id ∈ ends records, id ∈ s.holders) (aborts : List Nat) :
    Runs s { s with log := s.log ++ records, aborts := aborts } := by
  refine keep rfl rfl rfl rfl rfl ⟨Nat.le_refl _, ?_⟩ (Nat.le_refl _) (Nat.le_refl _) (fun _ => .inl)
    ⟨records, rfl, hrecords⟩ fun _ => id
  show s.durable ≤ (s.log ++ records).length
  rw [length_append]
  exact Nat.le_add_right_of_le hlog

end Runs

/-! ## §3 — The invariant -/

/-- The batches with a record behind the marker of a checkpoint that has not loaded the epoch yet. -/
def State.behindMarker (s : State) : List Nat :=
  match s.stage with
  | .marking marker => ends (s.log.drop (marker + 1))
  | _ => []

/-- What the current checkpoint knows. -/
def Staged (s : State) : Prop :=
  match s.stage with
  | .idle | .locked => True
  | .marking marker => marker < s.log.length ∧ Tail s (marker + 1)
  | .fenced replayStart epoch =>
    replayStart ≤ s.durable ∧ epoch ≤ s.batchEpoch ∧ (epoch = s.batchEpoch → Tail s replayStart)
  | .captured replayStart epoch opens cut =>
    epoch ≤ s.batchEpoch ∧ (s.terminalBase ≤ cut ∧ cut ≤ s.terminalTotal) ∧
      (epoch = s.batchEpoch → Snapshot s replayStart opens cut)
  | .prepared replayStart opens cut =>
    (s.terminalBase ≤ cut ∧ cut ≤ s.terminalTotal) ∧ Snapshot s replayStart opens cut
  | .installed cut => s.terminalBase ≤ cut ∧ cut ≤ s.terminalTotal

/-- The cut of the installed manifest: `finishCheckpoint` subtracts it after the installation. -/
def State.installedCut (s : State) : Nat :=
  match s.stage with
  | .installed statusCut => statusCut
  | _ => s.terminalBase

/-- **The window**: the batches that hold a slot and the ended ones that are counted fit into it. -/
structure Counted (config : Config) (s : State) : Prop where
  bounded : s.slots.length + (s.finished.length - s.terminalBase) ≤ config.statusRetention
  base : s.terminalBase ≤ s.terminalTotal
  total : s.terminalTotal ≤ s.finished.length
  exact : s.fault = false → s.terminalTotal = s.finished.length

/-- **The invariant of the system.** -/
structure Inv (config : Config) (s : State) : Prop where
  valid : config.Valid
  held : Held s
  counted : Counted config s
  durable : s.durable ≤ s.log.length
  snapshot : Snapshot s s.manifest.replayStart s.manifest.openBatchIDs s.installedCut
  staged : Staged s

theorem Inv.installedCut_range (h : Inv config s) :
    s.terminalBase ≤ s.installedCut ∧ s.installedCut ≤ s.terminalTotal := by
  have hstaged := h.staged
  unfold State.installedCut
  unfold Staged at hstaged
  split
  next cut hstage =>
    rw [hstage] at hstaged
    exact hstaged
  next => exact ⟨Nat.le_refl _, h.counted.base⟩

namespace Runs

/-- A batch that leaves its slot as an ended one does so with another epoch, and not with a record behind the
marker. -/
theorem tail (h : Runs s t) (hheld : Held s) {position : Nat} (hle : position ≤ s.log.length)
    (hkeep : t.batchEpoch = s.batchEpoch ∨ ∃ marker, s.stage = .marking marker ∧ position = marker + 1)
    (hs : Tail s position) : Tail t position := by
  intro id hid
  rcases h.ends_drop hle hid with hold | hslot
  · rcases h.leaves id (hs id hold) with hstays | hbegin | ⟨-, hepoch, hmarker⟩
    · exact hstays
    · exact absurd (ends_drop_subset _ _ hold) (hheld.silent _ hbegin nofun)
    · rcases hkeep with heq | ⟨marker, hstage, rfl⟩
      · exact absurd hepoch (heq ▸ Nat.lt_irrefl _)
      · exact absurd hold (hmarker marker hstage)
  · exact hslot

theorem staged (h : Runs s t) (hinv : Inv config s) : Staged t := by
  have hs := hinv.staged
  have hgrow : s.log.length ≤ t.log.length := by
    obtain ⟨records, hlog, -⟩ := h.log
    rw [hlog, length_append]
    exact Nat.le_add_right _ _
  have hepoch := h.epoch
  unfold Staged at hs ⊢
  rw [h.stage, h.base]
  split
  · trivial
  · trivial
  next marker hstage =>
    rw [hstage] at hs
    exact ⟨Nat.lt_of_lt_of_le hs.1 hgrow, h.tail hinv.held hs.1 (.inr ⟨marker, hstage, rfl⟩) hs.2⟩
  next replayStart epoch hstage =>
    rw [hstage] at hs
    obtain ⟨hdurable, hle, htail⟩ := hs
    refine ⟨Nat.le_trans hdurable h.durable.1, Nat.le_trans hle hepoch, fun heq => ?_⟩
    have hsame : t.batchEpoch = s.batchEpoch := by omega
    exact h.tail hinv.held (Nat.le_trans hdurable hinv.durable) (.inl hsame) (htail (heq.trans hsame))
  next replayStart epoch opens cut hstage =>
    rw [hstage] at hs
    obtain ⟨hle, hcut, hsnapshot⟩ := hs
    refine ⟨Nat.le_trans hle hepoch, ⟨hcut.1, Nat.le_trans hcut.2 h.total⟩, fun heq => ?_⟩
    exact h.snapshot hinv.held hinv.durable (Nat.le_trans hcut.2 hinv.counted.total) (hsnapshot (by omega))
  next replayStart opens cut hstage =>
    rw [hstage] at hs
    obtain ⟨hcut, hsnapshot⟩ := hs
    exact ⟨⟨hcut.1, Nat.le_trans hcut.2 h.total⟩,
      h.snapshot hinv.held hinv.durable (Nat.le_trans hcut.2 hinv.counted.total) hsnapshot⟩
  next cut hstage =>
    rw [hstage] at hs
    exact ⟨hs.1, Nat.le_trans hs.2 h.total⟩

/-- **The step lemma** for the steps that are not the checkpoint's. -/
theorem inv (h : Runs s t) (hinv : Inv config s) (hheld : Held t) (hcounted : Counted config t) : Inv config t where
  valid := hinv.valid
  held := hheld
  counted := hcounted
  durable := h.durable.2
  snapshot := by
    have hcut : t.installedCut = s.installedCut := by
      unfold State.installedCut
      rw [h.stage, h.base]
    rw [hcut, h.manifest]
    exact h.snapshot hinv.held hinv.durable (Nat.le_trans hinv.installedCut_range.2 hinv.counted.total) hinv.snapshot
  staged := h.staged hinv

end Runs

/-! ## §4 — The steps -/

theorem Counted.same (h : Counted config s) (hslots : t.slots.length = s.slots.length) (hfinished : t.finished = s.finished)
    (hbase : t.terminalBase = s.terminalBase) (htotal : t.terminalTotal = s.terminalTotal)
    (hfault : t.fault = false → s.fault = false) : Counted config t where
  bounded := by rw [hslots, hfinished, hbase]; exact h.bounded
  base := by rw [hbase, htotal]; exact h.base
  total := by rw [htotal, hfinished]; exact h.total
  exact := fun hclean => by rw [htotal, hfinished]; exact h.exact (hfault hclean)

theorem move_eq_some {old new : Phase} (h : s.move batch old new = some t) :
    (batch, old) ∈ s.slots ∧ t = s.setPhase [batch] new := by
  obtain ⟨hin, h⟩ := Option.ite_none_right_eq_some.mp h
  exact ⟨hin, (Option.some.inj h).symm⟩

namespace Inv

section

variable (h : Inv config s)

include h

/-- The batch that moves is not an ended one. -/
theorem from_phase {old : Phase} (hin : (batch, old) ∈ s.slots) (hold : old ≠ .ended) :
    ∀ p ∈ s.slots, p.1 ∈ [batch] → p.2 ≠ .ended := by
  intro p hp hmem
  obtain rfl := mem_singleton.mp hmem
  rw [h.held.phase_unique hp hin]
  exact hold

theorem setPhase {phase : Phase} (hphase : phase ≠ .beginning)
    (hfrom : ∀ p ∈ s.slots, p.1 ∈ batches → p.2 ≠ .ended) : Inv config (s.setPhase batches phase) := by
  have hruns := Runs.setPhase h.durable batches hphase [] (fun _ hid => absurd hid not_mem_nil)
    s.aborts (Nat.le_refl _)
  rw [append_nil] at hruns
  exact hruns.inv h (h.held.setPhase batches phase hfrom) (h.counted.same (length_map _) rfl rfl rfl id)

theorem begin (hs : s.begin config = some t) : Inv config t := by
  obtain ⟨⟨hclean, hopen, -, -, hlt⟩, rfl⟩ := Lib.when_eq_some hs
  have hruns : Runs s { s with issued := s.issued + 1, slots := s.slots ++ [(s.issued, .beginning)] } := by
    refine Runs.keep rfl rfl rfl rfl rfl ⟨Nat.le_refl _, h.durable⟩ (Nat.le_succ _) (Nat.le_refl _) ?_
      ⟨[], (append_nil _).symm, nofun⟩ ?_
    · intro id hid
      rcases mem_append.mp hid with hold | hnew
      · exact .inl hold
      · rw [mem_singleton, Prod.mk.injEq] at hnew
        exact .inr (Nat.le_of_eq hnew.1.symm)
    · intro id hid
      obtain ⟨phase, hp⟩ := mem_holders.mp hid
      exact mem_holders.mpr ⟨phase, mem_append_left _ hp⟩
  refine hruns.inv h h.held.begin ?_
  refine { h.counted with bounded := ?_ }
  show (s.slots ++ [(s.issued, Phase.beginning)]).length + (s.finished.length - s.terminalBase) ≤ _
  rw [length_append, length_singleton]
  have htotal := h.counted.exact hclean
  unfold State.openCount at hlt
  omega

theorem beginDone (hin : (batch, Phase.beginning) ∈ s.slots) :
    Inv config { s.setPhase [batch] .opened with batchEpoch := s.batchEpoch + 1 } := by
  have hruns := Runs.setPhase h.durable [batch] (show Phase.opened ≠ .beginning from nofun) []
    (fun _ hid => absurd hid not_mem_nil) s.aborts (Nat.le_succ _)
  rw [append_nil] at hruns
  exact hruns.inv h { h.held.setPhase [batch] .opened (h.from_phase hin nofun) with }
    (h.counted.same (length_map _) rfl rfl rfl id)

theorem beginFailed (hin : (batch, Phase.beginning) ∈ s.slots) : Inv config (s.dropSlot batch) := by
  have hpending : batch ∉ s.aborts := fun hab => nomatch h.held.phase_unique hin (h.held.aborting batch hab).1
  have hruns : Runs s (s.dropSlot batch) := {
    stage := rfl, manifest := rfl, base := rfl, total := Nat.le_refl _
    durable := ⟨Nat.le_refl _, h.durable⟩, issued := Nat.le_refl _, epoch := Nat.le_refl _
    begun := fun id hid => .inl (mem_dropSlot.mp hid).1
    log := ⟨[], (append_nil _).symm, fun _ hid => absurd hid not_mem_nil⟩
    finished := prefix_refl _
    leaves := by
      intro id hid
      by_cases heq : id = batch
      · exact .inr (.inl (heq ▸ hin))
      · exact .inl (mem_holders_dropSlot.mpr ⟨hid, heq⟩) }
  refine hruns.inv h (h.held.dropSlot hpending) { h.counted with bounded := ?_ }
  have hle : (s.dropSlot batch).slots.length ≤ s.slots.length := length_filter_le _ _
  exact Nat.le_trans (Nat.add_le_add_right hle _) h.counted.bounded

theorem commitGroup (hs : s.commitGroup batches = some t) : Inv config t := by
  obtain ⟨⟨-, hnodup, hcommitting⟩, rfl⟩ := Lib.when_eq_some hs
  have hfrom : ∀ p ∈ s.slots, p.1 ∈ batches → p.2 ≠ .ended := by
    intro p hp hmem
    rw [h.held.phase_unique hp (hcommitting _ hmem)]
    exact nofun
  have hends : ends [LogRecord.group batches] = batches := append_nil _
  have hruns := Runs.setPhase h.durable batches (show Phase.ended ≠ .beginning from nofun) [.group batches]
    (fun id hid => mem_holders.mpr ⟨_, hcommitting id (hends ▸ hid)⟩) s.aborts (Nat.le_refl _)
  refine hruns.inv h ?_ (h.counted.same (length_map _) rfl rfl rfl id)
  refine (h.held.setPhase batches .ended hfrom).append (.group batches) hnodup ?_ ?_
  · exact fun id hid => setPhase_of_mem (hcommitting id hid) hid
  · intro id hid
    refine ⟨h.held.silent _ (hcommitting id hid) nofun, fun hab => ?_⟩
    exact nomatch h.held.phase_unique (hcommitting id hid) (h.held.aborting id hab).1

theorem abort (hs : s.abort batch = some t) : Inv config t := by
  obtain ⟨m, hm, rfl⟩ := Option.map_eq_some_iff.mp hs
  obtain ⟨hin, rfl⟩ := move_eq_some hm
  have hruns := Runs.setPhase h.durable [batch] (show Phase.ended ≠ .beginning from nofun) []
    (fun _ hid => absurd hid not_mem_nil) (s.aborts ++ [batch]) (Nat.le_refl _)
  rw [append_nil] at hruns
  refine hruns.inv h ?_ (h.counted.same (length_map _) rfl rfl rfl id)
  refine (h.held.setPhase [batch] .ended (h.from_phase hin nofun)).addAbort (setPhase_of_mem hin mem_cons_self)
    (h.held.silent _ hin nofun) fun hab => ?_
  exact nomatch h.held.phase_unique hin (h.held.aborting batch hab).1

theorem abortAppend {written : Bool} (hs : s.abortAppend batch written = some t) : Inv config t := by
  obtain ⟨hin, hs⟩ := Option.ite_none_right_eq_some.mp hs
  obtain ⟨hended, hlog⟩ := h.held.aborting batch hin
  cases written with
  | false =>
    obtain rfl := Option.some.inj hs
    have hruns := Runs.append h.durable [] nofun (s.aborts.erase batch)
    rw [append_nil] at hruns
    exact hruns.inv h (h.held.eraseAbort batch) (h.counted.same rfl rfl rfl rfl id)
  | true =>
    cases hs
    have hends : ∀ id, id ∈ LogRecord.ends (.abort batch) → id = batch := fun id hid => mem_singleton.mp hid
    have hruns := Runs.append h.durable [.abort batch]
      (fun id hid => mem_holders.mpr ⟨.ended, mem_singleton.mp hid ▸ hended⟩) (s.aborts.erase batch)
    refine hruns.inv h ?_ (h.counted.same rfl rfl rfl rfl id)
    refine (h.held.eraseAbort batch).append (.abort batch) (nodup_singleton _) ?_ ?_
    · intro id hid
      rw [hends id hid]
      exact hended
    · intro id hid
      rw [hends id hid]
      exact ⟨hlog, fun hmem => ((h.held.pending.mem_erase_iff).mp hmem).1 rfl⟩

theorem finish (hpending : batch ∉ s.aborts) (hmarker : batch ∉ s.behindMarker)
    (hs : s.finish batch = some t) : Inv config t := by
  obtain ⟨hin, rfl⟩ := Lib.when_eq_some hs
  have hholds : batch ∈ s.holders := mem_holders.mpr ⟨_, hin⟩
  have hruns : Runs s { s.dropSlot batch with
      terminalTotal := if s.terminalTotal = maxUint64 then s.terminalTotal else s.terminalTotal + 1
      fault := s.fault || s.terminalTotal = maxUint64
      batchEpoch := s.batchEpoch + 1
      finished := s.finished ++ [batch] } := {
    stage := rfl, manifest := rfl, base := rfl
    total := by dsimp only; split <;> omega
    durable := ⟨Nat.le_refl _, h.durable⟩, issued := Nat.le_refl _, epoch := Nat.le_succ _
    begun := fun id hid => .inl (mem_dropSlot.mp hid).1
    log := ⟨[], (append_nil _).symm, nofun⟩
    finished := prefix_append _ _
    leaves := by
      intro id hid
      by_cases heq : id = batch
      · refine .inr (.inr ⟨?_, Nat.lt_succ_self _, ?_⟩)
        · rw [drop_left, heq]
          exact mem_cons_self
        · intro marker hstage
          unfold State.behindMarker at hmarker
          rw [hstage] at hmarker
          exact heq ▸ hmarker
      · exact .inl (mem_holders_dropSlot.mpr ⟨hid, heq⟩) }
  refine hruns.inv h { h.held.retire hholds hpending with } ?_
  have hlt : (s.dropSlot batch).slots.length < s.slots.length :=
    length_filter_lt_length_iff_exists.mpr ⟨_, hin, by simp⟩
  have hbounded := h.counted.bounded
  have hbase := h.counted.base
  have htotal := h.counted.total
  refine ⟨?_, ?_, ?_, fun hclean => ?_⟩
  · show (s.dropSlot batch).slots.length + ((s.finished ++ [batch]).length - s.terminalBase) ≤ _
    rw [length_append, length_singleton]
    omega
  · show s.terminalBase ≤ if s.terminalTotal = maxUint64 then s.terminalTotal else s.terminalTotal + 1
    split <;> omega
  · rw [length_append, length_singleton]
    dsimp only
    split <;> omega
  · obtain ⟨hold, hne⟩ := Bool.or_eq_false_iff.mp hclean
    rw [if_neg (of_decide_eq_false hne), length_append, length_singleton, h.counted.exact hold]

end

end Inv

/-! ## §5 — The steps of a checkpoint -/

/-- A snapshot is also covered by an earlier cut. -/
theorem Snapshot.earlier (h : Snapshot s replayStart opens cut) {cut' : Nat} (hle : cut' ≤ cut) :
    Snapshot s replayStart opens cut' :=
  { h with
    covered := by
      intro id hid
      refine (h.covered id hid).imp_right fun hin => ?_
      obtain ⟨k, rfl⟩ := Nat.exists_eq_add_of_le hle
      rw [← drop_drop] at hin
      exact mem_of_mem_drop hin }

namespace Inv

section

variable (h : Inv config s)

include h

/-- Another stage whose cut is not beyond that of the installed manifest. -/
theorem restage (stage : Stage) (fault : Bool) (hfault : fault = false → s.fault = false)
    (hstaged : Staged { s with stage := stage, fault := fault })
    (hcut : State.installedCut { s with stage := stage } ≤ s.installedCut) :
    Inv config { s with stage := stage, fault := fault } where
  valid := h.valid
  held := { h.held with }
  counted := h.counted.same rfl rfl rfl rfl hfault
  durable := h.durable
  snapshot := { h.snapshot.earlier hcut with }
  staged := hstaged

theorem idle : Inv config { s with stage := .idle } :=
  h.restage .idle s.fault id trivial h.installedCut_range.1

theorem append : Inv config { s with log := s.log ++ [.other] } :=
  (Runs.append h.durable [.other] (fun _ hid => absurd hid not_mem_nil) s.aborts).inv h h.held.appendOther
    (h.counted.same rfl rfl rfl rfl id)

theorem sync {upTo : Nat} (hrange : s.durable ≤ upTo ∧ upTo ≤ s.log.length) :
    Inv config { s with durable := upTo } := by
  have hruns : Runs s { s with durable := upTo } :=
    .keep rfl rfl rfl rfl rfl hrange (Nat.le_refl _) (Nat.le_refl _) (fun _ => .inl)
      ⟨[], (append_nil _).symm, fun _ hid => absurd hid not_mem_nil⟩ fun _ => id
  exact hruns.inv h { h.held with } (h.counted.same rfl rfl rfl rfl id)

theorem marker (hs : s.marker = some t) : Inv config t := by
  obtain ⟨-, rfl⟩ := Lib.when_eq_some hs
  have hnext := h.append
  refine hnext.restage (.marking s.log.length) s.fault id ⟨?_, ?_⟩ hnext.installedCut_range.1
  · rw [length_append]
    exact Nat.lt_succ_self _
  · -- nothing is behind the marker yet
    intro id hid
    have hnil : (s.log ++ [LogRecord.other]).drop (s.log.length + 1) = [] :=
      drop_of_length_le (by rw [length_append]; exact Nat.le_refl _)
    have hid' : id ∈ ends ((s.log ++ [LogRecord.other]).drop (s.log.length + 1)) := hid
    rw [hnil] at hid'
    exact absurd hid' not_mem_nil

theorem fence (hs : s.fence = some t) : Inv config t := by
  have hstaged := h.staged
  unfold State.fence at hs
  unfold Staged at hstaged
  split at hs
  next marker hstage =>
    rw [hstage] at hstaged
    obtain ⟨hdurable, rfl⟩ := Lib.when_eq_some hs
    exact h.restage _ s.fault id ⟨hdurable, Nat.le_refl _, fun _ => hstaged.2⟩ h.installedCut_range.1
  next => cases hs

/-- The snapshot of the open batches. -/
theorem snapshot_at_cut (hdurable : replayStart ≤ s.durable) (htail : Tail s replayStart)
    (hopens : s.openBatchIDsAtCut = some opens) : Snapshot s replayStart opens cut := by
  obtain ⟨-, heq⟩ := Option.ite_none_right_eq_some.mp hopens
  rw [Option.some.injEq] at heq
  have hmem : ∀ id ∈ opens, (id, Phase.opened) ∈ s.slots := by
    rw [← heq]
    intro id hid
    obtain ⟨p, hp, rfl⟩ := mem_map.mp hid
    obtain ⟨hin, hopened⟩ := mem_filter.mp hp
    rw [← of_decide_eq_true hopened]
    exact hin
  refine ⟨hdurable, ?_, fun id hid => ?_, fun id hid hbegin => ?_, fun id hid => .inl ?_⟩
  · rw [← heq]
    exact (nodup_append.mp h.held.nodup).1.sublist (filter_sublist.map _)
  · exact h.held.issued id (mem_append_left _ (mem_holders.mpr ⟨_, hmem id hid⟩))
  · exact nomatch h.held.phase_unique hbegin (hmem id hid)
  · exact hid.elim (fun hopen => mem_holders.mpr ⟨_, hmem id hopen⟩) (htail id)

theorem capture (hs : s.capture = some t) : Inv config t := by
  have hstaged := h.staged
  unfold State.capture at hs
  unfold Staged at hstaged
  split at hs
  next replayStart epoch hstage =>
    rw [hstage] at hstaged
    obtain ⟨hdurable, hle, htail⟩ := hstaged
    split at hs
    next opens hopens =>
      cases hs
      refine h.restage _ s.fault id ⟨hle, ⟨h.counted.base, Nat.le_refl _⟩, fun heq => ?_⟩ h.installedCut_range.1
      exact { h.snapshot_at_cut hdurable (htail heq) hopens with }
    next =>
      obtain rfl := Option.some.inj hs
      exact h.restage .idle true nofun trivial h.installedCut_range.1
  next => cases hs

theorem checkEpoch (hs : s.checkEpoch = some t) : Inv config t := by
  have hstaged := h.staged
  unfold State.checkEpoch at hs
  unfold Staged at hstaged
  split at hs
  next replayStart epoch opens cut hstage =>
    rw [hstage] at hstaged
    obtain ⟨-, hcut, hsnapshot⟩ := hstaged
    cases hs
    split
    next heq => exact h.restage _ s.fault id ⟨hcut, { hsnapshot heq with }⟩ h.installedCut_range.1
    next => exact h.idle
  next => cases hs

theorem install (hs : s.install = some t) : Inv config t := by
  have hstaged := h.staged
  unfold State.install at hs
  unfold Staged at hstaged
  split at hs
  next replayStart opens cut hstage =>
    rw [hstage] at hstaged
    split at hs
    next =>
      cases hs
      exact ⟨h.valid, { h.held with }, h.counted.same rfl rfl rfl rfl id, h.durable, { hstaged.2 with }, hstaged.1⟩
    next =>
      obtain rfl := Option.some.inj hs
      exact h.idle
  next => cases hs

theorem advance (hs : s.advance = some t) : Inv config t := by
  have hstaged := h.staged
  have hsnapshot := h.snapshot
  unfold State.advance at hs
  unfold Staged at hstaged
  unfold State.installedCut at hsnapshot
  split at hs
  next cut hstage =>
    rw [hstage] at hstaged hsnapshot
    cases hs
    rw [Nat.max_eq_right hstaged.1]
    have hbounded := h.counted.bounded
    refine ⟨h.valid, { h.held with }, { h.counted with bounded := ?_, base := hstaged.2 }, h.durable,
      { hsnapshot with }, trivial⟩
    show s.slots.length + (s.finished.length - cut) ≤ _
    omega
  next => cases hs

/-! ## §6 — Replay -/

/-- **The window of the installed manifest**: its open batches and the batches with a record behind its replay
start are at most `StatusRetention`. -/
theorem room :
    (ends (s.log.drop s.manifest.replayStart) ∪ s.manifest.openBatchIDs).length ≤ config.statusRetention := by
  have hsub : ends (s.log.drop s.manifest.replayStart) ∪ s.manifest.openBatchIDs ⊆
      s.holders ++ s.finished.drop s.installedCut := by
    intro id hid
    exact mem_append.mpr (h.snapshot.covered id (mem_union_iff.mp hid).symm)
  have hle := (subperm_of_subset (h.snapshot.nodup.union _) hsub).length_le
  have hbounded := h.counted.bounded
  have hcut := h.installedCut_range.1
  rw [length_append, length_drop, holders, length_map] at hle
  omega

/-- **Replay succeeds**, whatever records have survived. -/
theorem recover_ok (survivors : Nat) :
    ∃ r, s.recover config survivors = .ok r ∧ r.statuses.Nodup ∧ r.statuses.length ≤ config.statusRetention ∧
      ∀ id, id ∈ r.statuses ↔ id ∈ ends ((s.log.take survivors).drop s.manifest.replayStart) ∨
        id ∈ s.manifest.openBatchIDs := by
  have hsub : List.Sublist (ends ((s.log.take survivors).drop s.manifest.replayStart))
      (ends (s.log.drop s.manifest.replayStart)) :=
    ends_sublist ((take_sublist _ _).drop _)
  have hunion : ends ((s.log.take survivors).drop s.manifest.replayStart) ∪ s.manifest.openBatchIDs ⊆
      ends (s.log.drop s.manifest.replayStart) ∪ s.manifest.openBatchIDs := by
    intro id hid
    exact mem_union_iff.mpr ((mem_union_iff.mp hid).imp_left fun hin => hsub.subset hin)
  have hroom := Nat.le_trans (subperm_of_subset (h.snapshot.nodup.union _) hunion).length_le h.room
  have hcapacity : config.statusRetention ≠ 0 := Nat.ne_of_gt (Nat.lt_of_lt_of_le h.valid.1 h.valid.2)
  obtain ⟨r, hr, hnodup, hmem⟩ := Replay.recover_eq_ok hcapacity h.snapshot.nodup
    (fun hzero => absurd (h.snapshot.issued 0 hzero).1 (Nat.lt_irrefl _)) 
    (h.held.once.sublist (hsub.trans (ends_sublist (drop_sublist _ _)))) hroom
  refine ⟨r, hr, hnodup, Nat.le_trans (subperm_of_subset hnodup fun id hid => ?_).length_le hroom, hmem⟩
  exact mem_union_iff.mpr ((hmem id).mp hid)

theorem reopen {survivors : Nat} (hs : s.reopen config survivors = some t) : Inv config t := by
  obtain ⟨r, hr, hnodup, hlength, hmem⟩ := h.recover_ok survivors
  unfold State.reopen at hs
  rw [hr] at hs
  obtain ⟨hrange, rfl⟩ := Lib.when_eq_some hs
  have htake : List.Sublist (ends (s.log.take survivors)) (ends s.log) := ends_sublist (take_sublist _ _)
  have hissued : ∀ id ∈ r.statuses, 0 < id ∧ id < s.issued := by
    intro id hid
    rcases (hmem id).mp hid with hrec | hopen
    · exact h.held.written id (htake.subset (ends_drop_subset _ _ hrec))
    · exact h.snapshot.issued id hopen
  refine ⟨h.valid, ?_, ?_, ?_, ?_, trivial⟩
  · exact {
      nodup := hnodup, issued := hissued, positive := h.held.positive, once := h.held.once.sublist htake
      written := fun id hid => h.held.written id (htake.subset hid)
      silent := nofun
      pending := nodup_nil
      aborting := nofun }
  · refine ⟨?_, Nat.zero_le _, Nat.le_refl _, fun _ => rfl⟩
    show 0 + (r.statuses.length - 0) ≤ _
    omega
  · show s.durable ≤ (s.log.take survivors).length
    rw [length_take]
    omega
  · exact { h.snapshot with
      begun := fun _ _ => not_mem_nil
      covered := fun id hid => .inr ((hmem id).mpr hid.symm) }

end

end Inv

/-! ## §7 — Runs -/

/-- `finish` runs after the record of the abort is in the log, and not while that record is behind the marker
of a checkpoint that has not loaded the epoch yet. -/
def Orderly (s : State) : Event → Prop
  | .finish batch => batch ∉ s.aborts ∧ batch ∉ s.behindMarker
  | _ => True

instance (s : State) (e : Event) : Decidable (Orderly s e) := by
  unfold Orderly
  split
  · exact inferInstanceAs (Decidable (_ ∧ _))
  · exact inferInstanceAs (Decidable True)

theorem Inv.initial (hconfig : config.Valid) : Inv config fresh where
  valid := hconfig
  held := by constructor <;> simp [fresh, holders, ends]
  counted := by constructor <;> simp [fresh]
  durable := Nat.le_refl _
  snapshot := by constructor <;> simp [fresh, ends]
  staged := trivial

/-- **The step lemma.** -/
theorem Inv.step (h : Inv config s) {e : Event} (hok : Orderly s e) (hs : s.step config e = some t) :
    Inv config t := by
  cases e with
  | begin => exact h.begin hs
  | beginDone batch =>
    obtain ⟨m, hm, rfl⟩ := Option.map_eq_some_iff.mp hs
    obtain ⟨hin, rfl⟩ := move_eq_some hm
    exact h.beginDone hin
  | beginFailed batch =>
    obtain ⟨hin, heq⟩ := Option.ite_none_right_eq_some.mp hs
    exact Option.some.inj heq ▸ h.beginFailed hin
  | submit batch =>
    obtain ⟨-, hmove⟩ := Option.ite_none_left_eq_some.mp hs
    obtain ⟨hin, rfl⟩ := move_eq_some hmove
    exact h.setPhase nofun (h.from_phase hin nofun)
  | commitGroup batches => exact h.commitGroup hs
  | reject batch =>
    obtain ⟨hin, rfl⟩ := move_eq_some hs
    exact h.setPhase nofun (h.from_phase hin nofun)
  | abort batch => exact h.abort hs
  | abortAppend batch written => exact h.abortAppend hs
  | finish batch => exact h.finish hok.1 hok.2 hs
  | append => exact Option.some.inj hs ▸ h.append
  | sync upTo =>
    obtain ⟨hrange, heq⟩ := Option.ite_none_right_eq_some.mp hs
    exact Option.some.inj heq ▸ h.sync hrange
  | lock =>
    obtain ⟨-, heq⟩ := Option.ite_none_right_eq_some.mp hs
    exact Option.some.inj heq ▸ h.restage .locked s.fault id trivial h.installedCut_range.1
  | marker => exact h.marker hs
  | fence => exact h.fence hs
  | capture => exact h.capture hs
  | checkEpoch => exact h.checkEpoch hs
  | install => exact h.install hs
  | advance => exact h.advance hs
  | giveUp => exact Option.some.inj hs ▸ h.idle
  | reopen survivors => exact h.reopen hs

/-- **The status window**: the statuses of the installed manifest fit into `StatusRetention`, and replay of any
surviving records with that capacity succeeds. -/
structure Recoverable (config : Config) (s : State) : Prop where
  room : (ends (s.log.drop s.manifest.replayStart) ∪ s.manifest.openBatchIDs).length ≤ config.statusRetention
  replays : ∀ survivors, ∃ r, s.recover config survivors = .ok r

/-- **The status window bounds replay** in every run in which `finish` overtakes no abort record. -/
theorem status_window_bounds_replay (hreach : (system config).Reach Orderly s) : Recoverable config s := by
  have hinv : Inv config s := hreach.invariant (M := system config) (Inv config)
    (fun _ hinit => hinit.2 ▸ Inv.initial hinit.1) fun _ _ _ h hok hs => h.step hok hs
  refine ⟨hinv.room, fun survivors => ?_⟩
  obtain ⟨r, hr, -⟩ := hinv.recover_ok survivors
  exact ⟨r, hr⟩

namespace Demo

/-- Room for one batch. -/
def single : Config := ⟨1, 1⟩

/-- A batch is aborted, a checkpoint forgets it, and the next batch is aborted and read back by replay. -/
def orderlyRun : List Event :=
  [.begin, .beginDone 1, .abort 1, .abortAppend 1 true, .finish 1, .lock, .marker, .sync 2, .fence, .capture,
    .checkEpoch, .install, .advance, .begin, .beginDone 2, .abort 2, .abortAppend 2 true, .finish 2, .reopen 3]

/-- The abort of the first batch falls between the marker and the snapshot of the checkpoint. -/
def abortDuringCheckpoint : List Event :=
  [.begin, .beginDone 1, .lock, .marker, .abort 1, .abortAppend 1 true, .finish 1, .sync 2, .fence, .capture,
    .checkEpoch, .install, .advance, .begin, .beginDone 2, .abort 2, .abortAppend 2 true]

end Demo

theorem status_window_bounds_replay_demo :
    ∃ s, (system Demo.single).Reach Orderly s ∧ s.finished = [2] ∧ s.manifest = ⟨2, []⟩ ∧
      Recoverable Demo.single s := by
  have hrun : ((system Demo.single).execOk Orderly fresh Demo.orderlyRun).map
      (fun s => (s.finished, s.manifest)) = some ([2], ⟨2, []⟩) := by decide +kernel
  obtain ⟨s, hs, heq⟩ := Option.map_eq_some_iff.mp hrun
  rw [Prod.mk.injEq] at heq
  have hreach : (system Demo.single).Reach Orderly s :=
    Lib.Machine.Reach.execOk (.start ⟨by decide, rfl⟩) _ hs
  exact ⟨s, hreach, heq.1, heq.2, status_window_bounds_replay hreach⟩

/-- **An abort between the marker and the snapshot of a checkpoint is not counted any more**: its record is
behind the replay start, but the batch is among those that the checkpoint subtracts.  The next batch is
admitted, and replay has no room for its status. -/
theorem status_window_overrun :
    ∃ s, (system Demo.single).Reachable s ∧ s.recover Demo.single s.log.length = .error .statusCapacity ∧
      Demo.single.statusRetention < (ends (s.log.drop s.manifest.replayStart) ∪ s.manifest.openBatchIDs).length := by
  have hrun : ((system Demo.single).exec fresh Demo.abortDuringCheckpoint).map
      (fun s => (s.log, s.manifest)) = some ([.other, .abort 1, .abort 2], ⟨1, []⟩) := by decide +kernel
  obtain ⟨s, hs, heq⟩ := Option.map_eq_some_iff.mp hrun
  obtain ⟨hlog, hmanifest⟩ := Prod.mk.injEq .. ▸ heq
  refine ⟨s, Lib.Machine.Reach.exec (.start ⟨by decide, rfl⟩) _ (fun _ _ _ => trivial) hs, ?_, ?_⟩
  · rw [State.recover, hlog, hmanifest]
    rfl
  · rw [hlog, hmanifest]
    decide

end Ridstore.Engine.StatusWindow
