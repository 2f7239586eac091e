import Ridstore.MapStore.RotationInvariant

/-
# Ridstore.MapStore.RotationSteps — appends, rotations and crashes keep the invariant

One lemma for every operation of a rotation, for appends, syncs and other changes of the catalog, and for
the crash that may come before any of them.  The operations that a recovery shares with a rotation also
bring the recovery closer to its end.
-/

namespace Ridstore.MapStore

open Lib StoreCatalog List Function

/-! ## §1 — The parts of the invariant under the operations -/

section Frames

variable {v : View} {files : Nat → File} {names : Nat → Cell (Option Name)} {j : RotationJournal} {m : Memory}

/-- Other names that a rotation may have. -/
theorem Rotating.withNames (h : Rotating v j)
    (hold : ∀ a, (names v.active).Survives a → (v.names v.active).Survives a ∨
      a = some .sealed ∧ SealedFile (v.header v.active) (v.files v.active))
    (hnew : ∀ a, (names v.next).Survives a → (v.names v.next).Survives a ∨ a = none ∨ a = some .creating ∨
      a = some .active ∧ v.files v.next = newFile (v.header v.next)) :
    Rotating ⟨v.set, v.files, names⟩ j := by
  refine h.frame rfl h.file ?_ ?_
  · exact fun a ha => (hold a ha).elim (h.oldName a) .inr
  · exact fun a ha => (hnew a ha).elim (h.newName a) id

/-- A directory sync leaves of every name what could have been found already. -/
theorem survives_of_sync {c : Cell (Option Name)} {a : Option Name} (h : c.sync.Survives a) : c.Survives a := by
  rw [Cell.survives_sync] at h
  rw [h]
  exact c.survives_current

theorem Rotating.syncNames (h : Rotating v j) : Rotating v.syncNames j :=
  h.withNames (fun _ ha => .inl (survives_of_sync ha)) fun _ ha => .inl (survives_of_sync ha)

theorem Settled.syncNames (h : Settled v) : Settled v.syncNames where
  file := h.file
  name := by
    show (v.names v.active).sync = _
    rw [h.name, Cell.sync_of]
  nextName := by
    show (v.names v.next).sync = _
    rw [h.nextName, Cell.sync_of]

variable {f : File}

/-- The active segment gets another file. -/
theorem Settled.setActiveFile (h : Settled v) (hfile : ActiveFile (v.header v.active) f) :
    Settled (v.setFile v.active f) := by
  refine ⟨?_, h.name, h.nextName⟩
  show ActiveFile (v.header v.active) ((v.setFile v.active f).files v.active)
  rw [View.setFile_self]
  exact hfile

theorem Sealing.syncNames (h : Sealing v j) : Sealing v.syncNames j where
  rotating := h.rotating.syncNames
  file := h.file
  name := h.name

theorem Committed.syncNames (h : Committed v j) : Committed v.syncNames j :=
  ⟨h.settled.syncNames, h.file, h.newActive, h.nextSegment, h.old⟩

theorem JournalFits.syncNames {m : Manifest} {file : JournalFile} (h : JournalFits v m file) :
    JournalFits v.syncNames m file := by
  cases file with
  | installed j =>
    obtain ⟨hbase, ⟨hrotating, hroom⟩ | hcommitted⟩ := h
    · exact ⟨hbase, .inl ⟨hrotating.syncNames, hroom⟩⟩
    · exact ⟨hbase, .inr hcommitted.syncNames⟩
  | _ => exact Settled.syncNames h

theorem Rotating.old_segmentID (h : Rotating v j) : j.old.segmentID = v.active := by
  rw [h.journal.old, summaryOf_segmentID]

theorem Rotating.old_validEnd (h : Rotating v j) : j.old.validEnd = (v.files v.active).nodesEnd := by
  rw [h.journal.old, summaryOf_validEnd]
  rfl

theorem FilesOk.active_ne_next (h : FilesOk v) : v.active ≠ v.next := by
  rw [h.next]
  exact (Nat.succ_ne_self _).symm

/-- The old segment gets another file with the same nodes. -/
theorem Rotating.setActiveFile (h : Rotating v j) (hfiles : FilesOk v)
    (hnodes : f.nodes = v.nodes v.active) (hold : OldFile (v.header v.active) f)
    (hsealed : SealedFile (v.header v.active) (v.files v.active) → SealedFile (v.header v.active) f) :
    Rotating (v.setFile v.active f) j := by
  have hself : update v.files v.active f v.active = f := update_self _ _ _
  have hnext : update v.files v.active f v.next = v.files v.next := update_of_ne hfiles.active_ne_next.symm _ _
  refine h.frame ?_ ?_ (fun a ha => ?_) fun a ha => ?_
  · rw [hself]
    exact hnodes
  · rw [hself]
    exact hold
  · rw [hself]
    rcases h.oldName a ha with hactive | ⟨hname, hfile⟩
    · exact .inl hactive
    · exact .inr ⟨hname, hsealed hfile⟩
  · rw [hnext]
    exact h.newName a ha

/-- The file and the name of the new segment change. -/
theorem Rotating.frameNext (h : Rotating v j) (hfile : files v.active = v.files v.active)
    (hname : names v.active = v.names v.active)
    (hnew : ∀ a, (names v.next).Survives a → a = none ∨ a = some .creating ∨
      a = some .active ∧ files v.next = newFile (v.header v.next)) :
    Rotating ⟨v.set, files, names⟩ j := by
  refine h.frame (congrArg File.nodes hfile) ?_ (fun a ha => ?_) hnew
  · rw [hfile]
    exact h.file
  · rw [hname] at ha
    rw [hfile]
    exact h.oldName a ha

theorem Sealing.frameNext (h : Sealing v j) (hfile : files v.active = v.files v.active)
    (hname : names v.active = v.names v.active)
    (hnew : ∀ a, (names v.next).Survives a → a = none ∨ a = some .creating ∨
      a = some .active ∧ files v.next = newFile (v.header v.next)) :
    Sealing ⟨v.set, files, names⟩ j where
  rotating := h.rotating.frameNext hfile hname hnew
  file := by
    show SealedFile (v.header v.active) (files v.active)
    rw [hfile]
    exact h.file
  name := (congrArg Cell.current hname).trans h.name

/-- A rotation that the catalog has taken is not one it has not taken. -/
theorem Rotating.not_committed (h : Rotating v j) (hfiles : FilesOk v) : ¬ Committed v j := by
  intro hc
  have hnext := hfiles.next
  have h1 := h.journal.newActive
  have h2 := hc.newActive
  omega

theorem SeqOk.frame (h : SeqOk v m) (hnodes : ∀ id, v.Listed id → (files id).nodes = v.nodes id) :
    SeqOk ⟨v.set, files, names⟩ m where
  pos := h.pos
  le := h.le
  pending := h.pending
  above := by
    intro id hin n hn
    have hn' : n ∈ (files id).nodes := hn
    rw [hnodes id hin] at hn'
    exact h.above id hin n hn'

/-- What the store keeps in memory stays right while the nodes of the set stay. -/
theorem MemoryOk.frame (h : MemoryOk v m) (hnodes : ∀ id, v.Listed id → (files id).nodes = v.nodes id) :
    MemoryOk ⟨v.set, files, names⟩ m where
  active := h.active
  next := h.next
  summary := by
    show m.summary = summaryOf v.active (files v.active).nodes
    rw [hnodes _ (.inl rfl)]
    exact h.summary
  follows := h.follows
  seq := h.seq.frame hnodes

theorem MemoryOk.poisoned (h : MemoryOk v m) : MemoryOk v { m with poisoned := true } where
  active := h.active
  next := h.next
  summary := h.summary
  follows := h.follows
  seq := ⟨h.seq.pos, h.seq.le, h.seq.pending, h.seq.above⟩

end Frames

section Constructors

variable {s : State} {j : RotationJournal}

/-- The nodes of one file are those of another, and what is synced of them stays. -/
structure File.SameNodes (f f' : File) : Prop where
  nodes : f'.nodes = f.nodes
  keeps : f.Keeps f'
  found : ∀ offset n, pieceAt Piece.size f'.pieces offset = some (.node n) →
    pieceAt Piece.size f.pieces offset = some (.node n)

theorem File.SameNodes.refl (f : File) : f.SameNodes f := ⟨rfl, .refl f, fun _ _ h => h⟩

theorem File.sameNodes_sync (f : File) : f.SameNodes f.sync := ⟨rfl, File.keeps_sync, fun _ _ h => h⟩

theorem File.sameNodes_truncate (f : File) : f.SameNodes f.truncate.sync :=
  ⟨rfl, File.keeps_truncate, fun _ _ h => h⟩

theorem File.sameNodes_footer (f : File) (sum : SegmentSummary) : f.SameNodes (f.truncate.append (.footer sum)) where
  nodes := File.nodes_append_footer
  keeps := fun _ _ ⟨hat, hle⟩ => ⟨pieceAt_append hat, hle⟩
  found := by
    intro offset n hat
    rcases pieceAt_concat hat with hold | ⟨-, heq⟩
    · exact hold
    · cases heq

/-- One file is replaced by one with the same nodes. -/
theorem File.sameNodes_update {f : File} {files : Nat → File} {a : Nat} (h : (files a).SameNodes f) (id : Nat) :
    (files id).SameNodes (update files a f id) := by
  by_cases hid : id = a
  · subst hid
    rw [update_self]
    exact h
  · rw [update_of_ne hid]
    exact .refl _

/-- **Steps that change no node.**  The parts of the invariant about the catalog and the nodes carry over. -/
theorem Inv.step_files (h : Inv s) (files : Nat → File) (names : Nat → Cell (Option Name))
    (journal : Cell JournalFile) (memory : Option Memory) (phase : Phase)
    (hfiles : FilesOk ⟨s.view.set, files, names⟩) (hsame : ∀ id, s.view.Listed id → (s.files id).SameNodes (files id))
    (hfits : ∀ file, journal.Survives file → JournalFits ⟨s.view.set, files, names⟩ s.manifest file)
    (hphase : PhaseOk ⟨s.view.set, files, names⟩ journal phase)
    (hmemory : MemoryFits ⟨s.view.set, files, names⟩ s.manifest memory phase) :
    Inv { s with files := files, names := names, journal := journal, memory := memory, phase := phase } where
  valid := h.valid
  generation := h.generation
  files := hfiles
  stored := Disk.stored_mono s.toDisk (fun _ hin => hin) (fun id hin => (hsame id hin).keeps) h.stored
  history := fun id hin offset n hat => h.history id hin offset n ((hsame id hin).found offset n hat)
  fits := hfits
  phase := hphase
  memory := hmemory

/-- **Steps that leave the disk as it is.** -/
theorem Inv.step_memory (h : Inv s) (memory : Option Memory) (phase : Phase) (hphase : PhaseOk s.view s.journal phase)
    (hmemory : MemoryFits s.view s.manifest memory phase) :
    Inv { s with memory := memory, phase := phase } :=
  h.step_files s.files s.names s.journal memory phase h.files (fun _ _ => .refl _) h.fits hphase hmemory

/-- **Steps of the catalog.**  `v` is what the invariant then sees of the disk. -/
theorem Inv.step_manifest {next : Manifest} {v : View} (h : Inv s) {phase : Phase}
    (hview : Disk.view { s.toDisk with manifest := next } = v) (hvalid : next.Valid)
    (hgen : next.generation < maxUint64) (hfiles : FilesOk v) (hlisted : ∀ id, s.view.Listed id → v.Listed id)
    (hstored : ∃ found, (s.syncedTree next.mappingRoot next.coveredCommitSeq).walkRefs = .ok found)
    (hhistory : ∀ id, v.Listed id → ¬ s.view.Listed id → ∀ offset n,
      pieceAt Piece.size (s.files id).pieces offset ≠ some (.node n))
    (hfits : ∀ file, s.journal.Survives file → JournalFits v next file)
    (hphase : PhaseOk v s.journal phase) (hmemory : MemoryFits v next s.memory phase) :
    Inv { s with manifest := next, phase := phase } := by
  subst hview
  refine ⟨hvalid, hgen, hfiles, Disk.stored_mono s.toDisk hlisted (fun _ _ => .refl _) hstored, ?_, hfits, hphase,
    hmemory⟩
  intro id hin offset n hat
  by_cases hold : s.view.Listed id
  · exact h.history id hold offset n hat
  · exact absurd hat (hhistory id hin hold offset n)

/-- The catalog while it has not taken the journaled rotation. -/
theorem Inv.rotating_room (h : Inv s) (hr : Rotating s.view j) (hj : s.journal = .of (.installed j)) :
    j.baseGeneration ≤ s.manifest.generation ∧ HasRoom s.manifest := by
  have hsurvives : s.journal.Survives (.installed j) := by
    rw [hj, Cell.survives_of]
  obtain ⟨hbase, ⟨-, hroom⟩ | hcommitted⟩ := h.fits _ hsurvives
  · exact ⟨hbase, hroom⟩
  · exact absurd hcommitted (hr.not_committed h.files)

/-- **Steps of a journaled rotation** that the catalog has not taken yet. -/
theorem Inv.step_rotating (h : Inv s) (hr : Rotating s.view j) (hj : s.journal = .of (.installed j))
    (files : Nat → File) (names : Nat → Cell (Option Name)) (journal : Cell JournalFile) (phase : Phase)
    (hfiles : FilesOk ⟨s.view.set, files, names⟩) (hsame : ∀ id, s.view.Listed id → (s.files id).SameNodes (files id))
    (hr' : Rotating ⟨s.view.set, files, names⟩ j) (hj' : journal = .of (.installed j))
    (hphase : PhaseOk ⟨s.view.set, files, names⟩ journal phase)
    (hmemory : MemoryFits ⟨s.view.set, files, names⟩ s.manifest s.memory phase) :
    Inv { s with files := files, names := names, journal := journal, phase := phase } := by
  obtain ⟨hbase, hroom⟩ := h.rotating_room hr hj
  refine h.step_files files names journal s.memory phase hfiles hsame ?_ hphase hmemory
  exact .of_synced hj' ⟨hbase, .inl ⟨hr', hroom⟩⟩

end Constructors

section Steps

variable {s s' : State} {j : RotationJournal}

/-- **A crash at any step** leaves what the recovery can start from. -/
theorem Inv.crash (h : Inv s) (keep entry : Nat → Nat) (k : Nat)
    (hstep : s.step (.crash keep entry k) = some s') : Inv s' := by
  simp only [State.step, Option.some.injEq] at hstep
  subst hstep
  exact
  { valid := h.valid
    generation := h.generation
    files := h.files.crash
    stored := Disk.stored_mono s.toDisk (fun _ hin => hin) (fun _ _ => File.keeps_crash _) h.stored
    history := fun id hin offset n hat => h.history id hin offset n (pieceAt_of_isPrefix File.crash_isPrefix hat)
    fits := by
      intro file hfile
      obtain ⟨a, ha, heq⟩ := s.journal.crash_eq k
      have hfile' : (s.journal.crash k).Survives file := hfile
      rw [heq, Cell.survives_of] at hfile'
      subst hfile'
      exact (h.fits file ha).crash
    phase := ⟨fun _ => rfl, fun _ => ⟨rfl, rfl⟩⟩
    memory := rfl }

/-- **The end of the process** leaves the names that the recovery goes on from. -/
theorem Inv.stop (h : Inv s) (hresumable : Resumable s.view s.journal) : Inv { s with memory := none, phase := .load } :=
  h.step_memory none .load hresumable rfl

/-- What the invariant says of the disk and of the memory in a phase. -/
theorem Inv.at_phase (h : Inv s) {p : Phase} (hp : s.phase = p) :
    PhaseOk s.view s.journal p ∧ MemoryFits s.view s.manifest s.memory p := by
  subst hp
  exact ⟨h.phase, h.memory⟩

/-- The journal gets its name. -/
theorem Inv.journalRename (h : Inv s) (hp : s.phase = .journalRename j) :
    Inv { s with journal := s.journal.write (.installed j), phase := .journalSync j } := by
  obtain ⟨⟨hr, hsettled, htorn, hj⟩, hmemory, hroom⟩ := h.at_phase hp
  refine h.step_files s.files s.names _ s.memory _ h.files (fun _ _ => .refl _) ?_ ⟨hr, hsettled, htorn, by rw [hj]⟩ hmemory
  intro file hfile
  rcases Cell.survives_write.mp hfile with rfl | hold
  · exact ⟨hroom.1, .inl ⟨hr, hroom.2⟩⟩
  · exact h.fits file hold

/-- The journal and its name are synced. -/
theorem Inv.journalSync (h : Inv s) (hp : s.phase = .journalSync j) : Inv (s.syncDirectory.goto (.footer j)) := by
  obtain ⟨⟨hr, hsettled, htorn, hj⟩, hmemory⟩ := h.at_phase hp
  obtain ⟨m, hm, hok⟩ := hmemory
  have hsync : s.journal.sync = .of (.installed j) := congrArg Cell.sync hj
  refine h.step_files s.files _ s.journal.sync s.memory _ h.files.syncNames (fun _ _ => .refl _) ?_ ?_ ?_
  · refine .of_synced hsync (h.fits _ ?_).syncNames
    rw [hj, Cell.survives_write]
    exact .inl rfl
  · exact ⟨hr.syncNames, hsettled.syncNames, htorn, hsync⟩
  · exact ⟨m, hm, hok.frame fun _ _ => rfl⟩

/-- The footer of the old segment after its nodes. -/
theorem Inv.writeFooter (h : Inv s) (hr : Rotating s.view j) (hj : s.journal = .of (.installed j))
    (hplain : (s.files s.view.active).Plain (s.view.header s.view.active))
    (hsize : (s.files s.view.active).size < (s.files s.view.active).nodesEnd + segmentFooterSize)
    (hmemory : ∀ m, s.memory = some m → MemoryOk s.view m ∧ s.view.names s.view.next = .of none) :
    Inv ((s.onDisk (s.setFile s.view.active ((s.files s.view.active).truncate.append (.footer j.old)))).goto
      (.footerSync j)) := by
  have hsame := (s.files s.view.active).sameNodes_footer j.old
  have hsummary : j.old = summaryOf (s.view.header s.view.active).segmentID (s.files s.view.active).nodes :=
    hr.journal.old
  have hr' : Rotating (s.view.setFile s.view.active ((s.files s.view.active).truncate.append (.footer j.old))) j := by
    refine hr.setActiveFile h.files hsame.nodes ?_ ?_
    · rw [hsummary]
      exact hr.file.append_footer hplain
    · -- The segment has no footer yet.
      intro hfull
      have heq : (s.files s.view.active).size = (s.files s.view.active).nodesEnd + segmentFooterSize :=
        hfull.footed.size
      omega
  refine h.step_rotating hr hj _ s.names s.journal _ ?_ (fun id _ => File.sameNodes_update hsame id) hr' hj ?_ ?_
  · exact h.files.setActiveFile fun n hn => by rwa [hsame.nodes] at hn
  · refine ⟨hr', hj, ?_⟩
    show ((s.view.setFile s.view.active _).files s.view.active).Footed (s.view.header s.view.active)
    rw [View.setFile_self, hsummary]
    exact hplain.append_footer
  · intro m hm
    obtain ⟨hok, hnext⟩ := hmemory m hm
    exact ⟨hok.frame fun id _ => (File.sameNodes_update hsame id).nodes, hnext⟩

/-- The footer is written. -/
theorem Inv.footer (h : Inv s) (hp : s.phase = .footer j) :
    Inv ((s.onDisk (s.setFile j.old.segmentID ((s.files j.old.segmentID).append (.footer j.old)))).goto
      (.footerSync j)) := by
  obtain ⟨⟨hr, hsettled, htorn, hj⟩, hmemory⟩ := h.at_phase hp
  obtain ⟨m, hm, hok⟩ := hmemory
  have hfile : (s.files s.view.active).append (.footer j.old) =
      (s.files s.view.active).truncate.append (.footer j.old) := by
    have htorn' : (s.files s.view.active).torn = none := htorn
    simp only [File.append, File.truncate, htorn']
  have hsize : (s.files s.view.active).size = (s.files s.view.active).nodesEnd := hsettled.file.plain.size htorn
  rw [hr.old_segmentID, hfile]
  refine h.writeFooter hr hj hsettled.file.plain ?_ fun m' hm' => ?_
  · rw [hsize]
    exact Nat.lt_add_of_pos_right (by decide)
  · rw [hm, Option.some.injEq] at hm'
    subst hm'
    exact ⟨hok, hsettled.nextName⟩

/-- The footer is synced. -/
theorem Inv.footerSync (h : Inv s) (hp : s.phase = .footerSync j) :
    Inv ((s.onDisk (s.setFile j.old.segmentID (s.files j.old.segmentID).sync)).goto (.sealRename j)) := by
  obtain ⟨⟨hr, hj, hfooted⟩, hmemory⟩ := h.at_phase hp
  have hsame := (s.files s.view.active).sameNodes_sync
  rw [hr.old_segmentID]
  have hr' : Rotating (s.view.setFile s.view.active (s.files s.view.active).sync) j :=
    hr.setActiveFile h.files hsame.nodes (hr.file.sync hfooted) fun _ => hfooted.sync
  refine h.step_rotating hr hj _ s.names s.journal _ ?_ (fun id _ => File.sameNodes_update hsame id) hr' hj ?_ ?_
  · exact h.files.setActiveFile fun n hn => hn
  · refine ⟨hr', hj, ?_⟩
    show SealedFile (s.view.header s.view.active) ((s.view.setFile s.view.active _).files s.view.active)
    rw [View.setFile_self]
    exact hfooted.sync
  · intro m hm
    obtain ⟨hok, hnext⟩ := hmemory m hm
    exact ⟨hok.frame fun id _ => (File.sameNodes_update hsame id).nodes, hnext⟩

/-- The old segment gets its sealed name. -/
theorem Inv.sealRename (h : Inv s) (hp : s.phase = .sealRename j) :
    Inv ((s.onDisk (s.setName j.old.segmentID (some .sealed))).goto (.sealSync j)) := by
  obtain ⟨⟨hr, hj, hsealed⟩, hmemory⟩ := h.at_phase hp
  have hne := h.files.active_ne_next.symm
  rw [hr.old_segmentID]
  have hr' : Rotating (s.view.setName s.view.active (some .sealed)) j := by
    refine hr.withNames ?_ ?_
    · intro a ha
      rw [update_self, Cell.survives_write] at ha
      rcases ha with rfl | hold
      · exact .inr ⟨rfl, hsealed⟩
      · exact .inl hold
    · intro a ha
      rw [update_of_ne hne] at ha
      exact .inl ha
  refine h.step_rotating hr hj s.files _ s.journal _ ?_ (fun _ _ => .refl _) hr' hj ?_ ?_
  · exact h.files.withNames fun id hactive _ => update_of_ne hactive _ _
  · refine ⟨hr', hj, hsealed, ?_⟩
    show (update s.names s.view.active _ s.view.active).current = _
    rw [update_self, Cell.current_write]
  · intro m hm
    obtain ⟨hok, hnext⟩ := hmemory m hm
    refine ⟨hok.frame fun _ _ => rfl, ?_⟩
    show update s.names s.view.active _ s.view.next = _
    rw [update_of_ne hne]
    exact hnext

/-- A file with all its nodes and its footer opens under its sealed name. -/
theorem Disk.openSealed_ok (d : Disk) (id : Nat) (hname : d.name id = some .sealed)
    (hsealed : SealedFile (d.view.header id) (d.files id)) (hfull : Full (d.view.header id) (d.files id)) :
    d.openSealed id (d.files id).nodesEnd = .ok (summaryOf id (d.files id).nodes) := by
  rw [Disk.openSealed, if_pos hname]
  exact hsealed.footed.openSealed hfull.ordered hfull.room

/-- The names are synced once the old segment has its sealed name. -/
theorem Inv.sealSync (h : Inv s) (hp : s.phase = .sealSync j) :
    ∃ s', s.advance = some s' ∧ Inv s' ∧ Progress s s' := by
  obtain ⟨⟨hr, hj, hsealed, hname⟩, hmemory⟩ := h.at_phase hp
  have hsync : s.journal.sync = .of (.installed j) := congrArg Cell.sync hj
  have hr' : Sealing s.view.syncNames j :=
    ⟨hr.syncNames, hsealed, hname⟩
  simp only [State.advance, hp]
  cases hm : s.memory with
  | some m =>
    obtain ⟨hok, hnext⟩ := hmemory m hm
    refine ⟨_, rfl, ?_, .of_running hm⟩
    refine h.step_rotating hr hj s.files _ s.journal.sync (.create j) h.files.syncNames (fun _ _ => .refl _)
      hr'.rotating hsync ⟨hr', hsync, ?_, ?_⟩ ?_
    · show (s.names s.view.next).sync.current = none
      rw [show s.names s.view.next = .of none from hnext]
      rfl
    · intro a ha
      have ha' : (s.names s.view.next).sync.Survives a := ha
      rw [show s.names s.view.next = .of none from hnext, Cell.sync_of, Cell.survives_of] at ha'
      rw [ha']
      nofun
    · intro m' hm'
      rw [hm, Option.some.injEq] at hm'
      subst hm'
      exact hok.frame fun _ _ => rfl
  | none =>
    have hopen : s.syncDirectory.openSealed j.old.segmentID j.old.validEnd = .ok j.old := by
      have hok := Disk.openSealed_ok s.syncDirectory.toDisk s.view.active hname hsealed hr.file.full
      rw [hr.old_segmentID, hr.old_validEnd, hr.journal.old]
      exact hok
    rw [hopen]
    refine ⟨_, rfl, ?_, .next hp rfl rfl (Nat.lt_succ_self 9)⟩
    exact h.step_rotating hr hj s.files _ s.journal.sync (.ensureActive j) h.files.syncNames (fun _ _ => .refl _)
      hr'.rotating hsync ⟨hr', hsync, fun _ => ⟨rfl, rfl⟩⟩ hm

/-- A change of the file and the name of the new segment of a rotation. -/
theorem Inv.step_next (h : Inv s) (hs : Sealing s.view j) (hj : s.journal = .of (.installed j)) (f : File)
    (name : Cell (Option Name)) (phase : Phase)
    (hnew : ∀ a, name.Survives a → a = none ∨ a = some .creating ∨
      a = some .active ∧ f = newFile (s.view.header s.view.next))
    (hphase : Sealing ⟨s.view.set, update s.files s.view.next f, update s.names s.view.next name⟩ j →
      PhaseOk ⟨s.view.set, update s.files s.view.next f, update s.names s.view.next name⟩
        s.journal phase)
    (hmemory : ∀ v', (∀ m, s.memory = some m → MemoryOk v' m) →
      MemoryFits v' s.manifest s.memory phase)
    (hok : ∀ m, s.memory = some m → MemoryOk s.view m) :
    Inv { s with
      files := update s.files s.view.next f
      names := update s.names s.view.next name
      phase := phase } := by
  have hfile : update s.files s.view.next f s.view.active = s.files s.view.active :=
    update_of_ne h.files.active_ne_next _ _
  have hname : update s.names s.view.next name s.view.active = s.names s.view.active :=
    update_of_ne h.files.active_ne_next _ _
  -- The segments of the set keep their files.
  have hkept : ∀ id, s.view.Listed id → update s.files s.view.next f id = s.files id := by
    intro id hin
    refine update_of_ne ?_ _ _
    rintro rfl
    exact h.files.next_not_listed hin
  have hs' : Sealing ⟨s.view.set, update s.files s.view.next f,
      update s.names s.view.next name⟩ j := by
    refine hs.frameNext hfile hname fun a ha => ?_
    rw [update_self] at ha ⊢
    exact hnew a ha
  refine h.step_rotating hs.rotating hj _ _ s.journal phase ?_ ?_ hs'.rotating hj (hphase hs') ?_
  · refine (h.files.setNextFile f).withNames fun id _ hnext => ?_
    exact update_of_ne hnext _ _
  · intro id hin
    rw [hkept id hin]
    exact .refl _
  · refine hmemory _ fun m hm => (hok m hm).frame fun id hin => ?_
    rw [hkept id hin]
    rfl

/-- The new segment is created with its header. -/
theorem Inv.create (h : Inv s) (hp : s.phase = .create j) : ∃ s', s.advance = some s' ∧ Inv s' ∧ Progress s s' := by
  obtain ⟨⟨hs, hj, hname, hactive⟩, hmemory⟩ := h.at_phase hp
  have hnext : j.newActive = s.view.next := hs.rotating.journal.newActive
  have hfree : ¬ s.name j.newActive = some .creating := by
    rw [hnext, show s.name s.view.next = none from hname]
    nofun
  simp only [State.advance, hp, if_neg hfree]
  refine ⟨_, rfl, ?_, .next hp rfl rfl (Nat.lt_succ_self 7)⟩
  rw [hnext]
  refine h.step_next hs hj _ ((s.names s.view.next).write (some .creating)) (.createSync j) ?_ ?_
    (fun _ hok => hok) hmemory
  · intro a ha
    rw [Cell.survives_write] at ha
    rcases ha with rfl | hold
    · exact .inr (.inl rfl)
    · rcases hs.rotating.newName a hold with hnone | hcreating | ⟨hname', -⟩
      · exact .inl hnone
      · exact .inr (.inl hcreating)
      · exact absurd hname' (hactive a hold)
  · intro hs'
    exact ⟨hs', hj, update_self _ _ _⟩

theorem Inv.createSync (h : Inv s) (hp : s.phase = .createSync j) :
    Inv ((s.onDisk (s.setFile j.newActive (s.files j.newActive).sync)).goto (.createRename j)) := by
  obtain ⟨⟨hs, hj, hfile⟩, hmemory⟩ := h.at_phase hp
  have hnext : j.newActive = s.view.next := hs.rotating.journal.newActive
  have hsync : (s.files s.view.next).sync = newFile (s.view.header s.view.next) := congrArg File.sync hfile
  have hstep := h.step_next hs hj (newFile (s.view.header s.view.next)) (s.names s.view.next) (.createRename j)
    (fun a ha => (hs.rotating.newName a ha).imp_right (.imp_right fun ⟨hname, _⟩ => ⟨hname, rfl⟩))
    (fun hs' => ⟨hs', hj, update_self _ _ _⟩) (fun _ hok => hok) hmemory
  rw [update_eq_self] at hstep
  rw [hnext, hsync]
  exact hstep

theorem Inv.createRename (h : Inv s) (hp : s.phase = .createRename j) :
    Inv ((s.onDisk (s.setName j.newActive (some .active))).goto (.createDirSync j)) := by
  obtain ⟨⟨hs, hj, hfile⟩, hmemory⟩ := h.at_phase hp
  have hnext : j.newActive = s.view.next := hs.rotating.journal.newActive
  have hstep := h.step_next hs hj (s.files s.view.next) ((s.names s.view.next).write (some .active))
    (.createDirSync j) ?_ ?_ (fun _ hok => hok) hmemory
  · rw [update_eq_self] at hstep
    rw [hnext]
    exact hstep
  · intro a ha
    rw [Cell.survives_write] at ha
    rcases ha with rfl | hold
    · exact .inr (.inr ⟨rfl, hfile⟩)
    · exact hs.rotating.newName a hold
  · intro hs'
    refine ⟨hs', hj, ?_, ?_⟩
    · exact (update_self _ _ _).trans hfile
    · show (update s.names s.view.next _ s.view.next).current = _
      rw [update_self, Cell.current_write]

theorem Inv.createDirSync (h : Inv s) (hp : s.phase = .createDirSync j) :
    Inv (s.syncDirectory.goto (.install j s.manifest.generation 0)) := by
  obtain ⟨⟨hs, hj, hfile, hname⟩, hmemory⟩ := h.at_phase hp
  have hsync : s.journal.sync = .of (.installed j) := congrArg Cell.sync hj
  refine h.step_rotating hs.rotating hj s.files _ s.journal.sync _ h.files.syncNames (fun _ _ => .refl _)
    hs.syncNames.rotating hsync ⟨hs.syncNames, hsync, hfile, congrArg Cell.of hname, congrArg Cell.of hs.name⟩
    ⟨?_, fun _ => rfl⟩
  exact fun m hm => (hmemory m hm).frame fun _ _ => rfl

end Steps

/-! ## §3 — The catalog takes the rotation -/

section Install

variable {v : View} {s : State} {j : RotationJournal} {h : SegmentHeader} {f : File} {n : Node} {offset : Nat}

/-- A node of a file ends where the nodes end or before. -/
theorem File.Plain.node_le (hf : f.Plain h) (hat : pieceAt Piece.size f.pieces offset = some (.node n)) :
    offset + n.physicalSize ≤ f.nodesEnd := by
  have hle : offset + Piece.size (.node n) ≤ Lib.bytes Piece.size f.pieces := pieceAt_le hat
  rw [hf.bytes] at hle
  exact hle

theorem File.Footed.node_le (hf : f.Footed h) (hat : pieceAt Piece.size f.pieces offset = some (.node n)) :
    offset + n.physicalSize ≤ f.nodesEnd := by
  rw [hf.pieces, ← cons_append] at hat
  rcases pieceAt_concat hat with hold | ⟨-, heq⟩
  · have hle : offset + Piece.size (.node n) ≤ Lib.bytes Piece.size (.header h :: f.nodes.map .node) :=
      pieceAt_le hold
    exact hle
  · cases heq

/-- The root is synced, and it is a root. -/
theorem Inv.root_found (hinv : Inv s) :
    s.manifest.mappingRoot = ⟨0⟩ ∨ ∃ n, s.syncedReader s.manifest.mappingRoot = .ok n ∧ n.level = maxLevel ∧
      n.keyPrefix = 0 ∧ n.coveredCommitSeq ≤ s.manifest.coveredCommitSeq := by
  by_cases hzero : s.manifest.mappingRoot = ⟨0⟩
  · exact .inl hzero
  · obtain ⟨found, hwalk⟩ := hinv.stored
    obtain ⟨below, hbelow⟩ := Radix.Tree.Reaches.walkNode hwalk (.root hzero)
    obtain ⟨n, hload⟩ := Radix.Tree.walkNode_load hbelow
    exact .inr ⟨n, Radix.Tree.load_eq_ok hload⟩

/-- A root in the active segment lies before the end of its nodes. -/
theorem Inv.root_lt (hinv : Inv s)
    (hnodes : ∀ offset n, pieceAt Piece.size (s.files s.view.active).pieces offset = some (.node n) →
      offset + n.physicalSize ≤ (s.files s.view.active).nodesEnd)
    (hactive : s.manifest.mappingRoot.segmentID = s.view.active) :
    s.manifest.mappingRoot.offset < (s.files s.view.active).nodesEnd := by
  rcases hinv.root_found with hzero | ⟨n, hread, -⟩
  · have hpos : 0 < s.view.active := hinv.valid.activeMap
    rw [hzero] at hactive
    have hid : MapAddr.segmentID ⟨0⟩ = 0 := rfl
    omega
  · obtain ⟨-, -, hat, -⟩ := Disk.syncedReader_eq_ok.mp hread
    rw [hactive] at hat
    have hle := hnodes _ n hat
    have hsize : 0 < n.physicalSize := Piece.size_pos (.node n)
    omega

/-- The mapping set after the rotation of its active segment. -/
def View.rotated (v : View) : View :=
  { v with set :=
    { v.set with
      active := v.next
      next := v.next + 1
      sealedSegments := v.set.sealedSegments ++ [⟨v.active, (v.files v.active).nodesEnd⟩] } }

theorem View.listed_rotated {id : Nat} : v.rotated.Listed id ↔ id = v.next ∨ v.Listed id := by
  constructor
  · rintro (rfl | ⟨ref, href, rfl⟩)
    · exact .inl rfl
    · rcases Lib.mem_snoc.mp href with hold | rfl
      · exact .inr (.inr ⟨ref, hold, rfl⟩)
      · exact .inr (.inl rfl)
  · rintro (rfl | rfl | ⟨ref, href, rfl⟩)
    · exact .inl rfl
    · exact .inr ⟨_, mem_append_right _ mem_cons_self, rfl⟩
    · exact .inr ⟨ref, mem_append_left _ href, rfl⟩

theorem nodes_newFile : (newFile h).nodes = [] := rfl

/-- The active segment is sealed already. -/
structure SealedActive (v : View) : Prop where
  file : SealedFile (v.header v.active) (v.files v.active)
  full : Full (v.header v.active) (v.files v.active)
  name : v.names v.active = .of (some .sealed)

theorem Sealing.sealedActive (hs : Sealing v j) (hold : v.names v.active = .of (some .sealed)) : SealedActive v :=
  ⟨hs.file, hs.rotating.file.full, hold⟩

/-- **The files after the rotation.** -/
theorem FilesOk.rotated (hv : FilesOk v) (hs : SealedActive v) (hbound : v.next < maxUint32)
    (hfile : v.files v.next = newFile (v.header v.next)) : FilesOk v.rotated := by
  have hnext := hv.next
  have hempty : v.nodes v.next = [] := by
    rw [View.nodes, hfile]
    exact nodes_newFile
  exact
  { next := rfl
    active := hbound
    segmentSize := hv.segmentSize
    below := by
      intro ref href
      rcases Lib.mem_snoc.mp href with hold | rfl
      · have hbelow := hv.below ref hold
        show ref.segmentID < v.next
        omega
      · show v.active < v.next
        omega
    sealedNames := forall_mem_append.mpr ⟨hv.sealedNames, forall_mem_singleton.mpr hs.name⟩
    sealedFiles := forall_mem_append.mpr ⟨hv.sealedFiles, forall_mem_singleton.mpr hs.file⟩
    full := forall_mem_append.mpr ⟨hv.full, forall_mem_singleton.mpr hs.full⟩
    validEnd := forall_mem_append.mpr ⟨hv.validEnd, forall_mem_singleton.mpr rfl⟩
    increasing := by
      show ((v.set.sealedSegments ++ [_]).map MapSegmentSummary.segmentID ++ [v.next]).Pairwise _
      rw [map_append]
      refine pairwise_append.mpr ⟨hv.increasing, pairwise_singleton _ _, ?_⟩
      intro a _ b hb n _ m hm
      rw [mem_singleton.mp hb] at hm
      have hm' : m ∈ v.nodes v.next := hm
      rw [hempty] at hm'
      cases hm'
    bounds := by
      intro id hin n hn
      rcases View.listed_rotated.mp hin with rfl | hold
      · have hn' : n ∈ v.nodes v.next := hn
        rw [hempty] at hn'
        cases hn'
      · exact hv.bounds id hold n hn
    others := by
      intro id hin _
      rw [View.listed_rotated, not_or] at hin
      exact hv.others id hin.2 hin.1 }

theorem FilesOk.settled_rotated (hv : FilesOk v) (hs : SealedActive v)
    (hfile : v.files v.next = newFile (v.header v.next)) (hname : v.names v.next = .of (some .active)) :
    Settled v.rotated where
  file := by
    show ActiveFile (v.header v.next) (v.files v.next)
    rw [hfile]
    refine ActiveFile.newFile ?_
    have hend : segmentHeaderSize ≤ (v.files v.active).nodesEnd := Nat.le_add_right _ _
    exact Nat.le_trans (Nat.add_le_add_right hend _) hs.full.room
  name := hname
  nextName := by
    have hnext := hv.next
    refine hv.others (v.next + 1) ?_ (Nat.succ_ne_self _)
    rintro (heq | ⟨ref, href, heq⟩)
    · omega
    · have hbelow := hv.below ref href
      omega

theorem Sealing.committed (hs : Sealing v j) (hv : FilesOk v) (hfile : v.files v.next = newFile (v.header v.next))
    (hname : v.names v.next = .of (some .active)) (hold : v.names v.active = .of (some .sealed)) :
    Committed v.rotated j where
  settled := hv.settled_rotated (hs.sealedActive hold) hfile hname
  file := hfile
  newActive := hs.rotating.journal.newActive
  nextSegment := hs.rotating.journal.nextSegment
  old := by
    rw [hs.rotating.old_segmentID, hs.rotating.old_validEnd]
    exact mem_append_right _ mem_cons_self

theorem Sealing.next_lt (hs : Sealing v j) : v.next < maxUint32 := by
  have hbound := hs.rotating.journal.bound
  rw [hs.rotating.journal.nextSegment] at hbound
  exact hbound

/-- **The catalog takes the rotation** whenever the generation is the one that is expected. -/
theorem Inv.accepts (hinv : Inv s) (hs : Sealing s.view j) (hj : s.journal = .of (.installed j)) :
    s.manifest.installMapRotation s.manifest.generation ⟨j.old.segmentID, j.old.validEnd⟩ j.newActive j.nextSegment =
      .ok { s.manifest with
        generation := s.manifest.generation + 1
        sealedMapSegments := s.manifest.sealedMapSegments ++ [⟨s.view.active, (s.files s.view.active).nodesEnd⟩]
        activeMapSegmentID := s.manifest.nextMapSegmentID
        nextMapSegmentID := s.manifest.nextMapSegmentID + 1 } := by
  obtain ⟨-, hgen, hsize⟩ := hinv.rotating_room hs.rotating hj
  rw [hs.rotating.old_segmentID, hs.rotating.old_validEnd, hs.rotating.journal.newActive,
    hs.rotating.journal.nextSegment]
  refine Manifest.installMapRotation_accepts hinv.valid (by omega) hs.next_lt hsize
    (Nat.le_add_right _ _) hs.rotating.file.full.room hs.rotating.journal.aligned ?_
  exact hinv.root_lt fun _ _ hat => hs.file.footed.node_le hat

/-- The catalog has taken the rotation. -/
theorem Inv.installed {next : Manifest} (hinv : Inv s) (hs : Sealing s.view j) (hj : s.journal = .of (.installed j))
    (hfile : s.files s.view.next = newFile (s.view.header s.view.next))
    (hname : s.names s.view.next = .of (some .active)) (hold : s.names s.view.active = .of (some .sealed))
    (hok : ∀ m, s.memory = some m → MemoryOk s.view m)
    (hset : mapSet next = s.view.rotated.set) (hvalid : next.Valid)
    (hgen : next.generation = s.manifest.generation + 1) (hroot : next.mappingRoot = s.manifest.mappingRoot)
    (hcovered : next.coveredCommitSeq = s.manifest.coveredCommitSeq) :
    Inv { s with manifest := next, phase := .removeJournal j } := by
  obtain ⟨hbase, hlt, -⟩ := hinv.rotating_room hs.rotating hj
  -- What is said of the files it says of the rotated set.
  have hview : Disk.view { s.toDisk with manifest := next } = s.view.rotated := by
    rw [Disk.view, hset]
    rfl
  have hempty : s.view.nodes s.view.next = [] := congrArg File.nodes hfile
  have hcommitted : Committed s.view.rotated j := hs.committed hinv.files hfile hname hold
  refine hinv.step_manifest hview hvalid (by omega) (hinv.files.rotated (hs.sealedActive hold) hs.next_lt hfile)
    (fun id hin => View.listed_rotated.mpr (.inr hin)) ?_ ?_ (.of_synced hj ⟨by omega, .inr hcommitted⟩)
    ⟨hcommitted, hj⟩ ?_
  · rw [hroot, hcovered]
    exact hinv.stored
  · intro id hin hnew offset n hat
    rcases View.listed_rotated.mp hin with rfl | hold
    · -- The new segment has no nodes.
      rw [hfile] at hat
      rcases pieceAt_concat hat with hnone | ⟨-, heq⟩
      · cases hnone
      · cases heq
    · exact hnew hold
  · intro m hm
    have hseq := (hok m hm).seq
    refine ⟨hseq.pos, hseq.le, hseq.pending, fun id hin n hn => ?_⟩
    rcases View.listed_rotated.mp hin with rfl | hold
    · have hn' : n ∈ s.view.nodes s.view.next := hn
      rw [hempty] at hn'
      cases hn'
    · exact hseq.above id hold n hn

/-- A rotation that the catalog has taken is recognised. -/
theorem Committed.committedRotation (hc : Committed v j) (hv : FilesOk v) {m : Manifest} (hset : mapSet m = v.set) :
    committedRotation m j = true := by
  have hactive : m.activeMapSegmentID = j.newActive := (congrArg MapSet.active hset).trans hc.newActive.symm
  have hnext : m.nextMapSegmentID = j.nextSegment := (congrArg MapSet.next hset).trans hc.nextSegment.symm
  have hsealed : m.sealedMapSegments = v.set.sealedSegments := congrArg MapSet.sealedSegments hset
  have hmem : ⟨j.old.segmentID, j.old.validEnd⟩ ∈ m.sealedMapSegments := by
    rw [hsealed]
    exact hc.old
  simp only [MapStore.committedRotation, hactive, hnext, decide_true, Bool.true_and]
  cases hfind : m.sealedMapSegments.find? fun ref => ref.segmentID = j.old.segmentID with
  | none =>
    rw [List.find?_eq_none] at hfind
    exact absurd (decide_eq_true rfl) (hfind _ hmem)
  | some ref =>
    have hid : ref.segmentID = j.old.segmentID := by simpa using List.find?_some hfind
    have href : ref ∈ v.set.sealedSegments := hsealed ▸ mem_of_find?_eq_some hfind
    -- Both entries end with the nodes of the one file.
    have hend := hv.validEnd ref href
    have hend' := hv.validEnd _ hc.old
    rw [hid] at hend
    exact decide_eq_true (hend.trans hend'.symm)

/-- A rotation that the catalog has not taken is not taken for one it has. -/
theorem Rotating.committedRotation (hr : Rotating v j) (hv : FilesOk v) {m : Manifest} (hset : mapSet m = v.set) :
    committedRotation m j = false := by
  have hactive : m.activeMapSegmentID ≠ j.newActive := by
    rw [show m.activeMapSegmentID = v.active from congrArg MapSet.active hset, hr.journal.newActive]
    exact hv.active_ne_next
  simp only [MapStore.committedRotation, decide_eq_false hactive, Bool.false_and]

/-- What is checked of a rotation that the catalog has not taken. -/
theorem Inv.not_taken (hinv : Inv s) (hr : Rotating s.view j) : ¬ committedRotation s.manifest j = true ∧
    ¬ (s.manifest.activeMapSegmentID ≠ j.old.segmentID ∨ s.manifest.nextMapSegmentID ≠ j.newActive) := by
  rw [hr.committedRotation hinv.files rfl, hr.old_segmentID, hr.journal.newActive, not_or, not_not, not_not]
  exact ⟨nofun, rfl, rfl⟩

/-- **The catalog takes the rotation or is tried again.** -/
theorem Inv.install (hinv : Inv s) {expected attempt : Nat} (hp : s.phase = .install j expected attempt) :
    Inv (s.installRotation j expected attempt) ∧ Progress s (s.installRotation j expected attempt) := by
  obtain ⟨⟨hs, hj, hfile, hname, hold⟩, hok, hexpected⟩ := hinv.at_phase hp
  by_cases hgen : expected = s.manifest.generation
  · subst hgen
    have haccepts := hinv.accepts hs hj
    have hvalid := (Manifest.install_eq_ok haccepts).2.1
    have hcommitted := (hs.committed hinv.files hfile hname hold).committedRotation
      (hinv.files.rotated (hs.sealedActive hold) hs.next_lt hfile)
      (m := { s.manifest with
        generation := s.manifest.generation + 1
        sealedMapSegments := s.manifest.sealedMapSegments ++ [⟨s.view.active, (s.files s.view.active).nodesEnd⟩]
        activeMapSegmentID := s.manifest.nextMapSegmentID
        nextMapSegmentID := s.manifest.nextMapSegmentID + 1 }) rfl
    simp only [State.installRotation, haccepts, if_pos hcommitted]
    exact ⟨hinv.installed hs hj hfile hname hold hok rfl hvalid rfl rfl rfl,
      .next hp rfl rfl (Nat.lt_succ_self 3)⟩
  · -- Another change of the catalog came in between; the store is running then.
    have hrunning : s.memory ≠ none := fun hm => hgen (hexpected hm)
    have hconflict : s.manifest.installMapRotation expected ⟨j.old.segmentID, j.old.validEnd⟩ j.newActive
        j.nextSegment = .error .conflict := if_pos hgen
    obtain ⟨hnot, hbase⟩ := hinv.not_taken hs.rotating
    simp only [State.installRotation, hconflict, if_neg hnot, if_neg (Ne.symm hgen), if_neg hbase]
    obtain ⟨m, hm⟩ := Option.ne_none_iff_exists'.mp hrunning
    refine ⟨?_, .of_running hm⟩
    split
    · -- The last attempt poisons the store.
      simp only [State.fail, hm]
      refine hinv.step_memory _ s.phase hinv.phase ?_
      rw [hp]
      refine ⟨fun m' hm' => ?_, nofun⟩
      rw [Option.some.injEq] at hm'
      rw [← hm']
      exact (hok m hm).poisoned
    · exact hinv.step_memory s.memory (.install j s.manifest.generation (attempt + 1)) ⟨hs, hj, hfile, hname, hold⟩
        ⟨hok, fun _ => rfl⟩

/-- The journal is removed; a running store goes over to the new segment. -/
theorem Inv.removeJournal (hinv : Inv s) (hp : s.phase = .removeJournal j) :
    Inv { s with
      journal := s.journal.write .absent
      memory := s.memory.map fun m =>
        { m with active := j.newActive, next := s.manifest.nextMapSegmentID, summary := .empty j.newActive }
      phase := .removeSync } := by
  obtain ⟨⟨hc, hj⟩, hmemory⟩ := hinv.at_phase hp
  refine hinv.step_files s.files s.names _ _ _ hinv.files (fun _ _ => .refl _) ?_ ⟨hc.settled, rfl⟩ ?_
  · intro file hfile
    rw [Cell.survives_write] at hfile
    rcases hfile with rfl | hold
    · exact hc.settled
    · exact hinv.fits file hold
  · intro m hm
    obtain ⟨m₀, hm₀, rfl⟩ := Option.map_eq_some_iff.mp hm
    have hseq := hmemory m₀ hm₀
    have hempty : s.view.nodes s.view.active = [] := congrArg File.nodes hc.file
    refine ⟨?_, hc.file⟩
    exact
    { active := hc.newActive
      next := rfl
      summary := by
        show SegmentSummary.empty j.newActive = summaryOf s.view.active (s.view.nodes s.view.active)
        rw [hempty, hc.newActive]
        rfl
      follows := .inl rfl
      seq := ⟨hseq.pos, hseq.le, hseq.pending, hseq.above⟩ }

end Install

/-! ## §4 — Appends, syncs and other changes of the catalog -/

section Append

variable {s : State} {j : RotationJournal} {m : Memory} {build : NodeBuild} {v : View}

/-- The nodes of a segment of the set end below the 32-bit limit of an offset. -/
theorem FilesOk.nodesEnd_lt (hv : FilesOk v) {ref : MapSegmentSummary} (href : ref ∈ v.set.sealedSegments) :
    (v.files ref.segmentID).nodesEnd < 2 ^ 32 := by
  have hroom := (hv.full ref href).room
  have hsize := hv.segmentSize
  have hroom' : (v.files ref.segmentID).nodesEnd + segmentFooterSize ≤ v.set.segmentSize := hroom
  simp only [maxUint32, segmentFooterSize] at hsize hroom'
  omega

/-- The history knows the nodes of every segment after one more is appended to the active one. -/
theorem Inv.history_append (h : Inv s) (hplain : (s.files s.view.active).Plain (s.view.header s.view.active))
    (node : Node) {id offset : Nat} {n : Node} (hin : s.view.Listed id)
    (hat : pieceAt Piece.size (update s.files s.view.active
      ((s.files s.view.active).append (.node node)) id).pieces offset = some (.node n)) :
    update s.appended (newMapAddr s.view.active (s.files s.view.active).nodesEnd) (some node)
      (newMapAddr id offset) = some n := by
  by_cases hid : id = s.view.active
  · subst hid
    rw [update_self] at hat
    rcases pieceAt_concat hat with hold | ⟨hoff, heq⟩
    · have hle := hplain.node_le hold
      have hsize : 0 < n.physicalSize := Piece.size_pos (.node n)
      rw [update_of_ne]
      · exact h.history _ hin _ _ hold
      · intro heq
        simp only [newMapAddr, MapAddr.mk.injEq] at heq
        omega
    · cases heq
      rw [hoff, hplain.bytes]
      exact update_self _ _ _
  · rw [update_of_ne hid] at hat
    obtain heq | ⟨ref, href, rfl⟩ := hin
    · exact absurd heq hid
    · -- The address of a node of another segment is another one.
      have hle : offset + n.physicalSize ≤ (s.files ref.segmentID).nodesEnd :=
        (h.files.sealedFiles ref href).footed.node_le hat
      have hlt : (s.files ref.segmentID).nodesEnd < 2 ^ 32 := h.files.nodesEnd_lt href
      have hbelow := h.files.below ref href
      rw [update_of_ne]
      · exact h.history _ (.inr ⟨ref, href, rfl⟩) _ _ hat
      · intro heq
        simp only [newMapAddr, MapAddr.mk.injEq] at heq
        omega

/-- A mapping file set that is open in memory. -/
structure Opened (v : View) (m : Memory) : Prop where
  files : FilesOk v
  settled : Settled v
  torn : (v.files v.active).torn = none
  memory : MemoryOk v m

theorem Opened.validEnd (h : Opened v m) : m.summary.validEnd = (v.files v.active).nodesEnd := by
  rw [h.memory.summary, summaryOf_validEnd]
  rfl

/-- **A node at the end of the active segment.** -/
theorem Opened.append (h : Opened v m) (hseq : m.nextSeq < maxUint64)
    (hroom : (v.files v.active).nodesEnd + build.physicalSize + segmentFooterSize ≤ v.set.segmentSize) :
    Opened (v.setFile v.active ((v.files v.active).append (.node { build with nodeSeq := m.nextSeq })))
      { m with
        summary := m.summary.push { build with nodeSeq := m.nextSeq }, nextSeq := m.nextSeq + 1, pending := none } := by
  have hok := h.memory
  let node : Node := { build with nodeSeq := m.nextSeq }
  let f := (v.files v.active).append (.node node)
  have hnodes : f.nodes = v.nodes v.active ++ [node] := File.nodes_append_node
  have hfile : ActiveFile (v.header v.active) f := by
    refine h.settled.file.append h.torn ?_ hroom
    have hfollows := hok.follows
    rw [hok.summary, summaryOf_nodeCount] at hfollows
    exact hfollows
  have hnew : ∀ n ∈ f.nodes, n ∈ v.nodes v.active ∨ n = node := by
    intro n hn
    rw [hnodes] at hn
    exact Lib.mem_snoc.mp hn
  exact
  { files := by
      refine h.files.frame (fun ref href => update_of_ne (h.files.sealed_ne href).1 _ _) (fun _ _ _ => rfl) ?_
      intro n hn
      rw [update_self] at hn
      rcases hnew n hn with hold | rfl
      · exact .inl hold
      · exact .inr ⟨hok.seq.pos, hseq, hok.seq.above⟩
    settled := h.settled.setActiveFile hfile
    torn := by
      show ((v.setFile v.active f).files v.active).torn = none
      rw [View.setFile_self]
      exact h.torn
    memory :=
    { active := hok.active
      next := hok.next
      summary := by
        show m.summary.push node = summaryOf v.active ((v.setFile v.active f).files v.active).nodes
        rw [View.setFile_self, hnodes, summaryOf_concat, ← hok.summary]
      follows := by
        right
        rw [push_lastSeq]
      seq :=
      { pos := Nat.succ_pos _
        le := hseq
        pending := fun hne => absurd rfl hne
        above := by
          intro id hin n hn
          by_cases hid : id = v.active
          · subst hid
            have hn' : n ∈ ((v.setFile v.active f).files v.active).nodes := hn
            rw [View.setFile_self] at hn'
            rcases hnew n hn' with hold | rfl
            · exact Nat.lt_succ_of_lt (hok.seq.above _ (.inl rfl) n hold)
            · exact Nat.lt_succ_self _
          · have hn' : n ∈ (update v.files v.active f id).nodes := hn
            rw [update_of_ne hid] at hn'
            exact Nat.lt_succ_of_lt (hok.seq.above id hin n hn') } } }

/-- The store in the phase between its operations. -/
theorem Inv.opened (h : Inv s) (hp : s.phase = .idle) (hm : s.memory = some m) :
    Opened s.view m ∧ s.journal = .of .absent := by
  obtain ⟨⟨hsettled, htorn, hj⟩, hmemory⟩ := h.at_phase hp
  obtain ⟨m', hm', hok⟩ := hmemory
  rw [hm, Option.some.injEq] at hm'
  subst hm'
  exact ⟨⟨h.files, hsettled, htorn, hok⟩, hj⟩

/-- **A node is appended.** -/
theorem Inv.appendNode (h : Inv s) (hp : s.phase = .idle) (hm : s.memory = some m) (hseq : m.nextSeq < maxUint64)
    (hfit : s.fits m build = true) : Inv (s.appendNode m build) := by
  obtain ⟨hopened, hj⟩ := h.opened hp hm
  have hend : m.summary.validEnd = (s.files s.view.active).nodesEnd := hopened.validEnd
  have hroom : (s.files s.view.active).nodesEnd + build.physicalSize + segmentFooterSize ≤ s.view.set.segmentSize := by
    rw [← hend]
    exact of_decide_eq_true hfit
  have hopened' := hopened.append hseq hroom
  let node : Node := { build with nodeSeq := m.nextSeq }
  let f := (s.files s.view.active).append (.node node)
  -- The state is written with the numbers of the invariant in place of those in memory.
  have hstate : s.appendNode m build =
      { s with
        files := update s.files s.view.active f
        appended := update s.appended (newMapAddr s.view.active (s.files s.view.active).nodesEnd) (some node)
        memory := some { m with summary := m.summary.push node, nextSeq := m.nextSeq + 1, pending := none }
        phase := .idle } := by
    rw [← hend, State.appendNode, hopened.memory.active]
    rfl
  rw [hstate]
  exact
  { valid := h.valid
    generation := h.generation
    files := hopened'.files
    stored := by
      refine Disk.stored_mono s.toDisk (fun _ hin => hin) (fun id _ => ?_) h.stored
      show (s.files id).Keeps (update s.files s.view.active f id)
      by_cases hid : id = s.view.active
      · subst hid
        rw [update_self]
        exact File.keeps_append _
      · rw [update_of_ne hid]
        exact .refl _
    history := by
      intro id hin offset n hat
      have hin' : s.view.Listed id := hin
      have hknown := h.history_append hopened.settled.file.plain node hin' hat
      exact hknown
    fits := .of_synced hj hopened'.settled
    phase := ⟨hopened'.settled, hopened'.torn, hj⟩
    memory := ⟨_, rfl, hopened'.memory⟩ }

/-- The removal of the journal is synced; a running store then appends the node it has made room for. -/
theorem Inv.removeSync (h : Inv s) (hp : s.phase = .removeSync) :
    Inv s.syncDirectory.finish ∧ Progress s s.syncDirectory.finish := by
  obtain ⟨⟨hsettled, hj⟩, hmemory⟩ := h.at_phase hp
  have hsync : s.journal.sync = .of .absent := congrArg Cell.of hj
  have hsettled' : Settled s.view.syncNames := hsettled.syncNames
  have hfits : ∀ file, s.journal.sync.Survives file →
      JournalFits s.view.syncNames s.manifest file := .of_synced hsync hsettled'
  cases hm : s.memory with
  | none =>
    have hfinish : s.syncDirectory.finish = s.syncDirectory.goto .openFiles := by
      rw [State.finish, show s.syncDirectory.memory = none from hm]
    rw [hfinish]
    refine ⟨?_, .next hp rfl rfl (Nat.lt_succ_self 1)⟩
    exact h.step_files s.files _ s.journal.sync s.memory .openFiles h.files.syncNames (fun _ _ => .refl _) hfits
      ⟨hsettled', hsync⟩ hm
  | some m =>
    obtain ⟨hok, hfile⟩ := hmemory m hm
    refine ⟨?_, .of_running hm⟩
    have htorn : (s.files s.view.active).torn = none := congrArg File.torn hfile
    have hidle : ∀ m', MemoryOk s.view m' →
        Inv { s.syncDirectory with memory := some m', phase := .idle } := fun m' hok' =>
      h.step_files s.files _ s.journal.sync (some m') .idle h.files.syncNames (fun _ _ => .refl _) hfits
        ⟨hsettled', htorn, hsync⟩ ⟨m', rfl, hok'.frame fun _ _ => rfl⟩
    rw [State.finish, show s.syncDirectory.memory = some m from hm]
    dsimp only
    split
    next build hpending =>
      split
      next hfit =>
        refine (hidle m hok).appendNode rfl rfl (hok.seq.pending ?_) hfit
        rw [hpending]
        nofun
      next =>
        refine hidle { m with pending := none } ⟨hok.active, hok.next, hok.summary, hok.follows, ?_⟩
        exact ⟨hok.seq.pos, hok.seq.le, fun hne => absurd rfl hne, hok.seq.above⟩
    next =>
      have hgoto : s.syncDirectory.goto .idle = { s.syncDirectory with memory := some m, phase := .idle } := by
        rw [State.goto, ← hm]
        rfl
      rw [hgoto]
      exact hidle m hok

/-- A store that is ready is open and does not rotate. -/
theorem ready_eq_some (h : s.ready = some m) : s.phase = .idle ∧ s.memory = some m ∧ m.poisoned = false := by
  rw [State.ready] at h
  split at h
  next m' hp hm =>
    split at h
    · cases h
    next hpoisoned =>
      cases h
      exact ⟨hp, hm, (Bool.not_eq_true _).mp hpoisoned⟩
  next => cases h

/-- A check that fails poisons a running store. -/
theorem Inv.fail_idle (h : Inv s) (hp : s.phase = .idle) (hm : s.memory = some m) (err : StoreError) :
    Inv (s.fail err) := by
  obtain ⟨⟨-, hsettled, htorn, hok⟩, hj⟩ := h.opened hp hm
  have hfail : s.fail err = { s with memory := some { m with poisoned := true }, phase := .idle } := by
    rw [State.fail, hm, ← hp]
  rw [hfail]
  exact h.step_memory _ .idle ⟨hsettled, htorn, hj⟩ ⟨_, rfl, hok.poisoned⟩

theorem RotationJournal.of_valid {segmentSize : Nat} (h : j.valid segmentSize = true) :
    j.old.validEnd % alignment = 0 ∧ j.nextSegment ≤ maxUint32 := by
  simp only [RotationJournal.valid, SegmentSummary.valid, SegmentSummary.validFooter, Bool.and_eq_true,
    decide_eq_true_eq] at h
  exact ⟨h.1.1.1.2.1.1.2, h.2⟩

/-- **A rotation starts** when all of the active segment is synced. -/
theorem Inv.startRotation (h : Inv s) (hready : s.ready = some m) (hseq : m.nextSeq < maxUint64)
    (hcount : m.summary.nodeCount ≠ 0) (hsynced : (s.files m.active).synced = (s.files m.active).size)
    (hgen : s.manifest.generation + 2 < maxUint64) (hsize : s.manifest.payloadSize + 8 ≤ maxManifestPayload) :
    Inv (s.startRotation m build) := by
  obtain ⟨hp, hm, -⟩ := ready_eq_some hready
  obtain ⟨hopened, hj⟩ := h.opened hp hm
  have ⟨_, hsettled, htorn, hok⟩ := hopened
  simp only [State.startRotation]
  split
  · exact h.fail_idle hp hm _
  split
  · exact h.fail_idle hp hm _
  next hvalid =>
    rw [Bool.not_eq_false] at hvalid
    obtain ⟨haligned, hbound⟩ := RotationJournal.of_valid hvalid
    have hne : (s.files s.view.active).nodes ≠ [] := by
      intro hnil
      refine hcount ?_
      rw [hok.summary, summaryOf_nodeCount]
      exact congrArg length hnil
    have hr : Rotating s.view
        ⟨s.manifest.generation, m.summary, s.manifest.nextMapSegmentID, s.manifest.nextMapSegmentID + 1⟩ :=
      { journal :=
        { old := hok.summary
          aligned := hopened.validEnd ▸ haligned
          newActive := rfl
          nextSegment := rfl
          bound := hbound }
        file := hsettled.file.oldFile htorn (hok.active ▸ hsynced) hne
        oldName := by
          intro a ha
          rw [hsettled.name, Cell.survives_of] at ha
          exact .inl ha
        newName := by
          intro a ha
          rw [hsettled.nextName, Cell.survives_of] at ha
          exact .inl ha }
    refine h.step_files s.files s.names _ (some { m with pending := some build }) (.journalRename _) h.files
      (fun _ _ => .refl _) ?_ ⟨hr, hsettled, htorn, by rw [hj]⟩ ?_
    · intro file hfile
      rw [Cell.survives_write, hj, Cell.survives_of] at hfile
      rcases hfile with rfl | rfl
      · exact hsettled
      · exact hsettled
    · refine ⟨⟨_, rfl, hok.active, hok.next, hok.summary, hok.follows, ?_⟩, Nat.le_refl _, by omega, hsize⟩
      exact ⟨hok.seq.pos, hok.seq.le, fun _ => hseq, hok.seq.above⟩

/-- **`appendBuild`.** -/
theorem Inv.append (h : Inv s) (hready : s.ready = some m)
    (hsynced : s.fits m build = false → (s.files m.active).synced = (s.files m.active).size ∧
      s.manifest.generation + 2 < maxUint64 ∧ s.manifest.payloadSize + 8 ≤ maxManifestPayload) :
    Inv (s.append m build) := by
  obtain ⟨hp, hm, -⟩ := ready_eq_some hready
  rw [State.append]
  split
  · exact h
  next hrefused =>
    have hseq : m.nextSeq < maxUint64 :=
      Nat.lt_of_le_of_ne (h.opened hp hm).1.memory.seq.le (not_or.mp hrefused).1
    split
    next hfit => exact h.appendNode hp hm hseq hfit
    next hfit =>
      split
      · exact h
      next hcount =>
        obtain ⟨hall, hgen, hsize⟩ := hsynced ((Bool.not_eq_true _).mp hfit)
        exact h.startRotation hready hseq hcount hall hgen hsize

/-- `Sync`. -/
theorem Inv.sync (h : Inv s) (hready : s.ready = some m) :
    Inv (s.onDisk (s.setFile m.active (s.files m.active).sync)) := by
  obtain ⟨hp, hm, -⟩ := ready_eq_some hready
  obtain ⟨⟨-, hsettled, htorn, hok⟩, hj⟩ := h.opened hp hm
  have hsame := (s.files s.view.active).sameNodes_sync
  have hsettled' := hsettled.setActiveFile hsettled.file.sync
  rw [show m.active = s.view.active from hok.active]
  refine h.step_files _ s.names s.journal s.memory s.phase (h.files.setActiveFile fun n hn => hn)
    (fun id _ => File.sameNodes_update hsame id) ?_ ?_ ?_
  · exact .of_synced hj hsettled'
  · rw [hp]
    refine ⟨hsettled', ?_, hj⟩
    show ((s.view.setFile s.view.active _).files s.view.active).torn = none
    rw [View.setFile_self]
    exact htorn
  · rw [hp]
    exact ⟨m, hm, hok.frame fun id _ => (File.sameNodes_update hsame id).nodes⟩

/-- **Another change of the catalog** leaves the mapping set alone. -/
theorem Inv.step_catalog {next : Manifest} (h : Inv s) (hset : mapSet next = mapSet s.manifest)
    (hgen : next.generation = s.manifest.generation + 1) (hlt : s.manifest.generation + 2 < maxUint64)
    (hroom : s.journal = .of .absent ∨ next.payloadSize + 8 ≤ maxManifestPayload)
    (hvalid : next.Valid) (hm : s.memory = some m)
    (hstored : ∃ found, (s.syncedTree next.mappingRoot next.coveredCommitSeq).walkRefs = .ok found) :
    Inv { s with manifest := next } := by
  have hview : Disk.view { s.toDisk with manifest := next } = s.view := by
    rw [Disk.view, hset]
    rfl
  refine h.step_manifest hview hvalid (by omega) h.files (fun _ hin => hin) hstored
    (fun _ hin hnew => absurd hin hnew) ?_ h.phase ?_
  · intro file hfile
    have hfits := h.fits file hfile
    cases file with
    | absent | temp => exact hfits
    | installed j =>
      obtain ⟨hbase, hcases⟩ := hfits
      refine ⟨by omega, hcases.imp_left fun hrotating => ⟨hrotating.1, by omega, ?_⟩⟩
      rcases hroom with habsent | hsize
      · rw [habsent, Cell.survives_of] at hfile
        cases hfile
      · exact hsize
  · have hmemory := h.memory
    cases hp : s.phase with
    | install =>
      rw [hp] at hmemory
      exact ⟨hmemory.1, fun hnone => absurd (hm.symm.trans hnone) nofun⟩
    | journalRename j =>
      rw [hp] at hmemory
      obtain ⟨⟨-, -, -, hj⟩, hok, hbase, -⟩ := h.at_phase hp
      refine ⟨hok, by omega, by omega, ?_⟩
      rcases hroom with habsent | hsize
      · rw [habsent] at hj
        cases hj
      · exact hsize
    | _ =>
      rw [hp] at hmemory
      exact hmemory

end Append

end Ridstore.MapStore
