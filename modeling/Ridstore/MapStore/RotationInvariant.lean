import Ridstore.MapStore.Rotation

/-
# Ridstore.MapStore.RotationInvariant — what holds of the mapping store between any two steps

The invariant says for every phase of a rotation or a recovery what a crash may leave: the files and the
names of the sealed segments never change; the active segment keeps what is synced of it; and while the
journal is there, the old segment has all its nodes and the footer or a part of it, under one of its two
names, and the new one is absent, being created or empty.

This needs two things of the runs.  A rotation starts with all bytes of the old segment synced: the journal
names the end of the old segment before the segment is synced, and nodes that are lost after that cannot be
found again.  And the process does not end between a rename and the sync that belongs to it, when the rename
is that of the journal or of the new segment: the recovery goes on from the name that it finds and does not
sync it.
-/

namespace Ridstore.MapStore

open Lib StoreCatalog List Function

/-! ## §1 — The invariant -/

/-- The mapping set of a manifest. -/
structure MapSet where
  active : Nat
  next : Nat
  segmentSize : Nat
  sealedSegments : List MapSegmentSummary

def mapSet (m : Manifest) : MapSet :=
  ⟨m.activeMapSegmentID, m.nextMapSegmentID, m.segmentSize, m.sealedMapSegments⟩

/-- The mapping set and its files. -/
structure View where
  set : MapSet
  files : Nat → File
  names : Nat → Cell (Option Name)

/-- What the invariant says about the files it says of this part of the disk. -/
def Disk.view (d : Disk) : View := ⟨mapSet d.manifest, d.files, d.names⟩

namespace View

variable (v : View)

abbrev active : Nat := v.set.active

abbrev next : Nat := v.set.next

def header (id : Nat) : SegmentHeader := headerFor v.set.segmentSize id

/-- The segment is one of the mapping set. -/
def Listed (id : Nat) : Prop := id = v.active ∨ ∃ ref ∈ v.set.sealedSegments, ref.segmentID = id

def nodes (id : Nat) : List Node := (v.files id).nodes

def setFile (id : Nat) (f : File) : View := { v with files := update v.files id f }

@[simp] theorem setFile_self (id : Nat) (f : File) : (v.setFile id f).files id = f := update_self _ _ _

def setName (id : Nat) (name : Option Name) : View :=
  { v with names := update v.names id ((v.names id).write name) }

def syncNames : View := { v with names := fun id => (v.names id).sync }

def crash (keep entry : Nat → Nat) : View :=
  { v with files := fun id => (v.files id).crash (keep id), names := fun id => (v.names id).crash (entry id) }

/-- Where a crash may find the new segment under its active name, the names of the rotation are synced. -/
def NewSynced : Prop :=
  (v.names v.next).Survives (some .active) → (v.names v.next).Synced ∧ (v.names v.active).Synced

instance : Decidable v.NewSynced := inferInstanceAs (Decidable (_ → _))

end View

def JournalFile.isInstalled : JournalFile → Bool
  | .installed _ => true
  | .absent | .temp => false

/-- A journal under its name is synced, and so are the names of the rotation. -/
def Resumable (v : View) (journal : Cell JournalFile) : Prop :=
  (journal.current.isInstalled = true → journal.Synced) ∧ v.NewSynced

instance (v : View) (journal : Cell JournalFile) : Decidable (Resumable v journal) := inferInstanceAs (Decidable (_ ∧ _))

/-- When a node does not fit, every byte of the active segment is synced, and the catalog has room for the rotation; its
generation stays off the maximum. -/
def BytesSynced (s : State) : Event → Prop
  | .append build => ∀ m ∈ s.ready, s.fits m build = false →
      (s.files m.active).synced = (s.files m.active).size ∧ s.manifest.generation + 2 < maxUint64 ∧
        s.manifest.payloadSize + 8 ≤ maxManifestPayload
  | .checkpoint _ _ => s.manifest.generation + 2 < maxUint64
  | .dataRotation _ => s.manifest.generation + 2 < maxUint64 ∧ s.manifest.payloadSize + 40 ≤ maxManifestPayload
  | .sync | .advance | .crash _ _ _ | .stop => True

instance (s : State) (e : Event) : Decidable (BytesSynced s e) :=
  match e with
  | .append _ => inferInstanceAs (Decidable (∀ m ∈ s.ready, _))
  | .checkpoint _ _ => inferInstanceAs (Decidable (_ < _))
  | .dataRotation _ => inferInstanceAs (Decidable (_ ∧ _))
  | .sync | .advance | .crash _ _ _ | .stop => inferInstanceAs (Decidable True)

/-- The process does not end between a rename and its sync. -/
def EndsSynced (s : State) : Event → Prop
  | .stop => Resumable s.view s.journal
  | .append _ | .sync | .advance | .checkpoint _ _ | .dataRotation _ | .crash _ _ _ => True

instance (s : State) (e : Event) : Decidable (EndsSynced s e) :=
  match e with
  | .stop => inferInstanceAs (Decidable (Resumable _ _))
  | .append _ | .sync | .advance | .checkpoint _ _ | .dataRotation _ | .crash _ _ _ => inferInstanceAs (Decidable True)

/-- **The condition** on the steps of a run. -/
def RotatesSynced (s : State) (e : Event) : Prop := BytesSynced s e ∧ EndsSynced s e

instance (s : State) (e : Event) : Decidable (RotatesSynced s e) := inferInstanceAs (Decidable (_ ∧ _))

/-- The end of the nodes of a file. -/
def File.nodesEnd (f : File) : Nat := segmentHeaderSize + nodeBytes f.nodes

/-- The file holds all its nodes and a footer, and all of it is synced. -/
structure SealedFile (h : SegmentHeader) (f : File) : Prop where
  footed : f.Footed h
  synced : f.synced = f.size

/-- What a segment with nodes fulfils whether it is sealed or not. -/
structure Full (h : SegmentHeader) (f : File) : Prop where
  ordered : Follows (.empty h.segmentID) f.nodes
  nonempty : f.nodes ≠ []
  room : f.nodesEnd + segmentFooterSize ≤ h.segmentSize

/-- An active segment: nodes, and after a crash perhaps a torn one. -/
structure ActiveFile (h : SegmentHeader) (f : File) : Prop where
  plain : f.Plain h
  ordered : Follows (.empty h.segmentID) f.nodes
  room : f.size + segmentFooterSize ≤ h.segmentSize
  header : segmentHeaderSize ≤ f.synced
  torn : TornAfter h f.nodesEnd f.torn
  tornSynced : f.torn ≠ none → f.synced = f.size

/-- The old segment of a rotation: its nodes are synced, and the footer or a part of it may be there. -/
structure OldFile (h : SegmentHeader) (f : File) : Prop where
  full : Full h f
  shape : f.Plain h ∧ f.size < f.nodesEnd + segmentFooterSize ∨ f.Footed h
  synced : f.nodesEnd ≤ f.synced
  tornSynced : f.torn ≠ none → f.synced = f.size

/-- The new segment of a rotation: its header, synced. -/
def newFile (h : SegmentHeader) : File := (File.empty.append (.header h)).sync

/-- What holds of the files in every phase. -/
structure FilesOk (v : View) : Prop where
  next : v.next = v.active + 1
  active : v.active < maxUint32
  segmentSize : v.set.segmentSize ≤ maxUint32
  below : ∀ ref ∈ v.set.sealedSegments, ref.segmentID < v.active
  sealedNames : ∀ ref ∈ v.set.sealedSegments, v.names ref.segmentID = .of (some .sealed)
  sealedFiles : ∀ ref ∈ v.set.sealedSegments, SealedFile (v.header ref.segmentID) (v.files ref.segmentID)
  full : ∀ ref ∈ v.set.sealedSegments, Full (v.header ref.segmentID) (v.files ref.segmentID)
  validEnd : ∀ ref ∈ v.set.sealedSegments, ref.validEnd = (v.files ref.segmentID).nodesEnd
  increasing : (v.set.sealedSegments.map (·.segmentID) ++ [v.active]).Pairwise
    fun a b => ∀ n ∈ v.nodes a, ∀ m ∈ v.nodes b, n.nodeSeq < m.nodeSeq
  bounds : ∀ id, v.Listed id → ∀ n ∈ v.nodes id, 0 < n.nodeSeq ∧ n.nodeSeq < maxUint64
  others : ∀ id, ¬ v.Listed id → id ≠ v.next → v.names id = .of none

/-- No rotation is under way. -/
structure Settled (v : View) : Prop where
  file : ActiveFile (v.header v.active) (v.files v.active)
  name : v.names v.active = .of (some .active)
  nextName : v.names v.next = .of none

/-- The journal describes the active segment as the old one. -/
structure Describes (v : View) (j : RotationJournal) : Prop where
  old : j.old = summaryOf v.active (v.nodes v.active)
  aligned : (v.files v.active).nodesEnd % alignment = 0
  newActive : j.newActive = v.next
  nextSegment : j.nextSegment = v.next + 1
  bound : j.nextSegment ≤ maxUint32

/-- A rotation that the catalog has not taken yet: what a crash may find of it. -/
structure Rotating (v : View) (j : RotationJournal) : Prop where
  journal : Describes v j
  file : OldFile (v.header v.active) (v.files v.active)
  oldName : ∀ a, (v.names v.active).Survives a → a = some .active ∨
    a = some .sealed ∧ SealedFile (v.header v.active) (v.files v.active)
  newName : ∀ a, (v.names v.next).Survives a → a = none ∨ a = some .creating ∨
    a = some .active ∧ v.files v.next = newFile (v.header v.next)

/-- A rotation that the catalog has taken and whose journal is still there. -/
structure Committed (v : View) (j : RotationJournal) : Prop where
  settled : Settled v
  file : v.files v.active = newFile (v.header v.active)
  newActive : j.newActive = v.active
  nextSegment : j.nextSegment = v.next
  old : ⟨j.old.segmentID, j.old.validEnd⟩ ∈ v.set.sealedSegments

/-- The old segment of a rotation once it is sealed. -/
structure Sealing (v : View) (j : RotationJournal) : Prop where
  rotating : Rotating v j
  file : SealedFile (v.header v.active) (v.files v.active)
  name : (v.names v.active).current = some .sealed

/-- The catalog can take one more mapping segment. -/
def HasRoom (m : Manifest) : Prop := m.generation + 1 < maxUint64 ∧ m.payloadSize + 8 ≤ maxManifestPayload

/-- A journal that a crash may leave fits the files and the catalog. -/
def JournalFits (v : View) (m : Manifest) : JournalFile → Prop
  | .absent | .temp => Settled v
  | .installed j => j.baseGeneration ≤ m.generation ∧ (Rotating v j ∧ HasRoom m ∨ Committed v j)

/-- The sequence numbers to come are above all those given. -/
structure SeqOk (v : View) (m : Memory) : Prop where
  pos : 0 < m.nextSeq
  le : m.nextSeq ≤ maxUint64
  pending : m.pending ≠ none → m.nextSeq < maxUint64
  above : ∀ id, v.Listed id → ∀ n ∈ v.nodes id, n.nodeSeq < m.nextSeq

/-- An open store knows its active segment. -/
structure MemoryOk (v : View) (m : Memory) : Prop where
  active : m.active = v.active
  next : m.next = v.next
  summary : m.summary = summaryOf v.active (v.nodes v.active)
  follows : m.summary.nodeCount = 0 ∨ m.nextSeq = m.summary.lastSeq + 1
  seq : SeqOk v m

/-- What the operations to come rely on, besides what a crash may find. -/
def PhaseOk (v : View) (journal : Cell JournalFile) : Phase → Prop
  | .idle => Settled v ∧ (v.files v.active).torn = none ∧ journal = .of .absent
  | .journalRename j => Rotating v j ∧ Settled v ∧ (v.files v.active).torn = none ∧
      journal = Cell.write (.of .absent) .temp
  | .journalSync j => Rotating v j ∧ Settled v ∧ (v.files v.active).torn = none ∧
      journal = (Cell.write (.of .absent) .temp).write (.installed j)
  | .footer j => Rotating v j ∧ Settled v ∧ (v.files v.active).torn = none ∧ journal = .of (.installed j)
  | .footerSync j => Rotating v j ∧ journal = .of (.installed j) ∧ (v.files v.active).Footed (v.header v.active)
  | .sealRename j => Rotating v j ∧ journal = .of (.installed j) ∧ SealedFile (v.header v.active) (v.files v.active)
  | .sealSync j => Rotating v j ∧ journal = .of (.installed j) ∧ SealedFile (v.header v.active) (v.files v.active) ∧
      (v.names v.active).current = some .sealed
  | .create j => Sealing v j ∧ journal = .of (.installed j) ∧ (v.names v.next).current = none ∧
      ∀ a, (v.names v.next).Survives a → a ≠ some .active
  | .createSync j => Sealing v j ∧ journal = .of (.installed j) ∧
      v.files v.next = File.empty.append (.header (v.header v.next))
  | .createRename j => Sealing v j ∧ journal = .of (.installed j) ∧ v.files v.next = newFile (v.header v.next)
  | .createDirSync j => Sealing v j ∧ journal = .of (.installed j) ∧ v.files v.next = newFile (v.header v.next) ∧
      (v.names v.next).current = some .active
  | .install j _ _ => Sealing v j ∧ journal = .of (.installed j) ∧ v.files v.next = newFile (v.header v.next) ∧
      v.names v.next = .of (some .active) ∧ v.names v.active = .of (some .sealed)
  | .removeJournal j | .verify j => Committed v j ∧ journal = .of (.installed j)
  | .removeSync => Settled v ∧ journal.current = .absent
  | .load => Resumable v journal
  | .resumeSeal j => Rotating v j ∧ journal = .of (.installed j) ∧ v.NewSynced
  | .ensureActive j => Sealing v j ∧ journal = .of (.installed j) ∧ v.NewSynced
  | .openFiles => Settled v ∧ journal = .of .absent
  | .failed _ => False

/-- The store in memory, phase by phase.  Nothing but its own steps moves the catalog in a recovery. -/
def MemoryFits (v : View) (manifest : Manifest) (memory : Option Memory) : Phase → Prop
  | .idle | .journalSync _ | .footer _ => ∃ m, memory = some m ∧ MemoryOk v m
  | .journalRename j => (∃ m, memory = some m ∧ MemoryOk v m) ∧ j.baseGeneration ≤ manifest.generation ∧ HasRoom manifest
  | .load | .resumeSeal _ | .ensureActive _ | .verify _ | .openFiles => memory = none
  | .footerSync _ | .sealRename _ | .sealSync _ => ∀ m, memory = some m → MemoryOk v m ∧ v.names v.next = .of none
  | .install _ expected _ => (∀ m, memory = some m → MemoryOk v m) ∧ (memory = none → expected = manifest.generation)
  | .removeJournal _ => ∀ m, memory = some m → SeqOk v m
  | .removeSync => ∀ m, memory = some m → MemoryOk v m ∧ v.files v.active = newFile (v.header v.active)
  | _ => ∀ m, memory = some m → MemoryOk v m

/-- How many operations of a recovery are left at most. -/
def Phase.left : Phase → Nat
  | .load => 14
  | .resumeSeal _ => 13
  | .footerSync _ => 12
  | .sealRename _ => 11
  | .sealSync _ => 10
  | .ensureActive _ => 9
  | .create _ => 8
  | .createSync _ => 7
  | .createRename _ => 6
  | .createDirSync _ => 5
  | .install _ _ _ | .verify _ => 4
  | .removeJournal _ => 3
  | .removeSync => 2
  | .openFiles => 1
  | _ => 0

/-- A recovery leaves the root alone and comes closer to its end, or the store is open. -/
def Progress (s s' : State) : Prop :=
  s.memory = none → s'.manifest.mappingRoot = s.manifest.mappingRoot ∧
    (s'.memory = none ∧ s'.phase.left < s.phase.left ∨ ∃ m, s'.ready = some m)

theorem Progress.next {s s' : State} {phase : Phase} (hp : s.phase = phase) (hm : s'.memory = s.memory)
    (hroot : s'.manifest.mappingRoot = s.manifest.mappingRoot) (hlt : s'.phase.left < phase.left) :
    Progress s s' := by
  intro hnone
  rw [hp, hm]
  exact ⟨hroot, .inl ⟨hnone, hlt⟩⟩

theorem Progress.of_running {s s' : State} {m : Memory} (hm : s.memory = some m) : Progress s s' := by
  intro hnone
  rw [hm] at hnone
  cases hnone

/-- **The invariant.** -/
structure Inv (s : State) : Prop where
  valid : s.manifest.Valid
  generation : s.manifest.generation < maxUint64
  files : FilesOk s.view
  stored : ∃ found, (s.syncedTree s.manifest.mappingRoot s.manifest.coveredCommitSeq).walkRefs = .ok found
  history : ∀ id, s.view.Listed id → ∀ offset n,
    pieceAt Piece.size (s.files id).pieces offset = some (.node n) → s.appended (newMapAddr id offset) = some n
  fits : ∀ file, s.journal.Survives file → JournalFits s.view s.manifest file
  phase : PhaseOk s.view s.journal s.phase
  memory : MemoryFits s.view s.manifest s.memory s.phase

/-! ## §2 — Files under the operations -/

section Files

variable {h : SegmentHeader} {f : File} {n : Node} {keep : Nat}

theorem File.nodesEnd_le_size (hf : f.Plain h) : f.nodesEnd ≤ f.size := by
  rw [File.nodesEnd, ← hf.bytes]
  exact File.bytes_le_size

/-- One more node at the end of an active segment. -/
theorem ActiveFile.append (hf : ActiveFile h f) (htorn : f.torn = none)
    (hfollows : f.nodes.length = 0 ∨ n.nodeSeq = (summaryOf h.segmentID f.nodes).lastSeq + 1)
    (hroom : f.nodesEnd + n.physicalSize + segmentFooterSize ≤ h.segmentSize) :
    ActiveFile h (f.append (.node n)) := by
  have hnodes : (f.append (.node n)).nodes = f.nodes ++ [n] := File.nodes_append_node
  have hplain : (f.append (.node n)).Plain h := by
    constructor
    rw [hnodes, File.append, hf.plain.pieces, map_append]
    rfl
  have hsize : (f.append (.node n)).size = f.nodesEnd + n.physicalSize := by
    rw [hplain.size htorn, hnodes, nodeBytes_append, nodeBytes_cons, nodeBytes_nil, File.nodesEnd]
    omega
  exact
  { plain := hplain
    ordered := by
      rw [hnodes, follows_append]
      refine ⟨hf.ordered, ?_, trivial⟩
      rw [← summaryOf, summaryOf_nodeCount]
      exact hfollows
    room := by rw [hsize]; exact hroom
    header := hf.header
    torn := by rw [File.append, htorn]; trivial
    tornSynced := fun hne => absurd htorn hne }

theorem ActiveFile.sync (hf : ActiveFile h f) : ActiveFile h f.sync :=
  { plain := ⟨hf.plain.pieces⟩
    ordered := hf.ordered
    room := hf.room
    header := Nat.le_trans (Nat.le_add_right _ _) (File.nodesEnd_le_size hf.plain)
    torn := hf.torn
    tornSynced := fun _ => rfl }

/-- The repair of a torn segment. -/
theorem ActiveFile.truncate (hf : ActiveFile h f) : ActiveFile h f.truncate.sync := by
  have hplain : f.truncate.Plain h := ⟨hf.plain.pieces⟩
  have hsize : f.truncate.size ≤ f.size := by
    rw [hplain.size rfl]
    exact File.nodesEnd_le_size hf.plain
  exact
  { plain := ⟨hf.plain.pieces⟩
    ordered := hf.ordered
    room := Nat.le_trans (Nat.add_le_add_right hsize _) hf.room
    header := by
      show segmentHeaderSize ≤ f.truncate.size
      rw [hplain.size rfl]
      exact Nat.le_add_right _ _
    torn := trivial
    tornSynced := fun _ => rfl }

/-- **A crash leaves an active segment** with its first nodes. -/
theorem ActiveFile.crash (hf : ActiveFile h f) (keep : Nat) :
    ActiveFile h (f.crash keep) ∧ (f.crash keep).nodes <+: f.nodes := by
  by_cases htorn : f.torn = none
  · obtain ⟨hplain, hpre, htorn', hsize⟩ := hf.plain.crash htorn hf.header hf.room keep
    obtain ⟨rest, hrest⟩ := hpre
    have hordered := hf.ordered
    rw [← hrest, follows_append] at hordered
    refine ⟨?_, ⟨rest, hrest⟩⟩
    exact
    { plain := hplain
      ordered := hordered.1
      room := Nat.le_trans (Nat.add_le_add_right hsize _) hf.room
      header := by
        rw [File.crash_synced]
        exact Nat.le_trans (Nat.le_add_right _ _) (File.nodesEnd_le_size hplain)
      torn := htorn'
      tornSynced := fun _ => File.crash_synced }
  · rw [File.crash_of_synced (hf.tornSynced htorn)]
    exact ⟨hf, prefix_rfl⟩

theorem ActiveFile.newFile (hroom : segmentHeaderSize + segmentFooterSize ≤ h.segmentSize) :
    ActiveFile h (newFile h) :=
  { plain := ⟨rfl⟩
    ordered := trivial
    room := hroom
    header := Nat.le_refl _
    torn := trivial
    tornSynced := fun hne => absurd rfl hne }

theorem newFile_synced : (newFile h).synced = (newFile h).size := rfl

/-- A full active segment that is synced may be rotated. -/
theorem ActiveFile.oldFile (hf : ActiveFile h f) (htorn : f.torn = none) (hsynced : f.synced = f.size)
    (hne : f.nodes ≠ []) : OldFile h f := by
  have hsize : f.size = f.nodesEnd := hf.plain.size htorn
  exact
  { full := ⟨hf.ordered, hne, by rw [← hsize]; exact hf.room⟩
    shape := .inl ⟨hf.plain, by rw [hsize]; exact Nat.lt_add_of_pos_right (by decide)⟩
    synced := by rw [hsynced, hsize]
    tornSynced := hf.tornSynced }

/-- The footer after the nodes. -/
theorem File.Plain.append_footer (hf : f.Plain h) :
    (f.truncate.append (.footer (summaryOf h.segmentID f.nodes))).Footed h := by
  constructor
  · rw [File.nodes_append_footer, File.nodes_truncate]
    show f.pieces ++ _ = _
    rw [hf.pieces, cons_append]
  · rfl

theorem OldFile.append_footer (hf : OldFile h f) (hplain : f.Plain h) :
    OldFile h (f.truncate.append (.footer (summaryOf h.segmentID f.nodes))) := by
  have hnodes : (f.truncate.append (.footer (summaryOf h.segmentID f.nodes))).nodes = f.nodes :=
    File.nodes_append_footer
  exact
  { full := ⟨by rw [hnodes]; exact hf.full.ordered, by rw [hnodes]; exact hf.full.nonempty,
      by rw [File.nodesEnd, hnodes]; exact hf.full.room⟩
    shape := .inr hplain.append_footer
    synced := by rw [File.nodesEnd, hnodes]; exact hf.synced
    tornSynced := fun hne => absurd rfl hne }

theorem File.Footed.sync (hf : f.Footed h) : SealedFile h f.sync :=
  ⟨⟨hf.pieces, hf.torn⟩, rfl⟩

theorem OldFile.sync (hf : OldFile h f) (hfooted : f.Footed h) : OldFile h f.sync :=
  { full := ⟨hf.full.ordered, hf.full.nonempty, hf.full.room⟩
    shape := .inr hfooted.sync.footed
    synced := by
      show f.nodesEnd ≤ f.size
      rw [hfooted.size]
      exact Nat.le_add_right _ _
    tornSynced := fun _ => rfl }

theorem SealedFile.crash (hf : SealedFile h f) : f.crash keep = f :=
  File.crash_of_synced hf.synced

/-- **A crash leaves the old segment** with all its nodes. -/
theorem OldFile.crash (hf : OldFile h f) (keep : Nat) :
    OldFile h (f.crash keep) ∧ (f.crash keep).nodes = f.nodes := by
  by_cases htorn : f.torn = none
  · rcases hf.shape with ⟨hplain, -⟩ | hfooted
    · -- All nodes are synced, and there is nothing after them.
      have hsize : f.size = f.nodesEnd := hplain.size htorn
      have hle : f.size ≤ f.synced := by rw [hsize]; exact hf.synced
      have heq : f.crash keep = f.sync := by
        rcases f.crash_cases keep with heq | ⟨m, hm, hlt, -⟩
        · exact heq
        · have hbytes := hplain.bytes
          rw [← File.nodesEnd] at hbytes
          omega
      rw [heq]
      refine ⟨?_, rfl⟩
      exact
      { full := ⟨hf.full.ordered, hf.full.nonempty, hf.full.room⟩
        shape := .inl ⟨⟨hplain.pieces⟩, by
          show f.size < f.nodesEnd + segmentFooterSize
          rw [hsize]
          exact Nat.lt_add_of_pos_right (by decide)⟩
        synced := Nat.le_of_eq hsize.symm
        tornSynced := fun _ => rfl }
    · obtain ⟨hnodes, heq | ⟨hplain, hsize⟩⟩ := hfooted.crash hf.synced keep
      · rw [heq]
        exact ⟨hf.sync hfooted, rfl⟩
      · refine ⟨?_, hnodes⟩
        exact
        { full := ⟨by rw [hnodes]; exact hf.full.ordered, by rw [hnodes]; exact hf.full.nonempty,
            by rw [File.nodesEnd, hnodes]; exact hf.full.room⟩
          shape := .inl ⟨hplain, by rw [File.nodesEnd, hnodes]; exact hsize⟩
          synced := by
            rw [File.crash_synced]
            exact File.nodesEnd_le_size hplain
          tornSynced := fun _ => File.crash_synced }
  · rw [File.crash_of_synced (hf.tornSynced htorn)]
    exact ⟨hf, rfl⟩

/-- A node that the sync of the file covers. -/
def File.HasSynced (f : File) (offset : Nat) (n : Node) : Prop :=
  pieceAt Piece.size f.pieces offset = some (.node n) ∧ offset + n.physicalSize ≤ f.synced

/-- The synced nodes of one file are synced in another. -/
def File.Keeps (f f' : File) : Prop := ∀ offset n, f.HasSynced offset n → f'.HasSynced offset n

theorem File.Keeps.refl (f : File) : f.Keeps f := fun _ _ h => h

theorem File.keeps_append (p : Piece) : f.Keeps (f.append p) := fun _ _ ⟨hat, hle⟩ => ⟨pieceAt_append hat, hle⟩

/-- Whatever is in a file is synced by its sync. -/
theorem File.keeps_of_synced {f' : File} (hpieces : f'.pieces = f.pieces)
    (hsynced : Lib.bytes Piece.size f'.pieces ≤ f'.synced) : f.Keeps f' := by
  rintro offset n ⟨hat, -⟩
  rw [← hpieces] at hat
  have hle : offset + Piece.size (.node n) ≤ Lib.bytes Piece.size f'.pieces := pieceAt_le hat
  exact ⟨hat, Nat.le_trans hle hsynced⟩

theorem File.keeps_sync : f.Keeps f.sync := File.keeps_of_synced rfl File.bytes_le_size

theorem File.keeps_truncate : f.Keeps f.truncate.sync := File.keeps_of_synced rfl File.bytes_le_size

theorem File.keeps_crash (keep : Nat) : f.Keeps (f.crash keep) := by
  rintro offset n ⟨hat, hle⟩
  have hat' : pieceAt Piece.size (f.crash keep).pieces offset = some (.node n) := File.crash_pieceAt hat hle
  have hle' : offset + Piece.size (.node n) ≤ Lib.bytes Piece.size (f.crash keep).pieces := pieceAt_le hat'
  refine ⟨hat', ?_⟩
  rw [File.crash_synced]
  exact Nat.le_trans hle' File.bytes_le_size

end Files

/-! ## §3 — The files of the set under the operations -/

section Views

variable {v : View} {files : Nat → File} {names : Nat → Cell (Option Name)} {j : RotationJournal} {id : Nat}

section

variable (h : FilesOk v)

include h

theorem FilesOk.sealed_ne {ref : MapSegmentSummary} (href : ref ∈ v.set.sealedSegments) :
    ref.segmentID ≠ v.active ∧ ref.segmentID ≠ v.next := by
  have hbelow := h.below ref href
  have hnext := h.next
  omega

theorem FilesOk.next_not_listed : ¬ v.Listed v.next := by
  have hnext := h.next
  rintro (heq | ⟨ref, href, heq⟩)
  · omega
  · exact (h.sealed_ne href).2 heq

/-- Only the two segments of a rotation have a name that is not synced. -/
theorem FilesOk.stable (hactive : id ≠ v.active) (hnext : id ≠ v.next) : ∃ a, v.names id = .of a := by
  by_cases hlisted : v.Listed id
  · obtain heq | ⟨ref, href, rfl⟩ := hlisted
    · exact absurd heq hactive
    · exact ⟨_, h.sealedNames ref href⟩
  · exact ⟨_, h.others id hlisted hnext⟩

/-- The sealed segments stay, and the nodes of the active one are old or come after all others. -/
theorem FilesOk.frame
    (hfiles : ∀ ref ∈ v.set.sealedSegments, files ref.segmentID = v.files ref.segmentID)
    (hnames : ∀ id, id ≠ v.active → id ≠ v.next → names id = v.names id)
    (hnodes : ∀ n ∈ (files v.active).nodes, n ∈ v.nodes v.active ∨ 0 < n.nodeSeq ∧ n.nodeSeq < maxUint64 ∧
      ∀ id, v.Listed id → ∀ o ∈ v.nodes id, o.nodeSeq < n.nodeSeq) :
    FilesOk ⟨v.set, files, names⟩ := by
  obtain ⟨hpairs, -, hlast⟩ := pairwise_append.mp h.increasing
  have hsealed : ∀ id ∈ v.set.sealedSegments.map (·.segmentID), files id = v.files id := by
    intro id hid
    obtain ⟨ref, href, rfl⟩ := mem_map.mp hid
    exact hfiles ref href
  exact
  { next := h.next
    active := h.active
    segmentSize := h.segmentSize
    below := h.below
    sealedNames := by
      intro ref href
      obtain ⟨hactive, hnext⟩ := h.sealed_ne href
      exact (hnames _ hactive hnext).trans (h.sealedNames ref href)
    sealedFiles := by
      intro ref href
      show SealedFile (v.header ref.segmentID) (files ref.segmentID)
      rw [hfiles ref href]
      exact h.sealedFiles ref href
    full := by
      intro ref href
      show Full (v.header ref.segmentID) (files ref.segmentID)
      rw [hfiles ref href]
      exact h.full ref href
    validEnd := by
      intro ref href
      show ref.validEnd = (files ref.segmentID).nodesEnd
      rw [hfiles ref href]
      exact h.validEnd ref href
    increasing := by
      refine pairwise_append.mpr ⟨?_, pairwise_singleton _ _, ?_⟩
      · refine hpairs.imp_of_mem ?_
        intro a b ha hb hlt n hn m hm
        have hn' : n ∈ (files a).nodes := hn
        have hm' : m ∈ (files b).nodes := hm
        rw [hsealed a ha] at hn'
        rw [hsealed b hb] at hm'
        exact hlt n hn' m hm'
      · intro a ha b hb n hn m hm
        have hn' : n ∈ (files a).nodes := hn
        rw [hsealed a ha] at hn'
        rw [mem_singleton.mp hb] at hm
        obtain ⟨ref, href, rfl⟩ := mem_map.mp ha
        rcases hnodes m hm with hold | ⟨-, -, hnew⟩
        · exact hlast _ ha _ (mem_singleton.mpr rfl) n hn' m hold
        · exact hnew _ (.inr ⟨ref, href, rfl⟩) n hn'
    bounds := by
      rintro id (rfl | ⟨ref, href, rfl⟩) n hn
      · rcases hnodes n hn with hold | ⟨hpos, hlt, -⟩
        · exact h.bounds _ (.inl rfl) n hold
        · exact ⟨hpos, hlt⟩
      · have hn' : n ∈ (files ref.segmentID).nodes := hn
        rw [hfiles ref href] at hn'
        exact h.bounds _ (.inr ⟨ref, href, rfl⟩) n hn'
    others := by
      intro id hlisted hnext
      refine (hnames id (fun heq => hlisted (.inl heq)) hnext).trans (h.others id hlisted hnext) }

/-- Names only. -/
theorem FilesOk.withNames (hnames : ∀ id, id ≠ v.active → id ≠ v.next → names id = v.names id) :
    FilesOk ⟨v.set, v.files, names⟩ :=
  h.frame (fun _ _ => rfl) hnames fun _ hn => .inl hn

/-- The file of the next segment is not yet one of the set. -/
theorem FilesOk.setNextFile (f : File) : FilesOk (v.setFile v.next f) := by
  have hne : v.active ≠ v.next := by
    have := h.next
    omega
  refine h.frame (fun ref href => update_of_ne (h.sealed_ne href).2 _ _) (fun _ _ _ => rfl) ?_
  intro n hn
  rw [update_of_ne hne] at hn
  exact .inl hn

/-- The file of the active segment may lose nodes or keep them. -/
theorem FilesOk.setActiveFile {f : File} (hnodes : ∀ n ∈ f.nodes, n ∈ v.nodes v.active) :
    FilesOk (v.setFile v.active f) := by
  refine h.frame (fun ref href => update_of_ne (h.sealed_ne href).1 _ _) (fun _ _ _ => rfl) ?_
  intro n hn
  rw [update_self] at hn
  exact .inl (hnodes n hn)

theorem FilesOk.syncNames : FilesOk v.syncNames := by
  refine h.withNames fun id hactive hnext => ?_
  obtain ⟨a, ha⟩ := h.stable hactive hnext
  rw [ha]
  rfl

end

/-- A rotation stays one while its old segment keeps its nodes and the names are some that it may have. -/
theorem Rotating.frame (h : Rotating v j) (hnodes : (files v.active).nodes = v.nodes v.active)
    (hfile : OldFile (v.header v.active) (files v.active))
    (hold : ∀ a, (names v.active).Survives a → a = some .active ∨
      a = some .sealed ∧ SealedFile (v.header v.active) (files v.active))
    (hnew : ∀ a, (names v.next).Survives a → a = none ∨ a = some .creating ∨
      a = some .active ∧ files v.next = newFile (v.header v.next)) :
    Rotating ⟨v.set, files, names⟩ j where
  journal :=
    { old := by
        show j.old = summaryOf v.active (files v.active).nodes
        rw [hnodes]
        exact h.journal.old
      aligned := by
        rw [File.nodesEnd, hnodes]
        exact h.journal.aligned
      newActive := h.journal.newActive
      nextSegment := h.journal.nextSegment
      bound := h.journal.bound }
  file := hfile
  oldName := hold
  newName := hnew

/-! ## §4 — Crashes -/

variable {keep entry : Nat → Nat}

theorem File.mem_nodes_of_crash {f : File} {n : Node} {k : Nat} (hn : n ∈ (f.crash k).nodes) : n ∈ f.nodes :=
  (File.crash_isPrefix.filterMap _).subset hn

theorem FilesOk.crash (h : FilesOk v) : FilesOk (v.crash keep entry) := by
  refine h.frame (fun ref href => ?_) (fun id hactive hnext => ?_) fun n hn => .inl (File.mem_nodes_of_crash hn)
  · exact (h.sealedFiles ref href).crash
  · obtain ⟨a, ha⟩ := h.stable hactive hnext
    rw [ha, Cell.crash_of]

theorem Settled.crash (h : Settled v) : Settled (v.crash keep entry) where
  file := (h.file.crash _).1
  name := by
    show (v.names v.active).crash _ = _
    rw [h.name, Cell.crash_of]
  nextName := by
    show (v.names v.next).crash _ = _
    rw [h.nextName, Cell.crash_of]

/-- A journaled rotation is still one after a crash. -/
theorem Rotating.crash (h : Rotating v j) : Rotating (v.crash keep entry) j := by
  obtain ⟨hfile, hnodes⟩ := h.file.crash (keep v.active)
  -- A file that is wholly synced is found as it was.
  have hsealed : SealedFile (v.header v.active) (v.files v.active) →
      SealedFile (v.header v.active) ((v.files v.active).crash (keep v.active)) := by
    intro hsealed
    rw [hsealed.crash]
    exact hsealed
  refine h.frame hnodes hfile (fun a ha => ?_) fun a ha => ?_
  · obtain ⟨b, hb, heq⟩ := (v.names v.active).crash_eq (entry v.active)
    rw [heq, Cell.survives_of] at ha
    subst ha
    rcases h.oldName a hb with hactive | ⟨hname, hfull⟩
    · exact .inl hactive
    · exact .inr ⟨hname, hsealed hfull⟩
  · obtain ⟨b, hb, heq⟩ := (v.names v.next).crash_eq (entry v.next)
    rw [heq, Cell.survives_of] at ha
    subst ha
    rcases h.newName a hb with hnone | hcreating | ⟨hname, hnew⟩
    · exact .inl hnone
    · exact .inr (.inl hcreating)
    · refine .inr (.inr ⟨hname, ?_⟩)
      rw [hnew, File.crash_of_synced newFile_synced]

theorem Committed.crash (h : Committed v j) : Committed (v.crash keep entry) j where
  settled := h.settled.crash
  file := by
    show (v.files v.active).crash (keep v.active) = _
    rw [h.file, File.crash_of_synced newFile_synced]
    rfl
  newActive := h.newActive
  nextSegment := h.nextSegment
  old := h.old

variable {m : Manifest} {file : JournalFile}

theorem JournalFits.crash (h : JournalFits v m file) : JournalFits (v.crash keep entry) m file := by
  cases file with
  | absent | temp => exact Settled.crash h
  | installed j =>
    obtain ⟨hbase, ⟨hrotating, hroom⟩ | hcommitted⟩ := h
    · exact ⟨hbase, .inl ⟨hrotating.crash, hroom⟩⟩
    · exact ⟨hbase, .inr hcommitted.crash⟩

/-- A journal that is synced is the one that a crash finds. -/
theorem JournalFits.of_synced {journal : Cell JournalFile} (hj : journal = .of file)
    (h : JournalFits v m file) : ∀ found, journal.Survives found → JournalFits v m found := by
  intro found hfound
  rw [hj, Cell.survives_of] at hfound
  subst hfound
  exact h

end Views

section Stored

variable {d d' : Disk} {root addr : MapAddr} {covered : Nat} {n : Node}

theorem Disk.syncedReader_eq_ok :
    d.syncedReader addr = .ok n ↔
      addr.valid = true ∧ d.view.Listed addr.segmentID ∧ (d.files addr.segmentID).HasSynced addr.offset n := by
  rw [Disk.syncedReader]
  by_cases hvalid : addr.valid = false
  · rw [if_pos hvalid]
    constructor
    · intro h
      cases h
    · rintro ⟨htrue, -⟩
      rw [hvalid] at htrue
      cases htrue
  rw [if_neg hvalid]
  have hlisted : (addr.segmentID = d.manifest.activeMapSegmentID ∨
      ∃ ref ∈ d.manifest.sealedMapSegments, ref.segmentID = addr.segmentID) ↔ d.view.Listed addr.segmentID := Iff.rfl
  rw [Bool.not_eq_false] at hvalid
  by_cases hin : d.view.Listed addr.segmentID
  · rw [if_pos (hlisted.mpr hin)]
    constructor
    · intro h
      split at h
      next m hat =>
        split at h
        next hle =>
          cases h
          exact ⟨hvalid, hin, hat, hle⟩
        next => cases h
      next => cases h
    · rintro ⟨-, -, hat, hle⟩
      simp only [hat, if_pos hle]
  · rw [if_neg (hlisted.not.mpr hin)]
    constructor
    · intro h
      cases h
    · rintro ⟨-, hin', -⟩
      exact absurd hin' hin

/-- **A tree whose nodes are synced stays readable** while the synced nodes of the set stay. -/
theorem Disk.stored_mono (d : Disk) (hlisted : ∀ id, d.view.Listed id → d'.view.Listed id)
    (hkeeps : ∀ id, d.view.Listed id → (d.files id).Keeps (d'.files id))
    (h : ∃ found, (d.syncedTree root covered).walkRefs = .ok found) :
    ∃ found, (d'.syncedTree root covered).walkRefs = .ok found := by
  obtain ⟨found, hwalk⟩ := h
  have hextends : Radix.Tree.Extends (d.syncedTree root covered) (d'.syncedTree root covered) :=
    { root := rfl
      covered := rfl
      reads := by
        intro addr node hread
        obtain ⟨hvalid, hin, hsynced⟩ := Disk.syncedReader_eq_ok.mp hread
        exact Disk.syncedReader_eq_ok.mpr ⟨hvalid, hlisted _ hin, hkeeps _ hin _ _ hsynced⟩ }
  exact ⟨found, hextends.walkRefs hwalk⟩

end Stored

end Ridstore.MapStore
