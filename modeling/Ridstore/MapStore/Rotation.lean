import Ridstore.Lib.Transition
import Ridstore.MapStore.Segment
import Ridstore.Radix.Tree
import Ridstore.StoreCatalog.Install

/-
# Ridstore.MapStore.Rotation — appends, rotations and the recovery of the mapping store

The mapping store appends nodes to its active segment.  A node that does not fit makes it rotate: a journal
with the summary of the old segment is installed, the old segment gets its footer and its new name, a new
active segment is created, the catalog takes the change and the journal is removed.  After a crash the
journal tells how to go on.  The steps are those between which a crash or the end of the process may fall;
every file operation is one.  Operations of the file system succeed here.
-/

namespace Ridstore.MapStore

open Lib StoreCatalog Function

/-! ## §1 — The state -/

/-- The three names a segment file has in the mapping directory. -/
inductive Name
  | creating
  | active
  | sealed
  deriving DecidableEq, Repr

/-- `rotationJournal`. -/
structure RotationJournal where
  baseGeneration : Nat
  old : SegmentSummary
  newActive : Nat
  nextSegment : Nat
  deriving DecidableEq, Repr

/-- `rotationJournal.valid`; the numbers are 32-bit words that must not wrap. -/
def RotationJournal.valid (j : RotationJournal) (segmentSize : Nat) : Bool :=
  j.baseGeneration ≠ 0 && j.old.nodeCount ≠ 0 && j.old.valid segmentSize &&
    j.newActive = j.old.segmentID + 1 && j.nextSegment = j.newActive + 1 && j.nextSegment ≤ maxUint32

/-- The journal in the mapping directory: nothing, `ROTATION.tmp` or `ROTATION`. -/
inductive JournalFile
  | absent
  | temp
  | installed (j : RotationJournal)
  deriving DecidableEq, Repr

/-- What an open store keeps in memory; `pending` is the node a rotation makes room for. -/
structure Memory where
  active : Nat
  next : Nat
  summary : SegmentSummary
  nextSeq : Nat
  poisoned : Bool
  pending : Option NodeBuild

/-- Where a rotation or a recovery stands: the operation that comes next. -/
inductive Phase
  | idle
  | journalRename (j : RotationJournal)
  | journalSync (j : RotationJournal)
  | footer (j : RotationJournal)
  | footerSync (j : RotationJournal)
  | sealRename (j : RotationJournal)
  | sealSync (j : RotationJournal)
  | create (j : RotationJournal)
  | createSync (j : RotationJournal)
  | createRename (j : RotationJournal)
  | createDirSync (j : RotationJournal)
  | install (j : RotationJournal) (expected attempt : Nat)
  | removeJournal (j : RotationJournal)
  | removeSync
  | load
  | resumeSeal (j : RotationJournal)
  | ensureActive (j : RotationJournal)
  | verify (j : RotationJournal)
  | openFiles
  | failed (err : StoreError)
  deriving DecidableEq, Repr

/-- The catalog and the segment files with their names in the mapping directory.  `appended` is the
history: the node last appended at each address. -/
structure Disk where
  manifest : Manifest
  files : Nat → File
  names : Nat → Cell (Option Name)
  appended : MapAddr → Option Node

/-- The store, which is in memory unless it is being recovered, and its journal. -/
structure State extends Disk where
  journal : Cell JournalFile
  memory : Option Memory
  phase : Phase

/-- `NewMapAddr` of a segment and an offset in it. -/
def newMapAddr (segment offset : Nat) : MapAddr := ⟨segment * 2 ^ 32 + offset⟩

namespace Disk

variable (d : Disk)

def header (id : Nat) : SegmentHeader := headerFor d.manifest.segmentSize id

def name (id : Nat) : Option Name := (d.names id).current

def setFile (id : Nat) (f : File) : Disk := { d with files := update d.files id f }

/-- A rename, a creation or a removal in the mapping directory. -/
def setName (id : Nat) (name : Option Name) : Disk :=
  { d with names := update d.names id ((d.names id).write name) }

/-- A node is written at the end of a file, which is at this offset. -/
def writeNode (id offset : Nat) (n : Node) : Disk :=
  { d.setFile id ((d.files id).append (.node n)) with
    appended := update d.appended (newMapAddr id offset) (some n) }

def syncNames : Disk := { d with names := fun id => (d.names id).sync }

/-- `CatalogSnapshot.validate`, beyond what the manifest is checked for. -/
def snapshotValid : Bool :=
  d.manifest.activeMapSegmentID ≠ maxUint32 && d.manifest.nextMapSegmentID = d.manifest.activeMapSegmentID + 1

end Disk

namespace State

variable (s : State)

def goto (phase : Phase) : State := { s with phase := phase }

def onDisk (d : Disk) : State := { s with toDisk := d }

/-- `syncDirectory` of the mapping directory, where the journal is kept as well. -/
def syncDirectory : State := { s with toDisk := s.syncNames, journal := s.journal.sync }

/-- A rotation that fails poisons the store, a recovery that fails ends the opening. -/
def fail (err : StoreError) : State :=
  match s.memory with
  | some m => { s with memory := some { m with poisoned := true } }
  | none => s.goto (.failed err)

end State

/-- `committedRotation`. -/
def committedRotation (m : Manifest) (j : RotationJournal) : Bool :=
  m.activeMapSegmentID = j.newActive && m.nextMapSegmentID = j.nextSegment &&
    match m.sealedMapSegments.find? fun ref => ref.segmentID = j.old.segmentID with
    | some ref => ref.validEnd = j.old.validEnd
    | none => false

/-! ## §2 — Opening files -/

/-- The sequence numbers of the files go up; the next one to give is counted along. -/
def nextSequence (acc : Nat × Nat) (summary : SegmentSummary) : Except StoreError (Nat × Nat) :=
  if summary.nodeCount = 0 then .ok acc
  else if acc.1 ≠ 0 ∧ summary.firstSeq ≤ acc.1 then .error .corrupt
  else if summary.lastSeq < acc.2 then .ok acc
  else if summary.lastSeq = maxUint64 then .error .corrupt
  else .ok (summary.lastSeq, summary.lastSeq + 1)

namespace Disk

variable (d : Disk)

/-- `openSealed` under the sealed name. -/
def openSealed (id validEnd : Nat) : Except StoreError SegmentSummary :=
  if d.name id = some .sealed then (d.files id).openSealed (d.header id) validEnd else .error .notFound

/-- `openActive` under the active name; a tail that is cut short is truncated and synced. -/
def openActive (id : Nat) (root : MapAddr) : Except StoreError (Disk × SegmentSummary × Bool) :=
  if d.name id = some .active then
    match (d.files id).openActive (d.header id) root with
    | .error err => .error err
    | .ok (summary, repaired) =>
      .ok (if repaired then d.setFile id (d.files id).truncate.sync else d, summary, repaired)
  else .error .notFound

/-- The loop of `OpenWithFaultHook` over the sealed segments. -/
def openSealedSegment (acc : Nat × Nat) (ref : MapSegmentSummary) : Except StoreError (Nat × Nat) :=
  match d.openSealed ref.segmentID ref.validEnd with
  | .error err => .error err
  | .ok summary => nextSequence acc summary

/-- The node at an address of an open store, given the active segment and its summary. -/
def read (active : Nat) (summary : SegmentSummary) : Radix.NodeReader := fun addr =>
  if addr.valid = false then .error .invalid
  else if addr.segmentID = active then (d.files active).readNodeAt summary.validEnd addr.offset
  else
    match d.manifest.sealedMapSegments.find? fun ref => ref.segmentID = addr.segmentID with
    | none => .error .invalid
    | some ref => (d.files ref.segmentID).readNodeAt ref.validEnd addr.offset

/-- The check of the root node at the end of `OpenWithFaultHook`. -/
def rootValid (summary : SegmentSummary) : Bool :=
  d.manifest.mappingRoot = ⟨0⟩ ||
    match d.read d.manifest.activeMapSegmentID summary d.manifest.mappingRoot with
    | .error _ => false
    | .ok node => node.level = maxLevel && node.keyPrefix = 0 && node.coveredCommitSeq ≤ d.manifest.coveredCommitSeq

/-- The nodes that the syncs of their files cover. -/
def syncedReader : Radix.NodeReader := fun addr =>
  if addr.valid = false then .error .invalid
  else if addr.segmentID = d.manifest.activeMapSegmentID ∨
      ∃ ref ∈ d.manifest.sealedMapSegments, ref.segmentID = addr.segmentID then
    match pieceAt Piece.size (d.files addr.segmentID).pieces addr.offset with
    | some (.node n) =>
      if addr.offset + n.physicalSize ≤ (d.files addr.segmentID).synced then .ok n else .error .invalid
    | _ => .error .invalid
  else .error .invalid

/-- The tree of a root, read from the synced nodes only. -/
def syncedTree (root : MapAddr) (covered : Nat) : Radix.Tree := ⟨d.syncedReader, root, covered⟩

end Disk

/-! ## §3 — Appending and rotating -/

namespace State

variable (s : State)

/-- The node is written at the end of the active segment. -/
def appendNode (m : Memory) (build : NodeBuild) : State :=
  let node : Node := { build with nodeSeq := m.nextSeq }
  { s.onDisk (s.writeNode m.active m.summary.validEnd node) with
    memory := some { m with summary := m.summary.push node, nextSeq := m.nextSeq + 1, pending := none }
    phase := .idle }

/-- The node fits into the active segment. -/
def fits (m : Memory) (build : NodeBuild) : Bool :=
  m.summary.validEnd + build.physicalSize + segmentFooterSize ≤ s.manifest.segmentSize

/-- `Store.rotate` up to the sync of the temporary file of the journal. -/
def startRotation (m : Memory) (build : NodeBuild) : State :=
  let j : RotationJournal :=
    ⟨s.manifest.generation, m.summary, s.manifest.nextMapSegmentID, s.manifest.nextMapSegmentID + 1⟩
  if s.snapshotValid = false ∨ s.manifest.activeMapSegmentID ≠ m.active ∨ s.manifest.nextMapSegmentID ≠ m.next then
    s.fail .corrupt
  else if j.valid s.manifest.segmentSize = false then s.fail .invalid
  else { s with
    journal := s.journal.write .temp
    memory := some { m with pending := some build }
    phase := .journalRename j }

/-- `appendBuild`; an append that is refused changes nothing. -/
def append (m : Memory) (build : NodeBuild) : State :=
  if m.nextSeq = maxUint64 ∨ build.encodable = false then s
  else if s.fits m build then s.appendNode m build
  else if m.summary.nodeCount = 0 then s
  else s.startRotation m build

/-- `installCatalogRotation`: after a conflict the fresh generation is tried, up to 16 times. -/
def installRotation (j : RotationJournal) (expected attempt : Nat) : State :=
  match s.manifest.installMapRotation expected ⟨j.old.segmentID, j.old.validEnd⟩ j.newActive j.nextSegment with
  | .ok m => if committedRotation m j then { s with manifest := m, phase := .removeJournal j } else s.fail .corrupt
  | .error err =>
    if committedRotation s.manifest j then s.goto (.removeJournal j)
    else if s.manifest.generation = expected then s.fail err
    else if s.manifest.activeMapSegmentID ≠ j.old.segmentID ∨ s.manifest.nextMapSegmentID ≠ j.newActive then
      s.fail .corrupt
    else if 16 ≤ attempt + 1 then s.fail .conflict
    else s.goto (.install j s.manifest.generation (attempt + 1))

/-- The end of a rotation: the store goes on with the node that did not fit. -/
def finish : State :=
  match s.memory with
  | none => s.goto .openFiles
  | some m =>
    match m.pending with
    | some build =>
      if s.fits m build then s.appendNode m build
      else { s with memory := some { m with pending := none }, phase := .idle }
    | none => s.goto .idle

/-! ## §4 — Recovering -/

/-- `recoverRotation` up to the decision what is left to do. -/
def loadJournal : State :=
  match s.journal.current with
  | .absent => s.syncDirectory.goto .openFiles
  | .temp => { s with journal := s.journal.write .absent, phase := .removeSync }
  | .installed j =>
    if s.manifest.generation < j.baseGeneration then s.fail .corrupt
    else if committedRotation s.manifest j then s.goto (.verify j)
    else if s.manifest.activeMapSegmentID ≠ j.old.segmentID ∨ s.manifest.nextMapSegmentID ≠ j.newActive then
      s.fail .corrupt
    else s.goto (.resumeSeal j)

/-- `resumeSeal` up to the sync of the footer. -/
def resumeSeal (j : RotationJournal) : State :=
  let f := s.files j.old.segmentID
  match s.name j.old.segmentID with
  | some .sealed =>
    match s.openSealed j.old.segmentID j.old.validEnd with
    | .error err => s.fail err
    | .ok _ => s.goto (.ensureActive j)
  | some .active =>
    match f.verifyHeader (s.header j.old.segmentID) with
    | .error err => s.fail err
    | .ok _ =>
      if f.size < j.old.validEnd ∨ j.old.validEnd + segmentFooterSize < f.size then s.fail .corrupt
      else
        match f.scanNodes (s.header j.old.segmentID) j.old.validEnd s.manifest.mappingRoot with
        | .error err => s.fail err
        | .ok (actual, repaired) =>
          if repaired ∨ actual ≠ j.old then s.fail .corrupt
          else if f.size ≠ j.old.validEnd + segmentFooterSize then
            (s.onDisk (s.setFile j.old.segmentID (f.truncate.append (.footer j.old)))).goto (.footerSync j)
          else
            match f.footerAt j.old.validEnd with
            | .error err => s.fail err
            | .ok footer => if footer = j.old then s.goto (.footerSync j) else s.fail .corrupt
  | _ => s.fail .corrupt

/-- `ensureNewActive` up to the creation of the file. -/
def ensureActive (j : RotationJournal) : State :=
  match s.name j.newActive with
  | some .active =>
    match s.openActive j.newActive ⟨0⟩ with
    | .error err => s.fail err
    | .ok (d, summary, repaired) =>
      if repaired ∨ summary.nodeCount ≠ 0 then s.fail .corrupt
      else (s.onDisk d).goto (.install j s.manifest.generation 0)
  | some .creating => (s.onDisk (s.setName j.newActive none)).goto (.create j)
  | _ => s.goto (.create j)

/-- `verifyCommittedRotationFiles`. -/
def verifyCommitted (j : RotationJournal) : State :=
  match s.openSealed j.old.segmentID j.old.validEnd with
  | .error err => s.fail err
  | .ok _ =>
    match s.openActive j.newActive s.manifest.mappingRoot with
    | .error err => s.fail err
    | .ok (d, _, _) => (s.onDisk d).goto (.removeJournal j)

/-- The rest of `OpenWithFaultHook`. -/
def openFiles : State :=
  let active := s.manifest.activeMapSegmentID
  if s.snapshotValid = false then s.fail .invalid
  else
    match scan s.openSealedSegment (0, 1) s.manifest.sealedMapSegments with
    | .error err => s.fail err
    | .ok acc =>
      match s.openActive active s.manifest.mappingRoot with
      | .error err => s.fail err
      | .ok (d, summary, _) =>
        match nextSequence acc summary with
        | .error err => s.fail err
        | .ok (_, nextSeq) =>
          if d.rootValid summary then
            { s.onDisk d with
              memory := some ⟨active, s.manifest.nextMapSegmentID, summary, nextSeq, false, none⟩
              phase := .idle }
          else s.fail .corrupt

/-! ## §5 — The system -/

/-- The next operation of the rotation or the recovery under way. -/
def advance : Option State :=
  match s.phase with
  | .idle | .failed _ => none
  | .journalRename j => some { s with journal := s.journal.write (.installed j), phase := .journalSync j }
  | .journalSync j => some (s.syncDirectory.goto (.footer j))
  | .footer j =>
    let f := (s.files j.old.segmentID).append (.footer j.old)
    some ((s.onDisk (s.setFile j.old.segmentID f)).goto (.footerSync j))
  | .footerSync j =>
    some ((s.onDisk (s.setFile j.old.segmentID (s.files j.old.segmentID).sync)).goto (.sealRename j))
  | .sealRename j => some ((s.onDisk (s.setName j.old.segmentID (some .sealed))).goto (.sealSync j))
  | .sealSync j =>
    match s.memory with
    | some _ => some (s.syncDirectory.goto (.create j))
    | none =>
      match s.syncDirectory.openSealed j.old.segmentID j.old.validEnd with
      | .error err => some (s.syncDirectory.fail err)
      | .ok _ => some (s.syncDirectory.goto (.ensureActive j))
  | .create j =>
    if s.name j.newActive = some .creating then some (s.fail .invalid)
    else
      let f := File.empty.append (.header (s.header j.newActive))
      some ((s.onDisk ((s.setName j.newActive (some .creating)).setFile j.newActive f)).goto (.createSync j))
  | .createSync j => some ((s.onDisk (s.setFile j.newActive (s.files j.newActive).sync)).goto (.createRename j))
  | .createRename j => some ((s.onDisk (s.setName j.newActive (some .active))).goto (.createDirSync j))
  | .createDirSync j => some (s.syncDirectory.goto (.install j s.manifest.generation 0))
  | .install j expected attempt => some (s.installRotation j expected attempt)
  | .removeJournal j =>
    -- A running store has swapped its active segment before it removes the journal.
    some { s with
      journal := s.journal.write .absent
      memory := s.memory.map fun m =>
        { m with active := j.newActive, next := s.manifest.nextMapSegmentID, summary := .empty j.newActive }
      phase := .removeSync }
  | .removeSync => some s.syncDirectory.finish
  | .load => some s.loadJournal
  | .resumeSeal j => some (s.resumeSeal j)
  | .ensureActive j => some (s.ensureActive j)
  | .verify j => some (s.verifyCommitted j)
  | .openFiles => some s.openFiles

end State

/-- What may happen next.  A crash keeps of every file the bytes `keep` counts, if they are more than its
synced ones, and of every directory entry the value that `entry` and `journal` choose.  The end of the process
leaves everything as it is: what was not synced is still not. -/
inductive Event
  | append (build : NodeBuild)
  | sync
  | advance
  | checkpoint (base : Manifest) (update : Checkpoint)
  | dataRotation (sealedOld : RecordLog.SegmentSummary)
  | crash (keep entry : Nat → Nat) (journal : Nat)
  | stop

/-- An open store that is not poisoned and does not rotate. -/
def State.ready (s : State) : Option Memory :=
  match s.phase, s.memory with
  | .idle, some m => if m.poisoned then none else some m
  | _, _ => none

/-- The rotation goes on unless it has poisoned the store. -/
def State.stuck (s : State) : Bool := s.memory.any Memory.poisoned

/-- One event. -/
def State.step (s : State) : Event → Option State
  | .append build => s.ready.map fun m => s.append m build
  | .sync => s.ready.map fun m => s.onDisk (s.setFile m.active (s.files m.active).sync)
  | .advance => if s.stuck then none else s.advance
  | .checkpoint base update =>
    -- A checkpoint installs a root whose nodes `Sync` has made durable.
    match s.ready, (s.syncedTree update.mappingRoot update.coveredCommitSeq).walkRefs,
        s.manifest.installCheckpoint base update with
    | some _, .ok _, .ok m => some { s with manifest := m }
    | _, _, _ => none
  | .dataRotation sealedOld =>
    match s.memory, s.manifest.installDataRotation s.manifest.generation sealedOld
        s.manifest.nextDataSegmentID (s.manifest.nextDataSegmentID + 1) with
    | some _, .ok m => some { s with manifest := m }
    | _, _ => none
  | .crash keep entry journal =>
    some { s with
      files := fun id => (s.files id).crash (keep id)
      names := fun id => (s.names id).crash (entry id)
      journal := s.journal.crash journal
      memory := none
      phase := .load }
  | .stop => some { s with memory := none, phase := .load }

-- The equations of the step functions are generated here, once for all the step lemmas.
section
attribute [local simp] State.advance State.step
end

/-- The store as `CreateInitialSegment` and the first opening leave it: one empty active segment. -/
structure Fresh (s : State) : Prop where
  valid : s.manifest.Valid
  generation : s.manifest.generation < maxUint64
  next : s.manifest.nextMapSegmentID = s.manifest.activeMapSegmentID + 1
  active : s.manifest.activeMapSegmentID < maxUint32
  noSealed : s.manifest.sealedMapSegments = []
  root : s.manifest.mappingRoot = ⟨0⟩
  file : s.files s.manifest.activeMapSegmentID =
    (File.empty.append (.header (s.header s.manifest.activeMapSegmentID))).sync
  name : s.names s.manifest.activeMapSegmentID = .of (some .active)
  noNames : ∀ id ≠ s.manifest.activeMapSegmentID, s.names id = .of none
  journal : s.journal = .of .absent
  appended : s.appended = fun _ => none
  memory : s.memory = some ⟨s.manifest.activeMapSegmentID, s.manifest.nextMapSegmentID,
    .empty s.manifest.activeMapSegmentID, 1, false, none⟩
  phase : s.phase = .idle

/-- **The mapping store as a system**: appends, rotations, checkpoints, crashes, ends of the process and recoveries. -/
def system : Machine State Event := ⟨Fresh, State.step⟩

end Ridstore.MapStore
