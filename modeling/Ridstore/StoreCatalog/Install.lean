import Ridstore.StoreCatalog.Manifest

/-
# Ridstore.StoreCatalog.Install — the operations of the catalog manager

Each operation runs under the manager's mutex and is a function from the current manifest to the one it
installs.  File operations succeed here: an error is one that the manager returns by itself.
-/

namespace Ridstore.StoreCatalog

open MapStore (MapAddr)
open List
open RecordLog (LogPos SegmentSummary isCompactionSegment compactionSegmentBase)

/-- `sortDataSegments`. -/
def sortDataSegments (segments : List SegmentSummary) : List SegmentSummary :=
  segments.insertionSort fun a b => a.segmentID ≤ b.segmentID

/-- **`StatsKnownForSegment`**: the segment lies strictly behind the position replay starts from. -/
def statsKnownForSegment (replayStart : LogPos) (s : SegmentSummary) : Bool :=
  isCompactionSegment s.segmentID || LogPos.lt ⟨s.segmentID, s.validEnd⟩ replayStart

structure Checkpoint where
  mappingRoot : MapAddr
  mappingEntryCount : Nat
  coveredCommitSeq : Nat
  replayStart : LogPos
  reservedIDHigh : Nat
  reservedBatchIDHigh : Nat
  issuedBatchIDHighAtCut : Nat
  openBatchIDsAtCut : List Nat
  statsCoveredCommitSeq : Nat
  segmentStats : List SegmentStats
  deriving DecidableEq, Repr

/-- `MappingRewrite`. -/
structure MappingRewrite where
  sealedSegments : List MapSegmentSummary
  activeSegment : Nat
  nextSegment : Nat
  root : MapAddr
  covered : Nat
  deriving DecidableEq, Repr

/-- `DataRetire`. -/
structure DataRetire where
  source : SegmentSummary
  coveredCommitSeq : Nat
  replayStart : LogPos
  deriving DecidableEq, Repr

namespace Manifest

/-- The common end of the operations: count the generation up, change, validate, encode. -/
def advance (m : Manifest) (mutate : Manifest → Except StoreError Manifest) : Except StoreError Manifest :=
  if m.generation = maxUint64 then .error .invalid
  else
    match mutate { m with generation := m.generation + 1 } with
    | .error err => .error err
    | .ok next => if next.Encodable then .ok next else .error .invalid

/-- `Manager.install`. -/
def install (m : Manifest) (expect : Nat) (mutate : Manifest → Except StoreError Manifest) :
    Except StoreError Manifest :=
  if expect ≠ m.generation then .error .conflict else m.advance mutate

/-- `InstallDataRotation`. -/
def installDataRotation (m : Manifest) (expect : Nat) (sealedOld : SegmentSummary) (newActive nextID : Nat) :
    Except StoreError Manifest :=
  m.install expect fun next =>
    if sealedOld.segmentID ≠ next.activeDataSegmentID ∨ newActive ≠ next.nextDataSegmentID ∨
        nextID ≠ newActive + 1 ∨ newActive = maxUint32 then .error .invalid
    else .ok { next with
      sealedDataSegments := sortDataSegments (next.sealedDataSegments ++ [sealedOld])
      activeDataSegmentID := newActive, nextDataSegmentID := nextID }

/-- `ReserveCompactionSegments`: the next `count` numbers of the high range, counted down. -/
def reserveCompactionSegments (m : Manifest) (expect count : Nat) : Except StoreError (Manifest × List Nat) :=
  let top := if m.compactionSegmentFloor = 0 then maxUint32 else m.compactionSegmentFloor
  if count = 0 then .error .invalid
  else if expect ≠ m.generation then .error .conflict
  else if top < compactionSegmentBase ∨ top - compactionSegmentBase + 1 < count then .error .invalid
  else
    match m.advance fun next => .ok { next with compactionSegmentFloor := top - count } with
    | .error err => .error err
    | .ok next => .ok (next, List.range' (top - count + 1) count)

/-- `InstallCompactionOutputs`. -/
def installCompactionOutputs (m : Manifest) (expect : Nat) (outputs : List SegmentSummary) :
    Except StoreError Manifest :=
  m.install expect fun next =>
    if outputs = [] ∨ next.compactionSegmentFloor = 0 then .error .invalid
    else if ∃ output ∈ outputs, isCompactionSegment output.segmentID = false ∨
        output.segmentID ≤ next.compactionSegmentFloor then .error .invalid
    -- An output may repeat neither a segment of the manifest nor an earlier output.
    else if ¬ ((next.sealedDataSegments ++ outputs).map SegmentSummary.segmentID).Nodup then .error .invalid
    else .ok { next with sealedDataSegments := sortDataSegments (next.sealedDataSegments ++ outputs) }

/-- Of inputs with one number the last counts. -/
def removed (inputs : List SegmentSummary) (id : Nat) : Option SegmentSummary :=
  inputs.reverse.find? fun s => s.segmentID = id

/-- `InstallDataCompaction`: the inputs of a compaction leave the manifest. -/
def installDataCompaction (m : Manifest) (expect : Nat) (inputs : List SegmentSummary) (covered : Nat)
    (replayStart : LogPos) : Except StoreError Manifest :=
  m.install expect fun next =>
    if inputs = [] ∨ covered ≠ next.coveredCommitSeq ∨ replayStart ≠ next.replayStart then .error .invalid
    else if ∃ input ∈ inputs, input.segmentID = next.activeDataSegmentID ∨
        statsKnownForSegment next.replayStart input = false ∨
        ∃ stat ∈ next.segmentStats, stat.segmentID = input.segmentID ∧
          (stat.liveBytes ≠ 0 ∨ stat.liveRecords ≠ 0) then .error .invalid
    else if ∃ input ∈ inputs, (removed inputs input.segmentID).any fun want =>
        want ∉ next.sealedDataSegments then .error .invalid
    else .ok { next with
      sealedDataSegments := next.sealedDataSegments.filter fun s => s.segmentID ∉ inputs.map (·.segmentID)
      segmentStats := next.segmentStats.filter fun stat => stat.segmentID ∉ inputs.map (·.segmentID) }

/-- `InstallMapRotation`. -/
def installMapRotation (m : Manifest) (expect : Nat) (sealedOld : MapSegmentSummary) (newActive nextID : Nat) :
    Except StoreError Manifest :=
  m.install expect fun next =>
    if sealedOld.segmentID ≠ next.activeMapSegmentID ∨ newActive ≠ next.nextMapSegmentID ∨
        nextID ≠ newActive + 1 ∨ newActive = maxUint32 then .error .invalid
    else .ok { next with
      sealedMapSegments := next.sealedMapSegments ++ [sealedOld]
      activeMapSegmentID := newActive, nextMapSegmentID := nextID }

/-- `splitDataSegments`, the outputs of compactions apart. -/
def normalSegments (m : Manifest) : List SegmentSummary :=
  m.sealedDataSegments.filter fun s => isCompactionSegment s.segmentID = false

def outputSegments (m : Manifest) : List SegmentSummary :=
  m.sealedDataSegments.filter fun s => isCompactionSegment s.segmentID

/-- The segments that were rotated out, in order, from the active one on. -/
def rotations : Nat → Nat → List SegmentSummary → Option (Nat × Nat)
  | active, next, [] => some (active, next)
  | active, next, s :: rest =>
    if s.segmentID = active ∧ next = active + 1 then rotations next (next + 1) rest else none

/-- The manifest without what a data rotation changes. -/
def withoutDataSet (m : Manifest) : Manifest :=
  { m with generation := 0, activeDataSegmentID := 0, nextDataSegmentID := 0, sealedDataSegments := [] }

/-- **`checkpointBaseCompatible`**: only data rotations happened since the base.  The flags say which of the two lists
of sealed segments is a nil slice; the outputs, a tail of the list, are then nil too, and `reflect.DeepEqual` tells a
nil slice from an empty one. -/
def rebaseCompatible (baseNil currentNil : Bool) (base current : Manifest) : Prop :=
  base.generation ≠ 0 ∧ base.generation ≤ current.generation ∧
    base.withoutDataSet = current.withoutDataSet ∧
    (baseNil = currentNil ∧ base.outputSegments = current.outputSegments) ∧
    base.normalSegments <+: current.normalSegments ∧
    rotations base.activeDataSegmentID base.nextDataSegmentID
      (current.normalSegments.drop base.normalSegments.length) =
        some (current.activeDataSegmentID, current.nextDataSegmentID)

instance (baseNil currentNil : Bool) (base current : Manifest) :
    Decidable (rebaseCompatible baseNil currentNil base current) :=
  inferInstanceAs (Decidable (_ ∧ _))

/-- `checkpointBaseCompatible` of two manifests of the manager: each is a `Clone`, whose empty slices are nil. -/
def checkpointBaseCompatible (base current : Manifest) : Prop :=
  rebaseCompatible base.sealedDataSegments.isEmpty current.sealedDataSegments.isEmpty base current

instance (base current : Manifest) : Decidable (checkpointBaseCompatible base current) :=
  inferInstanceAs (Decidable (rebaseCompatible _ _ _ _))

/-- The manifest with the fields of a checkpoint. -/
def withCheckpoint (m : Manifest) (update : Checkpoint) : Manifest :=
  { m with
    mappingRoot := update.mappingRoot, mappingEntryCount := update.mappingEntryCount
    coveredCommitSeq := update.coveredCommitSeq, replayStart := update.replayStart
    reservedIDHigh := update.reservedIDHigh, reservedBatchIDHigh := update.reservedBatchIDHigh
    issuedBatchIDHighAtCut := update.issuedBatchIDHighAtCut, openBatchIDsAtCut := update.openBatchIDsAtCut
    statsCoveredCommitSeq := update.statsCoveredCommitSeq, segmentStats := update.segmentStats }

/-- `applyCheckpoint`. -/
def applyCheckpoint (next : Manifest) (update : Checkpoint) : Except StoreError Manifest :=
  if update.coveredCommitSeq < next.coveredCommitSeq ∨ update.replayStart.lt next.replayStart ∨
      update.reservedIDHigh < next.reservedIDHigh ∨ update.reservedBatchIDHigh < next.reservedBatchIDHigh ∨
      update.issuedBatchIDHighAtCut < next.issuedBatchIDHighAtCut then .error .invalid
  else .ok (next.withCheckpoint update)

/-- `InstallCheckpoint`. -/
def installCheckpoint (m base : Manifest) (update : Checkpoint) : Except StoreError Manifest :=
  if ¬ checkpointBaseCompatible base m then .error .conflict
  else m.advance fun next => next.applyCheckpoint update

/-- `InstallMappingRewrite`: the complete mapping file set is replaced. -/
def installMappingRewrite (m base : Manifest) (update : MappingRewrite) : Except StoreError Manifest :=
  if ¬ checkpointBaseCompatible base m then .error .conflict
  else m.advance fun next =>
    let first := (update.sealedSegments.head?.map MapSegmentSummary.segmentID).getD update.activeSegment
    if update.covered ≠ next.coveredCommitSeq ∨ update.activeSegment = 0 ∨ update.activeSegment = maxUint32 ∨
        update.nextSegment ≠ update.activeSegment + 1 ∨ first ≠ next.nextMapSegmentID ∨
        -- The new files are numbered in one run that ends at the active one.
        update.sealedSegments.map MapSegmentSummary.segmentID ≠ List.range' first update.sealedSegments.length ∨
        first + update.sealedSegments.length ≠ update.activeSegment ∨
        (update.root = ⟨0⟩ ∧ update.sealedSegments ≠ []) then .error .invalid
    else .ok { next with
      sealedMapSegments := update.sealedSegments, activeMapSegmentID := update.activeSegment
      nextMapSegmentID := update.nextSegment, mappingRoot := update.root }

/-- **`applyDataRetire`.** -/
def applyDataRetire (next : Manifest) (update : DataRetire) : Except StoreError Manifest :=
  if update.coveredCommitSeq ≠ next.coveredCommitSeq ∨ update.source.segmentID = next.activeDataSegmentID then
    .error .invalid
  else if update.source ∉ next.sealedDataSegments then .error .invalid
  else if statsKnownForSegment next.replayStart update.source = false then .error .invalid
  -- the first entry of the segment counts
  else if (next.segmentStats.find? fun stat => stat.segmentID = update.source.segmentID).any
      fun stat => stat.liveBytes ≠ 0 ∨ stat.liveRecords ≠ 0 then .error .invalid
  else if update.replayStart ≠ next.replayStart then .error .invalid
  else .ok { next with
    sealedDataSegments := next.sealedDataSegments.erase update.source
    segmentStats := next.segmentStats.filter fun stat => stat.segmentID ≠ update.source.segmentID
    replayStart := update.replayStart }

/-- `InstallDataRetire`. -/
def installDataRetire (m : Manifest) (expect : Nat) (update : DataRetire) : Except StoreError Manifest :=
  m.install expect fun next => next.applyDataRetire update

/-- `RemoveRecordLogSegment`: any generation from the one of the proof on will do. -/
def removeRecordLogSegment (m : Manifest) (minimumGeneration : Nat) (sealedOld : SegmentSummary) :
    Except StoreError Manifest :=
  if m.generation < minimumGeneration ∨ m.generation = maxUint64 then .error .conflict
  else m.advance fun next => next.applyDataRetire ⟨sealedOld, m.coveredCommitSeq, m.replayStart⟩

/-! ## What the operations accept -/

variable {m next : Manifest} {expect : Nat} {mutate : Manifest → Except StoreError Manifest}
  {inputs outputs : List SegmentSummary} {segments : List SegmentSummary} {stats : List SegmentStats}
  {generation : Nat}

/-- An installed manifest is valid and one generation further. -/
theorem advance_eq_ok (h : m.advance mutate = .ok next) :
    m.generation ≠ maxUint64 ∧ mutate { m with generation := m.generation + 1 } = .ok next ∧ next.Encodable := by
  obtain ⟨hgen, h⟩ := Lib.guard_eq_ok h
  split at h
  · cases h
  next m' hm' =>
    split at h
    next hvalid =>
      cases h
      exact ⟨hgen, hm', hvalid⟩
    next => cases h

theorem install_eq_ok (h : m.install expect mutate = .ok next) :
    mutate { m with generation := m.generation + 1 } = .ok next ∧ next.Encodable := by
  obtain ⟨-, h⟩ := Lib.guard_eq_ok h
  exact (advance_eq_ok h).2

theorem advance_ok (hgen : m.generation ≠ maxUint64)
    (hmutate : mutate { m with generation := m.generation + 1 } = .ok next) (hvalid : next.Encodable) :
    m.advance mutate = .ok next := by
  simp only [advance, if_neg hgen, hmutate, if_pos hvalid]

theorem install_ok (h : m.advance mutate = .ok next) : m.install m.generation mutate = .ok next := by
  simpa only [install, ne_eq, not_true_eq_false, if_false] using h

/-- What an installed data rotation has changed. -/
theorem installDataRotation_eq_ok {sealedOld : SegmentSummary} {newActive nextID : Nat}
    (h : m.installDataRotation expect sealedOld newActive nextID = .ok next) :
    sealedOld.segmentID = m.activeDataSegmentID ∧ newActive = m.nextDataSegmentID ∧ next.Encodable ∧
      next = { m with
        generation := m.generation + 1
        sealedDataSegments := sortDataSegments (m.sealedDataSegments ++ [sealedOld])
        activeDataSegmentID := newActive, nextDataSegmentID := nextID } := by
  obtain ⟨hmutate, hvalid⟩ := install_eq_ok h
  obtain ⟨hguard, hmutate⟩ := Lib.guard_eq_ok hmutate
  simp only [not_or, ne_eq, not_not] at hguard
  cases hmutate
  exact ⟨hguard.1, hguard.2.1, hvalid, rfl⟩

/-- What an installed checkpoint has changed. -/
theorem installCheckpoint_eq_ok {base : Manifest} {update : Checkpoint}
    (h : m.installCheckpoint base update = .ok next) :
    (m.coveredCommitSeq ≤ update.coveredCommitSeq ∧ update.replayStart.lt m.replayStart = false ∧
      m.reservedIDHigh ≤ update.reservedIDHigh ∧ m.reservedBatchIDHigh ≤ update.reservedBatchIDHigh ∧
      m.issuedBatchIDHighAtCut ≤ update.issuedBatchIDHighAtCut) ∧ next.Encodable ∧
      next = withCheckpoint { m with generation := m.generation + 1 } update := by
  obtain ⟨-, h⟩ := Lib.guard_eq_ok h
  obtain ⟨-, hmutate, hvalid⟩ := advance_eq_ok h
  obtain ⟨hguard, hmutate⟩ := Lib.guard_eq_ok hmutate
  simp only [not_or, not_lt, Bool.not_eq_true] at hguard
  cases hmutate
  exact ⟨hguard, hvalid, rfl⟩

/-- Sorting by different keys puts the keys in increasing order. -/
theorem insertionSort_increasing {α : Type*} (key : α → Nat) {l : List α} (h : (l.map key).Nodup) :
    ((l.insertionSort fun a b => key a ≤ key b).map key).Pairwise (· < ·) := by
  have hperm := perm_insertionSort (fun a b => key a ≤ key b) l
  have hnodup : ((l.insertionSort fun a b => key a ≤ key b).map key).Nodup := (hperm.map _).nodup_iff.mpr h
  have hsorted : (l.insertionSort fun a b => key a ≤ key b).Pairwise fun a b => key a ≤ key b :=
    pairwise_insertionSort _ _
  rw [pairwise_map]
  rw [List.Nodup, pairwise_map] at hnodup
  refine (hsorted.and hnodup).imp ?_
  rintro a b ⟨hle, hne⟩
  omega

theorem mem_sortDataSegments {s : SegmentSummary} : s ∈ sortDataSegments segments ↔ s ∈ segments :=
  (perm_insertionSort _ segments).mem_iff

/-- Two entries of a list with increasing keys and the same key are one. -/
theorem eq_of_segmentID_eq {s t : SegmentSummary} (h : (segments.map SegmentSummary.segmentID).Pairwise (· < ·))
    (hs : s ∈ segments) (ht : t ∈ segments) (hid : s.segmentID = t.segmentID) : s = t :=
  inj_on_of_nodup_map (h.imp Nat.ne_of_lt) hs ht hid

/-- With different keys an element is the one that is found by its key. -/
theorem find?_key {α : Type*} (key : α → Nat) {l : List α} (h : (l.map key).Nodup) {a : α} (ha : a ∈ l) :
    l.find? (fun x => key x = key a) = some a := by
  have hsome : (l.find? fun x => key x = key a).isSome = true := List.find?_isSome.mpr ⟨a, ha, decide_eq_true rfl⟩
  obtain ⟨x, hx⟩ := Option.isSome_iff_exists.mp hsome
  have hfound := List.find?_some hx
  rw [hx, inj_on_of_nodup_map h (mem_of_find?_eq_some hx) ha (of_decide_eq_true hfound)]

/-- The root is still found when the active mapping segment is sealed behind it. -/
theorem RootFound.rotated {validEnd : Nat} (h : m.Valid)
    (hroot : m.mappingRoot.segmentID = m.activeMapSegmentID → m.mappingRoot.offset < validEnd) :
    RootFound { m with
      generation := m.generation + 1
      sealedMapSegments := m.sealedMapSegments ++ [⟨m.activeMapSegmentID, validEnd⟩]
      activeMapSegmentID := m.nextMapSegmentID
      nextMapSegmentID := m.nextMapSegmentID + 1 } := by
  have hnext := h.nextMap
  have hfound := h.map.root
  simp only [RootFound] at hfound ⊢
  rcases hfound with hzero | ⟨hvalid, hin⟩
  · exact .inl hzero
  · refine .inr ⟨hvalid, ?_⟩
    split at hin
    next hactive =>
      rw [if_neg (by omega)]
      exact ⟨_, mem_append_right _ mem_cons_self, hactive.symm, hroot hactive⟩
    next hactive =>
      obtain ⟨s, hs, hid, hlt⟩ := hin
      have hbelow := (h.map.segments s hs).2.1
      rw [if_neg (by omega)]
      exact ⟨s, mem_append_left _ hs, hid, hlt⟩

/-- **`InstallMapRotation` is taken** when the sealed segment ends behind the root and there is room. -/
theorem installMapRotation_accepts {validEnd : Nat} (h : m.Valid) (hgen : m.generation ≠ maxUint64)
    (hbound : m.nextMapSegmentID < maxUint32) (hsize : m.payloadSize + 8 ≤ maxManifestPayload)
    (hstart : MapStore.segmentHeaderSize ≤ validEnd) (hend : validEnd + MapStore.segmentFooterSize ≤ m.segmentSize)
    (haligned : validEnd % MapStore.alignment = 0)
    (hroot : m.mappingRoot.segmentID = m.activeMapSegmentID → m.mappingRoot.offset < validEnd) :
    m.installMapRotation m.generation ⟨m.activeMapSegmentID, validEnd⟩ m.nextMapSegmentID (m.nextMapSegmentID + 1) =
      .ok { m with
        generation := m.generation + 1
        sealedMapSegments := m.sealedMapSegments ++ [⟨m.activeMapSegmentID, validEnd⟩]
        activeMapSegmentID := m.nextMapSegmentID
        nextMapSegmentID := m.nextMapSegmentID + 1 } := by
  have hnext := h.nextMap
  have hactive := h.activeMap
  refine install_ok (advance_ok hgen ?_ ⟨?_, ?_⟩)
  · rw [if_neg]
    rintro (hne | hne | hne | heq)
    · exact hne rfl
    · exact hne rfl
    · exact hne rfl
    · omega
  · exact
    { h with
      generation := Nat.succ_pos _
      activeMap := Nat.lt_trans hactive hnext
      nextMap := Nat.lt_succ_self _
      mapCount := by
        rw [payloadSize_eq] at hsize
        rw [length_append, length_singleton]
        omega
      data := { h.data with }
      map :=
      { increasing := by
          rw [map_append]
          refine pairwise_append.mpr ⟨h.map.increasing, pairwise_singleton _ _, ?_⟩
          intro a ha b hb
          obtain ⟨s, hs, rfl⟩ := mem_map.mp ha
          rw [mem_singleton.mp hb]
          exact (h.map.segments s hs).2.1
        segments := by
          intro s hs
          rcases mem_append.mp hs with hold | hnew
          · obtain ⟨hpos, hlt, -, hrest⟩ := h.map.segments s hold
            have hlt' : s.segmentID < m.nextMapSegmentID := Nat.lt_trans hlt hnext
            exact ⟨hpos, hlt', Nat.lt_succ_of_lt hlt', hrest⟩
          · rw [mem_singleton.mp hnew]
            exact ⟨hactive, hnext, Nat.lt_succ_of_lt hnext, hstart, hend, haligned⟩
        root := RootFound.rotated h hroot }
      stats := { h.stats with } }
  · rw [payloadSize_eq] at hsize ⊢
    dsimp only
    rw [length_append, length_singleton]
    omega

end Manifest

end Ridstore.StoreCatalog
