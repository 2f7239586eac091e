import Mathlib.Data.List.Sort
import Mathlib.Tactic.MkIffOfInductiveProp
import Ridstore.MapStore.Node
import Ridstore.RecordCodec.Group
import Ridstore.RecordLog.Format

/-
# Ridstore.StoreCatalog.Manifest — the manifest and its checks

The manifest names the files of the store and the checkpoint they belong to, and has the limits that the store was
created with.  `Validate` decides which manifests can be written at all: both directions of the codec and every
operation of the manager call it.
-/

namespace Ridstore.StoreCatalog

open MapStore (MapAddr)
open RecordLog (VAddr LogPos LogID SegmentSummary isCompactionSegment compactionSegmentBase)

/-! ## §1 — The manifest -/

/-- `HardLimits`. -/
structure HardLimits where
  segmentSize : Nat
  maxValueSize : Nat
  maxBatchBytes : Nat
  maxBatchMutations : Nat
  maxBatchConditions : Nat
  maxOpenBatches : Nat
  maxRecordLogPayload : Nat
  idReserveSize : Nat
  batchIDReserveSize : Nat
  deriving DecidableEq, Repr

/-- `MapSegmentSummary`, also the `SegmentRef` of a mapping file set. -/
structure MapSegmentSummary where
  segmentID : Nat
  validEnd : Nat
  deriving DecidableEq, Repr

/-- What the checkpointed mapping counts live in a data segment. -/
structure SegmentStats where
  segmentID : Nat
  liveBytes : Nat
  liveRecords : Nat
  deriving DecidableEq, Repr

/-- **`Manifest`**; the identity of the store has sixteen bytes, like that of the log. -/
structure Manifest where
  generation : Nat
  storeUUID : LogID
  hardLimits : HardLimits
  recordLogID : LogID
  activeDataSegmentID : Nat
  nextDataSegmentID : Nat
  compactionSegmentFloor : Nat
  sealedDataSegments : List SegmentSummary
  activeMapSegmentID : Nat
  nextMapSegmentID : Nat
  sealedMapSegments : List MapSegmentSummary
  mappingRoot : MapAddr
  mappingEntryCount : Nat
  coveredCommitSeq : Nat
  replayStart : LogPos
  reservedIDHigh : Nat
  reservedBatchIDHigh : Nat
  issuedBatchIDHighAtCut : Nat
  openBatchIDsAtCut : List Nat
  statsCoveredCommitSeq : Nat
  segmentStats : List SegmentStats
  deriving DecidableEq, Repr

def maxManifestPayload : Nat := 64 * 2 ^ 20

namespace HardLimits

/-- The largest put and the largest descriptor fit into a record. -/
def payloadsFit (h : HardLimits) : Bool :=
  match RecordCodec.putPayloadSize h.maxValueSize, RecordCodec.descriptorSize h.maxBatchMutations with
  | .ok putMax, .ok descriptorMax =>
    RecordCodec.commitGroupHeadSize + descriptorMax ≤ maxUint32 && putMax ≤ h.maxRecordLogPayload &&
      RecordCodec.commitGroupHeadSize + descriptorMax ≤ h.maxRecordLogPayload
  | _, _ => false

/-- The largest record fits into a segment. -/
def recordsFit (h : HardLimits) : Bool :=
  match RecordLog.physicalRecordSize h.maxRecordLogPayload with
  | some physical => physical ≤ h.segmentSize - RecordLog.segmentHeaderSize - RecordLog.segmentFooterSize
  | none => false

/-- **`validateHardLimits`.** -/
@[mk_iff] structure Valid (h : HardLimits) : Prop where
  nonzero : ∀ value ∈ [h.segmentSize, h.maxValueSize, h.maxBatchBytes, h.maxBatchMutations, h.maxBatchConditions,
    h.maxOpenBatches, h.maxRecordLogPayload, h.idReserveSize, h.batchIDReserveSize], value ≠ 0
  minimumSegment : RecordLog.segmentHeaderSize + RecordLog.recordHeaderSize + RecordLog.segmentFooterSize < h.segmentSize
  minimumMapSegment : MapStore.segmentHeaderSize + MapStore.denseNodeSize + MapStore.segmentFooterSize ≤ h.segmentSize
  maximum : h.segmentSize ≤ maxUint32
  aligned : h.segmentSize % RecordLog.recordAlignment = 0
  counts : h.maxBatchMutations ≤ maxUint32 ∧ h.maxBatchConditions ≤ maxUint32 ∧ h.maxOpenBatches ≤ maxUint32 ∧
    h.maxRecordLogPayload ≤ maxUint32
  batchBytes : h.maxValueSize ≤ h.maxBatchBytes
  payloads : h.payloadsFit = true
  records : h.recordsFit = true

instance (h : HardLimits) : Decidable h.Valid := decidable_of_iff _ h.valid_iff.symm

/-- **`withDefaults`.** -/
def withDefaults (h : HardLimits) : HardLimits where
  segmentSize := if h.segmentSize = 0 then 256 * 2 ^ 20 else h.segmentSize
  maxValueSize := if h.maxValueSize = 0 then 64 * 2 ^ 20 else h.maxValueSize
  maxBatchBytes := if h.maxBatchBytes = 0 then 256 * 2 ^ 20 else h.maxBatchBytes
  maxBatchMutations := if h.maxBatchMutations = 0 then 1000000 else h.maxBatchMutations
  maxBatchConditions := if h.maxBatchConditions = 0 then 1000000 else h.maxBatchConditions
  maxOpenBatches := if h.maxOpenBatches = 0 then 1024 else h.maxOpenBatches
  maxRecordLogPayload := if h.maxRecordLogPayload = 0 then 128 * 2 ^ 20 else h.maxRecordLogPayload
  idReserveSize := if h.idReserveSize = 0 then 2 ^ 20 else h.idReserveSize
  batchIDReserveSize := if h.batchIDReserveSize = 0 then 2 ^ 16 else h.batchIDReserveSize

/-- The limits of a store that was created with none of its own. -/
def defaults : HardLimits := withDefaults ⟨0, 0, 0, 0, 0, 0, 0, 0, 0⟩

theorem defaults_valid : defaults.Valid := by decide

end HardLimits

namespace Manifest

abbrev segmentSize (m : Manifest) : Nat := m.hardLimits.segmentSize

/-! ## §2 — The files -/

/-- The checks of `validateDataSet` on one sealed segment. -/
def ValidSegment (m : Manifest) (s : SegmentSummary) : Prop :=
  (s.segmentID < m.activeDataSegmentID ∨
      isCompactionSegment s.segmentID ∧ m.compactionSegmentFloor ≠ 0 ∧
        m.compactionSegmentFloor < s.segmentID) ∧
    s.segmentID ≠ m.activeDataSegmentID ∧ 0 < s.segmentID ∧
    RecordLog.segmentHeaderSize ≤ s.validEnd ∧ s.validEnd + RecordLog.segmentFooterSize ≤ m.segmentSize ∧
    s.validEnd % RecordLog.recordAlignment = 0 ∧
    (if s.recordCount = 0 then
      s.validEnd = RecordLog.segmentHeaderSize ∧ s.firstAddr = ⟨0⟩ ∧ s.lastAddr = ⟨0⟩
    else
      s.firstAddr.valid ∧ s.lastAddr.valid ∧ s.firstAddr.segmentID = s.segmentID ∧
        s.lastAddr.segmentID = s.segmentID ∧ s.firstAddr.raw ≤ s.lastAddr.raw ∧
        s.lastAddr.offset < s.validEnd)

instance (m : Manifest) : DecidablePred m.ValidSegment := fun _ => inferInstanceAs (Decidable (_ ∧ _))

/-- The position replay starts from lies in a file of the data set. -/
def ReplayFound (m : Manifest) : Prop :=
  if m.replayStart.segmentID = m.activeDataSegmentID then
    m.replayStart.offset + RecordLog.segmentFooterSize ≤ m.segmentSize
  else
    ∃ s ∈ m.sealedDataSegments, s.segmentID = m.replayStart.segmentID ∧ m.replayStart.offset ≤ s.validEnd

instance (m : Manifest) : Decidable m.ReplayFound := inferInstanceAs (Decidable (ite _ _ _))

/-- `validateDataSet`. -/
@[mk_iff] structure ValidData (m : Manifest) : Prop where
  active : m.activeDataSegmentID < compactionSegmentBase
  next : m.nextDataSegmentID = m.activeDataSegmentID + 1
  floor : m.compactionSegmentFloor = 0 ∨ compactionSegmentBase - 1 ≤ m.compactionSegmentFloor
  increasing : (m.sealedDataSegments.map SegmentSummary.segmentID).Pairwise (· < ·)
  segments : ∀ s ∈ m.sealedDataSegments, m.ValidSegment s
  replay : m.ReplayFound

instance (m : Manifest) : Decidable m.ValidData := decidable_of_iff _ m.validData_iff.symm

/-- The checks of `validateMapSet` on one sealed mapping file. -/
def ValidMapSegment (m : Manifest) (s : MapSegmentSummary) : Prop :=
  0 < s.segmentID ∧ s.segmentID < m.activeMapSegmentID ∧ s.segmentID < m.nextMapSegmentID ∧
    MapStore.segmentHeaderSize ≤ s.validEnd ∧ s.validEnd + MapStore.segmentFooterSize ≤ m.segmentSize ∧
    s.validEnd % MapStore.alignment = 0

instance (m : Manifest) : DecidablePred m.ValidMapSegment := fun _ => inferInstanceAs (Decidable (_ ∧ _))

/-- The root is a node of the mapping files, or the mapping is empty. -/
def RootFound (m : Manifest) : Prop :=
  m.mappingRoot = ⟨0⟩ ∨
    m.mappingRoot.valid ∧
      if m.mappingRoot.segmentID = m.activeMapSegmentID then
        m.mappingRoot.offset + MapStore.segmentFooterSize < m.segmentSize
      else
        ∃ s ∈ m.sealedMapSegments, s.segmentID = m.mappingRoot.segmentID ∧ m.mappingRoot.offset < s.validEnd

instance (m : Manifest) : Decidable m.RootFound := inferInstanceAs (Decidable (_ ∨ _))

/-- `validateMapSet`. -/
@[mk_iff] structure ValidMap (m : Manifest) : Prop where
  increasing : (m.sealedMapSegments.map MapSegmentSummary.segmentID).Pairwise (· < ·)
  segments : ∀ s ∈ m.sealedMapSegments, m.ValidMapSegment s
  root : m.RootFound

instance (m : Manifest) : Decidable m.ValidMap := decidable_of_iff _ m.validMap_iff.symm

/-! ## §3 — The checkpoint -/

/-- `strictBatchIDs`. -/
def StrictBatchIDs (values : List Nat) (high : Nat) : Prop :=
  (∀ value ∈ values, value ≠ 0 ∧ value < high) ∧ values.Pairwise (· < ·)

/-- The checks of `Validate` on the highs and on the batches that were open at the cut. -/
def ValidHighs (m : Manifest) : Prop :=
  m.reservedIDHigh ≠ 0 ∧ m.reservedBatchIDHigh ≠ 0 ∧ m.issuedBatchIDHighAtCut ≠ 0 ∧
    m.issuedBatchIDHighAtCut ≤ m.reservedBatchIDHigh ∧ m.openBatchIDsAtCut.length ≤ m.hardLimits.maxOpenBatches ∧
    StrictBatchIDs m.openBatchIDsAtCut m.issuedBatchIDHighAtCut

instance (values : List Nat) (high : Nat) : Decidable (StrictBatchIDs values high) :=
  inferInstanceAs (Decidable (_ ∧ _))

instance (m : Manifest) : Decidable m.ValidHighs := inferInstanceAs (Decidable (_ ∧ _))

/-- The checks of `Validate` on the counts of one data segment. -/
def ValidStat (m : Manifest) (stat : SegmentStats) : Prop :=
  0 < stat.segmentID ∧ (stat.liveBytes = 0 ↔ stat.liveRecords = 0) ∧
    if stat.segmentID = m.activeDataSegmentID then
      m.replayStart.segmentID = stat.segmentID ∧
        stat.liveBytes + RecordLog.segmentHeaderSize ≤ m.replayStart.offset ∧
        stat.liveRecords ≤ stat.liveBytes / RecordLog.recordHeaderSize
    else
      ∃ s ∈ m.sealedDataSegments, s.segmentID = stat.segmentID ∧ stat.liveRecords ≤ s.recordCount ∧
        stat.liveBytes + RecordLog.segmentHeaderSize ≤ s.validEnd

instance (m : Manifest) : DecidablePred m.ValidStat := fun _ => inferInstanceAs (Decidable (_ ∧ _))

/-- The part of `Validate` about the statistics. -/
@[mk_iff] structure ValidStats (m : Manifest) : Prop where
  covered : m.statsCoveredCommitSeq = m.coveredCommitSeq
  empty : m.mappingRoot = ⟨0⟩ ↔ m.mappingEntryCount = 0
  increasing : (m.segmentStats.map SegmentStats.segmentID).Pairwise (· < ·)
  stats : ∀ stat ∈ m.segmentStats, m.ValidStat stat
  bounded : m.mappingEntryCount ≤ maxUint64
  total : (m.segmentStats.map SegmentStats.liveRecords).sum = m.mappingEntryCount

instance (m : Manifest) : Decidable m.ValidStats := decidable_of_iff _ m.validStats_iff.symm

/-- **`Validate`.** -/
@[mk_iff] structure Valid (m : Manifest) : Prop where
  generation : 0 < m.generation
  storeUUID : Lib.allZero m.storeUUID.bytes = false
  recordLogID : Lib.allZero m.recordLogID.bytes = false
  activeData : 0 < m.activeDataSegmentID
  activeMap : 0 < m.activeMapSegmentID
  nextMap : m.activeMapSegmentID < m.nextMapSegmentID
  replayStart : m.replayStart.valid = true
  limits : m.hardLimits.Valid
  dataCount : m.sealedDataSegments.length ≤ maxManifestPayload / 32
  mapCount : m.sealedMapSegments.length ≤ maxManifestPayload / 8
  batchCount : m.openBatchIDsAtCut.length ≤ maxManifestPayload / 8
  statsCount : m.segmentStats.length ≤ maxManifestPayload / 24
  data : m.ValidData
  map : m.ValidMap
  highs : m.ValidHighs
  stats : m.ValidStats

instance (m : Manifest) : Decidable m.Valid := decidable_of_iff _ m.valid_iff.symm

/-! ## §4 — The size -/

/-- `align8`. -/
def align8 (size : Nat) : Nat := (size + 7) / 8 * 8

def tlvHeaderSize : Nat := 8

/-- The sizes of the items of `Encode`, in their order. -/
def itemSizes (m : Manifest) : List Nat :=
  [72, 16, 8, 8 + m.sealedDataSegments.length * 32, 8, 8 + m.sealedMapSegments.length * 8, 8, 56,
    8 + m.openBatchIDsAtCut.length * 8, 16 + m.segmentStats.length * 24, 8, 4]

/-- The bytes of the items with their headers; `Encode` refuses a manifest with more than `maxManifestPayload`. -/
def payloadSize (m : Manifest) : Nat := (m.itemSizes.map fun size => tlvHeaderSize + align8 size).sum

theorem payloadSize_eq (m : Manifest) :
    m.payloadSize = 320 + m.sealedDataSegments.length * 32 + m.sealedMapSegments.length * 8 +
      m.openBatchIDsAtCut.length * 8 + m.segmentStats.length * 24 := by
  simp only [payloadSize, itemSizes, List.map_cons, List.map_nil, List.sum_cons, List.sum_nil, tlvHeaderSize, align8]
  omega

/-- What `Encode` takes. -/
def Encodable (m : Manifest) : Prop := m.Valid ∧ m.payloadSize ≤ maxManifestPayload

instance (m : Manifest) : Decidable m.Encodable := inferInstanceAs (Decidable (_ ∧ _))

end Manifest

/-- **The manifest of a new store**, `initialManifest`, with the random numbers it was given. -/
def initialManifest (storeUUID recordLogID : LogID) (hard : HardLimits) : Manifest :=
  { generation := 1, storeUUID := storeUUID, hardLimits := hard, recordLogID := recordLogID, activeDataSegmentID := 1
    nextDataSegmentID := 2, compactionSegmentFloor := 0, sealedDataSegments := [], activeMapSegmentID := 1
    nextMapSegmentID := 2, sealedMapSegments := [], mappingRoot := ⟨0⟩, mappingEntryCount := 0, coveredCommitSeq := 0
    replayStart := ⟨1, RecordLog.segmentHeaderSize⟩, reservedIDHigh := 1, reservedBatchIDHigh := 1
    issuedBatchIDHighAtCut := 1, openBatchIDsAtCut := [], statsCoveredCommitSeq := 0, segmentStats := [] }

/-- A new store can be created under all limits that are valid. -/
theorem initialManifest_valid {storeUUID recordLogID : LogID} {hard : HardLimits}
    (hstore : Lib.allZero storeUUID.bytes = false) (hlog : Lib.allZero recordLogID.bytes = false) (hhard : hard.Valid) :
    (initialManifest storeUUID recordLogID hard).Valid where
  generation := Nat.one_pos
  storeUUID := hstore
  recordLogID := hlog
  activeData := Nat.one_pos
  activeMap := Nat.one_pos
  nextMap := Nat.one_lt_two
  replayStart := show LogPos.valid ⟨1, RecordLog.segmentHeaderSize⟩ = true by decide
  limits := hhard
  dataCount := Nat.zero_le _
  mapCount := Nat.zero_le _
  batchCount := Nat.zero_le _
  statsCount := Nat.zero_le _
  data :=
    { active := show 1 < compactionSegmentBase by decide
      next := rfl
      floor := .inl rfl
      increasing := .nil
      segments := nofun
      -- the smallest segment has room for the header, a record and the footer
      replay := by
        have hminimum := hhard.minimumSegment
        show RecordLog.segmentHeaderSize + RecordLog.segmentFooterSize ≤ hard.segmentSize
        omega }
  map := ⟨.nil, nofun, .inl rfl⟩
  highs := ⟨Nat.one_ne_zero, Nat.one_ne_zero, Nat.one_ne_zero, Nat.le_refl _, Nat.zero_le _, nofun, .nil⟩
  stats := ⟨rfl, iff_of_true rfl rfl, .nil, nofun, Nat.zero_le _, rfl⟩

end Ridstore.StoreCatalog
