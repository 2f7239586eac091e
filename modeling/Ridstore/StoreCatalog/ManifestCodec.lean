import Mathlib.Algebra.Order.BigOperators.Group.List
import Mathlib.Algebra.Order.Ring.Nat
import Ridstore.Lib.Frames
import Ridstore.StoreCatalog.Manifest

/-
# Ridstore.StoreCatalog.ManifestCodec — the bytes of a manifest

A manifest file is a container header and the items of the manifest, each behind its type and its length and
filled up to eight bytes.  The header has a checksum of its own and one of the items.  The numbers of the source
have fixed widths; a manifest whose numbers fit into them is decoded from the bytes that it was encoded to, and it
is encoded exactly when it is valid and its items are not too large together.
-/

namespace Ridstore.StoreCatalog

open Lib List
open Manifest (align8 tlvHeaderSize)
open RecordLog (VAddr LogPos LogID SegmentSummary)

/-! ## §1 — Items -/

/-- The errors of the codec, with the text that is wrapped around `ErrCorrupt`. -/
inductive CodecError
  | invalid
  | unsupported
  | corrupt (text : String)
  deriving DecidableEq, Repr

abbrev Reader := Except (Fault CodecError)

/-- The letters of RIDMV2 and two zeros. -/
def manifestMagic : Bytes := [0x52, 0x49, 0x44, 0x4d, 0x56, 0x32, 0, 0]

def formatMajor : UInt16 := 2

def formatMinor : UInt16 := 4

def containerHeaderSize : Nat := 64

def tlvRequired : UInt16 := 1

def tlvHardLimits : UInt16 := 1

def tlvRecordLogID : UInt16 := 2

def tlvDataState : UInt16 := 3

def tlvDataSegments : UInt16 := 4

def tlvMapState : UInt16 := 5

def tlvMapSegments : UInt16 := 6

def tlvMappingRoot : UInt16 := 7

def tlvCheckpoint : UInt16 := 8

def tlvOpenBatches : UInt16 := 9

def tlvSegmentStats : UInt16 := 10

def tlvMappingEntries : UInt16 := 11

def tlvCompactionFloor : UInt16 := 12

def tlvCount : UInt16 := 13

/-- The types that a manifest has. -/
def tlvTypes : List UInt16 :=
  [tlvHardLimits, tlvRecordLogID, tlvDataState, tlvDataSegments, tlvMapState, tlvMapSegments, tlvMappingRoot,
    tlvCheckpoint, tlvOpenBatches, tlvSegmentStats, tlvMappingEntries, tlvCompactionFloor]

/-- `tlv`. -/
structure Item where
  typ : UInt16
  value : Bytes
  deriving DecidableEq, Repr

/-! ## §2 — Encoding -/

/-- `encodeUint32` of a number of the source. -/
def encodeUint32 (value : Nat) : Bytes := putUint32 (.ofNat value)

/-- `encodeUint64` of a number of the source. -/
def encodeUint64 (value : Nat) : Bytes := putUint64 (.ofNat value)

def encodePair32 (a b : Nat) : Bytes := encodeUint32 a ++ encodeUint32 b

/-- The limits in the order in which they are written. -/
def HardLimits.values (h : HardLimits) : List Nat :=
  [h.segmentSize, h.maxValueSize, h.maxBatchBytes, h.maxBatchMutations, h.maxBatchConditions, h.maxOpenBatches,
    h.maxRecordLogPayload, h.idReserveSize, h.batchIDReserveSize]

def encodeHardLimits (h : HardLimits) : Bytes := h.values.flatMap encodeUint64

/-- A count, four zeros and the entries. -/
def encodeTable {α : Type} (put : α → Bytes) (values : List α) : Bytes :=
  encodeUint32 values.length ++ zeros 4 ++ values.flatMap put

def putDataSegment (s : SegmentSummary) : Bytes :=
  encodeUint32 s.segmentID ++ encodeUint32 s.validEnd ++ encodeUint64 s.recordCount ++ encodeUint64 s.firstAddr.raw ++
    encodeUint64 s.lastAddr.raw

def putMapSegment (s : MapSegmentSummary) : Bytes := encodeUint32 s.segmentID ++ encodeUint32 s.validEnd

def putStats (s : SegmentStats) : Bytes :=
  encodeUint32 s.segmentID ++ zeros 4 ++ encodeUint64 s.liveBytes ++ encodeUint64 s.liveRecords

def encodeDataSegments (values : List SegmentSummary) : Bytes := encodeTable putDataSegment values

def encodeMapSegments (values : List MapSegmentSummary) : Bytes := encodeTable putMapSegment values

def encodeBatchIDs (values : List Nat) : Bytes := encodeTable encodeUint64 values

/-- `encodeStats`: the table stands behind the commit sequence that it belongs to. -/
def encodeStats (covered : Nat) (values : List SegmentStats) : Bytes :=
  encodeUint64 covered ++ encodeTable putStats values

def encodeCheckpoint (m : Manifest) : Bytes :=
  encodeUint64 m.coveredCommitSeq ++ encodeUint64 m.replayStart.uint64 ++ encodeUint64 m.reservedIDHigh ++
    encodeUint64 m.reservedBatchIDHigh ++ encodeUint64 m.issuedBatchIDHighAtCut ++ zeros 16

/-- The items of `Encode`. -/
def Manifest.items (m : Manifest) : List Item :=
  [⟨tlvHardLimits, encodeHardLimits m.hardLimits⟩,
    ⟨tlvRecordLogID, m.recordLogID.bytes⟩,
    ⟨tlvDataState, encodePair32 m.activeDataSegmentID m.nextDataSegmentID⟩,
    ⟨tlvDataSegments, encodeDataSegments m.sealedDataSegments⟩,
    ⟨tlvMapState, encodePair32 m.activeMapSegmentID m.nextMapSegmentID⟩,
    ⟨tlvMapSegments, encodeMapSegments m.sealedMapSegments⟩,
    ⟨tlvMappingRoot, encodeUint64 m.mappingRoot.raw⟩,
    ⟨tlvCheckpoint, encodeCheckpoint m⟩,
    ⟨tlvOpenBatches, encodeBatchIDs m.openBatchIDsAtCut⟩,
    ⟨tlvSegmentStats, encodeStats m.statsCoveredCommitSeq m.segmentStats⟩,
    ⟨tlvMappingEntries, encodeUint64 m.mappingEntryCount⟩,
    ⟨tlvCompactionFloor, encodeUint32 m.compactionSegmentFloor⟩]

/-- The bytes of an item with its header. -/
def Item.size (item : Item) : Nat := tlvHeaderSize + align8 item.value.length

/-- The loop of `Encode` that adds up the sizes. -/
def addItems : Nat → List Item → Except CodecError Nat
  | payloadSize, [] => .ok payloadSize
  | payloadSize, item :: rest =>
    if maxManifestPayload < payloadSize + item.size then .error .invalid else addItems (payloadSize + item.size) rest

def Item.bytes (item : Item) : Bytes :=
  putUint16 item.typ ++ putUint16 tlvRequired ++ encodeUint32 item.value.length ++ item.value ++
    zeros (align8 item.value.length - item.value.length)

/-- The items one after the other. -/
def Manifest.payload (m : Manifest) : Bytes := m.items.flatMap Item.bytes

/-- The bytes of the container header before its checksum. -/
def containerFields (m : Manifest) (payloadSize : Nat) : Bytes :=
  manifestMagic ++ putUint16 formatMajor ++ putUint16 formatMinor ++ putUint16 (.ofNat containerHeaderSize) ++ zeros 2 ++
    encodeUint64 m.generation ++ m.storeUUID.bytes ++ encodeUint64 payloadSize ++ putUint32 (crc32c m.payload)

/-- **`Encode`.** -/
def encode (m : Manifest) : Except CodecError Bytes :=
  if ¬ m.Valid then .error .invalid
  else
    match addItems 0 m.items with
    | .error err => .error err
    | .ok payloadSize => .ok (withCRC (containerFields m payloadSize) ++ zeros 8 ++ m.payload)

/-! ## §3 — Decoding -/

structure ContainerHeader where
  formatMajor : UInt16
  formatMinor : UInt16
  generation : UInt64
  storeUUID : LogID
  payloadSize : UInt64
  deriving DecidableEq, Repr

/-- Sixteen bytes of an identity. -/
def readUUID (bytes : Bytes) : Reader LogID :=
  if h : bytes.length = 16 then .ok ⟨bytes, h⟩ else .error .outOfRange

/-- `InspectHeader`. -/
def inspectHeader (src : Bytes) : Reader ContainerHeader := do
  rejectIf (src.length < containerHeaderSize) (.corrupt "manifest magic or size")
  let magic ← slice src 0 8
  rejectIf (magic ≠ manifestMagic) (.corrupt "manifest magic or size")
  let headerSize ← uint16At src 12
  let reserved ← uint16At src 14
  let padding ← slice src 56 64
  let checksum ← uint32At src 52
  let covered ← slice src 0 52
  rejectIf (headerSize ≠ .ofNat containerHeaderSize ∨ reserved ≠ 0 ∨ allZero padding = false ∨ checksum ≠ crc32c covered)
    (.corrupt "manifest header")
  let storeUUID ← readUUID (← slice src 24 40)
  let header : ContainerHeader :=
    ⟨← uint16At src 8, ← uint16At src 10, ← uint64At src 16, storeUUID, ← uint64At src 40⟩
  rejectIf (header.formatMajor = 0 ∨ header.generation = 0 ∨ allZero header.storeUUID.bytes = true)
    (.corrupt "manifest identity")
  let payloadCRC ← uint32At src 48
  let payload ← slice src containerHeaderSize src.length
  rejectIf (maxManifestPayload < header.payloadSize.toNat ∨
    header.payloadSize.toNat ≠ src.length - containerHeaderSize ∨ payloadCRC ≠ crc32c payload) (.corrupt "manifest payload")
  return header

/-- The body of the loop of `decodeTLVs`. -/
def decodeTLV (src : Bytes) (items : List Item) (offset : Nat) : Reader (FrameStep (List Item)) := do
  rejectIf (src.length - offset < tlvHeaderSize) (.corrupt "TLV header")
  let typ ← uint16At src offset
  let flags ← uint16At src (offset + 2)
  let length ← uint32At src (offset + 4)
  let padded := align8 length.toNat
  rejectIf (flags &&& ~~~tlvRequired ≠ 0 ∨ padded < length.toNat ∨ src.length - offset - tlvHeaderSize < padded)
    (.corrupt "TLV bounds")
  let start := offset + tlvHeaderSize
  let stop := start + length.toNat
  let padding ← slice src stop (start + padded)
  rejectIf (allZero padding = false) (.corrupt "TLV padding")
  if typ = 0 ∨ tlvCount ≤ typ then
    rejectIf (flags &&& tlvRequired ≠ 0) .unsupported
    return .next (tlvHeaderSize + padded) (Nat.add_pos_left (by decide) _) items
  else
    rejectIf (flags &&& tlvRequired = 0) (.corrupt "known optional TLV")
    rejectIf (typ ∈ items.map Item.typ) (.corrupt "duplicate TLV")
    let value ← slice src start stop
    return .next (tlvHeaderSize + padded) (Nat.add_pos_left (by decide) _) (items ++ [⟨typ, value⟩])

/-- `decodeTLVs`. -/
def decodeTLVs (src : Bytes) : Reader (List Item) := do
  let (items, _) ← scanFrames (decodeTLV src) src.length [] 0
  match tlvTypes.find? fun typ => typ ∉ items.map Item.typ with
  | some typ => .error (.failed (.corrupt ("missing TLV " ++ toString typ)))
  | none => return items

/-- `items[typ]`. -/
def valueOf (items : List Item) (typ : UInt16) : Bytes :=
  ((items.find? fun item => item.typ = typ).map Item.value).getD []

def decodeUint32 (src : Bytes) (off : Nat) : Reader Nat := UInt32.toNat <$> uint32At src off

def decodeUint64 (src : Bytes) (off : Nat) : Reader Nat := UInt64.toNat <$> uint64At src off

def decodeHardLimits (src : Bytes) : Reader HardLimits := do
  rejectIf (src.length ≠ 72) (.corrupt "hard limits size")
  return ⟨← decodeUint64 src 0, ← decodeUint64 src 8, ← decodeUint64 src 16, ← decodeUint64 src 24,
    ← decodeUint64 src 32, ← decodeUint64 src 40, ← decodeUint64 src 48, ← decodeUint64 src 56, ← decodeUint64 src 64⟩

def decodePair32 (src : Bytes) : Reader (Nat × Nat) := do
  rejectIf (src.length ≠ 8) (.corrupt "uint32 pair")
  return (← decodeUint32 src 0, ← decodeUint32 src 4)

/-- A table with its count at an offset. -/
def decodeTable {α : Type} (name : String) (size : Nat) (read : Bytes → Nat → Reader α) (src : Bytes) (start : Nat) :
    Reader (List α) := do
  rejectIf (src.length < start + 8) (.corrupt (name ++ " header"))
  let reserved ← uint32At src (start + 4)
  rejectIf (reserved ≠ 0) (.corrupt (name ++ " header"))
  let count ← uint32At src start
  rejectIf ((src.length - (start + 8)) / size < count.toNat ∨ start + 8 + count.toNat * size ≠ src.length)
    (.corrupt (name ++ " length"))
  readTable read src size count.toNat (start + 8)

def readDataSegment (src : Bytes) (off : Nat) : Reader SegmentSummary :=
  return ⟨← decodeUint32 src off, ← decodeUint32 src (off + 4), ← decodeUint64 src (off + 8),
    ⟨← decodeUint64 src (off + 16)⟩, ⟨← decodeUint64 src (off + 24)⟩⟩

def readMapSegment (src : Bytes) (off : Nat) : Reader MapSegmentSummary :=
  return ⟨← decodeUint32 src off, ← decodeUint32 src (off + 4)⟩

def readStats (src : Bytes) (off : Nat) : Reader SegmentStats := do
  let reserved ← uint32At src (off + 4)
  rejectIf (reserved ≠ 0) (.corrupt "stats reserved")
  return ⟨← decodeUint32 src off, ← decodeUint64 src (off + 8), ← decodeUint64 src (off + 16)⟩

def decodeDataSegments (src : Bytes) : Reader (List SegmentSummary) :=
  decodeTable "data segments" 32 readDataSegment src 0

def decodeMapSegments (src : Bytes) : Reader (List MapSegmentSummary) :=
  decodeTable "map segments" 8 readMapSegment src 0

def decodeBatchIDs (src : Bytes) : Reader (List Nat) := decodeTable "batch ids" 8 decodeUint64 src 0

/-- `decodeStats`; its header is that of a table behind the commit sequence. -/
def decodeStats (src : Bytes) : Reader (Nat × List SegmentStats) := do
  let values ← decodeTable "stats" 24 readStats src 8
  return (← decodeUint64 src 0, values)

/-- The numbers of `decodeCheckpoint`. -/
structure CheckpointFields where
  coveredCommitSeq : Nat
  replayStart : LogPos
  reservedIDHigh : Nat
  reservedBatchIDHigh : Nat
  issuedBatchIDHighAtCut : Nat
  deriving DecidableEq, Repr

def decodeCheckpoint (src : Bytes) : Reader CheckpointFields := do
  rejectIf (src.length ≠ 56) (.corrupt "checkpoint size")
  let padding ← slice src 40 56
  rejectIf (allZero padding = false) (.corrupt "checkpoint size")
  let covered ← decodeUint64 src 0
  match RecordLog.parseLogPos (← decodeUint64 src 8) with
  | .error _ => .error (.failed (.corrupt "replay start"))
  | .ok pos => return ⟨covered, pos, ← decodeUint64 src 16, ← decodeUint64 src 24, ← decodeUint64 src 32⟩

/-- The values of fixed size that `Decode` reads itself. -/
def readFixed {α : Type} (size : Nat) (text : String) (read : Bytes → Nat → Reader α) (src : Bytes) : Reader α := do
  rejectIf (src.length ≠ size) (.corrupt text)
  read src 0

/-- Files of another version are told from corrupt ones before anything else is looked at. -/
def checkVersion (src : Bytes) : Reader Unit :=
  if containerHeaderSize ≤ src.length then do
    let magic ← slice src 0 8
    let major ← uint16At src 8
    let minor ← uint16At src 10
    rejectIf (magic = manifestMagic ∧ (major ≠ formatMajor ∨ minor ≠ formatMinor)) .unsupported
  else .ok ()

/-- **`Decode`.** -/
def decode (src : Bytes) : Reader Manifest := do
  checkVersion src
  let header ← inspectHeader src
  let items ← decodeTLVs (← slice src containerHeaderSize src.length)
  let hardLimits ← decodeHardLimits (valueOf items tlvHardLimits)
  let recordLogID ← readFixed 16 "record log id" (fun src _ => readUUID src) (valueOf items tlvRecordLogID)
  let (dataActive, dataNext) ← decodePair32 (valueOf items tlvDataState)
  let dataSegments ← decodeDataSegments (valueOf items tlvDataSegments)
  let (mapActive, mapNext) ← decodePair32 (valueOf items tlvMapState)
  let mapSegments ← decodeMapSegments (valueOf items tlvMapSegments)
  let mappingRoot ← readFixed 8 "mapping root" decodeUint64 (valueOf items tlvMappingRoot)
  let checkpoint ← decodeCheckpoint (valueOf items tlvCheckpoint)
  let openBatches ← decodeBatchIDs (valueOf items tlvOpenBatches)
  let (statsCovered, stats) ← decodeStats (valueOf items tlvSegmentStats)
  let mappingEntries ← readFixed 8 "mapping entries" decodeUint64 (valueOf items tlvMappingEntries)
  let floor ← readFixed 4 "compaction floor" decodeUint32 (valueOf items tlvCompactionFloor)
  let m : Manifest :=
    { generation := header.generation.toNat, storeUUID := header.storeUUID, hardLimits := hardLimits
      recordLogID := recordLogID, activeDataSegmentID := dataActive, nextDataSegmentID := dataNext
      compactionSegmentFloor := floor, sealedDataSegments := dataSegments, activeMapSegmentID := mapActive
      nextMapSegmentID := mapNext, sealedMapSegments := mapSegments, mappingRoot := ⟨mappingRoot⟩
      mappingEntryCount := mappingEntries, coveredCommitSeq := checkpoint.coveredCommitSeq
      replayStart := checkpoint.replayStart, reservedIDHigh := checkpoint.reservedIDHigh
      reservedBatchIDHigh := checkpoint.reservedBatchIDHigh
      issuedBatchIDHighAtCut := checkpoint.issuedBatchIDHighAtCut, openBatchIDsAtCut := openBatches
      statsCoveredCommitSeq := statsCovered, segmentStats := stats }
  rejectIf (¬ m.Valid) (.corrupt "manifest values")
  return m

/-! ## §4 — Numbers that fit -/

/-- The numbers of a summary are numbers of their types in the source. -/
def fitsDataSegment (s : SegmentSummary) : Prop :=
  s.segmentID < 2 ^ 32 ∧ s.validEnd < 2 ^ 32 ∧ s.recordCount < 2 ^ 64 ∧ s.firstAddr.raw < 2 ^ 64 ∧ s.lastAddr.raw < 2 ^ 64

def fitsMapSegment (s : MapSegmentSummary) : Prop := s.segmentID < 2 ^ 32 ∧ s.validEnd < 2 ^ 32

def fitsStats (s : SegmentStats) : Prop := s.segmentID < 2 ^ 32 ∧ s.liveBytes < 2 ^ 64 ∧ s.liveRecords < 2 ^ 64

instance : DecidablePred fitsDataSegment := fun _ => inferInstanceAs (Decidable (_ ∧ _))

instance : DecidablePred fitsMapSegment := fun _ => inferInstanceAs (Decidable (_ ∧ _))

instance : DecidablePred fitsStats := fun _ => inferInstanceAs (Decidable (_ ∧ _))

/-- **The numbers of a manifest are numbers of their types in the source.** -/
@[mk_iff] structure Manifest.Fits (m : Manifest) : Prop where
  generation : m.generation < 2 ^ 64
  limits : ∀ value ∈ m.hardLimits.values, value < 2 ^ 64
  dataState : m.activeDataSegmentID < 2 ^ 32 ∧ m.nextDataSegmentID < 2 ^ 32
  dataSegments : ∀ s ∈ m.sealedDataSegments, fitsDataSegment s
  mapState : m.activeMapSegmentID < 2 ^ 32 ∧ m.nextMapSegmentID < 2 ^ 32
  mapSegments : ∀ s ∈ m.sealedMapSegments, fitsMapSegment s
  mappingRoot : m.mappingRoot.raw < 2 ^ 64
  replayStart : m.replayStart.segmentID < 2 ^ 32 ∧ m.replayStart.offset < 2 ^ 32
  checkpoint : ∀ value ∈ [m.coveredCommitSeq, m.reservedIDHigh, m.reservedBatchIDHigh, m.issuedBatchIDHighAtCut],
    value < 2 ^ 64
  openBatches : ∀ value ∈ m.openBatchIDsAtCut, value < 2 ^ 64
  statsCovered : m.statsCoveredCommitSeq < 2 ^ 64
  stats : ∀ s ∈ m.segmentStats, fitsStats s
  mappingEntries : m.mappingEntryCount < 2 ^ 64
  floor : m.compactionSegmentFloor < 2 ^ 32

instance (m : Manifest) : Decidable m.Fits := decidable_of_iff _ m.fits_iff.symm

/-! ## §5 — Words and tables -/

variable {pre post rest bytes : Bytes} {value off size : Nat} {m : Manifest} {item : Item}

@[simp] theorem length_encodeUint32 : (encodeUint32 value).length = 4 := length_putUint32 _

@[simp] theorem length_encodeUint64 : (encodeUint64 value).length = 8 := length_putUint64 _

@[simp] theorem decodeUint32_append (hskip : pre.length ≤ off) :
    decodeUint32 (pre ++ rest) off = decodeUint32 rest (off - pre.length) := by
  rw [decodeUint32, decodeUint32, uint32At_append hskip]

@[simp] theorem decodeUint64_append (hskip : pre.length ≤ off) :
    decodeUint64 (pre ++ rest) off = decodeUint64 rest (off - pre.length) := by
  rw [decodeUint64, decodeUint64, uint64At_append hskip]

theorem decodeUint32_encode (h : value < 2 ^ 32) : decodeUint32 (encodeUint32 value ++ rest) 0 = .ok value := by
  rw [decodeUint32, encodeUint32, uint32At_put]
  exact congrArg Except.ok (toNat_ofNat_uint32 h)

theorem decodeUint64_encode (h : value < 2 ^ 64) : decodeUint64 (encodeUint64 value ++ rest) 0 = .ok value := by
  rw [decodeUint64, encodeUint64, uint64At_put]
  exact congrArg Except.ok (UInt64.toNat_ofNat_of_lt' h)

theorem decodeUint32_last (h : value < 2 ^ 32) : decodeUint32 (encodeUint32 value) 0 = .ok value := by
  rw [← append_nil (encodeUint32 value)]
  exact decodeUint32_encode h

theorem decodeUint64_last (h : value < 2 ^ 64) : decodeUint64 (encodeUint64 value) 0 = .ok value := by
  rw [← append_nil (encodeUint64 value)]
  exact decodeUint64_encode h

theorem readDataSegment_put {s : SegmentSummary} (h : fitsDataSegment s) :
    readDataSegment (pre ++ (putDataSegment s ++ post)) pre.length = .ok s := by
  obtain ⟨hid, hend, hcount, hfirst, hlast⟩ := h
  simp [readDataSegment, putDataSegment, decodeUint32_encode hid, decodeUint32_encode hend, decodeUint64_encode hcount,
    decodeUint64_encode hfirst, decodeUint64_encode hlast, pure, Except.pure]

theorem readMapSegment_put {s : MapSegmentSummary} (h : fitsMapSegment s) :
    readMapSegment (pre ++ (putMapSegment s ++ post)) pre.length = .ok s := by
  obtain ⟨hid, hend⟩ := h
  simp [readMapSegment, putMapSegment, decodeUint32_encode hid, decodeUint32_encode hend, pure, Except.pure]

theorem readStats_put {s : SegmentStats} (h : fitsStats s) :
    readStats (pre ++ (putStats s ++ post)) pre.length = .ok s := by
  obtain ⟨hid, hbytes, hrecords⟩ := h
  have hzeros : zeros 4 = putUint32 0 := rfl
  simp [readStats, putStats, hzeros, decodeUint32_encode hid, decodeUint64_encode hbytes, decodeUint64_encode hrecords,
    rejectIf, pure, Except.pure]

theorem readUint64_put (h : value < 2 ^ 64) :
    decodeUint64 (pre ++ (encodeUint64 value ++ post)) pre.length = .ok value := by
  rw [decodeUint64_append (Nat.le_refl _), Nat.sub_self, decodeUint64_encode h]

/-- **A table is decoded to its entries.** -/
theorem decodeTable_encode {α : Type} {put : α → Bytes} {read : Bytes → Nat → Reader α} {values : List α} {name : String}
    (hsize : 0 < size) (hput : ∀ a, (put a).length = size)
    (hread : ∀ a ∈ values, ∀ pre post, read (pre ++ (put a ++ post)) pre.length = .ok a)
    (hcount : values.length < 2 ^ 32) (pre : Bytes) :
    decodeTable name size read (pre ++ encodeTable put values) pre.length = .ok values := by
  have hlen : (pre ++ encodeTable put values).length = pre.length + 8 + values.length * size := by
    simp [encodeTable, length_flatMap_put hput]
    omega
  have hnumber : (UInt32.ofNat values.length).toNat = values.length := toNat_ofNat_uint32 hcount
  have hdiv : values.length * size / size = values.length := Nat.mul_div_cancel _ hsize
  have hzeros : zeros 4 = putUint32 0 := rfl
  have hreserved : (uint32At (pre ++ encodeTable put values) (pre.length + 4) : Reader UInt32) = .ok 0 := by
    simp [encodeTable, hzeros]
  have hfirst : (uint32At (pre ++ encodeTable put values) pre.length : Reader UInt32) = .ok (.ofNat values.length) := by
    simp [encodeTable, encodeUint32]
  have htable : readTable read (pre ++ encodeTable put values) size values.length (pre.length + 8) = .ok values := by
    have hbehind := readTable_put hput hread (pre ++ (encodeUint32 values.length ++ zeros 4))
    simpa [encodeTable] using hbehind
  unfold decodeTable
  rw [rejectIf_of_not (by omega), hreserved, hfirst, hlen, Nat.add_sub_cancel_left]
  simp only [ok_bind, hnumber, hdiv, htable]
  simp [rejectIf]

/-! ## §6 — The items -/

theorem decodeHardLimits_encode {h : HardLimits} (hfits : ∀ value ∈ h.values, value < 2 ^ 64) :
    decodeHardLimits (encodeHardLimits h) = .ok h := by
  simp only [HardLimits.values, forall_mem_cons] at hfits
  obtain ⟨h1, h2, h3, h4, h5, h6, h7, h8, h9, -⟩ := hfits
  simp [decodeHardLimits, encodeHardLimits, HardLimits.values, decodeUint64_encode h1, decodeUint64_encode h2,
    decodeUint64_encode h3, decodeUint64_encode h4, decodeUint64_encode h5, decodeUint64_encode h6,
    decodeUint64_encode h7, decodeUint64_encode h8, decodeUint64_last h9, rejectIf, pure, Except.pure]

theorem readUint64_encode {text : String} (h : value < 2 ^ 64) :
    readFixed 8 text decodeUint64 (encodeUint64 value) = .ok value := by
  rw [readFixed, rejectIf_of_not (not_not.mpr length_encodeUint64), ok_bind, decodeUint64_last h]

theorem readUint32_encode {text : String} (h : value < 2 ^ 32) :
    readFixed 4 text decodeUint32 (encodeUint32 value) = .ok value := by
  rw [readFixed, rejectIf_of_not (not_not.mpr length_encodeUint32), ok_bind, decodeUint32_last h]

theorem decodePair32_encode {a b : Nat} (ha : a < 2 ^ 32) (hb : b < 2 ^ 32) :
    decodePair32 (encodePair32 a b) = .ok (a, b) := by
  simp [decodePair32, encodePair32, decodeUint32_encode ha, decodeUint32_last hb, rejectIf, pure, Except.pure]

theorem length_putDataSegment (s : SegmentSummary) : (putDataSegment s).length = 32 := by
  simp [putDataSegment]

theorem length_putMapSegment (s : MapSegmentSummary) : (putMapSegment s).length = 8 := by
  simp [putMapSegment]

theorem length_putStats (s : SegmentStats) : (putStats s).length = 24 := by
  simp [putStats]

theorem decodeDataSegments_encode {values : List SegmentSummary} (hcount : values.length < 2 ^ 32)
    (hfits : ∀ s ∈ values, fitsDataSegment s) : decodeDataSegments (encodeDataSegments values) = .ok values :=
  decodeTable_encode (by decide) length_putDataSegment (fun s hs _ _ => readDataSegment_put (hfits s hs)) hcount []

theorem decodeMapSegments_encode {values : List MapSegmentSummary} (hcount : values.length < 2 ^ 32)
    (hfits : ∀ s ∈ values, fitsMapSegment s) : decodeMapSegments (encodeMapSegments values) = .ok values :=
  decodeTable_encode (by decide) length_putMapSegment (fun s hs _ _ => readMapSegment_put (hfits s hs)) hcount []

theorem decodeBatchIDs_encode {values : List Nat} (hcount : values.length < 2 ^ 32)
    (hfits : ∀ value ∈ values, value < 2 ^ 64) : decodeBatchIDs (encodeBatchIDs values) = .ok values :=
  decodeTable_encode (by decide) (fun _ => length_encodeUint64) (fun s hs _ _ => readUint64_put (hfits s hs)) hcount []

theorem decodeStats_encode {covered : Nat} {values : List SegmentStats} (hcount : values.length < 2 ^ 32)
    (hcovered : covered < 2 ^ 64) (hfits : ∀ s ∈ values, fitsStats s) :
    decodeStats (encodeStats covered values) = .ok (covered, values) := by
  have htable : decodeTable "stats" 24 readStats (encodeStats covered values) 8 = .ok values :=
    decodeTable_encode (by decide) length_putStats (fun s hs _ _ => readStats_put (hfits s hs)) hcount
      (encodeUint64 covered)
  rw [decodeStats, htable, ok_bind, encodeStats, decodeUint64_encode hcovered]
  rfl

/-- A position is parsed from its word. -/
theorem parseLogPos_uint64 {p : LogPos} (hoffset : p.offset < 2 ^ 32) (hvalid : p.valid = true) :
    RecordLog.parseLogPos p.uint64 = .ok p := by
  have hsegment : (p.segmentID * 2 ^ 32 + p.offset) / 2 ^ 32 = p.segmentID := by omega
  have hrest : (p.segmentID * 2 ^ 32 + p.offset) % 2 ^ 32 = p.offset := by omega
  rw [RecordLog.parseLogPos, LogPos.uint64]
  simp only [hsegment, hrest, hvalid, if_true]

theorem decodeCheckpoint_encode (hfits : m.Fits) (hvalid : m.replayStart.valid = true) :
    decodeCheckpoint (encodeCheckpoint m) = .ok ⟨m.coveredCommitSeq, m.replayStart, m.reservedIDHigh,
      m.reservedBatchIDHigh, m.issuedBatchIDHighAtCut⟩ := by
  have hnumbers := hfits.checkpoint
  simp only [forall_mem_cons] at hnumbers
  obtain ⟨hcovered, hid, hbatch, hissued, -⟩ := hnumbers
  obtain ⟨hsegment, hoffset⟩ := hfits.replayStart
  have hword : m.replayStart.uint64 < 2 ^ 64 := by
    rw [LogPos.uint64]
    omega
  have hlen : (encodeCheckpoint m).length = 56 := by
    simp [encodeCheckpoint]
  have hpadding : (slice (encodeCheckpoint m) 40 56 : Reader Bytes) = .ok (zeros 16) := by
    simp [encodeCheckpoint, slice_whole]
  have hcovered' : decodeUint64 (encodeCheckpoint m) 0 = .ok m.coveredCommitSeq := by
    simp [encodeCheckpoint, decodeUint64_encode hcovered]
  have hword' : decodeUint64 (encodeCheckpoint m) 8 = .ok m.replayStart.uint64 := by
    simp [encodeCheckpoint, decodeUint64_encode hword]
  have hid' : decodeUint64 (encodeCheckpoint m) 16 = .ok m.reservedIDHigh := by
    simp [encodeCheckpoint, decodeUint64_encode hid]
  have hbatch' : decodeUint64 (encodeCheckpoint m) 24 = .ok m.reservedBatchIDHigh := by
    simp [encodeCheckpoint, decodeUint64_encode hbatch]
  have hissued' : decodeUint64 (encodeCheckpoint m) 32 = .ok m.issuedBatchIDHighAtCut := by
    simp [encodeCheckpoint, decodeUint64_encode hissued]
  rw [decodeCheckpoint, rejectIf_of_not (not_not.mpr hlen), ok_bind, hpadding, ok_bind, rejectIf_of_not (by simp), ok_bind,
    hcovered', ok_bind, hword', ok_bind, parseLogPos_uint64 hoffset hvalid]
  simp only [hid', hbatch', hissued', ok_bind]
  rfl

/-- The items have the sizes that the payload is counted with. -/
theorem length_items (m : Manifest) : m.items.map (fun item => item.value.length) = m.itemSizes := by
  simp [Manifest.items, Manifest.itemSizes, encodeHardLimits, HardLimits.values, m.recordLogID.length, encodePair32,
    encodeDataSegments, encodeMapSegments, encodeBatchIDs, encodeStats, encodeTable, encodeCheckpoint,
    length_flatMap_put length_putDataSegment, length_flatMap_put length_putMapSegment, length_flatMap_put length_putStats,
    length_flatMap_put (fun _ => length_encodeUint64)]
  omega

theorem le_align8 (n : Nat) : n ≤ align8 n := by
  unfold align8
  omega

@[simp] theorem length_itemBytes : item.bytes.length = item.size := by
  have hle := le_align8 item.value.length
  simp [Item.bytes, Item.size, tlvHeaderSize]
  omega

/-- Every item is known and short enough for its header. -/
structure Item.Known (item : Item) : Prop where
  typ : ¬ (item.typ = 0 ∨ tlvCount ≤ item.typ)
  length : item.value.length < 2 ^ 32

/-- One round of the loop takes one item. -/
theorem decodeTLV_bytes (pre post : Bytes) {items : List Item} (hknown : item.Known) (hnew : item.typ ∉ items.map Item.typ) :
    ∃ hpos, decodeTLV (pre ++ (item.bytes ++ post)) items pre.length = .ok (.next item.size hpos (items ++ [item])) := by
  have hle := le_align8 item.value.length
  have hlen : (pre ++ (item.bytes ++ post)).length = pre.length + (item.size + post.length) := by
    simp
  have hnumber : (UInt32.ofNat item.value.length).toNat = item.value.length := toNat_ofNat_uint32 hknown.length
  have hvalue : (slice (pre ++ (item.bytes ++ post)) (pre.length + tlvHeaderSize)
      (pre.length + tlvHeaderSize + item.value.length) : Reader Bytes) = .ok item.value := by
    have hsplit : pre ++ (item.bytes ++ post) =
        (pre ++ (putUint16 item.typ ++ putUint16 tlvRequired ++ encodeUint32 item.value.length)) ++
          (item.value ++ (zeros (align8 item.value.length - item.value.length) ++ post)) := by
      simp [Item.bytes]
    rw [hsplit]
    exact slice_eq_field (by simp [tlvHeaderSize]) rfl
  have hpadding : (slice (pre ++ (item.bytes ++ post)) (pre.length + tlvHeaderSize + item.value.length)
      (pre.length + tlvHeaderSize + align8 item.value.length) : Reader Bytes) =
        .ok (zeros (align8 item.value.length - item.value.length)) := by
    have hsplit : pre ++ (item.bytes ++ post) =
        (pre ++ (putUint16 item.typ ++ putUint16 tlvRequired ++ encodeUint32 item.value.length ++ item.value)) ++
          (zeros (align8 item.value.length - item.value.length) ++ post) := by
      simp [Item.bytes]
    have hstop : pre.length + tlvHeaderSize + align8 item.value.length =
        pre.length + tlvHeaderSize + item.value.length + (align8 item.value.length - item.value.length) := by omega
    rw [hsplit, hstop]
    exact slice_eq_field (by simp [tlvHeaderSize]; omega) (length_zeros _)
  have htyp : (uint16At (pre ++ (item.bytes ++ post)) pre.length : Reader UInt16) = .ok item.typ := by
    simp [Item.bytes]
  have hflags : (uint16At (pre ++ (item.bytes ++ post)) (pre.length + 2) : Reader UInt16) = .ok tlvRequired := by
    simp [Item.bytes]
  have hlength : (uint32At (pre ++ (item.bytes ++ post)) (pre.length + 4) : Reader UInt32) =
      .ok (.ofNat item.value.length) := by
    simp [Item.bytes, encodeUint32]
  refine ⟨Nat.add_pos_left (by decide) _, ?_⟩
  rw [decodeTLV, rejectIf_of_not (by rw [hlen, Item.size]; omega), ok_bind, htyp, ok_bind, hflags, ok_bind, hlength, ok_bind]
  simp only [hnumber]
  rw [rejectIf_of_not (by rw [hlen, Item.size]; simp [tlvRequired]; omega), ok_bind, hpadding, ok_bind,
    rejectIf_of_not (by simp), ok_bind, if_neg hknown.typ, rejectIf_of_not (by decide), ok_bind, rejectIf_of_not hnew, ok_bind,
    hvalue]
  rfl

/-- The loop takes the items one after the other. -/
theorem scanFrames_bytes (items : List Item) {todo : List Item} (hknown : ∀ item ∈ todo, item.Known)
    (hdistinct : ((items ++ todo).map Item.typ).Nodup) (pre : Bytes) :
    ∃ last, scanFrames (decodeTLV (pre ++ todo.flatMap Item.bytes)) (pre ++ todo.flatMap Item.bytes).length items
      pre.length = .ok (items ++ todo, last) := by
  induction todo generalizing items pre with
  | nil =>
    rw [flatMap_nil, append_nil, append_nil, scanFrames_end (Nat.le_refl _)]
    exact ⟨_, rfl⟩
  | cons item rest ih =>
    have hnew : item.typ ∉ items.map Item.typ := by
      rw [map_append, map_cons, nodup_append] at hdistinct
      exact fun hin => hdistinct.2.2 _ hin _ mem_cons_self rfl
    obtain ⟨hpos, hitem⟩ := decodeTLV_bytes pre (rest.flatMap Item.bytes) (hknown item mem_cons_self) hnew
    obtain ⟨last, hrest⟩ := ih (items ++ [item]) (fun item hin => hknown item (mem_cons_of_mem _ hin))
      (by rwa [append_assoc]) (pre ++ item.bytes)
    simp only [append_assoc, length_append, length_itemBytes, singleton_append] at hrest
    refine ⟨last, ?_⟩
    rw [flatMap_cons, scanFrames_next (by simp; omega) hitem]
    simpa using hrest

theorem typ_items (m : Manifest) : m.items.map Item.typ = tlvTypes := rfl

/-- The items of a manifest that is not too large are short. -/
theorem Manifest.Encodable.known (h : m.Encodable) : ∀ item ∈ m.items, item.Known := by
  intro item hitem
  constructor
  · have hall : tlvTypes.all (fun typ => ¬ (typ = 0 ∨ tlvCount ≤ typ)) = true := by decide
    have htyp := all_eq_true.mp hall item.typ (typ_items m ▸ mem_map_of_mem hitem)
    exact of_decide_eq_true htyp
  · have hsize : item.value.length ∈ m.itemSizes := length_items m ▸ mem_map_of_mem hitem
    have hsum : tlvHeaderSize + align8 item.value.length ≤ m.payloadSize := le_sum_of_mem (mem_map_of_mem hsize)
    have hle := le_align8 item.value.length
    have hmax := h.2
    have hbound : maxManifestPayload < 2 ^ 32 := by decide
    omega

/-- **The items of a manifest are decoded.** -/
theorem decodeTLVs_payload (h : m.Encodable) : decodeTLVs m.payload = .ok m.items := by
  obtain ⟨last, hscan⟩ := scanFrames_bytes [] h.known
    (show (m.items.map Item.typ).Nodup from typ_items m ▸ by decide) []
  have hpresent : (tlvTypes.find? fun typ => typ ∉ m.items.map Item.typ) = none := by
    rw [typ_items, find?_eq_none]
    simp
  rw [nil_append, nil_append, length_nil] at hscan
  rw [decodeTLVs, Manifest.payload, hscan]
  simp only [ok_bind, hpresent]
  rfl

/-- What `Encode` writes is as long as it was counted. -/
theorem length_payload (m : Manifest) : m.payload.length = m.payloadSize := by
  rw [Manifest.payload, length_flatMap, Manifest.payloadSize, ← length_items, map_map]
  congr 1
  exact map_congr_left fun item _ => length_itemBytes

theorem addItems_eq_ok {items : List Item} {start total : Nat} (hstart : start ≤ maxManifestPayload) :
    addItems start items = .ok total ↔ total = start + (items.map Item.size).sum ∧ total ≤ maxManifestPayload := by
  induction items generalizing start with
  | nil =>
    simp only [addItems, Except.ok.injEq, map_nil, sum_nil]
    omega
  | cons item rest ih =>
    simp only [addItems, map_cons, sum_cons]
    split
    · simp only [reduceCtorEq, false_iff]
      omega
    · rw [ih (by omega)]
      omega

/-! ## §7 — The container -/

/-- The bytes of a manifest file. -/
def Manifest.container (m : Manifest) : Bytes := withCRC (containerFields m m.payloadSize) ++ zeros 8 ++ m.payload

/-- **`Encode` takes exactly the manifests that are valid and not too large.** -/
theorem encode_eq_ok : encode m = .ok bytes ↔ m.Encodable ∧ bytes = m.container := by
  have hsum : (m.items.map Item.size).sum = m.payloadSize := by
    rw [Manifest.payloadSize, ← length_items, map_map]
    rfl
  have hadd : ∀ total, addItems 0 m.items = .ok total ↔ total = m.payloadSize ∧ total ≤ maxManifestPayload := by
    intro total
    rw [addItems_eq_ok (Nat.zero_le _), hsum, Nat.zero_add]
  unfold encode
  split
  next hnot => simp [Manifest.Encodable, hnot]
  next hvalid =>
    rw [not_not] at hvalid
    cases hitems : addItems 0 m.items with
    | error err =>
      have hlarge : ¬ m.payloadSize ≤ maxManifestPayload := by
        intro hle
        rw [(hadd _).mpr ⟨rfl, hle⟩] at hitems
        cases hitems
      simp [Manifest.Encodable, hlarge]
    | ok total =>
      obtain ⟨rfl, hle⟩ := (hadd _).mp hitems
      simp [Manifest.Encodable, hvalid, hle, Manifest.container, eq_comm]

theorem length_containerFields : (containerFields m size).length = 52 := by
  simp [containerFields, manifestMagic, m.storeUUID.length]

theorem length_container (m : Manifest) : m.container.length = containerHeaderSize + m.payloadSize := by
  simp [Manifest.container, length_containerFields, length_payload, containerHeaderSize]
  omega

theorem slice_container (m : Manifest) :
    (slice m.container containerHeaderSize m.container.length : Reader Bytes) = .ok m.payload := by
  have hfront : (withCRC (containerFields m m.payloadSize) ++ zeros 8).length = containerHeaderSize := by
    simp [length_containerFields, containerHeaderSize]
  have hfield : (slice (withCRC (containerFields m m.payloadSize) ++ zeros 8 ++ (m.payload ++ [])) containerHeaderSize
      (containerHeaderSize + m.payload.length) : Reader Bytes) = .ok m.payload := slice_eq_field hfront rfl
  rw [append_nil] at hfield
  rw [length_container, ← length_payload]
  exact hfield

theorem checkVersion_container (m : Manifest) : checkVersion m.container = .ok () := by
  have hmagic : manifestMagic.length = 8 := rfl
  rw [checkVersion, if_pos (by rw [length_container]; omega)]
  simp [Manifest.container, withCRC, containerFields, hmagic, slice_field hmagic, rejectIf]

theorem readUUID_bytes (id : LogID) : readUUID id.bytes = .ok id := dif_pos id.length

theorem inspectHeader_container (hfits : m.Fits) (h : m.Encodable) :
    inspectHeader m.container =
      .ok ⟨formatMajor, formatMinor, .ofNat m.generation, m.storeUUID, .ofNat m.payloadSize⟩ := by
  have hbound : maxManifestPayload < 2 ^ 64 := by decide
  have hmax := h.2
  have hgeneration : UInt64.ofNat m.generation ≠ 0 := by
    intro hzero
    have hpos := h.1.generation
    have hnumber := UInt64.toNat_ofNat_of_lt' hfits.generation
    rw [hzero] at hnumber
    exact absurd hnumber (Nat.ne_of_lt hpos)
  have hsize : (UInt64.ofNat m.payloadSize).toNat = m.payloadSize :=
    UInt64.toNat_ofNat_of_lt' (Nat.lt_of_le_of_lt hmax hbound)
  have hlen := length_container m
  have hmagic : manifestMagic.length = 8 := rfl
  have hmajor : formatMajor ≠ 0 := by decide
  have hzeros : zeros 2 = putUint16 0 := rfl
  have huuid := m.storeUUID.length
  obtain ⟨hcovered, hchecksum⟩ : (slice m.container 0 52 : Reader Bytes) = .ok (containerFields m m.payloadSize) ∧
      (uint32At m.container 52 : Reader UInt32) = .ok (crc32c (containerFields m m.payloadSize)) := by
    simp [Manifest.container, withCRC, length_containerFields, slice_field length_containerFields]
  rw [inspectHeader, rejectIf_of_not (by omega), hcovered, hchecksum, slice_container, hlen, Nat.add_sub_cancel_left]
  simp only [ok_bind]
  generalize crc32c (containerFields m m.payloadSize) = checksum
  rw [Manifest.container, containerFields]
  simp [withCRC, hmagic, slice_field hmagic, huuid, slice_field huuid, readUUID_bytes, rejectIf, hsize,
    Nat.not_lt.mpr hmax, hgeneration, hmajor, hzeros, h.1.storeUUID, encodeUint64, slice_field]

/-- **What was encoded is decoded.** -/
theorem decode_encode (hfits : m.Fits) (hok : encode m = .ok bytes) : decode bytes = .ok m := by
  obtain ⟨h, rfl⟩ := encode_eq_ok.mp hok
  have hbound : maxManifestPayload < 2 ^ 32 := by decide
  have hgeneration : (UInt64.ofNat m.generation).toNat = m.generation := UInt64.toNat_ofNat_of_lt' hfits.generation
  have hlimits : decodeHardLimits (valueOf m.items tlvHardLimits) = .ok m.hardLimits :=
    decodeHardLimits_encode hfits.limits
  have hlogID : readFixed 16 "record log id" (fun src _ => readUUID src) (valueOf m.items tlvRecordLogID) =
      .ok m.recordLogID := by
    show readFixed 16 "record log id" (fun src _ => readUUID src) m.recordLogID.bytes = _
    rw [readFixed, rejectIf_of_not (not_not.mpr m.recordLogID.length), ok_bind, readUUID_bytes]
  have hdataState : decodePair32 (valueOf m.items tlvDataState) = .ok (m.activeDataSegmentID, m.nextDataSegmentID) :=
    decodePair32_encode hfits.dataState.1 hfits.dataState.2
  have hdata : decodeDataSegments (valueOf m.items tlvDataSegments) = .ok m.sealedDataSegments :=
    decodeDataSegments_encode (by have := h.1.dataCount; omega) hfits.dataSegments
  have hmapState : decodePair32 (valueOf m.items tlvMapState) = .ok (m.activeMapSegmentID, m.nextMapSegmentID) :=
    decodePair32_encode hfits.mapState.1 hfits.mapState.2
  have hmap : decodeMapSegments (valueOf m.items tlvMapSegments) = .ok m.sealedMapSegments :=
    decodeMapSegments_encode (by have := h.1.mapCount; omega) hfits.mapSegments
  have hroot : readFixed 8 "mapping root" decodeUint64 (valueOf m.items tlvMappingRoot) = .ok m.mappingRoot.raw :=
    readUint64_encode hfits.mappingRoot
  have hcheckpoint : decodeCheckpoint (valueOf m.items tlvCheckpoint) = .ok ⟨m.coveredCommitSeq, m.replayStart,
      m.reservedIDHigh, m.reservedBatchIDHigh, m.issuedBatchIDHighAtCut⟩ :=
    decodeCheckpoint_encode hfits h.1.replayStart
  have hbatches : decodeBatchIDs (valueOf m.items tlvOpenBatches) = .ok m.openBatchIDsAtCut :=
    decodeBatchIDs_encode (by have := h.1.batchCount; omega) hfits.openBatches
  have hstats : decodeStats (valueOf m.items tlvSegmentStats) = .ok (m.statsCoveredCommitSeq, m.segmentStats) :=
    decodeStats_encode (by have := h.1.statsCount; omega) hfits.statsCovered hfits.stats
  have hentries : readFixed 8 "mapping entries" decodeUint64 (valueOf m.items tlvMappingEntries) =
      .ok m.mappingEntryCount := readUint64_encode hfits.mappingEntries
  have hfloor : readFixed 4 "compaction floor" decodeUint32 (valueOf m.items tlvCompactionFloor) =
      .ok m.compactionSegmentFloor := readUint32_encode hfits.floor
  rw [decode, checkVersion_container, ok_bind, inspectHeader_container hfits h, ok_bind, slice_container, ok_bind,
    decodeTLVs_payload h, ok_bind, hlimits, ok_bind, hlogID, ok_bind, hdataState, ok_bind]
  simp only [hdata, hmapState, hmap, hroot, hcheckpoint, hbatches, hstats, hentries, hfloor, hgeneration, ok_bind]
  rw [rejectIf_of_not (not_not.mpr h.1), ok_bind]
  rfl

end Ridstore.StoreCatalog
