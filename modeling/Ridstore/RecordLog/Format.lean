import Ridstore.Lib.Bytes
import Ridstore.RecordLog.Address

/-
# Ridstore.RecordLog.Format — the bytes of a segment file

A segment file is a header, then records without a gap, and a footer once it is sealed.  Headers and footers
carry a checksum of their own bytes, and a record header also one of the payload.
-/

namespace Ridstore.RecordLog

open Lib List

/-! ## §1 — Headers, records and footers -/

/-- The errors of the format, with the text that is wrapped around `ErrCorrupt`. -/
inductive FormatError
  | invalidConfig
  | invalidVAddr
  | payloadTooBig
  | unsupported
  | closed
  | corrupt (text : String)
  deriving DecidableEq, Repr

abbrev Reader := Except (Fault FormatError)

def segmentFooterSize : Nat := 64

def formatVersion : UInt16 := 2

/-- The letters of RIDAPV2H. -/
def segmentHeaderMagic : Bytes := [0x52, 0x49, 0x44, 0x41, 0x50, 0x56, 0x32, 0x48]

/-- The letters of R2RC. -/
def recordMagic : Bytes := [0x52, 0x32, 0x52, 0x43]

/-- The letters of RIDAPV2F. -/
def segmentFooterMagic : Bytes := [0x52, 0x49, 0x44, 0x41, 0x50, 0x56, 0x32, 0x46]

/-- `LogID`, sixteen bytes. -/
structure LogID where
  bytes : Bytes
  length : bytes.length = 16
  deriving DecidableEq, Repr

def LogID.ofByte (b : UInt8) : LogID := ⟨b :: zeros 15, rfl⟩

structure SegmentHeader where
  logID : LogID
  segmentID : UInt32
  previousSegment : UInt32
  segmentSize : UInt32
  deriving DecidableEq, Repr

structure RecordHeader where
  physicalSize : UInt32
  payloadSize : UInt32
  addr : UInt64
  payloadCRC : UInt32
  deriving DecidableEq, Repr

structure SegmentFooter where
  segmentID : UInt32
  dataEnd : UInt32
  firstAddr : UInt64
  lastAddr : UInt64
  recordCount : UInt64
  deriving DecidableEq, Repr

def vaddr (raw : UInt64) : VAddr := ⟨raw.toNat⟩

/-- `PhysicalRecordSize`; every failure is `ErrPayloadTooBig`. -/
def physicalRecordSize (payloadSize : Nat) : Option Nat :=
  let total := (recordHeaderSize + payloadSize + 7) / 8 * 8
  if maxUint32 < payloadSize ∨ maxUint32 < total then none else some total

/-! ## §2 — The segment header -/

/-- The checks on a header that both directions make. -/
def SegmentHeader.valid (h : SegmentHeader) : Bool :=
  !allZero h.logID.bytes && h.segmentID ≠ 0 &&
    segmentHeaderSize + recordHeaderSize + segmentFooterSize < h.segmentSize.toNat &&
    h.segmentSize.toNat % recordAlignment = 0

/-- A segment has room for a record and its footer. -/
theorem SegmentHeader.valid_room {h : SegmentHeader} (hvalid : h.valid = true) :
    segmentHeaderSize + recordHeaderSize + segmentFooterSize < h.segmentSize.toNat := by
  simp only [SegmentHeader.valid, Bool.and_eq_true, decide_eq_true_eq] at hvalid
  exact hvalid.1.2

/-- The bytes of a segment header before its checksum. -/
def segmentHeaderFields (h : SegmentHeader) : Bytes :=
  segmentHeaderMagic ++ putUint16 formatVersion ++ putUint16 (.ofNat segmentHeaderSize) ++ putUint32 h.segmentID ++
    putUint32 h.segmentSize ++ putUint32 h.previousSegment ++ h.logID.bytes ++ putUint32 (.ofNat segmentHeaderSize) ++
    zeros 16

/-- **`EncodeSegmentHeader`.** -/
def encodeSegmentHeader (h : SegmentHeader) : Except FormatError Bytes :=
  if h.valid = false then .error .invalidConfig
  else .ok (withCRC (segmentHeaderFields h))

/-- `LogID` from sixteen bytes of a header. -/
def readLogID (bytes : Bytes) : Reader LogID :=
  if h : bytes.length = 16 then .ok ⟨bytes, h⟩ else .error .outOfRange

/-- **`DecodeSegmentHeader`.** -/
def decodeSegmentHeader (src : Bytes) : Reader SegmentHeader := do
  rejectIf (src.length ≠ segmentHeaderSize) (.corrupt "segment header magic or size")
  let magic ← slice src 0 8
  rejectIf (magic ≠ segmentHeaderMagic) (.corrupt "segment header magic or size")
  let version ← uint16At src 8
  rejectIf (version ≠ formatVersion) .unsupported
  let headerSize ← uint16At src 10
  let checksum ← uint32At src 60
  let covered ← slice src 0 60
  rejectIf (headerSize ≠ .ofNat segmentHeaderSize ∨ checksum ≠ crc32c covered) (.corrupt "segment header fields")
  let segmentID ← uint32At src 12
  let segmentSize ← uint32At src 16
  let previousSegment ← uint32At src 20
  let logID ← readLogID (← slice src 24 40)
  let h : SegmentHeader := ⟨logID, segmentID, previousSegment, segmentSize⟩
  let dataStart ← uint32At src 40
  let reserved ← slice src 44 60
  rejectIf (h.valid = false ∨ dataStart ≠ .ofNat segmentHeaderSize ∨ allZero reserved = false)
    (.corrupt "segment header values")
  return h

/-! ## §3 — Records -/

/-- The bytes of a record header before its checksum. -/
def recordHeaderFields (h : RecordHeader) : Bytes :=
  recordMagic ++ putUint16 formatVersion ++ putUint16 (.ofNat recordHeaderSize) ++ putUint32 h.physicalSize ++
    putUint32 h.payloadSize ++ putUint64 h.addr ++ putUint32 h.payloadCRC

/-- The header of a record, with its checksum. -/
def encodeRecordHeader (h : RecordHeader) : Bytes := withCRC (recordHeaderFields h)

/-- The header that `EncodeRecordTo` writes. -/
def recordHeader (addr : UInt64) (payload : Bytes) (total : Nat) : RecordHeader :=
  ⟨.ofNat total, .ofNat payload.length, addr, crc32c payload⟩

/-- **`EncodeRecordTo`** into a destination of the physical size: the bytes that it leaves there. -/
def encodeRecord (addr : UInt64) (payload : Bytes) : Except FormatError Bytes :=
  match physicalRecordSize payload.length with
  | none => .error .payloadTooBig
  | some total =>
    if (vaddr addr).valid = false ∨ (vaddr addr).matchesPhysicalSize total = false then .error .invalidVAddr
    else
      .ok (encodeRecordHeader (recordHeader addr payload total) ++ payload ++
        zeros (total - recordHeaderSize - payload.length))

/-- **`DecodeRecordHeader`.** -/
def decodeRecordHeader (src : Bytes) : Reader RecordHeader := do
  rejectIf (src.length ≠ recordHeaderSize) (.corrupt "record header magic or size")
  let magic ← slice src 0 4
  rejectIf (magic ≠ recordMagic) (.corrupt "record header magic or size")
  let version ← uint16At src 4
  rejectIf (version ≠ formatVersion) .unsupported
  let headerSize ← uint16At src 6
  let checksum ← uint32At src 28
  let covered ← slice src 0 28
  rejectIf (headerSize ≠ .ofNat recordHeaderSize ∨ checksum ≠ crc32c covered) (.corrupt "record header fields")
  let h : RecordHeader := ⟨← uint32At src 8, ← uint32At src 12, ← uint64At src 16, ← uint32At src 24⟩
  rejectIf (physicalRecordSize h.payloadSize.toNat ≠ some h.physicalSize.toNat ∨ (vaddr h.addr).valid = false ∨
    (vaddr h.addr).matchesPhysicalSize h.physicalSize.toNat = false) (.corrupt "record header values")
  return h

/-- **`DecodeRecord`.** -/
def decodeRecord (src : Bytes) : Reader (RecordHeader × Bytes) := do
  rejectIf (src.length < recordHeaderSize) (.corrupt "record truncated")
  let h ← decodeRecordHeader (← slice src 0 recordHeaderSize)
  rejectIf (src.length ≠ h.physicalSize.toNat ∨ h.physicalSize.toNat - recordHeaderSize < h.payloadSize.toNat)
    (.corrupt "record size")
  let payloadEnd := recordHeaderSize + h.payloadSize.toNat
  let payload ← slice src recordHeaderSize payloadEnd
  let padding ← slice src payloadEnd src.length
  rejectIf (crc32c payload ≠ h.payloadCRC ∨ allZero padding = false) (.corrupt "record payload or padding")
  return (h, payload)

/-! ## §4 — The footer -/

/-- `validateSegmentFooter`. -/
def validateSegmentFooter (f : SegmentFooter) : Bool :=
  f.segmentID ≠ 0 && segmentHeaderSize ≤ f.dataEnd.toNat && f.dataEnd.toNat % recordAlignment = 0 &&
    if f.recordCount = 0 then f.firstAddr = 0 && f.lastAddr = 0 && f.dataEnd.toNat = segmentHeaderSize
    else
      (vaddr f.firstAddr).valid && (vaddr f.lastAddr).valid && (vaddr f.firstAddr).segmentID = f.segmentID.toNat &&
        (vaddr f.lastAddr).segmentID = f.segmentID.toNat && f.firstAddr ≤ f.lastAddr &&
        (vaddr f.lastAddr).offset < f.dataEnd.toNat

/-- The bytes of a segment footer before its checksum. -/
def segmentFooterFields (f : SegmentFooter) : Bytes :=
  segmentFooterMagic ++ putUint16 formatVersion ++ putUint16 (.ofNat segmentFooterSize) ++ putUint32 f.segmentID ++
    putUint32 f.dataEnd ++ zeros 4 ++ putUint64 f.firstAddr ++ putUint64 f.lastAddr ++
    putUint64 f.recordCount ++ zeros 12

/-- **`EncodeSegmentFooter`.** -/
def encodeSegmentFooter (f : SegmentFooter) : Except FormatError Bytes :=
  if validateSegmentFooter f = false then .error .invalidConfig
  else .ok (withCRC (segmentFooterFields f))

/-! ## §5 — What was encoded is decoded -/

variable {src bytes payload rest : Bytes} {h : SegmentHeader} {r : RecordHeader} {f : SegmentFooter}
  {addr : UInt64} {size total : Nat}

theorem physicalRecordSize_eq_some (hsize : physicalRecordSize size = some total) :
    recordHeaderSize + size ≤ total ∧ total % recordAlignment = 0 ∧ total ≤ maxUint32 := by
  unfold physicalRecordSize at hsize
  dsimp only at hsize
  split at hsize
  · cases hsize
  · cases hsize
    simp only [recordHeaderSize, recordAlignment] at *
    omega

theorem length_segmentHeaderFields : (segmentHeaderFields h).length = 60 := by
  simp [segmentHeaderFields, segmentHeaderMagic, h.logID.length]

theorem readLogID_bytes (id : LogID) : readLogID id.bytes = .ok id := dif_pos id.length

theorem encodeSegmentHeader_eq_ok (hok : encodeSegmentHeader h = .ok bytes) :
    h.valid = true ∧ bytes = withCRC (segmentHeaderFields h) := by
  obtain ⟨hvalid, hok⟩ := Lib.guard_eq_ok hok
  exact ⟨by simpa using hvalid, (Except.ok.inj hok).symm⟩

theorem decodeSegmentHeader_encode (hok : encodeSegmentHeader h = .ok bytes) :
    decodeSegmentHeader bytes = .ok h := by
  obtain ⟨hvalid, rfl⟩ := encodeSegmentHeader_eq_ok hok
  obtain ⟨hcovered, hchecksum⟩ := slice_withCRC (ε := FormatError) (length_segmentHeaderFields (h := h))
  have hlen : ¬ (withCRC (segmentHeaderFields h)).length ≠ segmentHeaderSize := by
    rw [length_withCRC, length_segmentHeaderFields]
    decide
  unfold decodeSegmentHeader
  rw [rejectIf_of_not hlen, hcovered, hchecksum, withCRC]
  simp only [ok_bind]
  -- the checksum is compared with that of the same bytes; the other fields are read one by one
  generalize crc32c (segmentHeaderFields h) = checksum
  have hid := h.logID.length
  have hmagic : segmentHeaderMagic.length = 8 := rfl
  rw [segmentHeaderFields]
  simp [hmagic, slice_field hmagic, hid, slice_field hid, readLogID_bytes, hvalid, rejectIf, slice_field]

/-- What the checks of a record header ask for. -/
def RecordHeader.valid (r : RecordHeader) : Prop :=
  physicalRecordSize r.payloadSize.toNat = some r.physicalSize.toNat ∧ (vaddr r.addr).valid = true ∧
    (vaddr r.addr).matchesPhysicalSize r.physicalSize.toNat = true

theorem length_recordHeaderFields : (recordHeaderFields r).length = 28 := by
  simp [recordHeaderFields, recordMagic]

@[simp] theorem length_encodeRecordHeader : (encodeRecordHeader r).length = recordHeaderSize := by
  rw [encodeRecordHeader, length_withCRC, length_recordHeaderFields, recordHeaderSize]

theorem decodeRecordHeader_encode (hvalid : r.valid) : decodeRecordHeader (encodeRecordHeader r) = .ok r := by
  obtain ⟨hcovered, hchecksum⟩ := slice_withCRC (ε := FormatError) (length_recordHeaderFields (r := r))
  obtain ⟨hsize, haddr, htag⟩ := hvalid
  unfold decodeRecordHeader
  rw [rejectIf_of_not (by simp), encodeRecordHeader, hcovered, hchecksum, withCRC]
  simp only [ok_bind]
  generalize crc32c (recordHeaderFields r) = checksum
  have hmagic : recordMagic.length = 4 := rfl
  rw [recordHeaderFields]
  simp [hmagic, slice_field hmagic, hsize, haddr, htag, rejectIf]

/-- A header that is decoded passed its checks. -/
theorem decodeRecordHeader_valid (hok : decodeRecordHeader src = .ok r) : r.valid := by
  -- every step of the decoder succeeded; the last one is the check of the values
  repeat
    obtain ⟨_, hlast, hok⟩ := bind_eq_ok.mp hok
  cases hok
  simp only [rejectIf_eq_ok, not_or, ne_eq, not_not, Bool.not_eq_false] at hlast
  exact hlast

theorem RecordHeader.valid.pos (hvalid : r.valid) : 0 < r.physicalSize.toNat := by
  obtain ⟨hle, -, -⟩ := physicalRecordSize_eq_some hvalid.1
  simp only [recordHeaderSize] at hle
  omega

/-- A record that is encoded: its header, its payload and the zeros behind it. -/
theorem encodeRecord_eq_ok (hok : encodeRecord addr payload = .ok bytes) :
    ∃ total, physicalRecordSize payload.length = some total ∧ (recordHeader addr payload total).valid ∧
      (recordHeader addr payload total).physicalSize.toNat = total ∧
      (recordHeader addr payload total).payloadSize.toNat = payload.length ∧
      bytes = encodeRecordHeader (recordHeader addr payload total) ++
        (payload ++ zeros (total - recordHeaderSize - payload.length)) := by
  unfold encodeRecord at hok
  split at hok
  · cases hok
  next total htotal =>
    obtain ⟨hvalid, hok⟩ := Lib.guard_eq_ok hok
    simp only [not_or, Bool.not_eq_false] at hvalid
    obtain ⟨hle, -, hmax⟩ := physicalRecordSize_eq_some htotal
    have hbound : maxUint32 < 2 ^ 32 := by decide
    have hphysical : (UInt32.ofNat total).toNat = total := toNat_ofNat_uint32 (by omega)
    have hpayload : (UInt32.ofNat payload.length).toNat = payload.length := toNat_ofNat_uint32 (by omega)
    refine ⟨total, htotal, ⟨?_, hvalid.1, ?_⟩, hphysical, hpayload, ?_⟩
    · simp only [recordHeader, hphysical, hpayload]
      exact htotal
    · simp only [recordHeader, hphysical]
      exact hvalid.2
    · rw [← Except.ok.inj hok, append_assoc]

theorem length_encodeRecord (hok : encodeRecord addr payload = .ok bytes) :
    physicalRecordSize payload.length = some bytes.length := by
  obtain ⟨total, htotal, -, -, -, rfl⟩ := encodeRecord_eq_ok hok
  obtain ⟨hle, -, -⟩ := physicalRecordSize_eq_some htotal
  rw [htotal, length_append, length_append, length_encodeRecordHeader, length_zeros]
  congr 1
  omega

theorem decodeRecord_encode (hok : encodeRecord addr payload = .ok bytes) :
    decodeRecord bytes = .ok (recordHeader addr payload bytes.length, payload) := by
  have hlen := length_encodeRecord hok
  obtain ⟨total, htotal, hvalid, hphysical, hpayload, hbytes⟩ := encodeRecord_eq_ok hok
  obtain rfl : total = bytes.length := Option.some.inj (htotal.symm.trans hlen)
  obtain ⟨hle, -, -⟩ := physicalRecordSize_eq_some htotal
  have hhead : (slice bytes 0 recordHeaderSize : Reader Bytes) =
      .ok (encodeRecordHeader (recordHeader addr payload bytes.length)) := by
    conv_lhs => rw [hbytes]
    exact slice_field length_encodeRecordHeader
  have hbody : (slice bytes recordHeaderSize (recordHeaderSize + payload.length) : Reader Bytes) = .ok payload := by
    conv_lhs => rw [hbytes]
    exact slice_eq_field length_encodeRecordHeader rfl
  have hpadding : (slice bytes (recordHeaderSize + payload.length) bytes.length : Reader Bytes) =
      .ok (zeros (bytes.length - recordHeaderSize - payload.length)) := by
    have hstop : bytes.length =
        recordHeaderSize + payload.length + (bytes.length - recordHeaderSize - payload.length) := by omega
    have hfront : (encodeRecordHeader (recordHeader addr payload bytes.length) ++ payload).length =
        recordHeaderSize + payload.length := by rw [length_append, length_encodeRecordHeader]
    have hfield : (slice (encodeRecordHeader (recordHeader addr payload bytes.length) ++ payload ++
        (zeros (bytes.length - recordHeaderSize - payload.length) ++ [])) (recordHeaderSize + payload.length)
        (recordHeaderSize + payload.length + (bytes.length - recordHeaderSize - payload.length)) : Reader Bytes) = _ :=
      slice_eq_field hfront (length_zeros _)
    rw [← hstop, append_nil, append_assoc, ← hbytes] at hfield
    exact hfield
  unfold decodeRecord
  rw [rejectIf_of_not (by omega), hhead]
  simp only [ok_bind, decodeRecordHeader_encode hvalid, hphysical, hpayload, hbody, hpadding]
  rw [rejectIf_of_not (by omega), rejectIf_of_not (by simp [recordHeader])]
  rfl

/-! ## §6 — The footer -/

theorem length_segmentFooterFields : (segmentFooterFields f).length = 60 := by
  simp [segmentFooterFields, segmentFooterMagic]

/-- An encoded footer has its size and starts with its letters. -/
theorem encodeSegmentFooter_eq_ok (hok : encodeSegmentFooter f = .ok bytes) :
    bytes.length = segmentFooterSize ∧ ∃ rest, bytes = segmentFooterMagic ++ rest := by
  obtain ⟨-, hok⟩ := Lib.guard_eq_ok hok
  cases hok
  refine ⟨by rw [length_withCRC, length_segmentFooterFields, segmentFooterSize], ?_⟩
  simp only [withCRC, segmentFooterFields, append_assoc]
  exact ⟨_, rfl⟩

end Ridstore.RecordLog
