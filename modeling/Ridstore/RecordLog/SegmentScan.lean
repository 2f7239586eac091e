import Ridstore.Lib.Frames
import Ridstore.RecordLog.Format

/-
# Ridstore.RecordLog.SegmentScan — scanning an active segment with a torn tail

An active segment is scanned when the log is opened.  The writer may have died in the middle of a record, or
after it prepared the footer of a segment that was never published as sealed; both are a tail to cut off.
Everything else that is not a record at its own place is corruption.
-/

namespace Ridstore.RecordLog

open Lib List

/-! ## §1 — The scan -/

structure AppendResult where
  addr : UInt64
  recordEnd : LogPos
  deriving DecidableEq, Repr

/-- `NewAppendResult`. -/
def newAppendResult (addr : UInt64) (physicalSize : Nat) : Reader AppendResult :=
  match (vaddr addr).recordEnd physicalSize with
  | .error _ => .error (.failed .invalidVAddr)
  | .ok pos => .ok ⟨addr, pos⟩

section Scan

variable {σ : Type}

/-- What the loop of the scan keeps next to the valid end; `visited` is the state of the visitor. -/
structure ScanState (σ : Type) where
  recordCount : Nat
  firstAddr : UInt64
  lastAddr : UInt64
  visited : σ
  deriving DecidableEq, Repr

/-- The summary after one more record. -/
def ScanState.record (st : ScanState σ) (addr : UInt64) (visited : σ) : ScanState σ :=
  ⟨st.recordCount + 1, if st.recordCount = 0 then addr else st.firstAddr, addr, visited⟩

variable (file : Bytes) (expected : SegmentHeader) (visit : σ → AppendResult → Bytes → Reader σ)

/-- The tail may be a footer that was prepared before its rotation became durable. -/
def footerAhead (validEnd : Nat) : Reader Bool :=
  let remaining := file.length - validEnd
  if remaining ≤ segmentFooterSize ∧ segmentFooterMagic.length ≤ remaining then do
    let magic ← slice file validEnd (validEnd + segmentFooterMagic.length)
    return magic = segmentFooterMagic
  else return false

/-- The record whose header stands at the valid end; `none` when it is cut off. -/
def readRecord (validEnd : Nat) (h : RecordHeader) : Reader (Option Bytes) := do
  let contentLimit := expected.segmentSize.toNat - segmentFooterSize
  rejectIf (contentLimit < validEnd ∨ (vaddr h.addr).segmentID ≠ expected.segmentID.toNat ∨
    (vaddr h.addr).offset ≠ validEnd ∨ contentLimit - validEnd < h.physicalSize.toNat)
    (.corrupt "active record boundary")
  if file.length - validEnd < h.physicalSize.toNat then return none
  else
    let record ← slice file validEnd (validEnd + h.physicalSize.toNat)
    let (decoded, payload) ← decodeRecord record
    rejectIf (decoded ≠ h) (.corrupt "")
    return some payload

/-- The body of the loop of `scanActiveSegmentWithVisitor`. -/
def scanRecord (st : ScanState σ) (validEnd : Nat) : Reader (FrameStep (ScanState σ)) := do
  if ← footerAhead file validEnd then return .torn
  else if file.length - validEnd < recordHeaderSize then return .torn
  else
    let headerBytes ← slice file validEnd (validEnd + recordHeaderSize)
    match hdecoded : decodeRecordHeader headerBytes with
    | .error err => .error err
    | .ok h =>
      match ← readRecord file expected validEnd h with
      | none => return .torn
      | some payload =>
        let visited ← visit st.visited (← newAppendResult h.addr h.physicalSize.toNat) payload
        return .next h.physicalSize.toNat (decodeRecordHeader_valid hdecoded).pos (st.record h.addr visited)

/-- **`scanActiveSegmentWithVisitor`**: the summary, whether there is a tail to cut off, and what the visitor
made of the records. -/
def scanActiveSegmentWithVisitor (init : σ) : Reader (SegmentSummary × Bool × σ) := do
  rejectIf (file.length < segmentHeaderSize ∨ expected.segmentSize.toNat < file.length)
    (.corrupt "active segment size")
  let header ← decodeSegmentHeader (← slice file 0 segmentHeaderSize)
  rejectIf (header ≠ expected) (.corrupt "active segment identity")
  let (st, validEnd, torn) ←
    scanFrames (scanRecord file expected visit) file.length ⟨0, 0, 0, init⟩ segmentHeaderSize
  return (⟨expected.segmentID.toNat, validEnd, st.recordCount, vaddr st.firstAddr, vaddr st.lastAddr⟩, torn, st.visited)

end Scan

/-! ## §2 — Written segments -/

/-- A record with the bytes it was written as. -/
structure WrittenRecord where
  addr : UInt64
  payload : Bytes
  bytes : Bytes
  encoded : encodeRecord addr payload = .ok bytes

def WrittenRecord.size (r : WrittenRecord) : Nat := r.bytes.length

/-- Records of one segment, each at the offset where the one before it ends. -/
def Contiguous (segmentID : Nat) : Nat → List WrittenRecord → Prop
  | _, [] => True
  | off, r :: rest =>
    (vaddr r.addr).segmentID = segmentID ∧ (vaddr r.addr).offset = off ∧ Contiguous segmentID (off + r.size) rest

instance decidableContiguous (segmentID : Nat) : (off : Nat) → (records : List WrittenRecord) →
    Decidable (Contiguous segmentID off records)
  | _, [] => .isTrue trivial
  | off, r :: rest =>
    have := decidableContiguous segmentID (off + r.size) rest
    inferInstanceAs (Decidable (_ ∧ _ ∧ Contiguous segmentID (off + r.size) rest))

theorem Contiguous.append {segmentID off : Nat} {records more : List WrittenRecord}
    (h : Contiguous segmentID off records)
    (hmore : Contiguous segmentID (off + (records.map WrittenRecord.size).sum) more) :
    Contiguous segmentID off (records ++ more) := by
  induction records generalizing off with
  | nil => simpa using hmore
  | cons r rest ih =>
    rw [map_cons, sum_cons, ← Nat.add_assoc] at hmore
    exact ⟨h.1, h.2.1, ih h.2.2 hmore⟩

/-- **The file of a segment**: a header, records without a gap that leave room for the footer, and the footer
once the segment is prepared to be sealed. -/
structure WrittenSegment where
  header : SegmentHeader
  headerBytes : Bytes
  headerEncoded : encodeSegmentHeader header = .ok headerBytes
  records : List WrittenRecord
  contiguous : Contiguous header.segmentID.toNat segmentHeaderSize records
  fits : segmentHeaderSize + (records.map WrittenRecord.size).sum + segmentFooterSize ≤ header.segmentSize.toNat
  footer : Bytes
  footerEncoded : footer = [] ∨ ∃ f, encodeSegmentFooter f = .ok footer

namespace WrittenSegment

def file (w : WrittenSegment) : Bytes := w.headerBytes ++ (w.records.flatMap WrittenRecord.bytes ++ w.footer)

/-- `end`: where the next record goes. -/
def validEnd (w : WrittenSegment) : Nat := segmentHeaderSize + (w.records.map WrittenRecord.size).sum

/-- `createActiveSegment`: the file has its header. -/
def create (header : SegmentHeader) : Except FormatError WrittenSegment :=
  match hencoded : encodeSegmentHeader header with
  | .error err => .error err
  | .ok headerBytes =>
    .ok {
      header := header, headerBytes := headerBytes, headerEncoded := hencoded, records := [], contiguous := trivial
      fits := by
        have hroom := SegmentHeader.valid_room (encodeSegmentHeader_eq_ok hencoded).1
        rw [map_nil, sum_nil]
        omega
      footer := [], footerEncoded := .inl rfl }

/-- `appendEncoded`: a batch of records is written at the end, or refused as a whole.  No records follow a
footer: a seal that is prepared is published, or the log stops. -/
def appendEncoded (w : WrittenSegment) (records : List WrittenRecord) : Except FormatError WrittenSegment :=
  if w.footer ≠ [] then .error .closed
  else if hplan : Contiguous w.header.segmentID.toNat w.validEnd records ∧
      w.validEnd + (records.map WrittenRecord.size).sum + segmentFooterSize ≤ w.header.segmentSize.toNat then
    .ok { w with
      records := w.records ++ records
      contiguous := w.contiguous.append hplan.1
      fits := by
        rw [map_append, sum_append, ← Nat.add_assoc]
        exact hplan.2 }
  else .error (.corrupt "append plan")

/-- `prepareSeal`: the footer is written behind the records. -/
def prepareSeal (w : WrittenSegment) : Except FormatError WrittenSegment :=
  match hfooter : encodeSegmentFooter ⟨w.header.segmentID, .ofNat w.validEnd,
      (w.records.head?.map WrittenRecord.addr).getD 0, (w.records.getLast?.map WrittenRecord.addr).getD 0,
      .ofNat w.records.length⟩ with
  | .error err => .error err
  | .ok footer => .ok { w with footer := footer, footerEncoded := .inr ⟨_, hfooter⟩ }

/-- The records that end within the first bytes of the file. -/
def wholeRecords (w : WrittenSegment) (limit : Nat) : List WrittenRecord :=
  w.records.filter fun r => (vaddr r.addr).offset + r.size ≤ limit

end WrittenSegment

/-! ## §3 — One record of a cut file -/

variable {σ : Type} {expected : SegmentHeader} {cut pre post : Bytes} {r : WrittenRecord} {off : Nat}
  {visit : σ → AppendResult → Bytes → σ} {records : List WrittenRecord}

namespace WrittenRecord

def header (r : WrittenRecord) : RecordHeader := recordHeader r.addr r.payload r.size

/-- What the visitor is given of a record. -/
def result (r : WrittenRecord) : AppendResult :=
  ⟨r.addr, ⟨(vaddr r.addr).segmentID, (vaddr r.addr).offset + r.size⟩⟩

/-- The header of a written record is decoded as it was made. -/
theorem header_spec (r : WrittenRecord) :
    r.header.valid ∧ r.header.physicalSize.toNat = r.size ∧ recordHeaderSize ≤ r.size ∧
      ∃ body, r.bytes = encodeRecordHeader r.header ++ body := by
  obtain ⟨total, htotal, hvalid, hphysical, -, hbytes⟩ := encodeRecord_eq_ok r.encoded
  obtain rfl : total = r.size := Option.some.inj (htotal.symm.trans (length_encodeRecord r.encoded))
  obtain ⟨hle, -, -⟩ := physicalRecordSize_eq_some htotal
  exact ⟨hvalid, hphysical, by omega, _, hbytes⟩

end WrittenRecord

/-- The bytes from an offset on that a cut file still has. -/
theorem slice_at_cut {mid : Bytes} {n : Nat} (hcut : cut <+: pre ++ (mid ++ post)) (hpre : pre.length = off)
    (hmid : n ≤ mid.length) (hlimit : off + n ≤ cut.length) :
    (slice cut off (off + n) : Reader Bytes) = .ok (mid.take n) := by
  have hsplit : pre ++ (mid ++ post) = pre ++ (mid.take n ++ (mid.drop n ++ post)) := by
    rw [← append_assoc (mid.take n), take_append_drop]
  rw [slice_of_cut hcut hlimit, hsplit]
  exact slice_eq_field hpre (by rw [length_take, Nat.min_eq_left hmid])

theorem footerAhead_record (hcut : cut <+: pre ++ (r.bytes ++ post)) (hpre : pre.length = off) :
    footerAhead cut off = .ok false := by
  obtain ⟨-, -, hsize, body, hbytes⟩ := r.header_spec
  unfold footerAhead
  dsimp only
  split
  next hremaining =>
    have hlen : segmentFooterMagic.length = 8 := rfl
    have hsize' : 32 ≤ r.bytes.length := hsize
    have hslice := slice_at_cut (n := 8) hcut hpre (by omega) (by omega)
    rw [hlen, hslice]
    -- the second letter of the two magics differs
    have hne : r.bytes.take 8 ≠ segmentFooterMagic := by
      rw [hbytes, encodeRecordHeader, withCRC, recordHeaderFields]
      simp [recordMagic, segmentFooterMagic]
    simp [hne, pure, Except.pure]
  next => rfl

/-- The record stands at its place in the segment that is scanned. -/
def Placed (expected : SegmentHeader) (off : Nat) (r : WrittenRecord) : Prop :=
  (vaddr r.addr).segmentID = expected.segmentID.toNat ∧ (vaddr r.addr).offset = off ∧
    off + r.size + segmentFooterSize ≤ expected.segmentSize.toNat

/-- The header of a record that is there is read. -/
theorem headerBytes_of_cut (hcut : cut <+: pre ++ (r.bytes ++ post)) (hpre : pre.length = off)
    (hlimit : off + recordHeaderSize ≤ cut.length) :
    (slice cut off (off + recordHeaderSize) : Reader Bytes) = .ok (encodeRecordHeader r.header) := by
  obtain ⟨-, -, hsize, body, hbytes⟩ := r.header_spec
  rw [slice_at_cut hcut hpre hsize hlimit, hbytes, take_left' length_encodeRecordHeader]

theorem readRecord_whole (hcut : cut <+: pre ++ (r.bytes ++ post)) (hpre : pre.length = off)
    (hplaced : Placed expected off r) (hlimit : off + r.size ≤ cut.length) :
    readRecord cut expected off r.header = .ok (some r.payload) := by
  obtain ⟨-, hphysical, -, -⟩ := r.header_spec
  obtain ⟨hsegment, hoffset, hroom⟩ := hplaced
  have haddr : r.header.addr = r.addr := rfl
  have hslice := slice_at_cut hcut hpre (Nat.le_refl r.bytes.length) hlimit
  have hrecord : (slice cut off (off + r.size) : Reader Bytes) = .ok r.bytes := by
    rw [WrittenRecord.size, hslice, take_length]
  unfold readRecord
  dsimp only
  rw [haddr, hphysical, rejectIf_of_not (by omega), ok_bind, if_neg (by omega), hrecord, ok_bind,
    decodeRecord_encode r.encoded]
  simp [WrittenRecord.header, WrittenRecord.size, rejectIf, pure, Except.pure]

theorem readRecord_cut (hplaced : Placed expected off r) (hlimit : cut.length < off + r.size) :
    readRecord cut expected off r.header = .ok none := by
  obtain ⟨-, hphysical, -, -⟩ := r.header_spec
  obtain ⟨hsegment, hoffset, hroom⟩ := hplaced
  have haddr : r.header.addr = r.addr := rfl
  have hpos := r.header_spec.1.pos
  unfold readRecord
  dsimp only
  rw [haddr, hphysical, rejectIf_of_not (by omega), ok_bind, if_pos (by omega)]
  rfl

theorem newAppendResult_record (hplaced : Placed expected off r) : newAppendResult r.addr r.size = .ok r.result := by
  obtain ⟨⟨-, hvalid, htag⟩, hphysical, -, -⟩ := r.header_spec
  obtain ⟨-, hoffset, hroom⟩ := hplaced
  have hmax := expected.segmentSize.toNat_lt
  rw [hphysical] at htag
  have hend : (vaddr r.addr).recordEnd r.size =
      .ok ⟨(vaddr r.addr).segmentID, (vaddr r.addr).offset + r.size⟩ := by
    rw [VAddr.recordEnd]
    refine if_pos ⟨hvalid, htag, ?_⟩
    simp only [maxUint32]
    omega
  rw [newAppendResult, hend, WrittenRecord.result]

/-- **A whole record is visited.** -/
theorem scanRecord_whole (hcut : cut <+: pre ++ (r.bytes ++ post)) (hpre : pre.length = off)
    (hplaced : Placed expected off r) (hlimit : off + r.size ≤ cut.length) (hpos : 0 < r.size) (st : ScanState σ) :
    scanRecord cut expected (fun s result payload => .ok (visit s result payload)) st off =
      .ok (.next r.size hpos (st.record r.addr (visit st.visited r.result r.payload))) := by
  obtain ⟨hvalid, hphysical, hsize, -⟩ := r.header_spec
  have haddr : r.header.addr = r.addr := rfl
  unfold scanRecord
  rw [footerAhead_record hcut hpre, ok_bind, if_neg (by simp), if_neg (by omega),
    headerBytes_of_cut hcut hpre (by omega), ok_bind]
  have hdecode := decodeRecordHeader_encode hvalid
  split
  next err herr =>
    rw [hdecode] at herr
    cases herr
  next h hok =>
    obtain rfl : r.header = h := Except.ok.inj (hdecode.symm.trans hok)
    rw [readRecord_whole hcut hpre hplaced hlimit, ok_bind]
    simp only [haddr, hphysical, newAppendResult_record hplaced, ok_bind]
    rfl

/-- **A record that is cut off ends the scan.** -/
theorem scanRecord_cut (hcut : cut <+: pre ++ (r.bytes ++ post)) (hpre : pre.length = off)
    (hplaced : Placed expected off r) (hoff : off < cut.length) (hlimit : cut.length < off + r.size)
    (st : ScanState σ) : scanRecord cut expected (fun s result payload => .ok (visit s result payload)) st off = .ok .torn := by
  obtain ⟨hvalid, -, -, -⟩ := r.header_spec
  unfold scanRecord
  rw [footerAhead_record hcut hpre, ok_bind, if_neg (by simp)]
  split
  · rfl
  next hhead =>
    rw [headerBytes_of_cut hcut hpre (by omega), ok_bind]
    have hdecode := decodeRecordHeader_encode hvalid
    split
    next err herr =>
      rw [hdecode] at herr
      cases herr
    next h hok =>
      obtain rfl : r.header = h := Except.ok.inj (hdecode.symm.trans hok)
      rw [readRecord_cut hplaced hlimit, ok_bind]
      rfl

/-- **A footer, whole or cut, ends the scan.** -/
theorem scanRecord_footer {footer : Bytes} (hfooter : footer = [] ∨ ∃ f, encodeSegmentFooter f = .ok footer)
    (hcut : cut <+: pre ++ footer) (hpre : pre.length = off) (hlimit : off < cut.length) (st : ScanState σ) :
    scanRecord cut expected (fun s result payload => .ok (visit s result payload)) st off = .ok .torn := by
  have hlength := hcut.length_le
  rw [length_append] at hlength
  rcases hfooter with rfl | ⟨f, hf⟩
  · rw [length_nil] at hlength
    omega
  obtain ⟨hsize, rest, rfl⟩ := encodeSegmentFooter_eq_ok hf
  have hmagic : segmentFooterMagic.length = 8 := rfl
  simp only [segmentFooterSize] at hsize
  unfold scanRecord
  by_cases hlong : off + 8 ≤ cut.length
  · -- the eight letters of the footer are there
    have hslice := slice_at_cut (n := 8) hcut hpre (Nat.le_of_eq hmagic.symm) hlong
    rw [take_of_length_le (Nat.le_of_eq hmagic)] at hslice
    have hahead : footerAhead cut off = .ok true := by
      unfold footerAhead
      rw [if_pos ⟨by simp only [segmentFooterSize]; omega, by omega⟩, hmagic, hslice]
      simp [pure, Except.pure]
    rw [hahead, ok_bind, if_pos rfl]
    rfl
  · have hahead : footerAhead cut off = .ok false := by
      unfold footerAhead
      dsimp only
      rw [if_neg (by omega)]
      rfl
    rw [hahead, ok_bind, if_neg (by simp), if_pos (by simp only [recordHeaderSize]; omega)]
    rfl

/-! ## §4 — The scan of a cut file -/

/-- What a visited record does to the state of the scan. -/
def visitRecord (visit : σ → AppendResult → Bytes → σ) (st : ScanState σ) (r : WrittenRecord) : ScanState σ :=
  st.record r.addr (visit st.visited r.result r.payload)

/-- The scan understands the records of a cut file, and the footer behind them. -/
theorem understands_records (visit : σ → AppendResult → Bytes → σ) {footer : Bytes}
    (hfooter : footer = [] ∨ ∃ f, encodeSegmentFooter f = .ok footer)
    (hcut : cut <+: pre ++ (records.flatMap WrittenRecord.bytes ++ footer)) (hpre : pre.length = off)
    (hcontiguous : Contiguous expected.segmentID.toNat off records)
    (hfits : off + (records.map WrittenRecord.size).sum + segmentFooterSize ≤ expected.segmentSize.toNat) :
    Understands (scanRecord cut expected fun s result payload => .ok (visit s result payload)) cut.length
      WrittenRecord.size (visitRecord visit) off records := by
  induction records generalizing pre off with
  | nil => exact .tail off fun hlimit st => scanRecord_footer hfooter hcut hpre hlimit st
  | cons r rest ih =>
    obtain ⟨hsegment, hoffset, hrest⟩ := hcontiguous
    rw [map_cons, sum_cons] at hfits
    rw [flatMap_cons, append_assoc] at hcut
    have hplaced : Placed expected off r := ⟨hsegment, hoffset, by omega⟩
    have hpos : 0 < r.size := by
      have hsize := r.header_spec.2.2.1
      simp only [recordHeaderSize] at hsize
      omega
    refine .frame off r rest hpos ?_ ?_ ?_
    · exact fun hlimit st => scanRecord_whole hcut hpre hplaced hlimit hpos st
    · exact fun hoff hlimit st => scanRecord_cut hcut hpre hplaced hoff hlimit st
    · intro _
      refine @ih (pre ++ r.bytes) (off + r.size) ?_ ?_ hrest (by omega)
      · rwa [append_assoc]
      · rw [length_append, hpre, WrittenRecord.size]

theorem Contiguous.le_offset {segmentID : Nat} (h : Contiguous segmentID off records) :
    ∀ r ∈ records, off ≤ (vaddr r.addr).offset := by
  induction records generalizing off with
  | nil => simp
  | cons r rest ih =>
    obtain ⟨-, hoffset, hrest⟩ := h
    simp only [mem_cons, forall_eq_or_imp]
    exact ⟨Nat.le_of_eq hoffset.symm, fun r' hr' => Nat.le_trans (Nat.le_add_right _ _) (ih hrest r' hr')⟩

/-- The frames a scan takes are the records that end before the limit. -/
theorem Contiguous.wholeFrames_eq {segmentID limit : Nat} (h : Contiguous segmentID off records) :
    wholeFrames WrittenRecord.size limit off records =
      records.filter fun r => (vaddr r.addr).offset + r.size ≤ limit := by
  induction records generalizing off with
  | nil => rfl
  | cons r rest ih =>
    obtain ⟨-, rfl, hrest⟩ := h
    rw [wholeFrames, filter_cons]
    split
    next hfit => rw [if_pos (by simpa using hfit), ih hrest]
    next hfit =>
      have hnone : rest.filter (fun r' => (vaddr r'.addr).offset + r'.size ≤ limit) = [] := by
        rw [filter_eq_nil_iff]
        intro r' hr'
        have hlater := hrest.le_offset r' hr'
        simp only [decide_eq_true_eq]
        omega
      rw [if_neg (by simpa using hfit), hnone]

/-- What the loop has after a list of records. -/
theorem foldl_visitRecord (st : ScanState σ) :
    records.foldl (visitRecord visit) st =
      ⟨st.recordCount + records.length,
        if st.recordCount = 0 then (records.head?.map WrittenRecord.addr).getD st.firstAddr else st.firstAddr,
        (records.getLast?.map WrittenRecord.addr).getD st.lastAddr,
        records.foldl (fun s r => visit s r.result r.payload) st.visited⟩ := by
  induction records generalizing st with
  | nil => simp
  | cons r rest ih =>
    rw [foldl_cons, ih, visitRecord, ScanState.record]
    simp only [length_cons, List.head?_cons, Option.map_some, Option.getD_some, foldl_cons,
      Nat.add_eq_zero_iff, Nat.one_ne_zero, and_false, if_false, ScanState.mk.injEq, and_true, true_and]
    refine ⟨by omega, ?_⟩
    cases rest with
    | nil => rfl
    | cons r' rest' =>
      obtain ⟨last, hlast⟩ : ∃ last, (r' :: rest').getLast? = some last :=
        ⟨_, List.getLast?_eq_some_getLast (cons_ne_nil _ _)⟩
      rw [List.getLast?_cons_cons, hlast]
      rfl

theorem length_flatMap_bytes (records : List WrittenRecord) :
    (records.flatMap WrittenRecord.bytes).length = (records.map WrittenRecord.size).sum := by
  rw [length_flatMap]
  rfl

theorem WrittenSegment.length_headerBytes (w : WrittenSegment) : w.headerBytes.length = segmentHeaderSize := by
  rw [(encodeSegmentHeader_eq_ok w.headerEncoded).2, length_withCRC, length_segmentHeaderFields, segmentHeaderSize]

theorem WrittenSegment.length_file_le (w : WrittenSegment) : w.file.length ≤ w.header.segmentSize.toNat := by
  have hfooter : w.footer.length ≤ segmentFooterSize := by
    rcases w.footerEncoded with hnil | ⟨f, hf⟩
    · rw [hnil]
      exact Nat.zero_le _
    · exact Nat.le_of_eq (encodeSegmentFooter_eq_ok hf).1
  have hfits := w.fits
  rw [file, length_append, length_append, w.length_headerBytes, length_flatMap_bytes]
  omega

/-- **A torn segment is opened with exactly its whole records.**  Whatever byte the file of a segment is cut at
behind its header, the scan succeeds, visits the records that are wholly there in their order, and reports the
end of the last one; the bytes up to it are the header and these records. -/
theorem scan_of_cut (w : WrittenSegment) (cut : Bytes) (hcut : cut <+: w.file) (hheader : segmentHeaderSize ≤ cut.length)
    (visit : σ → AppendResult → Bytes → σ) (init : σ) :
    let whole := w.wholeRecords cut.length
    let validEnd := segmentHeaderSize + (whole.map WrittenRecord.size).sum
    scanActiveSegmentWithVisitor cut w.header (fun s result payload => .ok (visit s result payload)) init =
        .ok (⟨w.header.segmentID.toNat, validEnd, whole.length, vaddr ((whole.head?.map WrittenRecord.addr).getD 0),
          vaddr ((whole.getLast?.map WrittenRecord.addr).getD 0)⟩, decide (validEnd < cut.length),
          whole.foldl (fun s r => visit s r.result r.payload) init) ∧
      whole <+: w.records ∧ cut.take validEnd = w.headerBytes ++ whole.flatMap WrittenRecord.bytes := by
  intro whole validEnd
  have hwhole : wholeFrames WrittenRecord.size cut.length segmentHeaderSize w.records = whole :=
    w.contiguous.wholeFrames_eq
  obtain ⟨hfirst, hend⟩ := wholeFrames_spec WrittenRecord.size w.records hheader
  rw [hwhole] at hfirst hend
  refine ⟨?_, hfirst, ?_⟩
  · have hlength := Nat.le_trans hcut.length_le w.length_file_le
    have hslice : (slice cut 0 segmentHeaderSize : Reader Bytes) = .ok w.headerBytes := by
      rw [slice_of_cut hcut hheader, WrittenSegment.file, slice_field w.length_headerBytes]
    have hscan := (understands_records visit w.footerEncoded hcut w.length_headerBytes w.contiguous
      w.fits).scan hheader ⟨0, 0, 0, init⟩
    rw [hwhole, foldl_visitRecord] at hscan
    unfold scanActiveSegmentWithVisitor
    rw [rejectIf_of_not (by omega), hslice]
    simp only [ok_bind, decodeSegmentHeader_encode w.headerEncoded]
    rw [rejectIf_of_not (by simp), ok_bind, hscan]
    simp [pure, Except.pure, validEnd]
  · -- the bytes before the valid end are the header and the whole records
    obtain ⟨others, hothers⟩ := hfirst
    obtain ⟨lost, hlost⟩ := hcut
    have hfile : cut ++ lost = (w.headerBytes ++ whole.flatMap WrittenRecord.bytes) ++
        (others.flatMap WrittenRecord.bytes ++ w.footer) := by
      rw [hlost, WrittenSegment.file, ← hothers, flatMap_append]
      simp only [append_assoc]
    have hlen : (w.headerBytes ++ whole.flatMap WrittenRecord.bytes).length = validEnd := by
      rw [length_append, w.length_headerBytes, length_flatMap_bytes]
    have htake := congrArg (List.take validEnd) hfile
    rwa [take_append_of_le_length hend, take_left' hlen] at htake

namespace Demo

def header : SegmentHeader := ⟨.ofByte 1, 1, 0, 256⟩

def first : WrittenRecord where
  addr := 0x100000040
  payload := [1, 2, 3]
  bytes := encodeRecordHeader (recordHeader 0x100000040 [1, 2, 3] 40) ++ [1, 2, 3] ++ zeros 5
  encoded := rfl

def second : WrittenRecord where
  addr := 0x100000068
  payload := [4]
  bytes := encodeRecordHeader (recordHeader 0x100000068 [4] 40) ++ [4] ++ zeros 7
  encoded := rfl

/-- A segment with two records that was prepared to be sealed. -/
def sealedSegment : Except FormatError WrittenSegment := do
  let created ← WrittenSegment.create header
  let written ← created.appendEncoded [first, second]
  written.prepareSeal

end Demo

/-- Cut inside of its second record, and cut inside of its footer. -/
theorem scan_of_cut_sealedSegment : ∃ w, Demo.sealedSegment = .ok w ∧ w.footer.length = segmentFooterSize ∧
    scanActiveSegmentWithVisitor (w.file.take 140) Demo.header (fun s _ payload => .ok (s ++ [payload])) [] =
      .ok (⟨1, 104, 1, ⟨0x100000040⟩, ⟨0x100000040⟩⟩, true, [[1, 2, 3]]) ∧
    scanActiveSegmentWithVisitor (w.file.take 200) Demo.header (fun s _ payload => .ok (s ++ [payload])) [] =
      .ok (⟨1, 144, 2, ⟨0x100000040⟩, ⟨0x100000068⟩⟩, true, [[1, 2, 3], [4]]) := by
  obtain ⟨w, hw, hrecords, hheader, hfooter⟩ : ∃ w, Demo.sealedSegment = .ok w ∧
      w.records = [Demo.first, Demo.second] ∧ w.header = Demo.header ∧ w.footer.length = segmentFooterSize :=
    ⟨_, rfl, rfl, rfl, by decide⟩
  have hfile : w.file.length = 208 := by
    rw [WrittenSegment.file, length_append, length_append, w.length_headerBytes, length_flatMap_bytes, hrecords, hfooter]
    rfl
  have hcut : ∀ n ≤ 208, (w.file.take n).length = n := fun n hn => by rw [length_take, hfile, Nat.min_eq_left hn]
  refine ⟨w, hw, hfooter, ?_, ?_⟩
  · have hwhole : w.wholeRecords 140 = [Demo.first] := by
      rw [WrittenSegment.wholeRecords, hrecords]
      rfl
    have hscan := (scan_of_cut w _ (List.take_prefix 140 _) (by rw [hcut 140 (by decide)]; decide)
      (fun (s : List Bytes) _ payload => s ++ [payload]) []).1
    rw [hcut 140 (by decide), hwhole, hheader] at hscan
    exact hscan
  · have hwhole : w.wholeRecords 200 = [Demo.first, Demo.second] := by
      rw [WrittenSegment.wholeRecords, hrecords]
      rfl
    have hscan := (scan_of_cut w _ (List.take_prefix 200 _) (by rw [hcut 200 (by decide)]; decide)
      (fun (s : List Bytes) _ payload => s ++ [payload]) []).1
    rw [hcut 200 (by decide), hwhole, hheader] at hscan
    exact hscan

end Ridstore.RecordLog
