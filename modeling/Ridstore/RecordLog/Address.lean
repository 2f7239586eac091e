import Mathlib.Order.Nat
import Ridstore.Base
import Ridstore.Lib.Scan

/-
# Ridstore.RecordLog.Address — addresses, references and scan positions of the record log

A virtual address packs a segment number, an aligned offset and a three-bit size hint in one 64-bit
word.  A reference adds the physical size of the record, and a scan position is an untagged boundary.
-/

namespace Ridstore.RecordLog

def segmentHeaderSize : Nat := 64

def recordHeaderSize : Nat := 32

def recordAlignment : Nat := 8

def reservedSizeTag : Nat := 7

def compactionSegmentBase : Nat := 2 ^ 31

/-- Outputs of a compaction have their own range of segment numbers. -/
def isCompactionSegment (id : Nat) : Bool := compactionSegmentBase ≤ id

/-- **A virtual address**, the raw 64-bit word. -/
structure VAddr where
  raw : Nat
  deriving DecidableEq, Repr

namespace VAddr

def segmentID (v : VAddr) : Nat := v.raw / 2 ^ 32

def offset (v : VAddr) : Nat := v.raw % 2 ^ 32 / 8 * 8

def sizeTag (v : VAddr) : Nat := v.raw % 8

/-- `VAddr.Valid`. -/
def valid (v : VAddr) : Bool :=
  v.segmentID ≠ 0 && segmentHeaderSize ≤ v.offset && v.sizeTag ≠ reservedSizeTag

end VAddr

/-- The size hint of a record: the first tag whose read size covers it, the last one otherwise. -/
def sizeTag (physicalSize : Nat) : Except StoreError Nat :=
  if physicalSize < recordHeaderSize ∨ physicalSize % recordAlignment ≠ 0 then .error .invalidVAddr
  else
    match (List.range reservedSizeTag).find?
        fun tag => physicalSize ≤ 64 * 2 ^ tag ∨ tag = reservedSizeTag - 1 with
    | some tag => .ok tag
    | none => .error .invalidVAddr

/-- `VAddr.MatchesPhysicalSize`. -/
def VAddr.matchesPhysicalSize (v : VAddr) (physicalSize : Nat) : Bool :=
  match RecordLog.sizeTag physicalSize with
  | .error _ => false
  | .ok tag => tag = v.sizeTag

/-- `RecordRef`: the address with the physical size it was written with. -/
structure RecordRef where
  addr : VAddr
  physicalSize : Nat
  deriving DecidableEq, Repr

/-- `RecordRef.Valid`. -/
def RecordRef.valid (r : RecordRef) : Bool :=
  r.addr.valid && recordHeaderSize ≤ r.physicalSize && r.physicalSize % recordAlignment = 0 &&
    r.addr.matchesPhysicalSize r.physicalSize

/-- The zero reference, which stands for no record. -/
def RecordRef.zero : RecordRef := ⟨⟨0⟩, 0⟩

/-- `LogPos`, a scan boundary. -/
structure LogPos where
  segmentID : Nat
  offset : Nat
  deriving DecidableEq, Repr

/-- `LogPos.Valid`. -/
def LogPos.valid (p : LogPos) : Bool :=
  p.segmentID ≠ 0 && segmentHeaderSize ≤ p.offset && p.offset % recordAlignment = 0

/-- `LogPos.Uint64`. -/
def LogPos.uint64 (p : LogPos) : Nat := p.segmentID * 2 ^ 32 + p.offset

/-- `ParseLogPos`. -/
def parseLogPos (raw : Nat) : Except StoreError LogPos :=
  let p : LogPos := ⟨raw / 2 ^ 32, raw % 2 ^ 32⟩
  if p.valid then .ok p else .error .invalidLogPos

/-- `LogPos.Compare` gives a negative result. -/
def LogPos.lt (p q : LogPos) : Bool :=
  p.segmentID < q.segmentID || (p.segmentID = q.segmentID && p.offset < q.offset)

/-- `SegmentSummary`, what is known of the records of a segment. -/
structure SegmentSummary where
  segmentID : Nat
  validEnd : Nat
  recordCount : Nat
  firstAddr : VAddr
  lastAddr : VAddr
  deriving DecidableEq, Repr

/-- `VAddr.End`: the boundary behind the record. -/
def VAddr.recordEnd (v : VAddr) (physicalSize : Nat) : Except StoreError LogPos :=
  if v.valid ∧ v.matchesPhysicalSize physicalSize ∧ physicalSize ≤ maxUint32 - v.offset then
    .ok ⟨v.segmentID, v.offset + physicalSize⟩
  else .error .invalidVAddr

end Ridstore.RecordLog
