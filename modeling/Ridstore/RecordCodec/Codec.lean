import Ridstore.Lib.Bytes
import Ridstore.RecordCodec.Group

/-
# Ridstore.RecordCodec.Codec — the bytes of a commit group

A commit group is a head, then one descriptor after the other, each a head and its mutations.  All words
are little endian.  An encoder allocates its bytes as zeros, so the bytes it does not write are written out
here as zeros; a decoder reads slices of its input and stops with a text at the first field that is wrong.
Kinds and operations are the raw bytes of the wire: a decoder meets every one of them.
-/

namespace Ridstore.RecordCodec.Wire

open Lib
open RecordLog (VAddr RecordRef)

/-! ## §1 — The records -/

/-- The errors of the codec, with the text that is wrapped around `ErrCorrupt`. -/
inductive CodecError
  | invalid
  | tooLarge
  | unsupported
  | corrupt (text : String)
  deriving DecidableEq, Repr

/-- `protocolMagic`, the letters of RSP2. -/
def protocolMagic : Bytes := [0x52, 0x53, 0x50, 0x32]

def formatVersion : UInt16 := 3

def commonHeaderSize : Nat := 16

def recordTypeCommitGroup : UInt8 := 2

def descriptorUserCommit : UInt8 := 1

def descriptorRelocation : UInt8 := 2

def operationPut : UInt8 := 1

def operationDelete : UInt8 := 2

def operationRelocate : UInt8 := 3

structure Mutation where
  recordID : UInt64
  newAddr : UInt64
  expectedOldAddr : UInt64
  operation : UInt8
  physicalSize : UInt32
  deriving DecidableEq, Repr

structure Descriptor where
  kind : UInt8
  batchID : UInt64
  commitSeq : UInt64
  logicalPayloadBytes : UInt64
  mutations : List Mutation
  deriving DecidableEq, Repr

structure CommitGroup where
  descriptors : List Descriptor
  deriving DecidableEq, Repr

def Mutation.newRef (m : Mutation) : RecordRef := ⟨⟨m.newAddr.toNat⟩, m.physicalSize.toNat⟩

def Mutation.oldAddr (m : Mutation) : VAddr := ⟨m.expectedOldAddr.toNat⟩

/-! ## §2 — Sizes -/

/-- `checkedSize`; every failure is `ErrTooLarge`. -/
def checkedSize (a b : Nat) : Option Nat := if maxUint32 < a ∨ maxUint32 - a < b then none else some (a + b)

/-- `checkedMul`. -/
def checkedMul (a b : Nat) : Option Nat := if a ≠ 0 ∧ maxUint64 / a < b then none else some (a * b)

/-- `DescriptorSize`. -/
def descriptorSize (mutationCount : Nat) : Option Nat := do
  let mutations ← checkedMul mutationCount mutationSize
  checkedSize descriptorHeadSize mutations

/-- The loop of `CommitGroupPayloadSize`. -/
def addSizes : Nat → List Descriptor → Except CodecError Nat
  | total, [] => .ok total
  | total, d :: rest =>
    match descriptorSize d.mutations.length with
    | none => .error .tooLarge
    | some size => if maxUint32 - size < total then .error .tooLarge else addSizes (total + size) rest

/-- `CommitGroupPayloadSize`. -/
def commitGroupPayloadSize (descriptors : List Descriptor) : Except CodecError Nat :=
  if descriptors = [] ∨ maxUint32 < descriptors.length then .error .invalid
  else addSizes commitGroupHeadSize descriptors

/-- The bytes of a descriptor. -/
def Descriptor.size (d : Descriptor) : Nat := descriptorHeadSize + d.mutations.length * mutationSize

/-- The mutations of all descriptors. -/
def mutationCount (descriptors : List Descriptor) : Nat := (descriptors.map fun d => d.mutations.length).sum

/-! ## §3 — Checks -/

/-- The `switch` of `validateDescriptors` on the kind; an unknown kind is refused with its first mutation. -/
def validMutation (kind : UInt8) (m : Mutation) : Bool :=
  if kind = descriptorUserCommit then
    if m.operation = operationPut then m.newRef.valid && m.expectedOldAddr = 0
    else if m.operation = operationDelete then m.newAddr = 0 && m.expectedOldAddr = 0 && m.physicalSize = 0
    else false
  else if kind = descriptorRelocation then
    m.operation = operationRelocate && m.newRef.valid && m.oldAddr.valid && m.newAddr ≠ m.expectedOldAddr
  else false

/-- The inner loop of `validateDescriptors`. -/
def validMutations (kind : UInt8) : Option UInt64 → List Mutation → Bool
  | _, [] => true
  | previousID, m :: rest =>
    m.recordID ≠ 0 && previousID.all (· < m.recordID) && validMutation kind m &&
      validMutations kind (some m.recordID) rest

/-- The outer loop of `validateDescriptors`, with the batches met so far. -/
def validFrom : Option UInt64 → List UInt64 → List Descriptor → Bool
  | _, _, [] => true
  | previousSeq, batchIDs, d :: rest =>
    d.batchID ≠ 0 && d.commitSeq ≠ 0 &&
      previousSeq.all (fun seq => seq.toNat ≠ maxUint64 && d.commitSeq = seq + 1) &&
      !batchIDs.contains d.batchID && !(d.kind = descriptorRelocation && d.mutations.isEmpty) &&
      validMutations d.kind none d.mutations && validFrom (some d.commitSeq) (d.batchID :: batchIDs) rest

/-- **`validateDescriptors`**; every failure is `ErrInvalid`. -/
def validateDescriptors (descriptors : List Descriptor) : Bool :=
  !descriptors.isEmpty && validFrom none [] descriptors

/-! ## §4 — Encoding -/

/-- `encodeHeader` of a record of a size. -/
def encodeHeader (typ : UInt8) (headerSize size : Nat) : Bytes :=
  protocolMagic ++ putUint16 formatVersion ++ [typ, 0] ++ putUint16 (.ofNat headerSize) ++ putUint16 0 ++
    putUint32 (.ofNat size)

def encodeMutation (m : Mutation) : Bytes :=
  putUint64 m.recordID ++ putUint64 m.newAddr ++ putUint64 m.expectedOldAddr ++ [m.operation] ++
    putUint32 m.physicalSize ++ zeros 3

def encodeDescriptorHead (d : Descriptor) : Bytes :=
  [d.kind, 0] ++ putUint16 (.ofNat descriptorHeadSize) ++ putUint32 (.ofNat d.mutations.length) ++
    putUint64 d.batchID ++ putUint64 d.commitSeq ++ putUint64 d.logicalPayloadBytes ++
    putUint32 (.ofNat ((descriptorSize d.mutations.length).getD 0)) ++ putUint32 0

def encodeDescriptor (d : Descriptor) : Bytes := encodeDescriptorHead d ++ d.mutations.flatMap encodeMutation

/-- **`EncodeCommitGroup`.** -/
def encodeCommitGroup (group : CommitGroup) (maxPayloadSize : Nat) : Except CodecError Bytes :=
  match commitGroupPayloadSize group.descriptors with
  | .error err => .error err
  | .ok total =>
    if maxPayloadSize < total then .error .tooLarge
    else if validateDescriptors group.descriptors = false then .error .invalid
    else if maxUint32 < mutationCount group.descriptors then .error .tooLarge
    else
      .ok (encodeHeader recordTypeCommitGroup commitGroupHeadSize total ++
        putUint32 (.ofNat group.descriptors.length) ++ putUint32 (.ofNat (mutationCount group.descriptors)) ++
        putUint64 ((group.descriptors.head?.map Descriptor.commitSeq).getD 0) ++
        group.descriptors.flatMap encodeDescriptor)

/-! ## §5 — Decoding -/

abbrev Decoder := Except (Fault CodecError)

structure Header where
  typ : UInt8
  headerSize : UInt16
  totalSize : UInt32
  deriving DecidableEq, Repr

/-- `decodeHeader`. -/
def decodeHeader (src : Bytes) (typ : UInt8) (headerSize : Nat) : Decoder Header := do
  rejectIf (src.length < commonHeaderSize ∨ maxUint32 < src.length) (.corrupt "protocol magic or size")
  let magic ← slice src 0 4
  rejectIf (magic ≠ protocolMagic) (.corrupt "protocol magic or size")
  let version ← uint16At src 4
  rejectIf (version ≠ formatVersion) .unsupported
  let h : Header := ⟨← byteAt src 6, ← uint16At src 8, ← uint32At src 12⟩
  let flags ← byteAt src 7
  let reserved ← uint16At src 10
  rejectIf (h.typ ≠ typ ∨ flags ≠ 0 ∨ h.headerSize ≠ .ofNat headerSize ∨ reserved ≠ 0 ∨
    h.totalSize ≠ .ofNat src.length ∨ src.length < headerSize) (.corrupt "protocol header fields")
  return h

/-- The body of the inner loop of `DecodeCommitGroup`. -/
def decodeMutation (src : Bytes) (entryOffset : Nat) : Decoder Mutation := do
  let entry ← slice src entryOffset (entryOffset + mutationSize)
  let reserved ← slice entry 29 32
  rejectIf (allZero reserved = false) (.corrupt "mutation reserved bytes")
  return ⟨← uint64At entry 0, ← uint64At entry 8, ← uint64At entry 16, ← byteAt entry 24, ← uint32At entry 25⟩

/-- The inner loop of `DecodeCommitGroup`. -/
def decodeMutations (src : Bytes) : Nat → Nat → Decoder (List Mutation)
  | 0, _ => return []
  | count + 1, entryOffset => do
      let m ← decodeMutation src entryOffset
      let rest ← decodeMutations src count (entryOffset + mutationSize)
      return m :: rest

/-- The body of the outer loop of `DecodeCommitGroup`, at an offset and after a number of mutations: the
descriptor and the size it was read with. -/
def decodeDescriptor (src : Bytes) (maxMutations offset totalMutations : Nat) : Decoder (Descriptor × Nat) := do
  rejectIf (src.length < offset ∨ src.length - offset < descriptorHeadSize) (.corrupt "descriptor header truncated")
  let headerBytes ← slice src offset (offset + descriptorHeadSize)
  let flags ← byteAt headerBytes 1
  let headSize ← uint16At headerBytes 2
  let reserved ← uint32At headerBytes 36
  rejectIf (flags ≠ 0 ∨ headSize ≠ .ofNat descriptorHeadSize ∨ reserved ≠ 0) (.corrupt "descriptor header fields")
  let count ← uint32At headerBytes 4
  let size ← uint32At headerBytes 32
  rejectIf (descriptorSize count.toNat ≠ some size.toNat ∨ src.length - offset < size.toNat ∨
    maxMutations - totalMutations < count.toNat) (.corrupt "descriptor size")
  let kind ← byteAt headerBytes 0
  let batchID ← uint64At headerBytes 8
  let commitSeq ← uint64At headerBytes 16
  let logicalPayloadBytes ← uint64At headerBytes 24
  let mutations ← decodeMutations src count.toNat (offset + descriptorHeadSize)
  return (⟨kind, batchID, commitSeq, logicalPayloadBytes, mutations⟩, size.toNat)

/-- The outer loop of `DecodeCommitGroup`: the descriptors, the offset behind them and their mutations. -/
def decodeDescriptors (src : Bytes) (maxMutations : Nat) : Nat → Nat → Nat → Decoder (List Descriptor × Nat × Nat)
  | 0, offset, totalMutations => return ([], offset, totalMutations)
  | count + 1, offset, totalMutations => do
      let (d, size) ← decodeDescriptor src maxMutations offset totalMutations
      let (rest, last, total) ←
        decodeDescriptors src maxMutations count (offset + size) (totalMutations + d.mutations.length)
      return (d :: rest, last, total)

/-- **`DecodeCommitGroup`.** -/
def decodeCommitGroup (src : Bytes) (maxPayloadSize maxDescriptors maxMutations : Nat) : Decoder CommitGroup := do
  rejectIf (maxPayloadSize < src.length) .tooLarge
  let _ ← decodeHeader src recordTypeCommitGroup commitGroupHeadSize
  let count ← uint32At src 16
  let wantMutations ← uint32At src 20
  let firstSeq ← uint64At src 24
  let maxByInput := (src.length - commitGroupHeadSize) / descriptorHeadSize
  rejectIf (count = 0 ∨ maxDescriptors < count.toNat ∨ maxByInput < count.toNat ∨ maxMutations < wantMutations.toNat ∨
    firstSeq = 0) (.corrupt "commit group counts")
  let (descriptors, offset, totalMutations) ←
    decodeDescriptors src maxMutations count.toNat commitGroupHeadSize 0
  rejectIf (offset ≠ src.length ∨ totalMutations ≠ wantMutations.toNat)
    (.corrupt "commit group trailing bytes or mutation count")
  rejectIf (validateDescriptors descriptors = false) (.corrupt "commit group semantics")
  rejectIf ((descriptors.head?.map Descriptor.commitSeq) ≠ some firstSeq) (.corrupt "commit group first sequence")
  return ⟨descriptors⟩

end Ridstore.RecordCodec.Wire
