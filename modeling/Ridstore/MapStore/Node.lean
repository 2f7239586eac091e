import Ridstore.MapStore.Address
import Ridstore.RecordLog.Address

/-
# Ridstore.MapStore.Node — the nodes of the persistent mapping

A node is kept as its slots: the sparse and the dense encoding hold the same slots and differ in their
size only, which is what the segment files count.
-/

namespace Ridstore.MapStore

open RecordLog (RecordRef)

def nodeHeaderSize : Nat := 64

def nodeSlots : Nat := 512

def sparseBitmapBytes : Nat := 64

def sparseDenseBoundary : Nat := 504

def maxLevel : Nat := 7

/-- `DenseNodeSize`, that of a dense leaf. -/
def denseNodeSize : Nat := nodeHeaderSize + nodeSlots * 12

/-- `NodeBuild`.  A slot holds the raw word of a child or of a record, zero when it is empty; only the
slots below `nodeSlots` are there. -/
structure NodeBuild where
  level : Nat
  keyPrefix : Nat
  coveredCommitSeq : Nat
  slots : Nat → Nat
  sizes : Nat → Nat

/-- `Node`, a build with the sequence number the store gave it. -/
structure Node extends NodeBuild where
  nodeSeq : Nat

/-- `ParseMapAddr`. -/
def parseMapAddr (raw : Nat) : Option MapAddr := if MapAddr.valid ⟨raw⟩ then some ⟨raw⟩ else none

/-- `validPrefix`. -/
def validPrefix (level keyPrefix : Nat) : Bool :=
  if level = maxLevel then keyPrefix = 0 else level < maxLevel && keyPrefix < 2 ^ (64 - 9 * (level + 1))

/-- `alignNodeSize`. -/
def alignNodeSize (size : Nat) : Nat := (size + 7) / 8 * 8

/-- `EncodedNodeSize` of a level and a number of entries. -/
def encodedNodeSize (level entries : Nat) : Nat :=
  let width := if level = 0 then 12 else 8
  if sparseDenseBoundary ≤ entries then nodeHeaderSize + nodeSlots * width
  else alignNodeSize (nodeHeaderSize + sparseBitmapBytes + entries * width)

namespace NodeBuild

/-- The reference a leaf slot holds. -/
def ref (b : NodeBuild) (slot : Nat) : RecordRef := ⟨⟨b.slots slot⟩, b.sizes slot⟩

/-- `countValues` of the slots. -/
def entryCount (b : NodeBuild) : Nat := (List.range nodeSlots).countP fun slot => b.slots slot ≠ 0

def physicalSize (b : NodeBuild) : Nat := encodedNodeSize b.level b.entryCount

/-- `validateValues` on one slot. -/
def validValue (b : NodeBuild) (slot : Nat) : Bool :=
  if b.slots slot = 0 then b.level ≠ 0 || b.sizes slot = 0
  else if b.level = 0 then (b.ref slot).valid
  else b.sizes slot = 0 && (parseMapAddr (b.slots slot)).isSome

/-- What `EncodeNode` accepts, the sequence number apart. -/
def encodable (b : NodeBuild) : Bool :=
  b.coveredCommitSeq ≠ 0 && validPrefix b.level b.keyPrefix && b.entryCount ≠ 0 &&
    (b.level ≠ maxLevel || (List.range nodeSlots).all fun slot => slot < 2 || b.slots slot = 0) &&
    (List.range nodeSlots).all b.validValue

/-- `Node.Lookup`. -/
def lookup (b : NodeBuild) (slot : Nat) : Option Nat :=
  if slot < nodeSlots ∧ b.slots slot ≠ 0 then some (b.slots slot) else none

/-- `Node.LookupRef`. -/
def lookupRef (b : NodeBuild) (slot : Nat) : Option RecordRef :=
  if b.level = 0 ∧ slot < nodeSlots ∧ b.slots slot ≠ 0 then some (b.ref slot) else none

end NodeBuild

theorem nodeHeaderSize_le_encodedNodeSize (level entries : Nat) : nodeHeaderSize ≤ encodedNodeSize level entries := by
  simp only [encodedNodeSize, alignNodeSize, nodeHeaderSize, nodeSlots, sparseBitmapBytes]
  split <;> omega

end Ridstore.MapStore
