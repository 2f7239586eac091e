import Ridstore.RecordLog.Address

/-
# Ridstore.RecordCodec.Group — commit groups and their sizes

A commit group is one log record with a descriptor for every accepted proposal.  Kept here are the fields as plain
numbers, the sizes that bound a group and the checks; `GroupWire` compares them with the byte codec.
-/

namespace Ridstore.RecordCodec

open RecordLog (VAddr RecordRef)

def putHeaderSize : Nat := 32

def commitGroupHeadSize : Nat := 32

def descriptorHeadSize : Nat := 40

def mutationSize : Nat := 32

inductive DescriptorKind
  | userCommit
  | relocation
  deriving DecidableEq, Repr

inductive Operation
  | put
  | delete
  | relocate
  deriving DecidableEq, Repr

structure Mutation where
  recordID : Nat
  newAddr : VAddr
  expectedOldAddr : VAddr
  operation : Operation
  physicalSize : Nat
  deriving DecidableEq, Repr

structure Descriptor where
  kind : DescriptorKind
  batchID : Nat
  commitSeq : Nat
  logicalPayloadBytes : Nat
  mutations : List Mutation
  deriving DecidableEq, Repr

/-- `PutPayloadSize`. -/
def putPayloadSize (valueBytes : Nat) : Except StoreError Nat :=
  if putHeaderSize + valueBytes ≤ maxUint32 then .ok (putHeaderSize + valueBytes) else .error .tooLarge

/-- `DescriptorSize` of a number of mutations. -/
def descriptorSize (mutationCount : Nat) : Except StoreError Nat :=
  if descriptorHeadSize + mutationCount * mutationSize ≤ maxUint32 then
    .ok (descriptorHeadSize + mutationCount * mutationSize)
  else .error .tooLarge

/-- The bytes of a commit group, as `CommitGroupPayloadSize` adds them up. -/
def groupBytes (descriptors : List Descriptor) : Nat :=
  commitGroupHeadSize + (descriptors.map fun d => descriptorHeadSize + d.mutations.length * mutationSize).sum

/-- The checks of `validateDescriptors` on one mutation. -/
def Mutation.ValidIn (m : Mutation) : DescriptorKind → Prop
  | .userCommit =>
    m.operation = .put ∧ RecordRef.valid ⟨m.newAddr, m.physicalSize⟩ ∧ m.expectedOldAddr = ⟨0⟩ ∨
      m.operation = .delete ∧ m.newAddr = ⟨0⟩ ∧ m.expectedOldAddr = ⟨0⟩ ∧ m.physicalSize = 0
  | .relocation =>
    m.operation = .relocate ∧ RecordRef.valid ⟨m.newAddr, m.physicalSize⟩ ∧ m.expectedOldAddr.valid ∧
      m.newAddr ≠ m.expectedOldAddr

instance (m : Mutation) : (kind : DescriptorKind) → Decidable (m.ValidIn kind)
  | .userCommit => inferInstanceAs (Decidable (_ ∨ _))
  | .relocation => inferInstanceAs (Decidable (_ ∧ _))

/-- **`validateDescriptors`.** -/
def ValidDescriptors (descriptors : List Descriptor) : Prop :=
  descriptors ≠ [] ∧ (∀ d ∈ descriptors, d.batchID ≠ 0 ∧ d.commitSeq ≠ 0) ∧
    descriptors.map Descriptor.commitSeq =
      List.range' ((descriptors.map Descriptor.commitSeq).headD 0) descriptors.length ∧
    (descriptors.map Descriptor.batchID).Nodup ∧
    ∀ d ∈ descriptors, (d.kind = .relocation → d.mutations ≠ []) ∧
      (∀ m ∈ d.mutations, m.recordID ≠ 0 ∧ m.ValidIn d.kind) ∧
      (d.mutations.map Mutation.recordID).Pairwise (· < ·)

instance (descriptors : List Descriptor) : Decidable (ValidDescriptors descriptors) :=
  inferInstanceAs (Decidable (_ ∧ _))

/-- **`EncodeCommitGroup`** up to the bytes. -/
def encodeCommitGroup (descriptors : List Descriptor) (maxPayloadSize : Nat) : Except StoreError Unit :=
  if descriptors = [] ∨ maxUint32 < descriptors.length then .error .invalid
  else if maxUint32 < groupBytes descriptors ∨ maxPayloadSize < groupBytes descriptors then .error .tooLarge
  else if ¬ ValidDescriptors descriptors then .error .invalid
  else .ok ()

end Ridstore.RecordCodec
