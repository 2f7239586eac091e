import Mathlib.Data.List.Nodup
import Ridstore.RecordCodec.CodecSafety

/-
# Ridstore.RecordCodec.GroupWire — the groups of the engine and the groups of the wire

The engine's groups hold plain numbers, the codec's hold machine words.  A group whose numbers fit their words passes
the checks in the one form exactly when it passes them in the other, and is encoded in the one exactly when it is
encoded in the other.
-/

namespace Ridstore.RecordCodec

open Wire Lib List
open RecordLog (VAddr)

/-! ## §1 — The wire form -/

def DescriptorKind.wire : DescriptorKind → UInt8
  | .userCommit => descriptorUserCommit
  | .relocation => descriptorRelocation

def Operation.wire : Operation → UInt8
  | .put => operationPut
  | .delete => operationDelete
  | .relocate => operationRelocate

def Mutation.wire (m : Mutation) : Wire.Mutation :=
  ⟨.ofNat m.recordID, .ofNat m.newAddr.raw, .ofNat m.expectedOldAddr.raw, m.operation.wire, .ofNat m.physicalSize⟩

def Descriptor.wire (d : Descriptor) : Wire.Descriptor :=
  ⟨d.kind.wire, .ofNat d.batchID, .ofNat d.commitSeq, .ofNat d.logicalPayloadBytes, d.mutations.map Mutation.wire⟩

/-- The numbers of a mutation are values of their types in the source. -/
structure Mutation.Fits (m : Mutation) : Prop where
  recordID : m.recordID < 2 ^ 64
  newAddr : m.newAddr.raw < 2 ^ 64
  expectedOldAddr : m.expectedOldAddr.raw < 2 ^ 64
  physicalSize : m.physicalSize < 2 ^ 32

structure Descriptor.Fits (d : Descriptor) : Prop where
  batchID : d.batchID < 2 ^ 64
  commitSeq : d.commitSeq < 2 ^ 64
  mutations : ∀ m ∈ d.mutations, m.Fits

variable {m : Mutation} {d : Descriptor} {ds : List Descriptor}

/-! ## §2 — The checks agree -/

theorem ofNat_ne_zero {n : Nat} (h : n < 2 ^ 64) : UInt64.ofNat n ≠ 0 ↔ n ≠ 0 := by
  rw [ne_eq, ← UInt64.toNat_inj, UInt64.toNat_ofNat_of_lt' h]
  rfl

theorem ofNat_raw_inj {a b : VAddr} (ha : a.raw < 2 ^ 64) (hb : b.raw < 2 ^ 64) :
    UInt64.ofNat a.raw = .ofNat b.raw ↔ a = b := by
  rw [← UInt64.toNat_inj, UInt64.toNat_ofNat_of_lt' ha, UInt64.toNat_ofNat_of_lt' hb]
  exact ⟨congrArg VAddr.mk, congrArg VAddr.raw⟩

theorem validMutation_wire (h : m.Fits) (kind : DescriptorKind) :
    validMutation kind.wire m.wire = true ↔ m.ValidIn kind := by
  have hnewRef : m.wire.newRef = ⟨m.newAddr, m.physicalSize⟩ := by
    rw [Wire.Mutation.newRef, Mutation.wire, UInt64.toNat_ofNat_of_lt' h.newAddr, toNat_ofNat_uint32 h.physicalSize]
  have hold : m.wire.oldAddr = m.expectedOldAddr := by
    rw [Wire.Mutation.oldAddr, Mutation.wire, UInt64.toNat_ofNat_of_lt' h.expectedOldAddr]
  have hnewZero : m.wire.newAddr = 0 ↔ m.newAddr = ⟨0⟩ := ofNat_raw_inj h.newAddr (by decide)
  have holdZero : m.wire.expectedOldAddr = 0 ↔ m.expectedOldAddr = ⟨0⟩ :=
    ofNat_raw_inj h.expectedOldAddr (by decide)
  have hsame : m.wire.newAddr = m.wire.expectedOldAddr ↔ m.newAddr = m.expectedOldAddr :=
    ofNat_raw_inj h.newAddr h.expectedOldAddr
  have hsize : m.wire.physicalSize = 0 ↔ m.physicalSize = 0 := by
    rw [← UInt32.toNat_inj, Mutation.wire, toNat_ofNat_uint32 h.physicalSize]
    rfl
  have hop : m.wire.operation = m.operation.wire := rfl
  simp only [validMutation, Mutation.ValidIn.eq_def, hnewRef, hold, hop]
  cases kind <;> cases m.operation <;>
    simp [DescriptorKind.wire, Operation.wire, descriptorUserCommit, descriptorRelocation, operationPut,
      operationDelete, operationRelocate, hnewZero, holdZero, hsize, hsame, and_assoc]

theorem validMutations_wire (h : d.Fits) : validMutations d.kind.wire none (d.mutations.map Mutation.wire) = true ↔
    (∀ m ∈ d.mutations, m.recordID ≠ 0 ∧ m.ValidIn d.kind) ∧ (d.mutations.map Mutation.recordID).Pairwise (· < ·) := by
  have hids : (d.mutations.map Mutation.wire).map (fun m => m.recordID.toNat) = d.mutations.map Mutation.recordID := by
    rw [map_map]
    exact map_congr_left fun m hm => UInt64.toNat_ofNat_of_lt' (h.mutations m hm).recordID
  have hsorted : ((d.mutations.map Mutation.wire).map Wire.Mutation.recordID).Pairwise (· < ·) ↔
      (d.mutations.map Mutation.recordID).Pairwise (· < ·) := by
    rw [← hids, pairwise_map (f := Wire.Mutation.recordID), pairwise_map (f := fun m : Wire.Mutation => m.recordID.toNat)]
    rfl
  have hmem : (∀ m ∈ d.mutations.map Mutation.wire, m.recordID ≠ 0 ∧ validMutation d.kind.wire m = true) ↔
      ∀ m ∈ d.mutations, m.recordID ≠ 0 ∧ m.ValidIn d.kind := by
    rw [forall_mem_map]
    refine forall₂_congr fun m hm => ?_
    have hfits := h.mutations m hm
    exact and_congr (ofNat_ne_zero hfits.recordID) (validMutation_wire hfits d.kind)
  rw [validMutations_iff, hmem, hsorted]
  simp [and_comm]

theorem validateDescriptors_wire (h : ∀ d ∈ ds, d.Fits) :
    validateDescriptors (ds.map Descriptor.wire) = true ↔ ValidDescriptors ds := by
  have hseqs : (ds.map Descriptor.wire).map (fun d => d.commitSeq.toNat) = ds.map Descriptor.commitSeq := by
    rw [map_map]
    exact map_congr_left fun d hd => UInt64.toNat_ofNat_of_lt' (h d hd).commitSeq
  have hbatches : ((ds.map Descriptor.wire).map Wire.Descriptor.batchID).map UInt64.toNat =
      ds.map Descriptor.batchID := by
    rw [map_map, map_map]
    exact map_congr_left fun d hd => UInt64.toNat_ofNat_of_lt' (h d hd).batchID
  have hkind : ∀ kind : DescriptorKind, kind.wire = descriptorRelocation ↔ kind = .relocation := by
    rintro (_ | _) <;> decide
  have hmem : ∀ d ∈ ds, (d.wire.batchID ≠ 0 ∧ d.wire.commitSeq ≠ 0 ∧
      (d.wire.kind = descriptorRelocation → d.wire.mutations ≠ []) ∧
        validMutations d.wire.kind none d.wire.mutations = true) ↔
      (d.batchID ≠ 0 ∧ d.commitSeq ≠ 0) ∧ (d.kind = .relocation → d.mutations ≠ []) ∧
        (∀ m ∈ d.mutations, m.recordID ≠ 0 ∧ m.ValidIn d.kind) ∧
        (d.mutations.map Mutation.recordID).Pairwise (· < ·) := by
    intro d hd
    have hfits := h d hd
    simp only [Descriptor.wire, ofNat_ne_zero hfits.batchID, ofNat_ne_zero hfits.commitSeq, hkind, ne_eq, map_eq_nil_iff,
      validMutations_wire hfits, and_assoc]
  rw [validateDescriptors_iff, hseqs, length_map, forall_mem_map, forall₂_congr hmem,
    ← nodup_map_iff (fun _ _ => UInt64.toNat_inj.mp), hbatches, ValidDescriptors, ne_eq, map_eq_nil_iff]
  simp only [forall_and]
  grind

/-! ## §3 — The encoders agree -/

/-- **The two encoders accept the same groups.** -/
theorem encodeCommitGroup_wire {maxPayloadSize : Nat} (h : ∀ d ∈ ds, d.Fits) :
    encodeCommitGroup ds maxPayloadSize = .ok () ↔
      ∃ bytes, Wire.encodeCommitGroup ⟨ds.map Descriptor.wire⟩ maxPayloadSize = .ok bytes := by
  have hbytes : groupBytes ds = commitGroupHeadSize + ((ds.map Descriptor.wire).map Wire.Descriptor.size).sum := by
    simp [groupBytes, Function.comp_def, Wire.Descriptor.size, Descriptor.wire]
  have hlen : ∀ n, (encodeHeader recordTypeCommitGroup commitGroupHeadSize n ++
      groupBody (ds.map Descriptor.wire)).length = groupBytes ds := by
    intro n
    rw [length_append, length_encodeHeader, length_groupBody, hbytes]
  simp only [encodeCommitGroup_eq_ok, validateDescriptors_wire h]
  constructor
  · intro hok
    unfold encodeCommitGroup at hok
    split at hok
    · cases hok
    split at hok
    · cases hok
    split at hok
    · cases hok
    next hfit hvalid =>
      exact ⟨_, by rw [hlen], by rw [hlen]; omega, by rw [hlen]; omega, not_not.mp hvalid⟩
  · rintro ⟨bytes, hsrc, hmax, hpayload, hvalid⟩
    have hcount := length_le_sum_size (ds.map Descriptor.wire)
    rw [hsrc, hlen] at hmax hpayload
    rw [length_map, descriptorHeadSize] at hcount
    rw [encodeCommitGroup, if_neg (not_or.mpr ⟨hvalid.1, by omega⟩), if_neg (by omega), if_neg (not_not.mpr hvalid)]

end Ridstore.RecordCodec
