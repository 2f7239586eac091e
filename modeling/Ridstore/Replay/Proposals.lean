import Ridstore.Mapping.Proposal
import Ridstore.RecordCodec.CodecSafety
import Ridstore.RecordLog.Format

/-
# Ridstore.Replay.Proposals — the descriptors of a commit group as proposals

`descriptorProposal` makes a proposal of a descriptor that was read from the log and checks the records that it
refers to.  The log is whatever `readPut` finds at an address.  The kind of a descriptor is looked at once, and the
operation of every mutation chooses a branch.

The decoder checks the kind of a descriptor with each of its mutations only.  A descriptor without a mutation
passes it with any kind but the one of a relocation, and `descriptorProposal` takes it for a user commit.
-/

namespace Ridstore.Replay

open Lib (Bytes)
open List
open RecordCodec.Wire
open RecordCodec (putHeaderSize)
open RecordLog (VAddr isCompactionSegment physicalRecordSize)
open Mapping (Proposal Change Operation)

/-! ## §1 — The records of a descriptor -/

/-- `PutRecord`. -/
structure PutRecord where
  originBatchID : UInt64
  recordID : UInt64
  value : Bytes
  deriving DecidableEq, Repr

/-- `ErrCorrupt` with the text that goes with it. -/
structure ReplayError where
  text : String
  deriving DecidableEq, Repr

/-- `before`. -/
def before (addr limit : VAddr) : Bool :=
  addr.valid && limit.valid && (addr.segmentID < limit.segmentID ||
    addr.segmentID = limit.segmentID && addr.offset < limit.offset)

/-- `availableBeforeCommit`: the outputs of compactions are durable before every commit that uses them. -/
def availableBeforeCommit (addr commit : VAddr) : Bool := isCompactionSegment addr.segmentID || before addr commit

/-- The branch that the operation of a mutation chooses; there is one for three of the bytes. -/
def operationOf (m : Mutation) : Option Operation :=
  if m.operation = operationDelete then some .delete
  else if m.operation = operationPut then some .put
  else if m.operation = operationRelocate then some .relocate
  else none

section Proposal

variable (readPut : VAddr → Option PutRecord) (commitAddr : VAddr) (reservedIDHigh : Nat)

/-- The record that a mutation refers to, for a batch and after the bytes of the mutations before it. -/
def newPut (batchID : UInt64) (m : Mutation) (op : Operation) (logical : Nat) : Except ReplayError Nat :=
  if availableBeforeCommit m.newRef.addr commitAddr = false ∨
      op = .relocate ∧ availableBeforeCommit m.oldAddr commitAddr = false then
    .error ⟨"mutation address was not available before commit"⟩
  else
    match readPut m.newRef.addr with
    | none => .error ⟨"new put identity"⟩
    | some put =>
      if physicalRecordSize (putHeaderSize + put.value.length) ≠ some m.physicalSize.toNat ∨
          put.recordID ≠ m.recordID then .error ⟨"new put identity"⟩
      else if maxUint64 - put.value.length < logical then .error ⟨"logical payload overflow"⟩
      else if op = .put ∧ put.originBatchID ≠ batchID then .error ⟨"user put origin batch mismatch"⟩
      else if op = .relocate ∧ readPut m.oldAddr ≠ some put then .error ⟨"relocation record mismatch"⟩
      else .ok (logical + put.value.length)

/-- The body of the loop of `descriptorProposal`. -/
def mutationChange (batchID : UInt64) (m : Mutation) (logical : Nat) : Except ReplayError (Change × Nat) :=
  if reservedIDHigh ≤ m.recordID.toNat then .error ⟨"mutation outside reserved ID range"⟩
  else
    match operationOf m with
    | none => .error ⟨"unknown mutation operation"⟩
    | some .delete => .ok (⟨m.recordID.toNat, m.newRef, m.oldAddr, .delete⟩, logical)
    | some op =>
      match newPut readPut commitAddr batchID m op logical with
      | .error err => .error err
      | .ok logical => .ok (⟨m.recordID.toNat, m.newRef, m.oldAddr, op⟩, logical)

/-- The loop of `descriptorProposal`. -/
def mutationChanges (batchID : UInt64) : Nat → List Mutation → Except ReplayError (List Change × Nat)
  | logical, [] => .ok ([], logical)
  | logical, m :: rest =>
    match mutationChange readPut commitAddr reservedIDHigh batchID m logical with
    | .error err => .error err
    | .ok (change, logical) =>
      match mutationChanges batchID logical rest with
      | .error err => .error err
      | .ok (changes, logical) => .ok (change :: changes, logical)

/-- **`descriptorProposal`.** -/
def descriptorProposal (d : Descriptor) : Except ReplayError Proposal :=
  match mutationChanges readPut commitAddr reservedIDHigh d.batchID 0 d.mutations with
  | .error err => .error err
  | .ok (changes, logical) =>
    if logical ≠ d.logicalPayloadBytes.toNat then .error ⟨"logical payload size mismatch"⟩
    else .ok ⟨if d.kind = descriptorRelocation then .relocation else .userCommit, [], changes⟩

end Proposal

/-! ## §2 — The branches that an accepted descriptor takes -/

/-- A mutation of a user commit. -/
def UserMutation (m : Mutation) : Prop :=
  (operationOf m = some .put ∨ operationOf m = some .delete) ∧ m.expectedOldAddr = 0

/-- A mutation of a relocation. -/
def RelocationMutation (m : Mutation) : Prop :=
  operationOf m = some .relocate ∧ m.newRef.addr.valid ∧ m.oldAddr.valid ∧ m.newRef.addr ≠ m.oldAddr

variable {d : Descriptor} {m : Mutation} {readPut : VAddr → Option PutRecord} {commitAddr : VAddr}
  {reservedIDHigh logical : Nat} {batchID : UInt64}

/-- What the check of the decoder says about one mutation. -/
theorem kind_of_validMutation {kind : UInt8} (h : validMutation kind m = true) :
    kind = descriptorUserCommit ∧ UserMutation m ∨ kind = descriptorRelocation ∧ RelocationMutation m := by
  unfold validMutation at h
  split at h
  next hkind =>
    refine .inl ⟨hkind, ?_⟩
    split at h
    next hop => exact ⟨.inl (by rw [operationOf, hop]; rfl), by simpa using (Bool.and_eq_true_iff.mp h).2⟩
    next =>
      split at h
      next hop => exact ⟨.inr (by rw [operationOf, hop]; rfl), by simp_all⟩
      next => cases h
  next =>
    split at h
    next hkind =>
      simp only [Bool.and_eq_true, decide_eq_true_eq] at h
      obtain ⟨⟨⟨hop, hnew⟩, hold⟩, hne⟩ := h
      refine .inr ⟨hkind, by rw [operationOf, hop]; rfl, ?_, hold, fun heq => hne ?_⟩
      · simp only [RecordLog.RecordRef.valid, Bool.and_eq_true] at hnew
        exact hnew.1.1.1
      · exact UInt64.toNat_inj.mp (congrArg VAddr.raw heq)
    next => cases h

/-- A change comes of the branch of its operation. -/
theorem mutationChange_eq_ok {change : Change} {total : Nat}
    (h : mutationChange readPut commitAddr reservedIDHigh batchID m logical = .ok (change, total)) :
    operationOf m = some change.operation := by
  obtain ⟨-, h⟩ := Lib.guard_eq_ok h
  split at h
  · cases h
  next hop =>
    cases h
    exact hop
  next op _ hop =>
    split at h
    · cases h
    · cases h
      exact hop

theorem mutationChange_known (h : operationOf m ≠ none) :
    mutationChange readPut commitAddr reservedIDHigh batchID m logical ≠ .error ⟨"unknown mutation operation"⟩ := by
  unfold mutationChange newPut
  grind

variable {ms : List Mutation}

/-- The changes of a proposal are those of the mutations, each by the branch of its operation. -/
theorem mutationChanges_eq_ok {changes : List Change} {total : Nat}
    (h : mutationChanges readPut commitAddr reservedIDHigh batchID logical ms = .ok (changes, total)) :
    changes.map (fun c => some c.operation) = ms.map operationOf := by
  induction ms generalizing logical changes with
  | nil =>
    cases h
    rfl
  | cons m rest ih =>
    unfold mutationChanges at h
    split at h
    · cases h
    next change logical' hone =>
      split at h
      · cases h
      next hrest =>
        cases h
        rw [map_cons, map_cons, ih hrest, mutationChange_eq_ok hone]

/-- The branch for an unknown operation is taken by a mutation with one only. -/
theorem mutationChanges_known (h : ∀ m ∈ ms, operationOf m ≠ none) :
    mutationChanges readPut commitAddr reservedIDHigh batchID logical ms ≠ .error ⟨"unknown mutation operation"⟩ := by
  induction ms generalizing logical with
  | nil => exact nofun
  | cons m rest ih =>
    have hrest := fun logical => @ih logical fun x hx => h x (mem_cons_of_mem _ hx)
    have hone := @mutationChange_known m readPut commitAddr reservedIDHigh logical batchID (h m mem_cons_self)
    unfold mutationChanges
    grind

/-- A descriptor of a user commit with puts and deletes only, or of a relocation between valid and different
addresses. -/
def KindSafe (d : Descriptor) : Prop :=
  d.kind = descriptorUserCommit ∧ (∀ m ∈ d.mutations, UserMutation m) ∨
    d.kind = descriptorRelocation ∧ ∀ m ∈ d.mutations, RelocationMutation m

theorem descriptorUserCommit_ne_relocation : descriptorUserCommit ≠ descriptorRelocation := by decide

/-- The kind that one mutation has passed with is the kind of all of them. -/
theorem kindSafe_of_validMutations (h : ∀ m ∈ d.mutations, validMutation d.kind m = true)
    (hkind : d.mutations ≠ [] ∨ d.kind = descriptorUserCommit) : KindSafe d := by
  have hkinds := fun m hm => kind_of_validMutation (h m hm)
  have huser : d.kind = descriptorUserCommit → KindSafe d := fun hk =>
    .inl ⟨hk, fun m hm => (hkinds m hm).elim And.right fun hr =>
      absurd (hk.symm.trans hr.1) descriptorUserCommit_ne_relocation⟩
  rcases hkind with hne | hk
  · obtain ⟨first, hfirst⟩ := exists_mem_of_ne_nil _ hne
    rcases hkinds first hfirst with ⟨hk, -⟩ | ⟨hk, -⟩
    · exact huser hk
    · exact .inr ⟨hk, fun m hm => (hkinds m hm).elim
        (fun hu => absurd (hu.1.symm.trans hk) descriptorUserCommit_ne_relocation) And.right⟩
  · exact huser hk

theorem KindSafe.operationOf_ne_none (h : KindSafe d) (hm : m ∈ d.mutations) : operationOf m ≠ none := by
  rcases h with ⟨-, hall⟩ | ⟨-, hall⟩
  · rcases (hall m hm).1 with hput | hdelete <;> simp_all
  · simp [(hall m hm).1]

/-- The proposal of a descriptor with a known kind has that kind, and every mutation took the branch of its
operation. -/
theorem KindSafe.descriptorProposal_eq_ok (h : KindSafe d) {p : Proposal}
    (hp : descriptorProposal readPut commitAddr reservedIDHigh d = .ok p) :
    (p.kind = .userCommit ↔ d.kind = descriptorUserCommit) ∧ (p.kind = .relocation ↔ d.kind = descriptorRelocation) ∧
      p.changes.map (fun c => some c.operation) = d.mutations.map operationOf := by
  unfold descriptorProposal at hp
  split at hp
  · cases hp
  next changes logical hchanges =>
    obtain ⟨-, hp⟩ := Lib.guard_eq_ok hp
    cases hp
    refine ⟨?_, ?_, mutationChanges_eq_ok hchanges⟩ <;> rcases h with ⟨hk, -⟩ | ⟨hk, -⟩ <;>
      simp [hk, descriptorUserCommit_ne_relocation, descriptorUserCommit_ne_relocation.symm]

theorem KindSafe.descriptorProposal_known (h : KindSafe d) :
    descriptorProposal readPut commitAddr reservedIDHigh d ≠ .error ⟨"unknown mutation operation"⟩ := by
  have hloop := @mutationChanges_known readPut commitAddr reservedIDHigh 0 d.batchID d.mutations
    fun m hm => h.operationOf_ne_none hm
  unfold descriptorProposal
  split
  next err herr =>
    intro heq
    cases heq
    exact hloop herr
  next => split <;> simp

/-- **Kinds.**  A descriptor that the decoder accepts is a user commit with puts and deletes or a relocation between
valid and different addresses, with a proposal of its kind in which each mutation takes the branch of its operation
and never the one for an unknown operation, exactly when it has a mutation or the kind of a user commit. -/
theorem decodeCommitGroup_kinds {src : Bytes} {maxPayloadSize maxDescriptors maxMutations : Nat} {group : CommitGroup}
    (h : decodeCommitGroup src maxPayloadSize maxDescriptors maxMutations = .ok group) {d : Descriptor}
    (hd : d ∈ group.descriptors) :
    (d.mutations ≠ [] ∨ d.kind = descriptorUserCommit) ↔ KindSafe d ∧ ∀ readPut commitAddr reservedIDHigh,
      descriptorProposal readPut commitAddr reservedIDHigh d ≠ .error ⟨"unknown mutation operation"⟩ ∧
      ∀ p, descriptorProposal readPut commitAddr reservedIDHigh d = .ok p →
        (p.kind = .userCommit ↔ d.kind = descriptorUserCommit) ∧
        (p.kind = .relocation ↔ d.kind = descriptorRelocation) ∧
        p.changes.map (fun c => some c.operation) = d.mutations.map operationOf := by
  have hvalid : validateDescriptors group.descriptors = true :=
    (encodeCommitGroup_eq_ok.mp (encode_of_decodeCommitGroup h)).2.2.2
  obtain ⟨hrelocation, -, hall⟩ := validateDescriptors_mem hvalid d hd
  constructor
  · intro hkind
    have hsafe := kindSafe_of_validMutations hall hkind
    exact ⟨hsafe, fun readPut commitAddr reservedIDHigh =>
      ⟨hsafe.descriptorProposal_known, fun p hp => hsafe.descriptorProposal_eq_ok hp⟩⟩
  · -- the decoder refuses an empty relocation by itself
    rintro ⟨⟨hk, -⟩ | ⟨hk, -⟩, -⟩
    · exact .inr hk
    · exact .inl (hrelocation hk)

/-- A user commit that puts one record. -/
def onePut : CommitGroup := ⟨[⟨descriptorUserCommit, 5, 9, 24, [⟨3, 0x100000041, 0, operationPut, 88⟩]⟩]⟩

theorem decodeCommitGroup_kinds_onePut : ∃ src, decodeCommitGroup src 4096 1 1 = .ok onePut ∧
    ∀ d ∈ onePut.descriptors, d.kind = descriptorUserCommit ∧ ∀ m ∈ d.mutations, UserMutation m := by
  obtain ⟨src, hsrc⟩ : ∃ src, encodeCommitGroup onePut 4096 = .ok src := ⟨_, rfl⟩
  have hdecode : decodeCommitGroup src 4096 1 1 = .ok onePut :=
    decode_of_encodeCommitGroup hsrc (by decide) (by decide)
  refine ⟨src, hdecode, fun d hd => ?_⟩
  obtain rfl := mem_singleton.mp hd
  rcases ((decodeCommitGroup_kinds hdecode hd).mp (.inl (cons_ne_nil _ _))).1 with huser | ⟨hkind, -⟩
  · exact huser
  · exact absurd hkind (by decide)

/-- **An unknown kind** passes the decoder when it has no mutation, and is taken for a user commit. -/
theorem decodeCommitGroup_unknownKind : ∃ src group, decodeCommitGroup src 4096 1 1 = .ok group ∧
    ∃ d ∈ group.descriptors, d.kind ≠ descriptorUserCommit ∧ d.kind ≠ descriptorRelocation ∧
      descriptorProposal (fun _ => none) ⟨0⟩ 1 d = .ok ⟨.userCommit, [], []⟩ := by
  obtain ⟨src, hsrc⟩ : ∃ src, encodeCommitGroup ⟨[⟨7, 5, 9, 0, []⟩]⟩ 4096 = .ok src := ⟨_, rfl⟩
  have hdecode : decodeCommitGroup src 4096 1 1 = .ok _ := decode_of_encodeCommitGroup hsrc (by decide) (by decide)
  exact ⟨src, _, hdecode, _, mem_singleton.mpr rfl, by decide, by decide, rfl⟩

end Ridstore.Replay
