import Ridstore.Mapping.Proposal
import Ridstore.RecordCodec.Group

/-
# Ridstore.Transaction.Batch — the user batch

A batch collects mutations and conditions while it is open; `Prepare` freezes it and hands its final
mutations to the coordinator, which alone ends it from then on.  Every method runs under the mutex of the
batch and is one function here.  The maps of mutations and conditions are lists in the order of the
identifiers.  A put is given the reference of its record or the error of its append, and an allocation what
the allocator returned; a context that is cancelled before anything is done leaves the batch as it is and is
left out.
-/

namespace Ridstore.Transaction

open RecordLog (VAddr RecordRef)
open List
open Mapping (Condition Proposal Operation)

/-! ## §1 — The state of a batch -/

inductive State
  | opened
  | committing
  | committed
  | aborted
  | commitUnknown
  | failed
  deriving DecidableEq, Repr

/-- The states a batch never leaves. -/
def State.terminal : State → Bool
  | .committed | .aborted | .commitUnknown => true
  | .opened | .committing | .failed => false

structure Limits where
  maxValueSize : Nat
  maxBatchBytes : Nat
  maxBatchMutations : Nat
  maxBatchConditions : Nat
  deriving DecidableEq, Repr

structure Mutation where
  recordID : Nat
  operation : Operation
  ref : RecordRef
  valueBytes : Nat
  deriving DecidableEq, Repr

/-- `Prepared`: what a commit hands to the coordinator. -/
structure Prepared where
  batchID : Nat
  mutations : List Mutation
  conditions : List Condition
  logicalPayloadBytes : Nat
  deriving DecidableEq, Repr

/-- `Prepared.Proposal`. -/
def Prepared.proposal (p : Prepared) : Proposal :=
  ⟨.userCommit, p.conditions, p.mutations.map fun m => ⟨m.recordID, m.ref, ⟨0⟩, m.operation⟩⟩

structure Batch where
  id : Nat
  state : State
  mutations : List Mutation
  conditions : List Condition
  appendedBytes : Nat
  commitSeq : Nat
  deriving DecidableEq, Repr

/-- **`ValidateLimits`.** -/
def Limits.Valid (limits : Limits) : Prop :=
  limits.maxValueSize ≠ 0 ∧ limits.maxBatchBytes ≠ 0 ∧ limits.maxBatchMutations ≠ 0 ∧
    limits.maxBatchConditions ≠ 0 ∧ limits.maxValueSize ≤ limits.maxBatchBytes ∧
    limits.maxBatchMutations ≤ maxUint32 ∧ limits.maxBatchConditions ≤ maxUint32

instance (limits : Limits) : Decidable limits.Valid := inferInstanceAs (Decidable (_ ∧ _))

/-- `New`. -/
def Batch.new (id : Nat) (limits : Limits) : Except StoreError Batch :=
  if id = 0 ∨ ¬ limits.Valid then .error .invalidConfig else .ok ⟨id, .opened, [], [], 0, 0⟩

/-- Writing an entry of a map that is kept in the order of its keys. -/
def setEntry {α : Type*} (key : α → Nat) (x : α) (entries : List α) : List α :=
  entries.filter (fun y => key y < key x) ++ x :: entries.filter (fun y => key x < key y)

namespace Batch

variable (limits : Limits) (b : Batch)

/-- `stateError`; an open batch has none. -/
def stateError : Except StoreError Unit :=
  match b.state with
  | .failed => .error .batchFailed
  | .opened => .ok ()
  | .committing | .committed | .aborted | .commitUnknown => .error .batchClosed

/-- `requireOpen`. -/
def requireOpen : Except StoreError Unit := if b.state = .opened then .ok () else b.stateError

/-- A method that starts with `requireOpen`. -/
def whenOpen {α : Type*} (run : Batch × Except StoreError α) : Batch × Except StoreError α :=
  match b.requireOpen with
  | .error err => (b, .error err)
  | .ok _ => run

/-- The batch already has a mutation of the identifier. -/
def hasMutation (id : Nat) : Bool := b.mutations.any fun m => m.recordID = id

/-! ## §2 — Building a batch -/

/-- `validatePut`; `pendingID` while the identifier is still to be allocated. -/
def validatePut (id valueBytes : Nat) (pendingID : Bool) : Except StoreError Unit :=
  if pendingID = false ∧ id = 0 then .error .invalidID
  else if limits.maxValueSize < valueBytes then .error .valueTooLarge
  else if b.hasMutation id = false ∧ b.mutations.length = limits.maxBatchMutations then .error .batchTooLarge
  else if maxUint64 < b.appendedBytes + valueBytes ∨ limits.maxBatchBytes < b.appendedBytes + valueBytes then
    .error .batchTooLarge
  else .ok ()

/-- `putLocked`; a record that could not be appended fails the batch, the checks before it do not. -/
def putLocked (id valueBytes : Nat) (canUse : Bool) (appended : Except StoreError RecordRef) :
    Batch × Except StoreError Unit :=
  match b.validatePut limits id valueBytes false with
  | .error err => (b, .error err)
  | .ok _ =>
    if canUse = false then (b, .error .invalidID)
    else
      match RecordCodec.putPayloadSize valueBytes, appended with
      | .error err, _ => (b, .error err)
      | .ok _, .error err => ({ b with state := .failed }, .error err)
      | .ok _, .ok ref =>
        ({ b with
          appendedBytes := b.appendedBytes + valueBytes
          mutations := setEntry Mutation.recordID ⟨id, .put, ref, valueBytes⟩ b.mutations }, .ok ())

/-- `allocateLocked`. -/
def allocateLocked (allocated : Except StoreError Nat) : Batch × Except StoreError Nat :=
  match allocated with
  | .error err => (b, .error err)
  | .ok 0 => ({ b with state := .failed }, .error .invalidID)
  | .ok (id + 1) => (b, .ok (id + 1))

/-- `deleteLocked`. -/
def deleteLocked (id : Nat) : Batch × Except StoreError Unit :=
  if id = 0 then (b, .error .invalidID)
  else if b.hasMutation id = false ∧ b.mutations.length = limits.maxBatchMutations then (b, .error .batchTooLarge)
  else ({ b with mutations := setEntry Mutation.recordID ⟨id, .delete, .zero, 0⟩ b.mutations }, .ok ())

/-- `validateCondition`; a condition that contradicts an earlier one fails the batch. -/
def validateCondition (c : Condition) : Batch × Except StoreError Unit :=
  if c.recordID = 0 then (b, .error .invalidID)
  else if c.expectedAddr ≠ ⟨0⟩ ∧ c.expectedAddr.valid = false then (b, .error .invalidAddress)
  else
    match b.conditions.find? fun old => old.recordID = c.recordID with
    | some old => if old = c then (b, .ok ()) else ({ b with state := .failed }, .error .batchFailed)
    | none => if b.conditions.length = limits.maxBatchConditions then (b, .error .batchTooLarge) else (b, .ok ())

/-- The condition is kept once what it guards has succeeded. -/
def withCondition (c : Condition) (run : Batch → Batch × Except StoreError Unit) : Batch × Except StoreError Unit :=
  match b.validateCondition limits c with
  | (b', .error err) => (b', .error err)
  | (b', .ok _) =>
    match run b' with
    | (b'', .error err) => (b'', .error err)
    | (b'', .ok _) => ({ b'' with conditions := setEntry Condition.recordID c b''.conditions }, .ok ())

def allocate (allocated : Except StoreError Nat) : Batch × Except StoreError Nat :=
  b.whenOpen (b.allocateLocked allocated)

/-- `Create`; the identifier stays consumed when the put fails. -/
def create (valueBytes : Nat) (allocated : Except StoreError Nat) (canUse : Bool)
    (appended : Except StoreError RecordRef) : Batch × Except StoreError Unit :=
  b.whenOpen <|
    match b.validatePut limits 0 valueBytes true with
    | .error err => (b, .error err)
    | .ok _ =>
      match b.allocateLocked allocated with
      | (b', .error err) => (b', .error err)
      | (b', .ok id) => b'.putLocked limits id valueBytes canUse appended

def put (id valueBytes : Nat) (canUse : Bool) (appended : Except StoreError RecordRef) :
    Batch × Except StoreError Unit :=
  b.whenOpen (b.putLocked limits id valueBytes canUse appended)

def compareAndPut (id : Nat) (expected : VAddr) (valueBytes : Nat) (canUse : Bool)
    (appended : Except StoreError RecordRef) : Batch × Except StoreError Unit :=
  b.whenOpen (b.withCondition limits ⟨id, expected⟩ fun b' => b'.putLocked limits id valueBytes canUse appended)

def delete (id : Nat) : Batch × Except StoreError Unit := b.whenOpen (b.deleteLocked limits id)

def compareAndDelete (id : Nat) (expected : VAddr) : Batch × Except StoreError Unit :=
  b.whenOpen (b.withCondition limits ⟨id, expected⟩ fun b' => b'.deleteLocked limits id)

/-- `addCondition`. -/
def addCondition (c : Condition) : Batch × Except StoreError Unit :=
  b.whenOpen (b.withCondition limits c fun b' => (b', .ok ()))

def expectAddress (id : Nat) (addr : VAddr) : Batch × Except StoreError Unit := b.addCondition limits ⟨id, addr⟩

def expectAbsent (id : Nat) : Batch × Except StoreError Unit := b.addCondition limits ⟨id, ⟨0⟩⟩

/-! ## §3 — What others read and rewrite -/

/-- `MutationIDs`. -/
def mutationIDs : Except StoreError (List Nat) :=
  match b.requireOpen with
  | .error err => .error err
  | .ok _ => .ok (b.mutations.map Mutation.recordID)

/-- The references of the final puts. -/
def putRefs : List RecordRef := (b.mutations.filter fun m => m.operation = .put).map Mutation.ref

/-- `PendingPutRefs`. -/
def pendingPutRefs : List RecordRef :=
  if b.state = .opened ∨ b.state = .committing then b.putRefs else []

/-- The mutation is a put of a record that the table redirects. -/
def redirected (redirects : VAddr → Option RecordRef) (m : Mutation) : Bool :=
  m.operation = .put && (redirects m.ref.addr).isSome

/-- The mutation with the reference that a redirect table gives for it. -/
def redirect (redirects : VAddr → Option RecordRef) (m : Mutation) : Mutation :=
  if m.operation = .put then { m with ref := (redirects m.ref.addr).getD m.ref } else m

/-- `RewritePutRefs` with the number of rewritten puts; a batch that is committing is left to the
coordinator. -/
def rewritePutRefs (redirects : VAddr → Option RecordRef) : Batch × Nat :=
  if b.state = .opened then
    ({ b with mutations := b.mutations.map (redirect redirects) }, b.mutations.countP (redirected redirects))
  else (b, 0)

/-! ## §4 — The end of a batch -/

/-- The value bytes of the puts of a batch. -/
def logicalPayloadBytes : Nat := ((b.mutations.filter fun m => m.operation = .put).map Mutation.valueBytes).sum

/-- **`Prepare`.** -/
def prepare : Batch × Except StoreError Prepared :=
  b.whenOpen
    (if maxUint64 < b.logicalPayloadBytes then ({ b with state := .failed }, .error .batchTooLarge)
    else ({ b with state := .committing }, .ok ⟨b.id, b.mutations, b.conditions, b.logicalPayloadBytes⟩))

/-- The batch in a terminal state, without its mutations. -/
def ended (state : State) : Batch := { b with state := state, mutations := [], conditions := [] }

/-- `Abort` up to the append of its record, which does not change the batch. -/
def abort : Batch × Except StoreError Unit :=
  if b.state = .opened ∨ b.state = .failed then (b.ended .aborted, .ok ()) else (b, b.stateError)

/-- `MarkCommitted`. -/
def markCommitted (seq : Nat) : Batch × Except StoreError Unit :=
  if seq = 0 then (b, .error .invalidConfig)
  else if b.state = .committing then ({ b.ended .committed with commitSeq := seq }, .ok ())
  else (b, b.stateError)

/-- `markTerminal`. -/
def markTerminal (state : State) : Batch × Except StoreError Unit :=
  if b.state = .committing then (b.ended state, .ok ()) else (b, b.stateError)

def markAborted : Batch × Except StoreError Unit := b.markTerminal .aborted

def markCommitUnknown : Batch × Except StoreError Unit := b.markTerminal .commitUnknown

/-! ## §5 — The calls of others -/

/-- The calls that may come at any time, with what the allocator and the log answer; `Prepare` and the marks
belong to the coordinator. -/
inductive Call
  | allocate (allocated : Except StoreError Nat)
  | create (valueBytes : Nat) (allocated : Except StoreError Nat) (canUse : Bool)
      (appended : Except StoreError RecordRef)
  | put (id valueBytes : Nat) (canUse : Bool) (appended : Except StoreError RecordRef)
  | compareAndPut (id : Nat) (expected : VAddr) (valueBytes : Nat) (canUse : Bool)
      (appended : Except StoreError RecordRef)
  | delete (id : Nat)
  | compareAndDelete (id : Nat) (expected : VAddr)
  | expectAddress (id : Nat) (addr : VAddr)
  | expectAbsent (id : Nat)
  | rewritePutRefs (redirects : VAddr → Option RecordRef)
  | abort

/-- The batch after a call. -/
def call : Call → Batch
  | .allocate allocated => (b.allocate allocated).1
  | .create valueBytes allocated canUse appended => (b.create limits valueBytes allocated canUse appended).1
  | .put id valueBytes canUse appended => (b.put limits id valueBytes canUse appended).1
  | .compareAndPut id expected valueBytes canUse appended =>
    (b.compareAndPut limits id expected valueBytes canUse appended).1
  | .delete id => (b.delete limits id).1
  | .compareAndDelete id expected => (b.compareAndDelete limits id expected).1
  | .expectAddress id addr => (b.expectAddress limits id addr).1
  | .expectAbsent id => (b.expectAbsent limits id).1
  | .rewritePutRefs redirects => (b.rewritePutRefs redirects).1
  | .abort => b.abort.1

end Batch

/-! ## §6 — What the methods keep -/

section SetEntry

variable {α : Type*} {key : α → Nat} {x y : α} {entries : List α}

theorem mem_setEntry : y ∈ setEntry key x entries ↔ y = x ∨ y ∈ entries ∧ key y ≠ key x := by
  simp only [setEntry, mem_append, mem_filter, mem_cons, decide_eq_true_eq]
  constructor
  · rintro (⟨hy, hlt⟩ | rfl | ⟨hy, hlt⟩)
    · exact .inr ⟨hy, Nat.ne_of_lt hlt⟩
    · exact .inl rfl
    · exact .inr ⟨hy, Nat.ne_of_gt hlt⟩
  · rintro (rfl | ⟨hy, hne⟩)
    · exact .inr (.inl rfl)
    · rcases Nat.lt_or_gt_of_ne hne with hlt | hgt
      · exact .inl ⟨hy, hlt⟩
      · exact .inr (.inr ⟨hy, hgt⟩)

end SetEntry

namespace Batch

variable {limits : Limits} {b b' : Batch} {seq : Nat} {prepared : Prepared} {mutations : List Mutation}

/-- Outside of the open state the methods that build a batch do nothing. -/
theorem whenOpen_of_ne {α : Type*} {run : Batch × Except StoreError α} (h : b.state ≠ .opened) :
    (b.whenOpen run).1 = b := by
  have hreq : b.requireOpen = b.stateError := if_neg h
  simp only [whenOpen, hreq, stateError]
  cases hstate : b.state with
  | opened => exact absurd hstate h
  | _ => rfl

/-- Outside of the open state only the abort of a failed batch does something. -/
theorem call_of_not_open (hopen : b.state ≠ .opened) (c : Call) :
    b.call limits c = b ∨ b.state = .failed ∧ b.call limits c = b.ended .aborted := by
  cases c with
  | rewritePutRefs redirects =>
    refine .inl ?_
    show (b.rewritePutRefs redirects).1 = b
    rw [rewritePutRefs, if_neg hopen]
  | abort =>
    show b.abort.1 = b ∨ b.state = .failed ∧ b.abort.1 = b.ended .aborted
    by_cases hfailed : b.state = .failed
    · refine .inr ⟨hfailed, ?_⟩
      rw [abort, if_pos (.inr hfailed)]
    · refine .inl ?_
      rw [abort, if_neg (by simp only [hopen, hfailed, or_self, not_false_eq_true])]
  | _ => exact .inl (whenOpen_of_ne hopen)

/-- **A batch that was handed over is left alone**: no call changes it while it commits or after its end. -/
theorem call_of_ne (hopen : b.state ≠ .opened) (hfailed : b.state ≠ .failed) (c : Call) : b.call limits c = b := by
  rcases call_of_not_open hopen c with hsame | ⟨hstate, -⟩
  · exact hsame
  · exact absurd hstate hfailed

/-- A call does not open a batch again. -/
theorem opened_of_call (c : Call) (h : (b.call limits c).state = .opened) : b.state = .opened := by
  by_contra hne
  rcases call_of_not_open hne c with hsame | ⟨-, hended⟩
  · rw [hsame] at h
    exact hne h
  · rw [hended] at h
    cases h

/-- Only an open batch passes `requireOpen`. -/
theorem requireOpen_eq_ok (h : b.requireOpen = .ok ()) : b.state = .opened := by
  by_contra hne
  have hreq : b.requireOpen = b.stateError := if_neg hne
  rw [hreq, stateError] at h
  cases hstate : b.state with
  | opened => exact hne hstate
  | _ => rw [hstate] at h; cases h

theorem mutationIDs_eq_ok {ids : List Nat} (h : b.mutationIDs = .ok ids) : b.state = .opened := by
  simp only [mutationIDs] at h
  split at h
  next => cases h
  next hreq => exact requireOpen_eq_ok hreq

/-- Only an open batch can be prepared, and it is committing from then on. -/
theorem prepare_eq_ok (h : b.prepare = (b', .ok prepared)) :
    b.state = .opened ∧ b' = { b with state := .committing } ∧
      prepared = ⟨b.id, b.mutations, b.conditions, b.logicalPayloadBytes⟩ := by
  simp only [prepare, whenOpen] at h
  split at h
  next => cases h
  next hreq =>
    split at h
    next => cases h
    next =>
      cases h
      exact ⟨requireOpen_eq_ok hreq, rfl, rfl⟩

/-- A batch that cannot be prepared is left alone unless it was open, and then it has failed. -/
theorem prepare_eq_error {err : StoreError} (h : b.prepare = (b', .error err)) :
    b' = b ∨ b.state = .opened ∧ b' = { b with state := .failed } := by
  simp only [prepare, whenOpen] at h
  split at h
  next =>
    cases h
    exact .inl rfl
  next hreq =>
    split at h
    next =>
      cases h
      exact .inr ⟨requireOpen_eq_ok hreq, rfl⟩
    next => cases h

theorem markTerminal_of_committing (h : b.state = .committing) (state : State) :
    b.markTerminal state = (b.ended state, .ok ()) := if_pos h

theorem markCommitted_of_committing (h : b.state = .committing) (hseq : seq ≠ 0) :
    b.markCommitted seq = ({ b.ended .committed with commitSeq := seq }, .ok ()) := by
  rw [markCommitted, if_neg hseq, if_pos h]

/-! ## §7 — The addresses of the puts -/

/-- The addresses of the records that a list of mutations puts. -/
def putAddrs (mutations : List Mutation) : List VAddr :=
  (mutations.filter fun m => m.operation = .put).map fun m => m.ref.addr

variable {addr : VAddr}

theorem mem_putAddrs : addr ∈ putAddrs mutations ↔ ∃ m ∈ mutations, m.operation = .put ∧ m.ref.addr = addr := by
  simp only [putAddrs, mem_map, mem_filter, decide_eq_true_eq, and_assoc]

/-- A redirected put has the address of the replacement, or its own if there is none. -/
theorem mem_putAddrs_redirect {redirects : VAddr → Option RecordRef}
    (h : addr ∈ putAddrs (mutations.map (redirect redirects))) :
    ∃ old ∈ putAddrs mutations, redirects old = none ∧ addr = old ∨
      ∃ ref, redirects old = some ref ∧ addr = ref.addr := by
  obtain ⟨m', hm', hop, haddr⟩ := mem_putAddrs.mp h
  obtain ⟨m, hm, rfl⟩ := mem_map.mp hm'
  have hput : m.operation = .put := by
    by_contra hne
    rw [redirect, if_neg hne] at hop
    exact hne hop
  rw [redirect, if_pos hput] at haddr
  refine ⟨m.ref.addr, mem_putAddrs.mpr ⟨m, hm, hput, rfl⟩, ?_⟩
  cases hlookup : redirects m.ref.addr with
  | none =>
    rw [hlookup] at haddr
    exact .inl ⟨rfl, haddr.symm⟩
  | some ref =>
    rw [hlookup] at haddr
    exact .inr ⟨ref, rfl, haddr.symm⟩

/-- The record that the log has appended for a call. -/
def Call.appended : Call → Option RecordRef
  | .create _ _ _ appended | .put _ _ _ appended | .compareAndPut _ _ _ _ appended => appended.toOption
  | .allocate _ | .delete _ | .compareAndDelete _ _ | .expectAddress _ _ | .expectAbsent _ | .rewritePutRefs _
  | .abort => none

/-- A batch whose puts are those of another one and maybe a new record. -/
def Extends (b b' : Batch) (ref : Option RecordRef) : Prop :=
  ∀ addr ∈ putAddrs b'.mutations, addr ∈ putAddrs b.mutations ∨ ∃ r, ref = some r ∧ addr = r.addr

/-- Writing one mutation. -/
theorem mem_putAddrs_setEntry {m : Mutation} (h : addr ∈ putAddrs (setEntry Mutation.recordID m mutations)) :
    addr ∈ putAddrs mutations ∨ m.operation = .put ∧ addr = m.ref.addr := by
  obtain ⟨m', hm', hop, haddr⟩ := mem_putAddrs.mp h
  rcases mem_setEntry.mp hm' with rfl | ⟨hold, -⟩
  · exact .inr ⟨hop, haddr.symm⟩
  · exact .inl (mem_putAddrs.mpr ⟨m', hold, hop, haddr⟩)

/-! ## §8 — What a call does to an open batch -/

/-- The mutation that a call writes if it succeeds. -/
def Call.mutation : Call → Option Mutation
  | .create valueBytes allocated _ appended =>
    allocated.toOption.bind fun id => appended.toOption.map fun ref => ⟨id, .put, ref, valueBytes⟩
  | .put id valueBytes _ appended | .compareAndPut id _ valueBytes _ appended =>
    appended.toOption.map fun ref => ⟨id, .put, ref, valueBytes⟩
  | .delete id | .compareAndDelete id _ => some ⟨id, .delete, .zero, 0⟩
  | .allocate _ | .expectAddress _ _ | .expectAbsent _ | .rewritePutRefs _ | .abort => none

/-- The condition that it adds. -/
def Call.condition : Call → Option Condition
  | .compareAndPut id expected _ _ _ | .compareAndDelete id expected | .expectAddress id expected =>
    some ⟨id, expected⟩
  | .expectAbsent id => some ⟨id, ⟨0⟩⟩
  | .allocate _ | .create _ _ _ _ | .put _ _ _ _ | .delete _ | .rewritePutRefs _ | .abort => none

/-- The answer of a call. -/
def answer (limits : Limits) (b : Batch) : Call → Except StoreError Unit
  | .allocate allocated => (b.allocate allocated).2.map fun _ => ()
  | .create valueBytes allocated canUse appended => (b.create limits valueBytes allocated canUse appended).2
  | .put id valueBytes canUse appended => (b.put limits id valueBytes canUse appended).2
  | .compareAndPut id expected valueBytes canUse appended =>
    (b.compareAndPut limits id expected valueBytes canUse appended).2
  | .delete id => (b.delete limits id).2
  | .compareAndDelete id expected => (b.compareAndDelete limits id expected).2
  | .expectAddress id addr => (b.expectAddress limits id addr).2
  | .expectAbsent id => (b.expectAbsent limits id).2
  | .rewritePutRefs _ => .ok ()
  | .abort => b.abort.2

/-- The batch with one more mutation and one more condition. -/
def record (b : Batch) (m : Option Mutation) (c : Option Condition) : Batch :=
  { b with
    appendedBytes := b.appendedBytes + m.elim 0 Mutation.valueBytes
    mutations := m.elim b.mutations fun m => setEntry Mutation.recordID m b.mutations
    conditions := c.elim b.conditions fun c => setEntry Condition.recordID c b.conditions }

/-- The mutation has passed the checks. -/
def Takes (limits : Limits) (b : Batch) (m : Mutation) : Prop :=
  m.recordID ≠ 0 ∧ ¬ (b.hasMutation m.recordID = false ∧ b.mutations.length = limits.maxBatchMutations) ∧
    (m.operation = .put ∧ b.appendedBytes + m.valueBytes ≤ limits.maxBatchBytes ∨
      m.operation = .delete ∧ m.ref = .zero ∧ m.valueBytes = 0)

/-- The condition has passed the checks. -/
def Keeps (limits : Limits) (b : Batch) (c : Condition) : Prop :=
  c.recordID ≠ 0 ∧ (c.expectedAddr = ⟨0⟩ ∨ c.expectedAddr.valid = true) ∧
    (c ∈ b.conditions ∨
      (∀ old ∈ b.conditions, old.recordID ≠ c.recordID) ∧ b.conditions.length ≠ limits.maxBatchConditions)

/-- **The outcomes of a call**: an error leaves the mutations and the conditions as they are. -/
inductive Effect (limits : Limits) (b : Batch) (m : Option Mutation) (c : Option Condition) :
    Batch × Except StoreError Unit → Prop
  | kept {err : StoreError} : Effect limits b m c (b, .error err)
  | failed {err : StoreError} : Effect limits b m c ({ b with state := .failed }, .error err)
  | done : (∀ x ∈ m, b.Takes limits x) → (∀ x ∈ c, b.Keeps limits x) → Effect limits b m c (b.record m c, .ok ())

theorem whenOpen_of_open {α : Type*} {run : Batch × Except StoreError α} (h : b.state = .opened) :
    b.whenOpen run = run := by
  rw [whenOpen, requireOpen, if_pos h]

theorem putLocked_effect (b : Batch) (id valueBytes : Nat) (canUse : Bool) (appended : Except StoreError RecordRef) :
    Effect limits b (appended.toOption.map fun ref => ⟨id, .put, ref, valueBytes⟩) none
      (b.putLocked limits id valueBytes canUse appended) := by
  simp only [putLocked]
  split
  · exact .kept
  next hvalid =>
    simp only [validatePut] at hvalid
    obtain ⟨hid, hvalid⟩ := Lib.guard_eq_ok hvalid
    obtain ⟨-, hvalid⟩ := Lib.guard_eq_ok hvalid
    obtain ⟨hroom, hvalid⟩ := Lib.guard_eq_ok hvalid
    obtain ⟨hbytes, -⟩ := Lib.guard_eq_ok hvalid
    split
    · exact .kept
    · split
      · exact .kept
      · exact .failed
      · refine .done ?_ nofun
        rintro _ ⟨⟩
        exact ⟨fun hzero => hid ⟨trivial, hzero⟩, hroom, .inl ⟨rfl, Nat.le_of_not_lt fun hlt => hbytes (.inr hlt)⟩⟩

theorem deleteLocked_effect (b : Batch) (id : Nat) :
    Effect limits b (some ⟨id, .delete, .zero, 0⟩) none (b.deleteLocked limits id) := by
  simp only [deleteLocked]
  split
  · exact .kept
  next hid =>
    split
    · exact .kept
    next hroom =>
      refine .done ?_ nofun
      rintro _ ⟨⟩
      exact ⟨hid, hroom, .inr ⟨rfl, rfl, rfl⟩⟩

/-- The condition is refused, it contradicts an earlier one, or it can be kept. -/
theorem validateCondition_cases (limits : Limits) (b : Batch) (c : Condition) :
    (∃ err, b.validateCondition limits c = (b, .error err)) ∨
      (∃ err, b.validateCondition limits c = ({ b with state := .failed }, .error err)) ∨
        b.validateCondition limits c = (b, .ok ()) ∧ b.Keeps limits c := by
  simp only [validateCondition]
  split
  · exact .inl ⟨_, rfl⟩
  next hid =>
    split
    · exact .inl ⟨_, rfl⟩
    next haddr =>
      have haddr' : c.expectedAddr = ⟨0⟩ ∨ c.expectedAddr.valid = true := by
        by_contra hno
        exact haddr ⟨fun hzero => hno (.inl hzero), by simpa using fun hvalid => hno (.inr hvalid)⟩
      split
      next old hfind =>
        split
        next heq => exact .inr (.inr ⟨rfl, hid, haddr', .inl (heq ▸ mem_of_find?_eq_some hfind)⟩)
        next => exact .inr (.inl ⟨_, rfl⟩)
      next hfind =>
        split
        · exact .inl ⟨_, rfl⟩
        next hroom =>
          refine .inr (.inr ⟨rfl, hid, haddr', .inr ⟨fun old hold => ?_, hroom⟩⟩)
          simpa using List.find?_eq_none.mp hfind old hold

theorem withCondition_effect {c : Condition} {m : Option Mutation} {run : Batch → Batch × Except StoreError Unit}
    (h : Effect limits b m none (run b)) : Effect limits b m (some c) (b.withCondition limits c run) := by
  rcases validateCondition_cases limits b c with ⟨err, heq⟩ | ⟨err, heq⟩ | ⟨heq, hkeeps⟩
  · simp only [withCondition, heq]
    exact .kept
  · simp only [withCondition, heq]
    exact .failed
  · simp only [withCondition, heq]
    generalize run b = result at h
    cases h with
    | kept => exact .kept
    | failed => exact .failed
    | done hm _ =>
      refine .done hm ?_
      rintro _ ⟨⟩
      exact hkeeps

theorem addCondition_effect (hopen : b.state = .opened) (c : Condition) :
    Effect limits b none (some c) (b.addCondition limits c) := by
  have hnothing : Effect limits b none none (b, .ok ()) := .done nofun nofun
  rw [addCondition, whenOpen_of_open hopen]
  exact withCondition_effect hnothing

/-- **What a call does to an open batch**; the rewriting of the puts and the abort apart. -/
theorem call_effect (hopen : b.state = .opened) {c : Call} (hrewrite : ∀ redirects, c ≠ .rewritePutRefs redirects)
    (habort : c ≠ .abort) : Effect limits b c.mutation c.condition (b.call limits c, b.answer limits c) := by
  cases c with
  | allocate allocated =>
    simp only [call, answer, allocate, whenOpen_of_open hopen]
    match allocated with
    | .error _ => exact .kept
    | .ok 0 => exact .failed
    | .ok (_ + 1) => exact .done nofun nofun
  | create valueBytes allocated canUse appended =>
    simp only [call, answer, create, whenOpen_of_open hopen]
    split
    · exact .kept
    · match allocated with
      | .error _ => exact .kept
      | .ok 0 => exact .failed
      | .ok (id + 1) => exact putLocked_effect b (id + 1) valueBytes canUse appended
  | put id valueBytes canUse appended =>
    simp only [call, answer, put, whenOpen_of_open hopen]
    exact putLocked_effect b id valueBytes canUse appended
  | compareAndPut id expected valueBytes canUse appended =>
    simp only [call, answer, compareAndPut, whenOpen_of_open hopen]
    exact withCondition_effect (putLocked_effect b id valueBytes canUse appended)
  | delete id =>
    simp only [call, answer, delete, whenOpen_of_open hopen]
    exact deleteLocked_effect b id
  | compareAndDelete id expected =>
    simp only [call, answer, compareAndDelete, whenOpen_of_open hopen]
    exact withCondition_effect (deleteLocked_effect b id)
  | expectAddress id addr => exact addCondition_effect hopen ⟨id, addr⟩
  | expectAbsent id => exact addCondition_effect hopen ⟨id, ⟨0⟩⟩
  | rewritePutRefs redirects => exact absurd rfl (hrewrite redirects)
  | abort => exact absurd rfl habort

theorem Call.appended_of_mutation {c : Call} {m : Mutation} (h : m ∈ c.mutation) (hput : m.operation = .put) :
    c.appended = some m.ref := by
  cases c with
  | create valueBytes allocated canUse appended =>
    obtain ⟨id, -, hm⟩ := Option.bind_eq_some_iff.mp h
    obtain ⟨ref, href, rfl⟩ := Option.map_eq_some_iff.mp hm
    exact href
  | put id valueBytes canUse appended | compareAndPut id expected valueBytes canUse appended =>
    obtain ⟨ref, href, rfl⟩ := Option.map_eq_some_iff.mp h
    exact href
  | delete id | compareAndDelete id expected =>
    cases h
    cases hput
  | _ => cases h

/-- **The batch after a call.** -/
theorem call_cases (b : Batch) (c : Call) :
    (∃ redirects, c = .rewritePutRefs redirects) ∨ b.call limits c = b ∨ b.call limits c = b.ended .aborted ∨
      b.call limits c = { b with state := .failed } ∨ b.call limits c = b.record c.mutation c.condition := by
  by_cases hrewrite : ∃ redirects, c = .rewritePutRefs redirects
  · exact .inl hrewrite
  · by_cases hopen : b.state = .opened
    · by_cases habort : c = .abort
      · refine .inr (.inr (.inl ?_))
        rw [habort]
        exact congrArg Prod.fst (if_pos (.inl hopen))
      · have heffect : Effect limits b _ _ (b.call limits c, b.answer limits c) :=
          call_effect hopen (fun redirects heq => hrewrite ⟨redirects, heq⟩) habort
        generalize b.call limits c = b', b.answer limits c = answer at heffect
        cases heffect with
        | kept => exact .inr (.inl rfl)
        | failed => exact .inr (.inr (.inr (.inl rfl)))
        | done _ _ => exact .inr (.inr (.inr (.inr rfl)))
    · rcases call_of_not_open hopen c with hsame | ⟨-, hended⟩
      · exact .inr (.inl hsame)
      · exact .inr (.inr (.inl hended))

/-- **A call adds at most the record it has appended**; the rewriting of the puts apart. -/
theorem extends_call (b : Batch) (c : Call) (hc : ∀ redirects, c ≠ .rewritePutRefs redirects) :
    Extends b (b.call limits c) c.appended := by
  intro addr haddr
  rcases call_cases b c with ⟨redirects, heq⟩ | heq | heq | heq | heq
  · exact absurd heq (hc redirects)
  all_goals rw [heq] at haddr
  · exact .inl haddr
  · cases haddr
  · exact .inl haddr
  · cases hmutation : c.mutation with
    | none =>
      simp only [record, hmutation] at haddr
      exact .inl haddr
    | some m =>
      simp only [record, hmutation] at haddr
      rcases mem_putAddrs_setEntry haddr with hold | ⟨hput, hnew⟩
      · exact .inl hold
      · exact .inr ⟨m.ref, Call.appended_of_mutation hmutation hput, hnew⟩

/-- **A call keeps the identifier of its batch.** -/
theorem call_id (b : Batch) (c : Call) : (b.call limits c).id = b.id := by
  rcases call_cases b c with ⟨redirects, rfl⟩ | heq | heq | heq | heq
  · show (b.rewritePutRefs redirects).1.id = b.id
    simp only [rewritePutRefs]
    split <;> rfl
  all_goals exact (congrArg Batch.id heq).trans rfl

/-- The caller may still do something with the batch. -/
def untouched (b : Batch) : Prop := b.state = .opened ∨ b.state = .failed

/-- A call does not bring a batch back. -/
theorem untouched_of_call (c : Call) (h : (b.call limits c).untouched) : b.untouched := by
  by_contra hne
  obtain ⟨hopen, hfailed⟩ := not_or.mp hne
  rw [call_of_ne hopen hfailed] at h
  exact hne h

end Batch

end Ridstore.Transaction
