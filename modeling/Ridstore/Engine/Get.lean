import Mathlib.Data.List.AList
import Ridstore.Lib.Transition
import Ridstore.RecordLog.Registry

/-
# Ridstore.Engine.Get — one `Get` against commits, relocations and segment retirement

`Get` looks the id up, reads the record at the address it found and looks the id up again.  It holds no
pin between the first lookup and the read, so a compaction can move the record, install its checkpoint,
drop the segment from the catalog and begin its retirement in that window.  The documented protocol
retries the mapping when the pin is refused; `Get` returns the refusal and sets the store's fault.

The state has what `Get` reads: the visible mapping, the records, the log's buffer of unwritten records,
the registry, and the fault.  `seen` is the history of the id's mapping from the call on.
-/

namespace Ridstore.Engine.Get

open Option

open RecordLog (VAddr Registry)
open Function
open List

variable {Value : Type}

/-! ## §1 — The system -/

/-- What `DecodePut` finds at an address. -/
inductive Payload (Value : Type)
  | put (recordID : Nat) (value : Value)
  | other
  deriving DecidableEq

/-- Where the call is in its loop. -/
inductive Pc (Value : Type)
  | idle
  | looking (id : Nat)
  | located (id : Nat) (addr : VAddr)
  | pinned (id : Nat) (addr : VAddr)
  | fetched (id : Nat) (addr : VAddr) (payload : Payload Value)
  | returned (id : Nat) (result : Except StoreError (Value × VAddr))

/-- The mapping of ids to addresses. -/
abbrev Mapping := AList fun _ : Nat => VAddr

/-- The store as `Get` sees it.  `catalog` holds the segments of the installed manifest, `pending` the
records of batches that can still commit, `readers` the pins that other readers hold. -/
structure State (Value : Type) where
  mapping : Mapping
  records : VAddr → Option (Payload Value)
  buffered : VAddr → Bool
  registry : Registry
  readers : Nat → Nat
  catalog : Nat → Bool
  pending : List (Nat × VAddr)
  fault : Option StoreError
  get : Pc Value
  seen : List (Option VAddr)

/-- One effect of a published group. -/
inductive Change
  | put (id : Nat) (addr : VAddr)
  | delete (id : Nat)
  | move (id : Nat) (old new : VAddr)
  deriving DecidableEq

/-- The steps of the call, of writers, of compactions and of other readers. -/
inductive Event (Value : Type)
  | call (id : Nat)
  | lookup
  | readBuffered
  | pin
  | read
  | recheck
  | append (addr : VAddr) (payload : Payload Value)
  | flush (addr : VAddr)
  | discard (id : Nat) (addr : VAddr)
  | publish (changes : List Change)
  | redirect (old new : VAddr)
  | checkpoint
  | catalogAdd (segment : Nat)
  | rotate (segment : Nat)
  | copy (old new : VAddr)
  | publishOutputs (segments : List Nat)
  | catalogRemove (segments : List Nat)
  | beginRetire (segment : Nat)
  | detachRetired (segment : Nat)
  | otherPin (segment : Nat)
  | otherRelease (segment : Nat)

/-- `setFault` keeps the first error. -/
def State.setFault (s : State Value) (err : StoreError) : State Value :=
  { s with fault := s.fault <|> some err }

/-- `Get` returns an error that is no answer about the id. -/
def State.fail (s : State Value) (id : Nat) (err : StoreError) : State Value :=
  { s.setFault err with get := .returned id (.error err) }

/-- The visible effect of a change. -/
def Change.apply (mapping : Mapping) : Change → Mapping
  | .put id addr => mapping.insert id addr
  | .delete id => mapping.erase id
  | .move id old new => if mapping.lookup id = some old then mapping.insert id new else mapping

/-- A copy that a relocation may publish: the same record, in a registered segment of the catalog. -/
def State.relocatable (s : State Value) (old new : VAddr) : Prop :=
  s.records new = s.records old ∧ new.valid ∧ s.catalog new.segmentID ∧
    (s.registry.entries new.segmentID).map (·.state) = some .sealed

instance [DecidableEq Value] (s : State Value) (old new : VAddr) : Decidable (s.relocatable old new) :=
  inferInstanceAs (Decidable (_ ∧ _ ∧ _ ∧ _))

/-- What the coordinator may publish: puts of pending batches, deletes, and moves to checked copies. -/
def State.publishable (s : State Value) : Change → Prop
  | .put id addr => (id, addr) ∈ s.pending
  | .delete _ => True
  | .move _ old new => s.relocatable old new

instance [DecidableEq Value] (s : State Value) : DecidablePred s.publishable
  | .put _ _ => inferInstanceAs (Decidable (_ ∈ _))
  | .delete _ => inferInstanceAs (Decidable True)
  | .move _ old new => inferInstanceAs (Decidable (s.relocatable old new))

/-- `put` makes the record pending for its id; other records belong to no batch. -/
def Payload.pending (addr : VAddr) : Payload Value → List (Nat × VAddr)
  | .put id _ => [(id, addr)]
  | .other => []

/-- `redirect` of a reference of an open batch. -/
def redirectRef (old new : VAddr) (ref : Nat × VAddr) : Nat × VAddr :=
  if ref.2 = old then (ref.1, new) else ref

/-- No mapping entry and no pending batch refers to the segment: what a retirement proof establishes. -/
def State.unreferenced (s : State Value) (segment : Nat) : Prop :=
  (∀ entry ∈ s.mapping.entries, VAddr.segmentID entry.2 ≠ segment) ∧
    ∀ ref ∈ s.pending, ref.2.segmentID ≠ segment

instance (s : State Value) (segment : Nat) : Decidable (s.unreferenced segment) :=
  inferInstanceAs (Decidable (_ ∧ _))

/-- A registry operation that succeeds. -/
def State.withRegistry (s : State Value) : Except StoreError Registry → Option (State Value)
  | .error _ => none
  | .ok r => some { s with registry := r }

/-- The steps of `Get`. -/
def State.getStep (s : State Value) : Event Value → Option (State Value)
  | .call id =>
    match s.get with
    | .idle | .returned _ _ =>
      some { s with
        get := if id = 0 then .returned id (.error .invalidID) else .looking id
        seen := [] }
    | _ => none
  | .lookup =>
    match s.get with
    | .looking id =>
      if s.fault.isSome then some { s with get := .returned id (.error .readOnly) }
      else
        match s.mapping.lookup id with
        | none => some { s with get := .returned id (.error .notFound) }
        | some addr => some { s with get := .located id addr }
    | _ => none
  | .readBuffered =>
    match s.get with
    | .located id addr =>
      if addr.valid ∧ s.buffered addr then
        match s.records addr with
        | none => none
        | some payload => some { s with get := .fetched id addr payload }
      else none
    | _ => none
  | .pin =>
    match s.get with
    | .located id addr =>
      if addr.valid = false then some (s.fail id .invalidVAddr)
      else if s.buffered addr then none
      else
        match s.registry.pin addr.segmentID with
        | .error err => some (s.fail id err)
        | .ok r => some { s with registry := r, get := .pinned id addr }
    | _ => none
  | .read =>
    match s.get with
    | .pinned id addr =>
      match s.registry.release addr.segmentID, s.records addr with
      | .ok r, some payload => some { s with registry := r, get := .fetched id addr payload }
      | .ok r, none => some ({ s with registry := r }.fail id .corrupt)
      | .error err, _ => some (s.fail id err)
    | _ => none
  | .recheck =>
    match s.get with
    | .fetched id addr payload =>
      if s.mapping.lookup id ≠ some addr then some { s with get := .looking id }
      else
        match payload with
        | .put recordID value =>
          if recordID = id then some { s with get := .returned id (.ok (value, addr)) }
          else some (s.fail id .corrupt)
        | .other => some (s.fail id .corrupt)
    | _ => none
  | _ => none

/-- The steps around `Get`.  A checkpoint changes no lookup.  A segment number is added to the catalog
before its segment is registered, and dropped from it before the retirement begins. -/
def State.storeStep [DecidableEq Value] (s : State Value) : Event Value → Option (State Value)
  | .append addr payload =>
    if s.records addr = none ∧ addr.valid ∧ addr.segmentID = s.registry.active then
      some { s with
        records := update s.records addr (some payload)
        buffered := update s.buffered addr true
        pending := payload.pending addr ++ s.pending }
    else none
  | .flush addr => some { s with buffered := update s.buffered addr false }
  | .discard id addr => some { s with pending := s.pending.filter (· ≠ (id, addr)) }
  | .publish changes =>
    if ∀ change ∈ changes, s.publishable change then
      some { s with
        mapping := changes.foldl Change.apply s.mapping
        pending := s.pending.filter fun ref => .put ref.1 ref.2 ∉ changes }
    else none
  | .redirect old new =>
    if s.relocatable old new then some { s with pending := s.pending.map (redirectRef old new) } else none
  | .checkpoint => some s
  | .catalogAdd segment =>
    if s.registry.entries segment = none then
      some { s with catalog := update s.catalog segment true }
    else none
  | .rotate segment =>
    if s.catalog segment then s.withRegistry (s.registry.publishRotation s.registry.active segment)
    else none
  | .copy old new =>
    if s.records new = none ∧ s.registry.entries new.segmentID = none then
      some { s with records := update s.records new (s.records old) }
    else none
  | .publishOutputs segments =>
    if ∀ segment ∈ segments, s.catalog segment then s.withRegistry (s.registry.publishSealed segments)
    else none
  | .catalogRemove segments =>
    if ∀ segment ∈ segments, s.unreferenced segment ∧
        (s.registry.entries segment).map (·.state) = some .sealed ∧ segment ≠ s.registry.active then
      some { s with catalog := fun segment => s.catalog segment && decide (segment ∉ segments) }
    else none
  | .beginRetire segment =>
    if s.catalog segment then none else s.withRegistry (s.registry.beginRetire segment)
  | .detachRetired segment => s.withRegistry (s.registry.detachRetired segment)
  | .otherPin segment =>
    match s.registry.pin segment with
    | .error _ => none
    | .ok r =>
      some { s with registry := r, readers := update s.readers segment (s.readers segment + 1) }
  | .otherRelease segment =>
    if s.readers segment = 0 then none
    else
      match s.registry.release segment with
      | .error _ => none
      | .ok r =>
        some { s with registry := r, readers := update s.readers segment (s.readers segment - 1) }
  | _ => none

/-- The id the call is about. -/
def Pc.target : Pc Value → Option Nat
  | .idle => none
  | .looking id | .located id _ | .pinned id _ | .fetched id _ _ | .returned id _ => some id

/-- Every instant from the call on leaves the id's mapping in the history. -/
def State.observe (s : State Value) : State Value :=
  match s.get.target with
  | none => s
  | some id => { s with seen := s.mapping.lookup id :: s.seen }

/-- One event. -/
def State.step [DecidableEq Value] (s : State Value) (e : Event Value) : Option (State Value) :=
  (s.getStep e <|> s.storeStep e).map State.observe

-- The equations of the step functions are generated here, once for all the step lemmas.
section
attribute [local simp] State.getStep State.storeStep
end

/-- The record of the id is at the address. -/
def State.Holds (s : State Value) (id : Nat) (addr : VAddr) : Prop :=
  addr.valid = true ∧ ∃ value, s.records addr = some (.put id value)

/-- What a reference of the mapping or of a pending batch relies on. -/
def State.Backed (s : State Value) (id : Nat) (addr : VAddr) : Prop :=
  s.Holds id addr ∧ s.catalog addr.segmentID = true ∧ s.registry.Readable addr.segmentID

/-- A store that has just been opened: whatever it holds, its mapping is backed by the log, no batch is
open, nobody reads and no fault is set. -/
def Opened (s : State Value) : Prop :=
  (∀ id addr, s.mapping.lookup id = some addr → s.Backed id addr) ∧ s.pending = [] ∧
    s.registry.closed = false ∧ s.catalog s.registry.active = true ∧
    s.registry.Readable s.registry.active ∧ (∀ segment, s.registry.pinCount segment = s.readers segment) ∧
    s.fault = none ∧ s.get = .idle

/-- One `Get` at a time against the rest of the store, from an opened store on. -/
def system (Value : Type) [DecidableEq Value] : Lib.Machine (State Value) (Event Value) where
  init := Opened
  step := State.step

/-! ## §2 — What a call may return -/

variable {s s' : State Value} {id : Nat} {addr : VAddr} {e : Event Value} {mapping : Mapping} {readers : Nat → Nat}
  {records : VAddr → Option (Payload Value)} {r : Registry} {catalog : Nat → Bool} {changes : List Change}

/-- **A linearizable answer**: the value at an address that was current at some instant of the call, or
the absence at some instant of the call. -/
def State.Linearized (s : State Value) (id : Nat) : Except StoreError (Value × VAddr) → Prop
  | .ok (value, addr) => some addr ∈ s.seen ∧ s.records addr = some (.put id value)
  | .error .notFound => none ∈ s.seen
  | .error err => err = .invalidID ∧ id = 0

/-- What the call knows at each point of its loop. -/
def State.GetOk (s : State Value) : Prop :=
  match s.get with
  | .idle | .looking _ => True
  | .located id addr => some addr ∈ s.seen ∧ s.Holds id addr ∧ s.registry.Readable addr.segmentID
  | .pinned id addr => some addr ∈ s.seen ∧ s.Holds id addr
  | .fetched id addr payload => some addr ∈ s.seen ∧ s.Holds id addr ∧ s.records addr = some payload
  | .returned id result => s.Linearized id result

/-- The pin of the call itself. -/
def Pc.held : Pc Value → Nat → Nat
  | .pinned _ addr, segment => if segment = addr.segmentID then 1 else 0
  | _, _ => 0

/-- A reference that can still become, or is, the visible address of the id. -/
def State.Refers (s : State Value) (id : Nat) (addr : VAddr) : Prop :=
  s.mapping.lookup id = some addr ∨ (id, addr) ∈ s.pending

/-- The invariant of the system. -/
structure Inv (s : State Value) : Prop where
  opened : s.registry.closed = false
  activeListed : s.catalog s.registry.active = true
  activeReadable : s.registry.Readable s.registry.active
  backed : ∀ id addr, s.Refers id addr → s.Backed id addr
  pins : ∀ segment, s.registry.pinCount segment = s.readers segment + s.get.held segment
  noFault : s.fault = none
  getOk : s.GetOk

theorem Inv.of_opened (h : Opened s) : Inv s := by
  obtain ⟨hmapping, hpending, hopen, hlisted, hreadable, hpins, hfault, hidle⟩ := h
  refine ⟨hopen, hlisted, hreadable, ?_, ?_, hfault, ?_⟩
  · rintro id addr (hlookup | hmem)
    · exact hmapping id addr hlookup
    · rw [hpending] at hmem
      cases hmem
  · intro segment
    rw [hidle, hpins]
    rfl
  · simp only [State.GetOk, hidle]

/-- Records are written once. -/
theorem State.Holds.mono (h : s.Holds id addr)
    (hrecords : ∀ a p, s.records a = some p → s'.records a = some p) : s'.Holds id addr := by
  obtain ⟨hvalid, value, hvalue⟩ := h
  exact ⟨hvalid, value, hrecords _ _ hvalue⟩

theorem State.Linearized.mono {result : Except StoreError (Value × VAddr)} (h : s.Linearized id result)
    (hrecords : ∀ a p, s.records a = some p → s'.records a = some p) (hseen : s.seen ⊆ s'.seen) :
    s'.Linearized id result := by
  cases result with
  | ok answer => exact ⟨hseen h.1, hrecords _ _ h.2⟩
  | error err =>
    cases err with
    | notFound => exact hseen h
    | _ => exact h

/-- What the call knows survives every step of the others that keeps the records, the history and the
segment of a located address readable. -/
theorem State.GetOk.frame (h : s.GetOk) (hget : s'.get = s.get) (hseen : s.seen ⊆ s'.seen)
    (hrecords : ∀ a p, s.records a = some p → s'.records a = some p)
    (hreadable : ∀ id addr, s.get = .located id addr → s.registry.Readable addr.segmentID →
      s'.registry.Readable addr.segmentID) : s'.GetOk := by
  simp only [State.GetOk, hget]
  simp only [State.GetOk] at h
  cases hpc : s.get with
  | idle | looking => trivial
  | located id addr =>
    rw [hpc] at h
    exact ⟨hseen h.1, h.2.1.mono hrecords, hreadable id addr hpc h.2.2⟩
  | pinned id addr =>
    rw [hpc] at h
    exact ⟨hseen h.1, h.2.mono hrecords⟩
  | fetched =>
    rw [hpc] at h
    exact ⟨hseen h.1, h.2.1.mono hrecords, hrecords _ _ h.2.2⟩
  | returned id result =>
    rw [hpc] at h
    exact State.Linearized.mono h hrecords hseen

/-- The present mapping of the call's id is in the history. -/
def State.Current (s : State Value) : Prop := ∀ id, s.get.target = some id → s.mapping.lookup id ∈ s.seen

section

variable (h : Inv s)

include h

theorem Inv.observe : Inv s.observe ∧ s.observe.Current := by
  unfold State.observe
  cases htarget : s.get.target with
  | none =>
    refine ⟨h, fun id hid => ?_⟩
    rw [htarget] at hid
    cases hid
  | some id =>
    refine ⟨{ h with getOk := ?_ }, fun id' hid => ?_⟩
    · exact h.getOk.frame rfl (subset_cons_self _ _) (fun _ _ hp => hp) fun _ _ _ hr => hr
    · simp only [htarget, Option.some.injEq] at hid
      subst hid
      exact mem_cons_self

/-! ## §3 — The steps of the call -/

/-- The call moves on without touching its pin. -/
theorem Inv.advance {old pc : Pc Value} {seen : List (Option VAddr)} (hget : s.get = old) (hheld : pc.held = old.held)
    (hok : { s with get := pc, seen := seen }.GetOk) : Inv { s with get := pc, seen := seen } :=
  ⟨h.opened, h.activeListed, h.activeReadable, h.backed, fun segment => by
    rw [h.pins segment, hget, hheld], h.noFault, hok⟩

/-- The registry changes, and with it perhaps the pins: the segments it drops are not in the catalog. -/
theorem Inv.withRegistry {dropped : Nat → Prop} {pc : Pc Value}
    (hkeeps : Registry.Keeps dropped s.registry r) (hdropped : ∀ segment, dropped segment → s.catalog segment = false)
    (hactive : r.active = s.registry.active ∨ s.catalog r.active = true ∧ r.Readable r.active)
    (hpins : ∀ segment, r.pinCount segment = readers segment + pc.held segment)
    (hok : { s with registry := r, readers := readers, get := pc }.GetOk) :
    Inv { s with registry := r, readers := readers, get := pc } := by
  have hkept : ∀ segment, s.catalog segment = true → s.registry.Readable segment → r.Readable segment := by
    intro segment hmem
    refine hkeeps.readable segment fun hd => ?_
    rw [hdropped segment hd] at hmem
    cases hmem
  have hnew : s.catalog r.active = true ∧ r.Readable r.active := by
    rcases hactive with hsame | hnew
    · rw [hsame]
      exact ⟨h.activeListed, hkept _ h.activeListed h.activeReadable⟩
    · exact hnew
  refine ⟨hkeeps.closed.trans h.opened, hnew.1, hnew.2, fun id addr href => ?_, hpins, h.noFault, hok⟩
  · obtain ⟨hholds, hmem, hread⟩ := h.backed id addr href
    exact ⟨hholds, hmem, hkept _ hmem hread⟩

/-- The pins when the count of one segment changes: elsewhere the holders are the same. -/
theorem Inv.pins_update {pc : Pc Value} {segment count : Nat}
    (hcount : r.pinCount = update s.registry.pinCount segment count)
    (hself : count = readers segment + pc.held segment)
    (hothers : ∀ other, other ≠ segment → readers other + pc.held other = s.readers other + s.get.held other)
    (other : Nat) : r.pinCount other = readers other + pc.held other := by
  rw [hcount]
  by_cases hs : other = segment
  · subst hs
    rw [update_self, hself]
  · rw [update_of_ne hs, h.pins, hothers other hs]

theorem Inv.call (hstep : s.getStep (.call id) = some s') : Inv s' := by
  have hnew : ∀ {old : Pc Value}, s.get = old → (Pc.idle : Pc Value).held = old.held →
      Inv { s with get := if id = 0 then .returned id (.error .invalidID) else .looking id, seen := [] } := by
    intro old hget hheld
    split
    · exact h.advance hget hheld ⟨rfl, by assumption⟩
    · exact h.advance hget hheld trivial
  simp only [State.getStep] at hstep
  split at hstep
  next hget =>
    cases hstep
    exact hnew hget rfl
  next hget =>
    cases hstep
    exact hnew hget rfl
  next => cases hstep

theorem Inv.lookup (hcurrent : s.Current) (hstep : s.getStep .lookup = some s') : Inv s' := by
  simp only [State.getStep] at hstep
  split at hstep
  next id hget =>
    have hmem := hcurrent id (by rw [hget]; rfl)
    rw [if_neg (by simp [h.noFault])] at hstep
    split at hstep
    next habsent =>
      cases hstep
      rw [habsent] at hmem
      exact h.advance hget rfl hmem
    next addr hfound =>
      cases hstep
      rw [hfound] at hmem
      obtain ⟨hholds, -, hreadable⟩ := h.backed id addr (.inl hfound)
      exact h.advance hget rfl ⟨hmem, hholds, hreadable⟩
  next => cases hstep

theorem Inv.readBuffered (hstep : s.getStep .readBuffered = some s') : Inv s' := by
  have hok := h.getOk
  simp only [State.getStep] at hstep
  split at hstep
  next id addr hget =>
    simp only [State.GetOk, hget] at hok
    obtain ⟨-, hstep⟩ := ite_none_right_eq_some.mp hstep
    split at hstep
    · cases hstep
    next payload hrecord =>
      cases hstep
      exact h.advance hget rfl ⟨hok.1, hok.2.1, hrecord⟩
  next => cases hstep

/-- A located segment is still readable, so the pin is granted. -/
theorem Inv.pin (hstep : s.getStep .pin = some s') : Inv s' := by
  have hok := h.getOk
  simp only [State.getStep] at hstep
  split at hstep
  next id addr hget =>
    simp only [State.GetOk, hget] at hok
    obtain ⟨hmem, hholds, hreadable⟩ := hok
    have hsegment : addr.segmentID ≠ 0 := by
      have hvalid := hholds.1
      simp only [VAddr.valid, Bool.and_eq_true, decide_eq_true_eq] at hvalid
      exact hvalid.1.1
    obtain ⟨r, hr⟩ := hreadable.pin hsegment h.opened
    obtain ⟨hkeeps, hactive, hcount⟩ := Registry.pin_keeps hr
    rw [hholds.1, hr] at hstep
    split at hstep
    next hinvalid => cases hinvalid
    split at hstep
    · cases hstep
    cases hstep
    refine h.withRegistry hkeeps (fun _ hd => hd.elim) (.inl hactive)
      (h.pins_update hcount ?_ fun other hs => ?_) ⟨hmem, hholds⟩
    · rw [h.pins, hget]
      simp [Pc.held]
    · rw [hget]
      simp [Pc.held, hs]
  next => cases hstep

/-- The pin is still held, so the record is read and the pin released. -/
theorem Inv.read (hstep : s.getStep .read = some s') : Inv s' := by
  have hok := h.getOk
  simp only [State.getStep] at hstep
  split at hstep
  next id addr hget =>
    simp only [State.GetOk, hget] at hok
    obtain ⟨hmem, hholds⟩ := hok
    have hvalue := hholds.2
    obtain ⟨value, hrecord⟩ := hvalue
    have hheld : 0 < s.registry.pinCount addr.segmentID := by
      rw [h.pins, hget]
      simp [Pc.held]
    obtain ⟨r, hr⟩ := Registry.release_of_pinned hheld
    obtain ⟨hkeeps, hactive, hcount⟩ := Registry.release_keeps hr
    rw [hr, hrecord] at hstep
    cases hstep
    refine h.withRegistry hkeeps (fun _ hd => hd.elim) (.inl hactive)
      (h.pins_update hcount ?_ fun other hs => ?_) ⟨hmem, hholds, hrecord⟩
    · rw [h.pins, hget]
      simp [Pc.held]
    · rw [hget]
      simp [Pc.held, hs]
  next => cases hstep

theorem Inv.recheck (hstep : s.getStep .recheck = some s') : Inv s' := by
  have hok := h.getOk
  simp only [State.getStep] at hstep
  split at hstep
  next id addr payload hget =>
    simp only [State.GetOk, hget] at hok
    obtain ⟨hmem, ⟨-, value, hvalue⟩, hrecord⟩ := hok
    obtain rfl : payload = .put id value := by
      rw [hrecord] at hvalue
      exact Option.some.inj hvalue
    split at hstep
    · cases hstep
      exact h.advance hget rfl trivial
    · simp only [if_true, Option.some.injEq] at hstep
      subst hstep
      exact h.advance hget rfl ⟨hmem, hrecord⟩
  next => cases hstep

/-- **The call keeps the invariant**: none of its steps fails. -/
theorem Inv.getStep (hcurrent : s.Current) (hstep : s.getStep e = some s') : Inv s' := by
  cases e with
  | call id => exact h.call hstep
  | lookup => exact h.lookup hcurrent hstep
  | readBuffered => exact h.readBuffered hstep
  | pin => exact h.pin hstep
  | read => exact h.read hstep
  | recheck => exact h.recheck hstep
  | _ => cases hstep

/-! ## §4 — The steps around the call -/

/-- A step that leaves the registry, the readers and the call alone, and only adds records. -/
theorem Inv.withContents
    {buffered : VAddr → Bool} {pending : List (Nat × VAddr)}
    (hrecords : ∀ a p, s.records a = some p → records a = some p)
    (hlisted : catalog s.registry.active = true)
    (hbacked : ∀ id addr, { s with mapping := mapping, pending := pending }.Refers id addr →
      { s with records := records, catalog := catalog }.Backed id addr) :
    Inv { s with mapping := mapping, records := records, buffered := buffered, catalog := catalog,
                 pending := pending } :=
  ⟨h.opened, hlisted, h.activeReadable, hbacked, h.pins, h.noFault,
    h.getOk.frame rfl (List.Subset.refl _) hrecords fun _ _ _ hr => hr⟩

end

/-- The record of an address that is written for the first time. -/
theorem State.update_records {new : VAddr} (payload : Option (Payload Value)) (hfree : s.records new = none)
    (a : VAddr) (p : Payload Value) (hp : s.records a = some p) :
    update s.records new payload a = some p := by
  have hne : a ≠ new := by
    rintro rfl
    rw [hfree] at hp
    cases hp
  rw [update_of_ne hne, hp]

/-- A backed reference stays backed when a record is added and no segment leaves the catalog. -/
theorem State.Backed.mono (h : s.Backed id addr) (hrecords : ∀ a p, s.records a = some p → records a = some p)
    (hlisted : s.catalog addr.segmentID = true → catalog addr.segmentID = true) :
    { s with records := records, catalog := catalog }.Backed id addr :=
  ⟨State.Holds.mono h.1 hrecords, hlisted h.2.1, h.2.2⟩

/-- A relocation keeps what a reference relies on. -/
theorem State.Backed.relocate {old new : VAddr} (h : s.Backed id old) (hnew : s.relocatable old new) : s.Backed id new := by
  obtain ⟨⟨-, value, hvalue⟩, -, -⟩ := h
  obtain ⟨hsame, hvalid, hlisted, hsealed⟩ := hnew
  refine ⟨⟨hvalid, value, hsame.trans hvalue⟩, hlisted, ?_⟩
  obtain ⟨entry, hentry, hstate⟩ := map_eq_some_iff.mp hsealed
  exact ⟨entry, hentry, by rw [hstate]; decide⟩

/-- Every visible address is backed. -/
def State.MappingBacked (s : State Value) (mapping : Mapping) : Prop :=
  ∀ id addr, mapping.lookup id = some addr → s.Backed id addr

theorem State.MappingBacked.insert (h : s.MappingBacked mapping) (hnew : s.Backed id addr) :
    s.MappingBacked (mapping.insert id addr) := by
  intro id' addr' hlookup
  by_cases hid : id' = id
  · subst hid
    rw [AList.lookup_insert, Option.some.injEq] at hlookup
    exact hlookup ▸ hnew
  · rw [AList.lookup_insert_ne hid] at hlookup
    exact h id' addr' hlookup

/-- One change of a group. -/
theorem State.MappingBacked.apply {change : Change} (h : s.MappingBacked mapping)
    (hpending : ∀ id addr, (id, addr) ∈ s.pending → s.Backed id addr) (hchange : s.publishable change) :
    s.MappingBacked (change.apply mapping) := by
  cases change with
  | put id addr => exact h.insert (hpending id addr hchange)
  | delete id =>
    intro id' addr' hlookup
    have hne : id' ≠ id := by
      rintro rfl
      rw [Change.apply, AList.lookup_erase] at hlookup
      cases hlookup
    rw [Change.apply, AList.lookup_erase_ne hne] at hlookup
    exact h id' addr' hlookup
  | move id old new =>
    simp only [Change.apply]
    split
    next hold => exact h.insert ((h id old hold).relocate hchange)
    next => exact h

/-- A whole group, by induction on its changes. -/
theorem State.MappingBacked.applyAll (h : s.MappingBacked mapping)
    (hpending : ∀ id addr, (id, addr) ∈ s.pending → s.Backed id addr)
    (hchanges : ∀ change ∈ changes, s.publishable change) : s.MappingBacked (changes.foldl Change.apply mapping) := by
  induction changes generalizing mapping with
  | nil => exact h
  | cons change rest ih =>
    exact ih (h.apply hpending (hchanges change mem_cons_self)) fun c hc =>
      hchanges c (mem_cons_of_mem _ hc)

theorem State.withRegistry_eq_some {result : Except StoreError Registry} (h : s.withRegistry result = some s') :
    ∃ r, result = .ok r ∧ s' = { s with registry := r } := by
  cases result with
  | error err => cases h
  | ok r => exact ⟨r, rfl, (Option.some.inj h).symm⟩

/-- A registry step of the others, with the pins they hold. -/
theorem Inv.registryStep {dropped : Nat → Prop} (h : Inv s)
    (hkeeps : Registry.Keeps dropped s.registry r) (hdropped : ∀ segment, dropped segment → s.catalog segment = false)
    (hlocated : ∀ id addr, s.get = .located id addr → ¬ dropped addr.segmentID)
    (hactive : r.active = s.registry.active ∨ s.catalog r.active = true ∧ r.Readable r.active)
    (hpins : ∀ segment, r.pinCount segment = readers segment + s.get.held segment) :
    Inv { s with registry := r, readers := readers } :=
  h.withRegistry hkeeps hdropped hactive hpins
    (h.getOk.frame rfl (List.Subset.refl _) (fun _ _ hp => hp) fun id addr hget hr =>
      hkeeps.readable _ (hlocated id addr hget) hr)

variable [DecidableEq Value]

section

variable (h : Inv s)

include h

theorem Inv.append {payload : Payload Value} (hstep : s.storeStep (.append addr payload) = some s') : Inv s' := by
  obtain ⟨hguard, hstep⟩ := ite_none_right_eq_some.mp hstep
  obtain ⟨hfree, hvalid, hsegment⟩ := hguard
  cases hstep
  have hgrow := State.update_records (some payload) hfree
  refine h.withContents hgrow h.activeListed ?_
  rintro id' addr' (hlookup | hmem)
  · exact (h.backed id' addr' (.inl hlookup)).mono hgrow fun hl => hl
  · rcases mem_append.mp hmem with hnew | hold
    · cases payload with
      | other => cases hnew
      | put id value =>
        obtain ⟨rfl, rfl⟩ := Prod.mk.inj (mem_singleton.mp hnew)
        refine ⟨⟨hvalid, value, update_self _ _ _⟩, ?_, ?_⟩
        · rw [hsegment]
          exact h.activeListed
        · rw [hsegment]
          exact h.activeReadable
    · exact (h.backed id' addr' (.inr hold)).mono hgrow fun hl => hl

theorem Inv.publish (hstep : s.storeStep (.publish changes) = some s') : Inv s' := by
  obtain ⟨hguard, rfl⟩ := Lib.when_eq_some hstep
  refine h.withContents (fun _ _ hp => hp) h.activeListed ?_
  rintro id addr (hlookup | hmem)
  · have hmapping : s.MappingBacked s.mapping := fun id' addr' hl => h.backed id' addr' (.inl hl)
    exact hmapping.applyAll (fun id' addr' hp => h.backed id' addr' (.inr hp)) hguard id addr hlookup
  · exact h.backed id addr (.inr (mem_of_mem_filter hmem))

variable {old new : VAddr}

theorem Inv.redirect (hstep : s.storeStep (.redirect old new) = some s') : Inv s' := by
  obtain ⟨hguard, rfl⟩ := Lib.when_eq_some hstep
  refine h.withContents (fun _ _ hp => hp) h.activeListed ?_
  rintro id addr (hlookup | hmem)
  · exact h.backed id addr (.inl hlookup)
  · obtain ⟨⟨id', addr'⟩, hpending, href⟩ := mem_map.mp hmem
    have hbacked := h.backed id' addr' (.inr hpending)
    simp only [redirectRef] at href
    split at href
    next hold =>
      subst hold
      cases href
      exact hbacked.relocate hguard
    next =>
      cases href
      exact hbacked

theorem Inv.copy (hstep : s.storeStep (.copy old new) = some s') : Inv s' := by
  obtain ⟨hguard, rfl⟩ := Lib.when_eq_some hstep
  have hgrow := State.update_records (s.records old) hguard.1
  exact h.withContents hgrow h.activeListed fun id addr href => (h.backed id addr href).mono hgrow fun hl => hl

variable {segment : Nat}

theorem Inv.catalogAdd (hstep : s.storeStep (.catalogAdd segment) = some s') : Inv s' := by
  obtain ⟨-, rfl⟩ := Lib.when_eq_some hstep
  have hlisted : ∀ other, s.catalog other = true → update s.catalog segment true other = true := by
    intro other hother
    by_cases hs : other = segment
    · rw [hs, update_self]
    · rw [update_of_ne hs, hother]
  exact h.withContents (fun _ _ hp => hp) (hlisted _ h.activeListed) fun id addr href =>
    (h.backed id addr href).mono (fun _ _ hp => hp) (hlisted _)

variable {segments : List Nat}

/-- The catalog drops only segments that nothing refers to. -/
theorem Inv.catalogRemove (hstep : s.storeStep (.catalogRemove segments) = some s') : Inv s' := by
  obtain ⟨hguard, rfl⟩ := Lib.when_eq_some hstep
  have hkept : ∀ segment ∉ segments, s.catalog segment = true →
      (s.catalog segment && decide (segment ∉ segments)) = true := by
    intro segment hnot hmem
    rw [hmem, decide_eq_true hnot]
    rfl
  refine h.withContents (fun _ _ hp => hp) (hkept _ (fun hmem => (hguard _ hmem).2.2 rfl) h.activeListed) ?_
  intro id addr href
  refine (h.backed id addr href).mono (fun _ _ hp => hp) (hkept _ fun hmem => ?_)
  obtain ⟨hmapping, hpending⟩ := (hguard _ hmem).1
  rcases href with hlookup | hpend
  · exact hmapping ⟨id, addr⟩ (AList.mem_lookup_iff.mp hlookup) rfl
  · exact hpending (id, addr) hpend rfl

theorem Inv.rotate (hstep : s.storeStep (.rotate segment) = some s') : Inv s' := by
  obtain ⟨hlisted, hstep⟩ := ite_none_right_eq_some.mp hstep
  obtain ⟨r, hr, rfl⟩ := State.withRegistry_eq_some hstep
  obtain ⟨hkeeps, hactive, hreadable, hcount⟩ := Registry.publishRotation_keeps hr
  refine h.registryStep hkeeps (fun _ hd => hd.elim) (fun _ _ _ hd => hd)
    (.inr (by rw [hactive]; exact ⟨hlisted, hreadable⟩)) fun other => ?_
  rw [hcount, h.pins]

theorem Inv.publishOutputs (hstep : s.storeStep (.publishOutputs segments) = some s') : Inv s' := by
  obtain ⟨-, hstep⟩ := ite_none_right_eq_some.mp hstep
  obtain ⟨r, hr, rfl⟩ := State.withRegistry_eq_some hstep
  obtain ⟨hkeeps, hactive, hcount, -⟩ := Registry.publishSealed_keeps hr
  refine h.registryStep hkeeps (fun _ hd => hd.elim) (fun _ _ _ hd => hd)
    (.inl hactive) fun other => ?_
  rw [hcount, h.pins]

/-- A retirement begins on a segment the catalog no longer has and the call has not located. -/
theorem Inv.beginRetire (hlocated : ∀ id addr, s.get = .located id addr → addr.segmentID ≠ segment)
    (hstep : s.storeStep (.beginRetire segment) = some s') : Inv s' := by
  obtain ⟨hunlisted, hstep⟩ := ite_none_left_eq_some.mp hstep
  obtain ⟨r, hr, rfl⟩ := State.withRegistry_eq_some hstep
  obtain ⟨hkeeps, hactive, hcount⟩ := Registry.beginRetire_keeps hr
  have hnot : s.catalog segment = false := by simpa using hunlisted
  refine h.registryStep hkeeps (fun _ hd => by rw [hd, hnot]) hlocated
    (.inl hactive) fun other => ?_
  rw [hcount, h.pins]

theorem Inv.detachRetired (hstep : s.storeStep (.detachRetired segment) = some s') : Inv s' := by
  obtain ⟨r, hr, rfl⟩ := State.withRegistry_eq_some hstep
  obtain ⟨hkeeps, hactive, hcount⟩ := Registry.detachRetired_keeps hr
  refine h.registryStep hkeeps (fun _ hd => hd.elim) (fun _ _ _ hd => hd)
    (.inl hactive) fun other => ?_
  rw [hcount, h.pins]

theorem Inv.otherPin (hstep : s.storeStep (.otherPin segment) = some s') : Inv s' := by
  simp only [State.storeStep] at hstep
  split at hstep
  · cases hstep
  next r hr =>
    cases hstep
    obtain ⟨hkeeps, hactive, hcount⟩ := Registry.pin_keeps hr
    refine h.registryStep hkeeps (fun _ hd => hd.elim) (fun _ _ _ hd => hd)
      (.inl hactive)
      (h.pins_update hcount ?_ fun other hs => by rw [update_of_ne hs])
    rw [update_self, h.pins]
    omega

theorem Inv.otherRelease (hstep : s.storeStep (.otherRelease segment) = some s') : Inv s' := by
  obtain ⟨hheld, hstep⟩ := ite_none_left_eq_some.mp hstep
  split at hstep
  · cases hstep
  next r hr =>
    cases hstep
    obtain ⟨hkeeps, hactive, hcount⟩ := Registry.release_keeps hr
    refine h.registryStep hkeeps (fun _ hd => hd.elim) (fun _ _ _ hd => hd)
      (.inl hactive)
      (h.pins_update hcount ?_ fun other hs => by rw [update_of_ne hs])
    rw [update_self, h.pins]
    omega

end

/-! ## §5 — Linearizability -/

/-- **The condition**: no retirement begins on the segment of an address between the lookup that found
it and the pin. -/
def RetireApart (s : State Value) (e : Event Value) : Prop :=
  ∀ segment id addr, e = .beginRetire segment → s.get = .located id addr → addr.segmentID ≠ segment

/-- What the steps of the others preserve. -/
theorem Inv.storeStep (h : Inv s) (hapart : RetireApart s e) (hstep : s.storeStep e = some s') : Inv s' := by
  cases e with
  | append addr payload => exact h.append hstep
  | flush addr =>
    cases hstep
    exact h.withContents (fun _ _ hp => hp) h.activeListed h.backed
  | discard id addr =>
    cases hstep
    refine h.withContents (fun _ _ hp => hp) h.activeListed ?_
    rintro id' addr' (hlookup | hmem)
    · exact h.backed id' addr' (.inl hlookup)
    · exact h.backed id' addr' (.inr (mem_of_mem_filter hmem))
  | publish changes => exact h.publish hstep
  | redirect old new => exact h.redirect hstep
  | checkpoint =>
    cases hstep
    exact h
  | catalogAdd segment => exact h.catalogAdd hstep
  | rotate segment => exact h.rotate hstep
  | copy old new => exact h.copy hstep
  | publishOutputs segments => exact h.publishOutputs hstep
  | catalogRemove segments => exact h.catalogRemove hstep
  | beginRetire segment => exact h.beginRetire (fun id addr => hapart segment id addr rfl) hstep
  | detachRetired segment => exact h.detachRetired hstep
  | otherPin segment => exact h.otherPin hstep
  | otherRelease segment => exact h.otherRelease hstep
  | _ => cases hstep

/-- What one step preserves. -/
theorem Inv.step (h : Inv s ∧ s.Current) (hapart : RetireApart s e) (hstep : s.step e = some s') :
    Inv s' ∧ s'.Current := by
  obtain ⟨t, ht, rfl⟩ := map_eq_some_iff.mp hstep
  rw [orElse_eq_orElse, orElse_eq_or, or_eq_some_iff] at ht
  rcases ht with hget | ⟨-, hstore⟩
  · exact (h.1.getStep h.2 hget).observe
  · exact (h.1.storeStep hapart hstore).observe

/-- **`Get` is linearizable and does not see the collector**, in every run in which no retirement begins
on a segment between a lookup and the pin: the fault stays unset, and every answer was right at some
instant of the call. -/
theorem get_linearizable (h : (system Value).Reach RetireApart s) :
    s.fault = none ∧ ∀ id result, s.get = .returned id result → s.Linearized id result := by
  have hinv : Inv s ∧ s.Current := by
    refine h.invariant (fun s => Inv s ∧ s.Current) (fun s hinit => ⟨Inv.of_opened hinit, ?_⟩)
      fun s e s' hi hok hs => Inv.step hi hok hs
    intro id hid
    rw [hinit.2.2.2.2.2.2.2] at hid
    cases hid
  refine ⟨hinv.1.noFault, fun id result hget => ?_⟩
  have hok := hinv.1.getOk
  simp only [State.GetOk, hget] at hok
  exact hok

/-- An opened store with nothing in it but its active segment 1. -/
def emptyStore : State Nat where
  mapping := ∅
  records := fun _ => none
  buffered := fun _ => false
  registry := ⟨fun segment => if segment = 1 then some ⟨.active, 0⟩ else none, 1, false⟩
  readers := fun _ => 0
  catalog := fun segment => segment = 1
  pending := []
  fault := none
  get := .idle
  seen := []

theorem emptyStore_opened : Opened emptyStore := by
  refine ⟨?_, rfl, rfl, rfl, ⟨⟨.active, 0⟩, rfl, by decide⟩, fun segment => ?_, rfl, rfl⟩
  · intro id addr h
    cases h
  simp only [emptyStore, Registry.pinCount]
  split <;> rfl

/-- Where the record of the example is written, and the compaction's copy of it. -/
def firstAddr : VAddr := ⟨1 * 2 ^ 32 + 64⟩

def copyAddr : VAddr := ⟨2 ^ 31 * 2 ^ 32 + 64⟩

/-- Record 7 is committed and its segment sealed. -/
def commitAndSeal : List (Event Nat) :=
  [.append firstAddr (.put 7 5), .publish [.put 7 firstAddr], .flush firstAddr, .catalogAdd 2, .rotate 2]

/-- A compaction of segment 1, up to the catalog that no longer has it. -/
def compactFirst : List (Event Nat) :=
  [.copy firstAddr copyAddr, .catalogAdd (2 ^ 31), .publishOutputs [2 ^ 31],
    .publish [.move 7 firstAddr copyAddr], .checkpoint, .catalogRemove [1]]

/-- The call that already holds its pin when the retirement begins reads the old copy, sees the move and
answers from the new one. -/
theorem get_linearizable_during_compaction :
    ∃ s, (system Nat).Reach RetireApart s ∧ s.get = .returned 7 (.ok (5, copyAddr)) ∧ s.fault = none ∧
      s.Linearized 7 (.ok (5, copyAddr)) := by
  have hquiet : ∀ {es : List (Event Nat)}, (∀ segment, .beginRetire segment ∉ es) →
      ∀ e ∈ es, ∀ t, RetireApart t e := by
    rintro es hnone e he t segment id addr rfl
    exact (hnone segment he).elim
  have hstart : (system Nat).Reach RetireApart emptyStore := .start emptyStore_opened
  have hpinned := hstart.exec (commitAndSeal ++ [.call 7, .lookup, .pin] ++ compactFirst)
    (hquiet (by simp [commitAndSeal, compactFirst])) rfl
  have hretiring := hpinned.next (e := Event.beginRetire 1) (by rintro _ _ _ - ⟨⟩) rfl
  have hdone := hretiring.exec [.read, .detachRetired 1, .recheck, .lookup, .pin, .read, .recheck]
    (hquiet (by simp)) rfl
  obtain ⟨hfault, hanswer⟩ := get_linearizable hdone
  exact ⟨_, hdone, rfl, hfault, hanswer _ _ rfl⟩

/-- A compaction that retires its input while the call is between the lookup and the pin turns a live
record into an error, and the store into a read-only one, whether the segment is still retiring or
already gone. -/
theorem retirement_between_lookup_and_pin :
    (∃ s, (system Nat).Reachable s ∧ s.mapping.lookup 7 = some copyAddr ∧
      s.get = .returned 7 (.error .segmentRetiring) ∧ s.fault = some .segmentRetiring ∧ none ∉ s.seen) ∧
    ∃ s, (system Nat).Reachable s ∧ s.mapping.lookup 7 = some copyAddr ∧
      s.get = .returned 7 (.error .segmentMissing) ∧ s.fault = some .segmentMissing ∧ none ∉ s.seen := by
  have hreach : ∀ {es s}, (system Nat).exec emptyStore es = some s → (system Nat).Reachable s := by
    intro es s hrun
    exact (Lib.Machine.Reach.start emptyStore_opened).exec es (fun _ _ _ => trivial) hrun
  have hretiring : ∃ s, (system Nat).exec emptyStore (commitAndSeal ++ [.call 7, .lookup] ++ compactFirst ++
      [.beginRetire 1, .pin]) = some s ∧ s.mapping.lookup 7 = some copyAddr ∧
      s.get = .returned 7 (.error .segmentRetiring) ∧ s.fault = some .segmentRetiring ∧ none ∉ s.seen :=
    ⟨_, rfl, rfl, rfl, rfl, by decide⟩
  have hmissing : ∃ s, (system Nat).exec emptyStore (commitAndSeal ++ [.call 7, .lookup] ++ compactFirst ++
      [.beginRetire 1, .detachRetired 1, .pin]) = some s ∧ s.mapping.lookup 7 = some copyAddr ∧
      s.get = .returned 7 (.error .segmentMissing) ∧ s.fault = some .segmentMissing ∧ none ∉ s.seen :=
    ⟨_, rfl, rfl, rfl, rfl, by decide⟩
  obtain ⟨s, hrun, hs⟩ := hretiring
  obtain ⟨t, hrun', ht⟩ := hmissing
  exact ⟨⟨s, hreach hrun, hs⟩, t, hreach hrun', ht⟩

end Ridstore.Engine.Get
