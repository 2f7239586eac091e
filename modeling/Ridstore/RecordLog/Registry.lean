import Ridstore.RecordLog.Address

/-
# Ridstore.RecordLog.Registry — the segment registry and its reader pins

The registry holds the open segments of the log.  A reader pins the segment of an address before it
reads; a retirement first turns the segment to `retiring`, which refuses new pins, and detaches it when
the last pin is gone.  Each operation runs under the registry's mutex and is one function here.
-/

namespace Ridstore.RecordLog

open List Function

/-- `segmentState`. -/
inductive SegmentState
  | active
  | sealed
  | retiring
  deriving DecidableEq, Repr

/-- `registryEntry`, without the file handles. -/
structure RegistryEntry where
  state : SegmentState
  pins : Nat
  deriving DecidableEq, Repr

/-- `segmentRegistry`. -/
structure Registry where
  entries : Nat → Option RegistryEntry
  active : Nat
  closed : Bool

namespace Registry

/-- Replace or delete the entry of one segment. -/
def set (r : Registry) (id : Nat) (entry : Option RegistryEntry) : Registry :=
  { r with entries := update r.entries id entry }

/-- A reader takes a pin on a segment. -/
def pin (r : Registry) (id : Nat) : Except StoreError Registry :=
  if id = 0 then .error .invalidVAddr
  else if r.closed then .error .closed
  else
    match r.entries id with
    | none => .error .segmentMissing
    | some entry =>
      if entry.state = .retiring then .error .segmentRetiring
      else .ok (r.set id (some { entry with pins := entry.pins + 1 }))

/-- `segmentPin.release`. -/
def release (r : Registry) (id : Nat) : Except StoreError Registry :=
  match r.entries id with
  | none => .error .corrupt
  | some entry =>
    if entry.pins = 0 then .error .corrupt
    else .ok (r.set id (some { entry with pins := entry.pins - 1 }))

/-- The active segment becomes sealed and a new one takes its place. -/
def publishRotation (r : Registry) (oldID newID : Nat) : Except StoreError Registry :=
  if r.closed then .error .closed
  else
    match r.entries oldID with
    | none => .error .invalidConfig
    | some entry =>
      if r.active ≠ oldID ∨ entry.state ≠ .active ∨ (r.entries newID).isSome then .error .invalidConfig
      else .ok { (r.set oldID (some { entry with state := .sealed })).set newID (some ⟨.active, 0⟩) with
                 active := newID }

/-- The checked outputs of a compaction become readable. -/
def publishSealed (r : Registry) (segments : List Nat) : Except StoreError Registry :=
  if r.closed ∨ segments = [] then .error .invalidConfig
  else if ∃ id ∈ segments, isCompactionSegment id = false ∨ (r.entries id).isSome then
    .error .invalidConfig
  else .ok (segments.foldl (fun r id => r.set id (some ⟨.sealed, 0⟩)) r)

/-- A sealed segment stops taking new pins. -/
def beginRetire (r : Registry) (id : Nat) : Except StoreError Registry :=
  if r.closed then .error .closed
  else
    match r.entries id with
    | none => .error .segmentMissing
    | some entry =>
      match entry.state with
      | .retiring => .ok r
      | .sealed => .ok (r.set id (some { entry with state := .retiring }))
      | .active => .error .invalidConfig

/-- A retiring segment without pins leaves the registry. -/
def detachRetired (r : Registry) (id : Nat) : Except StoreError Registry :=
  match r.entries id with
  | none => .error .segmentMissing
  | some entry =>
    if entry.state ≠ .retiring then .error .invalidConfig
    else if entry.pins ≠ 0 then .error .readersActive
    else .ok (r.set id none)

/-! ## What the operations keep -/

variable {r r' : Registry} {id other newID : Nat} {segments : List Nat}

/-- The segment takes new pins. -/
def Readable (r : Registry) (id : Nat) : Prop := ∃ entry, r.entries id = some entry ∧ entry.state ≠ .retiring

/-- The number of pins on a segment; none on one that is not registered. -/
def pinCount (r : Registry) (id : Nat) : Nat := ((r.entries id).map RegistryEntry.pins).getD 0

theorem pinCount_set (entry : Option RegistryEntry) :
    (r.set id entry).pinCount = update r.pinCount id ((entry.map RegistryEntry.pins).getD 0) := by
  funext segment
  by_cases h : segment = id
  · subst h; simp [pinCount, set]
  · simp [pinCount, set, h]

variable {entry : RegistryEntry}

theorem Readable.set_self (h : entry.state ≠ .retiring) : (r.set id (some entry)).Readable id :=
  ⟨entry, by simp [set], h⟩

theorem Readable.set_other {entry : Option RegistryEntry} (h : r.Readable other) (hne : other ≠ id) :
    (r.set id entry).Readable other := by
  obtain ⟨e, he, hstate⟩ := h
  exact ⟨e, by simp [set, hne, he], hstate⟩

/-- An update that keeps the segment readable, if it was, keeps every segment readable. -/
theorem Readable.set (h : r.Readable other)
    (hentry : r.Readable id → entry.state ≠ .retiring) : (r.set id (some entry)).Readable other := by
  by_cases hne : other = id
  · subst hne
    exact Readable.set_self (hentry h)
  · exact h.set_other hne

/-- **A pin on a readable segment succeeds.** -/
theorem Readable.pin (h : r.Readable id) (hid : id ≠ 0) (hopen : r.closed = false) : ∃ r', r.pin id = .ok r' := by
  obtain ⟨entry, hentry, hstate⟩ := h
  exact ⟨r.set id (some { entry with pins := entry.pins + 1 }), by simp [Registry.pin, hid, hopen, hentry, hstate]⟩

/-- The frame of an operation: the registry stays open, and the readable segments outside `dropped` stay
readable. -/
structure Keeps (dropped : Nat → Prop) (r r' : Registry) : Prop where
  closed : r'.closed = r.closed
  readable : ∀ other, ¬ dropped other → r.Readable other → r'.Readable other

/-- What a pin does: the guards it passed and the entry it leaves. -/
theorem pin_eq_ok (h : r.pin id = .ok r') :
    ∃ entry, r.entries id = some entry ∧ entry.state ≠ .retiring ∧
      r' = r.set id (some { entry with pins := entry.pins + 1 }) := by
  obtain ⟨-, h⟩ := Lib.guard_eq_ok h
  obtain ⟨-, h⟩ := Lib.guard_eq_ok h
  split at h
  · cases h
  next entry hentry =>
    obtain ⟨hstate, h⟩ := Lib.guard_eq_ok h
    cases h
    exact ⟨entry, hentry, hstate, rfl⟩

theorem release_eq_ok (h : r.release id = .ok r') :
    ∃ entry, r.entries id = some entry ∧ r' = r.set id (some { entry with pins := entry.pins - 1 }) := by
  simp only [release] at h
  split at h
  · cases h
  next entry hentry =>
    obtain ⟨-, h⟩ := Lib.guard_eq_ok h
    cases h
    exact ⟨entry, hentry, rfl⟩

theorem publishRotation_eq_ok (h : r.publishRotation id newID = .ok r') :
    ∃ entry, r.entries id = some entry ∧ r.active = id ∧ entry.state = .active ∧ r.entries newID = none ∧
      r' = { (r.set id (some { entry with state := .sealed })).set newID (some ⟨.active, 0⟩) with
             active := newID } := by
  obtain ⟨-, h⟩ := Lib.guard_eq_ok h
  split at h
  · cases h
  next entry hentry =>
    obtain ⟨hguard, h⟩ := Lib.guard_eq_ok h
    simp only [not_or, ne_eq, not_not, Bool.not_eq_true, Option.isSome_eq_false_iff,
      Option.isNone_iff_eq_none] at hguard
    obtain ⟨hactive, hstate, hnew⟩ := hguard
    cases h
    exact ⟨entry, hentry, hactive, hstate, hnew, rfl⟩

theorem pin_keeps (h : r.pin id = .ok r') :
    Keeps (fun _ => False) r r' ∧ r'.active = r.active ∧
      r'.pinCount = update r.pinCount id (r.pinCount id + 1) := by
  obtain ⟨entry, hentry, hstate, rfl⟩ := pin_eq_ok h
  refine ⟨⟨rfl, fun other _ hother => hother.set fun _ => hstate⟩, rfl, ?_⟩
  rw [pinCount_set]
  simp [pinCount, hentry]

theorem release_keeps (h : r.release id = .ok r') :
    Keeps (fun _ => False) r r' ∧ r'.active = r.active ∧
      r'.pinCount = update r.pinCount id (r.pinCount id - 1) := by
  obtain ⟨entry, hentry, rfl⟩ := release_eq_ok h
  refine ⟨⟨rfl, fun other _ hother => hother.set ?_⟩, rfl, ?_⟩
  · rintro ⟨entry', hentry', hstate⟩
    rw [hentry] at hentry'
    cases hentry'
    exact hstate
  · rw [pinCount_set]
    simp [pinCount, hentry]

/-- **A held pin can be released.** -/
theorem release_of_pinned (h : 0 < r.pinCount id) : ∃ r', r.release id = .ok r' := by
  cases hentry : r.entries id with
  | none => simp [pinCount, hentry] at h
  | some entry =>
    have hpins : entry.pins ≠ 0 := by
      simpa [pinCount, hentry, Nat.pos_iff_ne_zero] using h
    exact ⟨r.set id (some { entry with pins := entry.pins - 1 }), by simp [release, hentry, hpins]⟩

theorem publishRotation_keeps (h : r.publishRotation id newID = .ok r') :
    Keeps (fun _ => False) r r' ∧ r'.active = newID ∧ r'.Readable newID ∧ r'.pinCount = r.pinCount := by
  obtain ⟨entry, hentry, -, -, hnew, rfl⟩ := publishRotation_eq_ok h
  refine ⟨⟨rfl, fun other _ hother => ?_⟩, rfl, Readable.set_self (by decide), ?_⟩
  · exact Readable.set (Readable.set hother fun _ => by simp) fun _ => by simp
  · show ((r.set id _).set newID _).pinCount = r.pinCount
    rw [pinCount_set, pinCount_set]
    funext segment
    by_cases hs : segment = newID
    · subst hs
      simp [pinCount, hnew]
    · by_cases hi : segment = id
      · subst hi
        simp [hs, pinCount, hentry]
      · simp [hs, hi]

/-- The loop of `publishSealed`. -/
theorem publishSealed_loop (hpins : ∀ id ∈ segments, r.pinCount id = 0) :
    let r' := segments.foldl (fun r id => r.set id (some ⟨.sealed, 0⟩)) r
    Keeps (fun _ => False) r r' ∧ r'.active = r.active ∧ r'.pinCount = r.pinCount ∧
      ∀ id ∈ segments, r'.Readable id := by
  induction segments generalizing r with
  | nil => exact ⟨⟨rfl, fun _ _ h => h⟩, rfl, rfl, by simp⟩
  | cons id rest ih =>
    have hcount : (r.set id (some ⟨.sealed, 0⟩)).pinCount = r.pinCount := by
      rw [pinCount_set]
      exact update_eq_self_iff.mpr (by simp [hpins id (by simp)])
    obtain ⟨hkeeps, hactive, hpin, hread⟩ := ih (r := r.set id (some ⟨.sealed, 0⟩)) (by
      intro other hother
      rw [hcount]
      exact hpins other (mem_cons_of_mem _ hother))
    refine ⟨⟨hkeeps.closed, fun other hd hother => hkeeps.readable other hd (hother.set fun _ => by simp)⟩,
      hactive, hpin.trans hcount, fun other hother => ?_⟩
    rcases mem_cons.mp hother with rfl | hrest
    · exact hkeeps.readable other id (Readable.set_self (by decide))
    · exact hread other hrest

theorem publishSealed_keeps (h : r.publishSealed segments = .ok r') :
    Keeps (fun _ => False) r r' ∧ r'.active = r.active ∧ r'.pinCount = r.pinCount ∧
      ∀ id ∈ segments, r'.Readable id := by
  obtain ⟨-, h⟩ := Lib.guard_eq_ok h
  obtain ⟨hfresh, h⟩ := Lib.guard_eq_ok h
  cases h
  refine publishSealed_loop fun id hid => ?_
  have hnone : r.entries id = none := by
    simp only [not_exists, not_and, not_or, Bool.not_eq_true, Option.isSome_eq_false_iff,
      Option.isNone_iff_eq_none] at hfresh
    exact (hfresh id hid).2
  simp [pinCount, hnone]

/-- Only the segment itself stops being readable. -/
theorem beginRetire_keeps (h : r.beginRetire id = .ok r') :
    Keeps (fun other => other = id) r r' ∧ r'.active = r.active ∧ r'.pinCount = r.pinCount := by
  obtain ⟨-, h⟩ := Lib.guard_eq_ok h
  split at h
  · cases h
  next entry hentry =>
    split at h
    · cases h
      exact ⟨⟨rfl, fun _ _ hother => hother⟩, rfl, rfl⟩
    · cases h
      refine ⟨⟨rfl, fun other hne hother => hother.set_other hne⟩, rfl, ?_⟩
      rw [pinCount_set]
      exact update_eq_self_iff.mpr (by simp [pinCount, hentry])
    · cases h

/-- The detached segment was not readable any more. -/
theorem detachRetired_keeps (h : r.detachRetired id = .ok r') :
    Keeps (fun _ => False) r r' ∧ r'.active = r.active ∧ r'.pinCount = r.pinCount := by
  simp only [detachRetired] at h
  split at h
  · cases h
  next entry hentry =>
    obtain ⟨hstate, h⟩ := Lib.guard_eq_ok h
    obtain ⟨hpins, h⟩ := Lib.guard_eq_ok h
    cases h
    refine ⟨⟨rfl, fun other _ hother => hother.set_other ?_⟩, rfl, ?_⟩
    · rintro rfl
      obtain ⟨entry', hentry', hstate'⟩ := hother
      rw [hentry] at hentry'
      cases hentry'
      exact hstate hstate'
    · rw [pinCount_set]
      exact update_eq_self_iff.mpr (by simp_all [pinCount])

end Registry

end Ridstore.RecordLog
