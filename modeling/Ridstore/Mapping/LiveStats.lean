import Mathlib.Data.List.AList
import Ridstore.Lib.Tally
import Ridstore.Mapping.Proposal

/-
# Ridstore.Mapping.LiveStats — what the mapping counts live in every segment

Next to the entries the mapping keeps the number and the bytes of the records that are visible in every data
segment.  A group is counted as a whole: its replaced and its new references are summed for every segment, the
two sums are set off against each other, all segments are checked, and only then the counters change.  A Go map
is an association list with distinct keys here; the order of its elements does not count.
-/

namespace Ridstore.Mapping

open RecordLog (RecordRef)
open List
open Lib (scan weigh tally FiniteMap)

/-! ## §1 — The counters -/

/-- `SegmentLiveStats`. -/
structure SegmentLiveStats where
  liveBytes : Nat
  liveRecords : Nat
  lastChangedCommitSeq : Nat
  deriving DecidableEq, Repr

/-- `segmentLiveDelta`. -/
structure SegmentLiveDelta where
  removeBytes : Nat
  addBytes : Nat
  removeRecords : Nat
  addRecords : Nat
  lastChanged : Nat
  deriving DecidableEq, Repr

abbrev LiveStats := AList fun _ : Nat => SegmentLiveStats

abbrev LiveDeltas := AList fun _ : Nat => SegmentLiveDelta

/-- The counters of a segment; those of a segment without an entry are zero. -/
def LiveStats.current (stats : LiveStats) (segment : Nat) : SegmentLiveStats :=
  (stats.lookup segment).getD ⟨0, 0, 0⟩

def LiveDeltas.delta (deltas : LiveDeltas) (segment : Nat) : SegmentLiveDelta :=
  (deltas.lookup segment).getD ⟨0, 0, 0, 0, 0⟩

/-- `addLiveRef`. -/
def addLiveRef (stats : LiveStats) (ref : RecordRef) (seq : Nat) : Except StoreError LiveStats :=
  let current := stats.current ref.addr.segmentID
  if ref.valid = false ∨ maxUint64 - ref.physicalSize < current.liveBytes ∨ current.liveRecords = maxUint64 then
    .error .corrupt
  else
    .ok (stats.insert ref.addr.segmentID
      ⟨current.liveBytes + ref.physicalSize, current.liveRecords + 1, seq⟩)

/-! ## §2 — The sums of a group -/

namespace LiveDeltas

variable (deltas : LiveDeltas) (seq : Nat) (ref : RecordRef)

/-- The reference that a change replaces. -/
def remove : Except StoreError LiveDeltas :=
  let delta := deltas.delta ref.addr.segmentID
  if ref.valid = false ∨ maxUint64 - ref.physicalSize < delta.removeBytes ∨ delta.removeRecords = maxUint64 then
    .error .corrupt
  else
    .ok (deltas.insert ref.addr.segmentID { delta with
      removeBytes := delta.removeBytes + ref.physicalSize
      removeRecords := delta.removeRecords + 1
      lastChanged := seq })

/-- The reference that a change brings. -/
def add : Except StoreError LiveDeltas :=
  let delta := deltas.delta ref.addr.segmentID
  if ref.valid = false ∨ maxUint64 - ref.physicalSize < delta.addBytes ∨ delta.addRecords = maxUint64 then
    .error .corrupt
  else
    .ok (deltas.insert ref.addr.segmentID { delta with
      addBytes := delta.addBytes + ref.physicalSize
      addRecords := delta.addRecords + 1
      lastChanged := seq })

/-- A reference that may be missing. -/
def each (step : LiveDeltas → Nat → RecordRef → Except StoreError LiveDeltas) (deltas : LiveDeltas) (seq : Nat) :
    Option RecordRef → Except StoreError LiveDeltas
  | none => .ok deltas
  | some ref => step deltas seq ref

/-- One change. -/
def collectChange (seq : Nat) (deltas : LiveDeltas) (r : ResolvedChange) : Except StoreError LiveDeltas :=
  if r.apply then
    match each remove deltas seq r.old with
    | .error err => .error err
    | .ok deltas => each add deltas seq r.change.result
  else .ok deltas

/-- The first loop of `applyPlanLiveStats`. -/
def collect : Nat → LiveDeltas → List ResolvedProposal → Except StoreError LiveDeltas
  | _, deltas, [] => .ok deltas
  | seq, deltas, p :: rest =>
    if p.accepted then
      match scan (collectChange seq) deltas p.changes with
      | .error err => .error err
      | .ok deltas => collect (seq + 1) deltas rest
    else collect seq deltas rest

end LiveDeltas

/-! ## §3 — The change of the counters -/

namespace SegmentLiveDelta

/-- The two sums are set off against each other. -/
def net (d : SegmentLiveDelta) : SegmentLiveDelta :=
  { d with
    removeBytes := d.removeBytes - d.addBytes
    addBytes := d.addBytes - d.removeBytes
    removeRecords := d.removeRecords - d.addRecords
    addRecords := d.addRecords - d.removeRecords }

/-- The check of the second loop. -/
def fits (current : SegmentLiveStats) (d : SegmentLiveDelta) : Prop :=
  d.removeBytes ≤ current.liveBytes ∧ d.removeRecords ≤ current.liveRecords ∧
    current.liveBytes - d.removeBytes ≤ maxUint64 - d.addBytes ∧
    current.liveRecords - d.removeRecords ≤ maxUint64 - d.addRecords

instance (current : SegmentLiveStats) (d : SegmentLiveDelta) : Decidable (d.fits current) :=
  inferInstanceAs (Decidable (_ ∧ _))

def applyTo (current : SegmentLiveStats) (d : SegmentLiveDelta) : SegmentLiveStats :=
  ⟨current.liveBytes - d.removeBytes + d.addBytes, current.liveRecords - d.removeRecords + d.addRecords, d.lastChanged⟩

end SegmentLiveDelta

/-- The third loop; an error leaves the counters that were changed before it. -/
def LiveStats.install : LiveStats → List (Nat × SegmentLiveDelta) → LiveStats × Except StoreError Unit
  | stats, [] => (stats, .ok ())
  | stats, (segment, delta) :: rest =>
    let next := delta.applyTo (stats.current segment)
    if next.liveRecords = 0 then
      if next.liveBytes = 0 then LiveStats.install (stats.erase segment) rest else (stats, .error .corrupt)
    else LiveStats.install (stats.insert segment next) rest

/-- The segments of a group with what changes in them. -/
def LiveDeltas.netted (deltas : LiveDeltas) : List (Nat × SegmentLiveDelta) :=
  deltas.entries.map fun e => (e.1, e.2.net)

/-- **`applyPlanLiveStats`.** -/
def applyPlanLiveStats (stats : LiveStats) (first : Nat) (plan : GroupPlan) : LiveStats × Except StoreError Unit :=
  match LiveDeltas.collect first ∅ plan.proposals with
  | .error err => (stats, .error err)
  | .ok deltas =>
    if ∀ d ∈ deltas.netted, d.2.fits (stats.current d.1) then stats.install deltas.netted
    else (stats, .error .corrupt)

/-! ## §4 — What is live -/

/-- The bytes of a reference in a segment. -/
def bytesIn (segment : Nat) (ref : RecordRef) : Nat := if ref.addr.segmentID = segment then ref.physicalSize else 0

/-- A reference counts in its segment. -/
def recordsIn (segment : Nat) (ref : RecordRef) : Nat := if ref.addr.segmentID = segment then 1 else 0

/-- The bytes of the records of a segment that the mapping refers to. -/
noncomputable def liveBytes (entries : Entries) (segment : Nat) : Nat := tally (bytesIn segment) entries

/-- The number of identifiers whose reference lies in a segment. -/
noncomputable def liveRecords (entries : Entries) (segment : Nat) : Nat := tally (recordsIn segment) entries

/-- **The counters are exact.** -/
structure Exact (live : LiveStats) (entries : Entries) : Prop where
  bytes : ∀ segment, (live.current segment).liveBytes = liveBytes entries segment
  records : ∀ segment, (live.current segment).liveRecords = liveRecords entries segment
  absent : ∀ segment, liveRecords entries segment = 0 → live.lookup segment = none

/-- Every reference of the mapping is valid. -/
def ValidEntries (entries : Entries) : Prop := ∀ id ref, entries id = some ref → ref.valid = true

variable {ref : RecordRef}

theorem recordHeaderSize_le (h : ref.valid = true) : RecordLog.recordHeaderSize ≤ ref.physicalSize := by
  simp only [RecordRef.valid, Bool.and_eq_true, decide_eq_true_eq] at h
  exact h.1.1.2

/-- The records of a segment have at least their headers. -/
theorem recordsIn_le (h : ref.valid = true) (segment : Nat) :
    RecordLog.recordHeaderSize * recordsIn segment ref ≤ bytesIn segment ref := by
  unfold recordsIn bytesIn
  split
  · rw [Nat.mul_one]
    exact recordHeaderSize_le h
  · exact Nat.le_refl _

variable {entries : Entries}

theorem liveRecords_le (hfinite : FiniteMap entries) (hvalid : ValidEntries entries) (segment : Nat) :
    RecordLog.recordHeaderSize * liveRecords entries segment ≤ liveBytes entries segment := by
  unfold liveRecords liveBytes
  rw [← Lib.tally_mul hfinite]
  exact Lib.tally_mono hfinite fun id ref href => recordsIn_le (hvalid id ref href) segment

theorem liveBytes_eq_zero {segment : Nat} (hfinite : FiniteMap entries)
    (h : liveRecords entries segment = 0) : liveBytes entries segment = 0 := by
  refine Lib.tally_eq_zero fun id ref href => ?_
  have hle : recordsIn segment ref ≤ liveRecords entries segment := Lib.le_tally hfinite href
  unfold recordsIn at hle
  split at hle
  · omega
  next hne => exact if_neg hne

/-! ## §5 — The changes of a group -/

/-- The changes were resolved one after the other, from one mapping to another. -/
def Follows : Entries → List ResolvedChange → Entries → Prop
  | entries, [], entries' => entries' = entries
  | entries, r :: rest, entries' => r.old = entries r.change.recordID ∧ Follows (r.applyTo entries) rest entries'

theorem Follows.append {l l' : List ResolvedChange} {e e' e'' : Entries} (h : Follows e l e') (h' : Follows e' l' e'') :
    Follows e (l ++ l') e'' := by
  induction l generalizing e with
  | nil => exact (show e' = e from h) ▸ h'
  | cons r rest ih => exact ⟨h.1, ih h.2⟩

theorem follows_resolveChanges (kind : ProposalKind) (entries : Entries) (changes : List Change) :
    Follows entries (resolveChanges kind entries changes).1 (resolveChanges kind entries changes).2 := by
  induction changes generalizing entries with
  | nil => rfl
  | cons c rest ih => exact ⟨rfl, ih _⟩

/-- All changes of a plan. -/
def GroupPlan.changes (plan : GroupPlan) : List ResolvedChange :=
  (plan.proposals.filter fun p => p.accepted).flatMap ResolvedProposal.changes

theorem resolveProposals_cons (entries : Entries) (p : Proposal) (rest : List Proposal) :
    resolveProposals entries (p :: rest) = ((p.resolve entries).1 :: (resolveProposals (p.resolve entries).2 rest).1,
      (resolveProposals (p.resolve entries).2 rest).2) := rfl

/-- **A plan follows the mapping that it was resolved against.** -/
theorem follows_resolveProposals (entries : Entries) (proposals : List Proposal) :
    Follows entries (((resolveProposals entries proposals).1.filter fun p => p.accepted).flatMap ResolvedProposal.changes)
      (resolveProposals entries proposals).2 := by
  induction proposals generalizing entries with
  | nil => rfl
  | cons p rest ih =>
    have hrest := ih (p.resolve entries).2
    rw [resolveProposals_cons]
    by_cases hholds : p.conditions.all (Condition.holds entries) = true
    · have hresolve : p.resolve entries = (⟨p.kind, true, 0, (resolveChanges p.kind entries p.changes).1⟩,
          (resolveChanges p.kind entries p.changes).2) := if_pos hholds
      rw [hresolve] at hrest ⊢
      rw [filter_cons_of_pos rfl, flatMap_cons]
      exact (follows_resolveChanges _ _ _).append hrest
    · have hresolve : p.resolve entries = (⟨p.kind, false, 0, []⟩, entries) := if_neg hholds
      rw [hresolve] at hrest ⊢
      rw [filter_cons_of_neg Bool.false_ne_true]
      exact hrest

/-- The weight of the references that the changes replace. -/
def removedOf (w : RecordRef → Nat) (l : List ResolvedChange) : Nat :=
  (l.map fun r => if r.apply then weigh w r.old else 0).sum

/-- The weight of the references that the changes bring. -/
def addedOf (w : RecordRef → Nat) (l : List ResolvedChange) : Nat :=
  (l.map fun r => if r.apply then weigh w r.change.result else 0).sum

theorem ResolvedChange.finite_applyTo (r : ResolvedChange) (h : FiniteMap entries) :
    FiniteMap (r.applyTo entries) := by
  unfold ResolvedChange.applyTo
  split
  · exact h.update _ _
  · exact h

/-- **The tallies before and after the changes of a group.** -/
theorem Follows.tally {l : List ResolvedChange} {e e' : Entries} (h : Follows e l e') (hfinite : FiniteMap e)
    (w : RecordRef → Nat) : FiniteMap e' ∧ tally w e' + removedOf w l = tally w e + addedOf w l := by
  induction l generalizing e with
  | nil =>
    obtain rfl : e' = e := h
    exact ⟨hfinite, rfl⟩
  | cons r rest ih =>
    obtain ⟨hold, hrest⟩ := h
    obtain ⟨hfinite', heq⟩ := ih hrest (r.finite_applyTo hfinite)
    refine ⟨hfinite', ?_⟩
    have hremoved : removedOf w (r :: rest) = (if r.apply then weigh w r.old else 0) + removedOf w rest := sum_cons
    have hadded : addedOf w (r :: rest) = (if r.apply then weigh w r.change.result else 0) + addedOf w rest :=
      sum_cons
    rw [hremoved, hadded]
    cases happly : r.apply with
    | false =>
      have hsame : r.applyTo e = e := if_neg (by rw [happly]; exact Bool.false_ne_true)
      rw [hsame] at heq
      simp only [Bool.false_eq_true, if_false, Nat.zero_add]
      exact heq
    | true =>
      have hupdate : r.applyTo e = Function.update e r.change.recordID r.change.result := if_pos happly
      have hone := Lib.tally_update hfinite w r.change.recordID r.change.result
      rw [← hold, ← hupdate] at hone
      simp only [if_true]
      omega

/-- The references that a change handles are valid. -/
structure ResolvedChange.RefsValid (r : ResolvedChange) : Prop where
  old : ∀ ref, r.old = some ref → ref.valid = true
  new : ∀ ref, r.change.result = some ref → ref.valid = true

/-! ## §6 — The sums are those of the changes -/

namespace LiveDeltas

variable {deltas deltas' : LiveDeltas} (seq : Nat)

theorem delta_insert (deltas : LiveDeltas) (segment : Nat) (d : SegmentLiveDelta) (s : Nat) :
    delta (deltas.insert segment d) s = if s = segment then d else deltas.delta s := by
  unfold delta
  split
  next heq =>
    rw [heq, AList.lookup_insert]
    rfl
  next hne => rw [AList.lookup_insert_ne hne]

/-- The sums of a segment, as far as they have come. -/
structure Grows (deltas deltas' : LiveDeltas) (removed added : (RecordRef → Nat) → Nat) : Prop where
  removeBytes : ∀ s, (deltas'.delta s).removeBytes = (deltas.delta s).removeBytes + removed (bytesIn s)
  addBytes : ∀ s, (deltas'.delta s).addBytes = (deltas.delta s).addBytes + added (bytesIn s)
  removeRecords : ∀ s, (deltas'.delta s).removeRecords = (deltas.delta s).removeRecords + removed (recordsIn s)
  addRecords : ∀ s, (deltas'.delta s).addRecords = (deltas.delta s).addRecords + added (recordsIn s)

variable {r a r' a' : (RecordRef → Nat) → Nat}

theorem Grows.trans {deltas'' : LiveDeltas} (h : Grows deltas deltas' r a)
    (h' : Grows deltas' deltas'' r' a') : Grows deltas deltas'' (fun w => r w + r' w) fun w => a w + a' w where
  removeBytes := fun s => by rw [h'.removeBytes, h.removeBytes, Nat.add_assoc]
  addBytes := fun s => by rw [h'.addBytes, h.addBytes, Nat.add_assoc]
  removeRecords := fun s => by rw [h'.removeRecords, h.removeRecords, Nat.add_assoc]
  addRecords := fun s => by rw [h'.addRecords, h.addRecords, Nat.add_assoc]

/-- There is room for more in every sum. -/
structure Room (deltas : LiveDeltas) (removed added : (RecordRef → Nat) → Nat) : Prop where
  removeBytes : ∀ s, (deltas.delta s).removeBytes + removed (bytesIn s) ≤ maxUint64
  addBytes : ∀ s, (deltas.delta s).addBytes + added (bytesIn s) ≤ maxUint64
  removeRecords : ∀ s, (deltas.delta s).removeRecords + removed (recordsIn s) ≤ maxUint64
  addRecords : ∀ s, (deltas.delta s).addRecords + added (recordsIn s) ≤ maxUint64

theorem Room.grow (h : Room deltas (fun w => r w + r' w) fun w => a w + a' w)
    (hgrows : Grows deltas deltas' r a) : Room deltas' r' a' where
  removeBytes := fun s => by rw [hgrows.removeBytes, Nat.add_assoc]; exact h.removeBytes s
  addBytes := fun s => by rw [hgrows.addBytes, Nat.add_assoc]; exact h.addBytes s
  removeRecords := fun s => by rw [hgrows.removeRecords, Nat.add_assoc]; exact h.removeRecords s
  addRecords := fun s => by rw [hgrows.addRecords, Nat.add_assoc]; exact h.addRecords s

theorem Room.mono (h : Room deltas r a) (hr : ∀ w, r' w ≤ r w) (ha : ∀ w, a' w ≤ a w) : Room deltas r' a' where
  removeBytes := fun s => Nat.le_trans (Nat.add_le_add_left (hr _) _) (h.removeBytes s)
  addBytes := fun s => Nat.le_trans (Nat.add_le_add_left (ha _) _) (h.addBytes s)
  removeRecords := fun s => Nat.le_trans (Nat.add_le_add_left (hr _) _) (h.removeRecords s)
  addRecords := fun s => Nat.le_trans (Nat.add_le_add_left (ha _) _) (h.addRecords s)

/-- One segment changes. -/
theorem grows_insert {segment : Nat} {d : SegmentLiveDelta} {r a : (RecordRef → Nat) → Nat}
    (hremoveBytes : d.removeBytes = (deltas.delta segment).removeBytes + r (bytesIn segment))
    (haddBytes : d.addBytes = (deltas.delta segment).addBytes + a (bytesIn segment))
    (hremoveRecords : d.removeRecords = (deltas.delta segment).removeRecords + r (recordsIn segment))
    (haddRecords : d.addRecords = (deltas.delta segment).addRecords + a (recordsIn segment))
    (hother : ∀ s, s ≠ segment → r (bytesIn s) = 0 ∧ a (bytesIn s) = 0 ∧ r (recordsIn s) = 0 ∧ a (recordsIn s) = 0) :
    Grows deltas (deltas.insert segment d) r a := by
  have hself : delta (deltas.insert segment d) segment = d := by rw [delta_insert, if_pos rfl]
  have hrest : ∀ s, s ≠ segment → delta (deltas.insert segment d) s = deltas.delta s := fun s hs => by
    rw [delta_insert, if_neg hs]
  refine ⟨fun s => ?_, fun s => ?_, fun s => ?_, fun s => ?_⟩ <;> by_cases hs : s = segment
  · rw [hs, hself, hremoveBytes]
  · rw [hrest s hs, (hother s hs).1, Nat.add_zero]
  · rw [hs, hself, haddBytes]
  · rw [hrest s hs, (hother s hs).2.1, Nat.add_zero]
  · rw [hs, hself, hremoveRecords]
  · rw [hrest s hs, (hother s hs).2.2.1, Nat.add_zero]
  · rw [hs, hself, haddRecords]
  · rw [hrest s hs, (hother s hs).2.2.2, Nat.add_zero]

theorem bytesIn_self (ref : RecordRef) : bytesIn ref.addr.segmentID ref = ref.physicalSize := if_pos rfl

theorem recordsIn_self (ref : RecordRef) : recordsIn ref.addr.segmentID ref = 1 := if_pos rfl

theorem weightless {s : Nat} (h : s ≠ ref.addr.segmentID) : bytesIn s ref = 0 ∧ recordsIn s ref = 0 :=
  ⟨if_neg h.symm, if_neg h.symm⟩

theorem remove_eq_ok (hvalid : ref.valid = true) (hroom : Room deltas (fun w => w ref) fun _ => 0) :
    ∃ deltas', deltas.remove seq ref = .ok deltas' ∧ Grows deltas deltas' (fun w => w ref) fun _ => 0 := by
  have hbytes := hroom.removeBytes ref.addr.segmentID
  have hrecords := hroom.removeRecords ref.addr.segmentID
  rw [bytesIn_self] at hbytes
  rw [recordsIn_self] at hrecords
  refine ⟨_, if_neg ?_, grows_insert ?_ rfl ?_ rfl fun s hs => ?_⟩
  · simp only [hvalid, Bool.true_eq_false, false_or, not_or, not_lt]
    omega
  · rw [bytesIn_self]
  · rw [recordsIn_self]
  · exact ⟨(weightless hs).1, rfl, (weightless hs).2, rfl⟩

theorem add_eq_ok (hvalid : ref.valid = true) (hroom : Room deltas (fun _ => 0) fun w => w ref) :
    ∃ deltas', deltas.add seq ref = .ok deltas' ∧ Grows deltas deltas' (fun _ => 0) fun w => w ref := by
  have hbytes := hroom.addBytes ref.addr.segmentID
  have hrecords := hroom.addRecords ref.addr.segmentID
  rw [bytesIn_self] at hbytes
  rw [recordsIn_self] at hrecords
  refine ⟨_, if_neg ?_, grows_insert rfl ?_ rfl ?_ fun s hs => ?_⟩
  · simp only [hvalid, Bool.true_eq_false, false_or, not_or, not_lt]
    omega
  · rw [bytesIn_self]
  · rw [recordsIn_self]
  · exact ⟨rfl, (weightless hs).1, rfl, (weightless hs).2⟩

theorem Grows.refl (deltas : LiveDeltas) : Grows deltas deltas (fun _ => 0) fun _ => 0 :=
  ⟨fun _ => rfl, fun _ => rfl, fun _ => rfl, fun _ => rfl⟩

theorem each_remove_eq_ok {old : Option RecordRef} (hvalid : ∀ ref, old = some ref → ref.valid = true)
    (hroom : Room deltas (fun w => weigh w old) fun _ => 0) :
    ∃ deltas', each remove deltas seq old = .ok deltas' ∧ Grows deltas deltas' (fun w => weigh w old) fun _ => 0 := by
  cases old with
  | none => exact ⟨deltas, rfl, .refl deltas⟩
  | some ref => exact remove_eq_ok seq (hvalid ref rfl) hroom

theorem each_add_eq_ok {new : Option RecordRef} (hvalid : ∀ ref, new = some ref → ref.valid = true)
    (hroom : Room deltas (fun _ => 0) fun w => weigh w new) :
    ∃ deltas', each add deltas seq new = .ok deltas' ∧ Grows deltas deltas' (fun _ => 0) fun w => weigh w new := by
  cases new with
  | none => exact ⟨deltas, rfl, .refl deltas⟩
  | some ref => exact add_eq_ok seq (hvalid ref rfl) hroom

/-- One change, and the sums of its references. -/
theorem collectChange_eq_ok {r : ResolvedChange} (hvalid : r.RefsValid)
    (hroom : Room deltas (fun w => removedOf w [r]) fun w => addedOf w [r]) :
    ∃ deltas', collectChange seq deltas r = .ok deltas' ∧
      Grows deltas deltas' (fun w => removedOf w [r]) fun w => addedOf w [r] := by
  unfold collectChange
  cases happly : r.apply with
  | false =>
    refine ⟨deltas, rfl, ?_⟩
    have hnothing : ∀ w, removedOf w [r] = 0 ∧ addedOf w [r] = 0 := fun w => by
      simp only [removedOf, addedOf, happly, map_cons, map_nil, sum_cons, sum_nil,
        Bool.false_eq_true, if_false, Nat.add_zero, and_self]
    simp only [hnothing]
    exact .refl deltas
  | true =>
    have hremoved : ∀ w, removedOf w [r] = weigh w r.old := fun w => by
      simp only [removedOf, happly, map_cons, map_nil, sum_cons, sum_nil, if_true, Nat.add_zero]
    have hadded : ∀ w, addedOf w [r] = weigh w r.change.result := fun w => by
      simp only [addedOf, happly, map_cons, map_nil, sum_cons, sum_nil, if_true, Nat.add_zero]
    simp only [hremoved, hadded] at hroom ⊢
    obtain ⟨middle, hremove, hgrows⟩ := each_remove_eq_ok seq hvalid.old
      (hroom.mono (fun _ => Nat.le_refl _) fun _ => Nat.zero_le _)
    have hroom' : Room middle (fun _ => 0) fun w => weigh w r.change.result := by
      refine Room.grow (r := fun w => weigh w r.old) (a := fun _ => 0) ?_ hgrows
      simpa only [Nat.add_zero, Nat.zero_add] using hroom
    obtain ⟨deltas', hadd, hgrows'⟩ := each_add_eq_ok seq hvalid.new hroom'
    refine ⟨deltas', ?_, ?_⟩
    · simp only [if_true, hremove, hadd]
    · simpa only [Nat.add_zero, Nat.zero_add] using hgrows.trans hgrows'

theorem removedOf_append (w : RecordRef → Nat) (l l' : List ResolvedChange) :
    removedOf w (l ++ l') = removedOf w l + removedOf w l' := by
  simp only [removedOf, map_append, sum_append]

theorem addedOf_append (w : RecordRef → Nat) (l l' : List ResolvedChange) :
    addedOf w (l ++ l') = addedOf w l + addedOf w l' := by
  simp only [addedOf, map_append, sum_append]

variable {l : List ResolvedChange}

/-- The changes of a proposal. -/
theorem scan_eq_ok (hvalid : ∀ r ∈ l, r.RefsValid)
    (hroom : Room deltas (fun w => removedOf w l) fun w => addedOf w l) :
    ∃ deltas', scan (collectChange seq) deltas l = .ok deltas' ∧
      Grows deltas deltas' (fun w => removedOf w l) fun w => addedOf w l := by
  induction l generalizing deltas with
  | nil => exact ⟨deltas, rfl, .refl deltas⟩
  | cons r rest ih =>
    obtain ⟨middle, hone, hgrows⟩ := collectChange_eq_ok seq (hvalid r mem_cons_self)
      (hroom.mono (fun _ => Nat.le_add_right _ _) fun _ => Nat.le_add_right _ _)
    obtain ⟨deltas', hrest, hgrows'⟩ := ih (fun x hx => hvalid x (mem_cons_of_mem _ hx)) (hroom.grow hgrows)
    exact ⟨deltas', Lib.scan_cons_eq_ok.mpr ⟨middle, hone, hrest⟩, hgrows.trans hgrows'⟩

/-- **The first loop collects the sums of all changes of a group.** -/
theorem collect_eq_ok {proposals : List ResolvedProposal}
    (hl : l = (proposals.filter fun p => p.accepted).flatMap ResolvedProposal.changes) (hvalid : ∀ r ∈ l, r.RefsValid)
    (hroom : Room deltas (fun w => removedOf w l) fun w => addedOf w l) :
    ∃ deltas', collect seq deltas proposals = .ok deltas' ∧
      Grows deltas deltas' (fun w => removedOf w l) fun w => addedOf w l := by
  induction proposals generalizing seq deltas l with
  | nil =>
    obtain rfl := hl
    exact ⟨deltas, rfl, .refl deltas⟩
  | cons p rest ih =>
    unfold collect
    cases haccepted : p.accepted with
    | false =>
      rw [filter_cons_of_neg (by rw [haccepted]; exact Bool.false_ne_true)] at hl
      simp only [Bool.false_eq_true, if_false]
      exact ih seq hl hvalid hroom
    | true =>
      rw [filter_cons_of_pos haccepted, flatMap_cons] at hl
      subst hl
      simp only [removedOf_append, addedOf_append] at hroom ⊢
      obtain ⟨middle, hscan, hgrows⟩ := scan_eq_ok seq
        (fun r hr => hvalid r (mem_append_left _ hr))
        (hroom.mono (fun _ => Nat.le_add_right _ _) fun _ => Nat.le_add_right _ _)
      obtain ⟨deltas', hrest, hgrows'⟩ := ih (seq + 1) rfl
        (fun r hr => hvalid r (mem_append_right _ hr)) (hroom.grow hgrows)
      refine ⟨deltas', ?_, hgrows.trans hgrows'⟩
      simp only [if_true, hscan]
      exact hrest

end LiveDeltas

/-! ## §7 — The counters stay exact -/

namespace LiveStats

theorem current_of_lookup {segment : Nat} {stats stats' : LiveStats}
    (h : stats'.lookup segment = stats.lookup segment) : stats'.current segment = stats.current segment := by
  rw [current, current, h]

/-- What the third loop leaves of a counter. -/
def kept (next : SegmentLiveStats) : Option SegmentLiveStats := if next.liveRecords = 0 then none else some next

/-- **The third loop** changes the counters of its segments. -/
theorem install_eq_ok {stats : LiveStats} {deltas : List (Nat × SegmentLiveDelta)}
    (hnodup : (deltas.map Prod.fst).Nodup)
    (hempty : ∀ d ∈ deltas, (d.2.applyTo (stats.current d.1)).liveRecords = 0 →
      (d.2.applyTo (stats.current d.1)).liveBytes = 0) :
    ∃ stats', stats.install deltas = (stats', .ok ()) ∧
      (∀ s, s ∉ deltas.map Prod.fst → stats'.lookup s = stats.lookup s) ∧
      ∀ d ∈ deltas, stats'.lookup d.1 = kept (d.2.applyTo (stats.current d.1)) := by
  induction deltas generalizing stats with
  | nil => exact ⟨stats, rfl, fun _ _ => rfl, nofun⟩
  | cons d rest ih =>
    obtain ⟨segment, delta⟩ := d
    obtain ⟨hfresh, hrest⟩ := nodup_cons.mp hnodup
    -- the state after the first segment
    obtain ⟨middle, hinstall, hself, hothers⟩ : ∃ middle : LiveStats,
        stats.install ((segment, delta) :: rest) = middle.install rest ∧
        middle.lookup segment = kept (delta.applyTo (stats.current segment)) ∧
        ∀ s, s ≠ segment → middle.lookup s = stats.lookup s := by
      have hzero := hempty (segment, delta) mem_cons_self
      rw [LiveStats.install, kept]
      by_cases hrecords : (delta.applyTo (stats.current segment)).liveRecords = 0
      · rw [if_pos hrecords, if_pos hrecords, if_pos (hzero hrecords)]
        exact ⟨stats.erase segment, rfl, AList.lookup_erase _ _, fun s hs => AList.lookup_erase_ne hs⟩
      · rw [if_neg hrecords, if_neg hrecords]
        exact ⟨stats.insert segment _, rfl, AList.lookup_insert _, fun s hs => AList.lookup_insert_ne hs⟩
    have hne : ∀ x ∈ rest, x.1 ≠ segment := fun x hx heq => hfresh (mem_map.mpr ⟨x, hx, heq⟩)
    have hcurrent : ∀ x ∈ rest, middle.current x.1 = stats.current x.1 := fun x hx =>
      current_of_lookup (hothers x.1 (hne x hx))
    have hempty' : ∀ x ∈ rest, (x.2.applyTo (middle.current x.1)).liveRecords = 0 →
        (x.2.applyTo (middle.current x.1)).liveBytes = 0 := by
      intro x hx
      rw [hcurrent x hx]
      exact hempty x (mem_cons_of_mem _ hx)
    obtain ⟨stats', hok, houtside, hinside⟩ := ih hrest hempty'
    refine ⟨stats', hinstall.trans hok, fun s hs => ?_, fun x hx => ?_⟩
    · obtain ⟨hsegment, hrest'⟩ := not_or.mp (fun h => hs (mem_cons.mpr h))
      rw [houtside s hrest', hothers s hsegment]
    · rcases mem_cons.mp hx with rfl | hin
      · rw [houtside segment hfresh, hself]
      · rw [hinside x hin, hcurrent x hin]

end LiveStats

/-- **The bytes fit**: those that the changes of a group replace and those that they bring, and those that are live
after it, in every segment. -/
structure Fits (changes : List ResolvedChange) (entries : Entries) : Prop where
  removed : ∀ segment, removedOf (bytesIn segment) changes ≤ maxUint64
  added : ∀ segment, addedOf (bytesIn segment) changes ≤ maxUint64
  live : ∀ segment, liveBytes entries segment ≤ maxUint64

section Sums

variable {changes : List ResolvedChange} (hvalid : ∀ r ∈ changes, r.RefsValid) (segment : Nat)

include hvalid

theorem removedOf_records : removedOf (recordsIn segment) changes ≤ removedOf (bytesIn segment) changes := by
  refine sum_le_sum fun r hr => ?_
  split
  · cases hold : r.old with
    | none => exact Nat.le_refl _
    | some ref =>
      have hle := recordsIn_le ((hvalid r hr).old ref hold) segment
      exact Nat.le_trans (Nat.le_mul_of_pos_left _ (by decide)) hle
  · exact Nat.le_refl _

theorem addedOf_records : addedOf (recordsIn segment) changes ≤ addedOf (bytesIn segment) changes := by
  refine sum_le_sum fun r hr => ?_
  split
  · cases hnew : r.change.result with
    | none => exact Nat.le_refl _
    | some ref =>
      have hle := recordsIn_le ((hvalid r hr).new ref hnew) segment
      exact Nat.le_trans (Nat.le_mul_of_pos_left _ (by decide)) hle
  · exact Nat.le_refl _

end Sums

theorem Fits.room {changes : List ResolvedChange} (h : Fits changes entries) (hvalid : ∀ r ∈ changes, r.RefsValid) :
    LiveDeltas.Room ∅ (fun w => removedOf w changes) fun w => addedOf w changes := by
  refine ⟨fun s => ?_, fun s => ?_, fun s => ?_, fun s => ?_⟩ <;>
    show 0 + _ ≤ _ <;> rw [Nat.zero_add]
  · exact h.removed s
  · exact h.added s
  · exact Nat.le_trans (removedOf_records hvalid s) (h.removed s)
  · exact Nat.le_trans (addedOf_records hvalid s) (h.added s)

theorem mem_netted {deltas : LiveDeltas} {d : Nat × SegmentLiveDelta} :
    d ∈ deltas.netted ↔ d.1 ∈ deltas ∧ d.2 = (deltas.delta d.1).net := by
  have hlookup : ∀ s x, deltas.lookup s = some x → deltas.delta s = x := fun s x h => by
    rw [LiveDeltas.delta, h]
    rfl
  constructor
  · intro hd
    obtain ⟨e, he, rfl⟩ := mem_map.mp hd
    have hsome : deltas.lookup e.1 = some e.2 := AList.mem_lookup_iff.mpr he
    exact ⟨AList.lookup_isSome.mp (by rw [hsome]; rfl), by rw [hlookup _ _ hsome]⟩
  · rintro ⟨hmem, hd⟩
    obtain ⟨x, hx⟩ := Option.isSome_iff_exists.mp (AList.lookup_isSome.mpr hmem)
    refine mem_map.mpr ⟨⟨d.1, x⟩, AList.mem_lookup_iff.mp hx, ?_⟩
    rw [hlookup _ _ hx] at hd
    exact Prod.ext rfl hd.symm

theorem netted_nodup (deltas : LiveDeltas) : (deltas.netted.map Prod.fst).Nodup := by
  rw [LiveDeltas.netted, map_map]
  exact deltas.nodupKeys

variable {bytes records : Nat} {current : SegmentLiveStats} {d : SegmentLiveDelta}

/-- What the sums of a group make of a counter. -/
theorem applyTo_net (hbytes : bytes + d.removeBytes = current.liveBytes + d.addBytes)
    (hrecords : records + d.removeRecords = current.liveRecords + d.addRecords) :
    d.net.applyTo current = ⟨bytes, records, d.lastChanged⟩ := by
  simp only [SegmentLiveDelta.applyTo, SegmentLiveDelta.net, SegmentLiveStats.mk.injEq, and_true]
  omega

theorem fits_net (hbytes : bytes + d.removeBytes = current.liveBytes + d.addBytes)
    (hrecords : records + d.removeRecords = current.liveRecords + d.addRecords)
    (hmax : bytes ≤ maxUint64 ∧ records ≤ maxUint64) : d.net.fits current := by
  simp only [SegmentLiveDelta.fits, SegmentLiveDelta.net]
  omega

/-- **A group keeps the counters exact.** -/
theorem applyPlanLiveStats_exact {live : LiveStats} {entries entries' : Entries} {plan : GroupPlan} (first : Nat)
    (hfinite : FiniteMap entries) (hexact : Exact live entries) (hfollows : Follows entries plan.changes entries')
    (hrefs : ∀ r ∈ plan.changes, r.RefsValid) (hvalid : ValidEntries entries') (hfits : Fits plan.changes entries') :
    ∃ live', applyPlanLiveStats live first plan = (live', .ok ()) ∧ Exact live' entries' := by
  obtain ⟨deltas, hcollect, hgrows⟩ := LiveDeltas.collect_eq_ok first rfl hrefs (hfits.room hrefs)
  have hfinite' : FiniteMap entries' := (hfollows.tally hfinite (bytesIn 0)).1
  -- the sums relate the counters to what is live afterwards
  have hbytes : ∀ s, liveBytes entries' s + (deltas.delta s).removeBytes =
      (live.current s).liveBytes + (deltas.delta s).addBytes := by
    intro s
    have htally := (hfollows.tally hfinite (bytesIn s)).2
    rw [hgrows.removeBytes, hgrows.addBytes, hexact.bytes]
    show _ + (0 + _) = _ + (0 + _)
    rw [Nat.zero_add, Nat.zero_add]
    exact htally
  have hrecords : ∀ s, liveRecords entries' s + (deltas.delta s).removeRecords =
      (live.current s).liveRecords + (deltas.delta s).addRecords := by
    intro s
    have htally := (hfollows.tally hfinite (recordsIn s)).2
    rw [hgrows.removeRecords, hgrows.addRecords, hexact.records]
    show _ + (0 + _) = _ + (0 + _)
    rw [Nat.zero_add, Nat.zero_add]
    exact htally
  have hmax : ∀ s, liveBytes entries' s ≤ maxUint64 ∧ liveRecords entries' s ≤ maxUint64 := by
    intro s
    have hle := liveRecords_le hfinite' hvalid s
    refine ⟨hfits.live s, Nat.le_trans (Nat.le_mul_of_pos_left _ (by decide)) (Nat.le_trans hle (hfits.live s))⟩
  have hcheck : ∀ d ∈ deltas.netted, d.2.fits (live.current d.1) := by
    intro d hd
    rw [(mem_netted.mp hd).2]
    exact fits_net (hbytes d.1) (hrecords d.1) (hmax d.1)
  have happlied : ∀ d ∈ deltas.netted, d.2.applyTo (live.current d.1) =
      ⟨liveBytes entries' d.1, liveRecords entries' d.1, (deltas.delta d.1).lastChanged⟩ := by
    intro d hd
    rw [(mem_netted.mp hd).2]
    exact applyTo_net (hbytes d.1) (hrecords d.1)
  have hempty : ∀ d ∈ deltas.netted, (d.2.applyTo (live.current d.1)).liveRecords = 0 →
      (d.2.applyTo (live.current d.1)).liveBytes = 0 := by
    intro d hd
    rw [happlied d hd]
    exact liveBytes_eq_zero hfinite'
  obtain ⟨live', hinstall, houtside, hinside⟩ := LiveStats.install_eq_ok (netted_nodup deltas) hempty
  refine ⟨live', ?_, ?_⟩
  · rw [applyPlanLiveStats, hcollect]
    dsimp only
    rw [if_pos hcheck]
    exact hinstall
  -- a segment of the group has its new counter, the others keep what they have
  · have hlookup : ∀ s, live'.lookup s = none ∧ liveRecords entries' s = 0 ∨
        ∃ seq, live'.lookup s = some ⟨liveBytes entries' s, liveRecords entries' s, seq⟩ ∧ liveRecords entries' s ≠ 0 := by
      intro s
      by_cases hs : s ∈ deltas
      · have hd : (s, (deltas.delta s).net) ∈ deltas.netted := mem_netted.mpr ⟨hs, rfl⟩
        have hin := hinside _ hd
        rw [happlied _ hd] at hin
        by_cases hzero : liveRecords entries' s = 0
        · exact .inl ⟨hin.trans (if_pos hzero), hzero⟩
        · exact .inr ⟨_, hin.trans (if_neg hzero), hzero⟩
      · have hnone : deltas.delta s = ⟨0, 0, 0, 0, 0⟩ := by
          rw [LiveDeltas.delta, AList.lookup_eq_none.mpr hs]
          rfl
        have hb := hbytes s
        have hr := hrecords s
        rw [hnone] at hb hr
        have hsame : live'.lookup s = live.lookup s := by
          refine houtside s fun hin => hs ?_
          obtain ⟨d, hd, rfl⟩ := mem_map.mp hin
          exact (mem_netted.mp hd).1
        cases hl : live.lookup s with
        | none =>
          refine .inl ⟨hsame.trans hl, ?_⟩
          rw [LiveStats.current, hl] at hr
          exact hr
        | some stat =>
          rw [LiveStats.current, hl] at hb hr
          have hb' : liveBytes entries' s = stat.liveBytes := hb
          have hr' : liveRecords entries' s = stat.liveRecords := hr
          refine .inr ⟨stat.lastChangedCommitSeq, hsame.trans (hl.trans ?_), fun hzero => ?_⟩
          · rw [hb', hr']
          · have hbefore : liveRecords entries s = 0 := by
              rw [← hexact.records s, LiveStats.current, hl]
              exact hr'.symm.trans hzero
            rw [hexact.absent s hbefore] at hl
            cases hl
    refine ⟨fun s => ?_, fun s => ?_, fun s hzero => ?_⟩
    · rcases hlookup s with ⟨hnone, hzero⟩ | ⟨seq, hsome, -⟩
      · rw [LiveStats.current, hnone, liveBytes_eq_zero hfinite' hzero]
        rfl
      · rw [LiveStats.current, hsome]
        rfl
    · rcases hlookup s with ⟨hnone, hzero⟩ | ⟨seq, hsome, -⟩
      · rw [LiveStats.current, hnone, hzero]
        rfl
      · rw [LiveStats.current, hsome]
        rfl
    · rcases hlookup s with ⟨hnone, -⟩ | ⟨seq, -, hne⟩
      · exact hnone
      · exact absurd hzero hne

end Ridstore.Mapping
