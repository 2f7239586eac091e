import Ridstore.StoreCatalog.Catalog

/-
# Ridstore.StoreCatalog.CatalogSafety — no number twice, no segment missing, nothing backwards

Every accepted change is one of six: a data rotation, a reservation, new outputs, a new set of mapping files, a
checkpoint, or the removal of data segments.  From what each of them can do follow the invariants of the whole
history: the numbers are given once, the segments from the replay position on are all there, and the cut only goes
forward.
-/

namespace Ridstore.StoreCatalog

open Option

open Lib (eq_ok_of_toOption)
open List
open RecordLog (LogPos LogID SegmentSummary isCompactionSegment compactionSegmentBase)

/-! ## §1 — What a change can do -/

/-- The segments with these numbers leave the manifest with their statistics. -/
def Manifest.without (m : Manifest) (ids : List Nat) : Manifest :=
  { m with
    generation := m.generation + 1
    sealedDataSegments := m.sealedDataSegments.filter fun s => s.segmentID ∉ ids
    segmentStats := m.segmentStats.filter fun stat => stat.segmentID ∉ ids }

/-- The segment may leave the manifest: it lies behind the replay position or is an output, and no record of it is
counted live. -/
structure Removable (m : Manifest) (segment : SegmentSummary) : Prop where
  behind : isCompactionSegment segment.segmentID = true ∨
    LogPos.lt ⟨segment.segmentID, segment.validEnd⟩ m.replayStart = true
  zero : ∀ stat ∈ m.segmentStats, stat.segmentID = segment.segmentID → stat.liveBytes = 0 ∧ stat.liveRecords = 0

/-- The checkpoint that an event installs. -/
def CatalogEvent.update : CatalogEvent → Option Checkpoint
  | .checkpoint _ update => some update
  | _ => none

/-- **The changes that the manager accepts**, with the checkpoint that is installed. -/
inductive Changed (s : History) : Option Checkpoint → History → Prop
  | rotateData {sealedOld : SegmentSummary} {next : Manifest} :
      sealedOld.segmentID = s.manifest.activeDataSegmentID → next.Valid →
      next = { s.manifest with
        generation := s.manifest.generation + 1
        sealedDataSegments := sortDataSegments (s.manifest.sealedDataSegments ++ [sealedOld])
        activeDataSegmentID := s.manifest.nextDataSegmentID
        nextDataSegmentID := s.manifest.nextDataSegmentID + 1 } →
      Changed s none { s with
        manifest := next
        dataIDs := s.dataIDs ++ [s.manifest.nextDataSegmentID] }
  | reserve {top count : Nat} {next : Manifest} :
      (s.manifest.compactionSegmentFloor = 0 ∧ top = maxUint32 ∨
        s.manifest.compactionSegmentFloor ≠ 0 ∧ top = s.manifest.compactionSegmentFloor) →
      compactionSegmentBase ≤ top → count ≤ top - compactionSegmentBase + 1 → next.Valid →
      next = { s.manifest with
        generation := s.manifest.generation + 1, compactionSegmentFloor := top - count } →
      Changed s none { s with
        manifest := next, reserved := s.reserved ++ List.range' (top - count + 1) count }
  | installOutputs {outputs : List SegmentSummary} {next : Manifest} :
      s.MayInstall outputs → (∀ output ∈ outputs, isCompactionSegment output.segmentID = true) →
      (outputs.map SegmentSummary.segmentID).Nodup → next.Valid →
      next = { s.manifest with
        generation := s.manifest.generation + 1
        sealedDataSegments := sortDataSegments (s.manifest.sealedDataSegments ++ outputs) } →
      Changed s none { s with
        manifest := next
        installed := s.installed ++ outputs.map SegmentSummary.segmentID
        dataIDs := s.dataIDs ++ outputs.map SegmentSummary.segmentID }
  | mapFiles {segments : List MapSegmentSummary} {root : MapStore.MapAddr} {count : Nat} {next : Manifest} :
      0 < count → (∀ segment ∈ segments, segment ∈ s.manifest.sealedMapSegments ∨
        segment.segmentID = s.manifest.activeMapSegmentID ∨
        s.manifest.nextMapSegmentID ≤ segment.segmentID ∧
          segment.segmentID < s.manifest.nextMapSegmentID + count) → next.Valid →
      next = { s.manifest with
        generation := s.manifest.generation + 1, sealedMapSegments := segments
        activeMapSegmentID := s.manifest.nextMapSegmentID + count - 1
        nextMapSegmentID := s.manifest.nextMapSegmentID + count, mappingRoot := root } →
      Changed s none { s with
        manifest := next
        mapIDs := s.mapIDs ++ List.range' s.manifest.nextMapSegmentID count }
  | checkpoint {update : Checkpoint} {next : Manifest} :
      s.manifest.coveredCommitSeq ≤ update.coveredCommitSeq →
      update.replayStart.lt s.manifest.replayStart = false →
      s.manifest.reservedIDHigh ≤ update.reservedIDHigh →
      s.manifest.reservedBatchIDHigh ≤ update.reservedBatchIDHigh →
      s.manifest.issuedBatchIDHighAtCut ≤ update.issuedBatchIDHighAtCut → next.Valid →
      next = Manifest.withCheckpoint { s.manifest with generation := s.manifest.generation + 1 } update →
      Changed s (some update) { s with manifest := next }
  | remove {ids : List Nat} :
      (∀ segment ∈ s.manifest.sealedDataSegments, segment.segmentID ∈ ids →
        Removable s.manifest segment) →
      (s.manifest.without ids).Valid →
      Changed s none { s with manifest := s.manifest.without ids }

section Steps

variable {s s' : History} {e : CatalogEvent} {m next : Manifest} {outputs : List SegmentSummary}
  {update : Checkpoint} {u : Option Checkpoint}

/-- A change that gives no numbers. -/
theorem History.take_eq_some {result : Except StoreError Manifest} (h : s.take result = some s') :
    ∃ next, result = .ok next ∧ s' = { s with manifest := next } := by
  obtain ⟨next, hresult, rfl⟩ := map_eq_some_iff.mp h
  exact ⟨next, eq_ok_of_toOption hresult, rfl⟩

/-- A sealed segment that `applyDataRetire` takes out. -/
theorem applyDataRetire_eq_ok {update : DataRetire} (hvalid : m.Valid)
    (h : Manifest.applyDataRetire { m with generation := m.generation + 1 } update = .ok next) :
    next = m.without [update.source.segmentID] ∧
      ∀ segment ∈ m.sealedDataSegments, segment.segmentID ∈ [update.source.segmentID] → Removable m segment := by
  obtain ⟨-, h⟩ := Lib.guard_eq_ok h
  obtain ⟨hmem, h⟩ := Lib.guard_eq_ok h
  obtain ⟨hknown, h⟩ := Lib.guard_eq_ok h
  obtain ⟨hzero, h⟩ := Lib.guard_eq_ok h
  obtain ⟨hreplay, h⟩ := Lib.guard_eq_ok h
  obtain rfl := Except.ok.inj h
  simp only [not_not, Bool.not_eq_false] at hmem hknown hreplay
  have hnodup : m.sealedDataSegments.Nodup :=
    List.Nodup.of_map _ (hvalid.data.increasing.imp Nat.ne_of_lt)
  refine ⟨?_, fun segment hsegment hid => ?_⟩
  · -- numbers are unique, so the segment with the number is the one that is erased
    have herase : m.sealedDataSegments.erase update.source =
        m.sealedDataSegments.filter fun s => s.segmentID ∉ [update.source.segmentID] := by
      rw [hnodup.erase_eq_filter]
      refine filter_congr fun x hx => ?_
      rw [Bool.eq_iff_iff, bne_iff_ne, decide_eq_true_eq, mem_singleton]
      refine not_congr ⟨fun heq => congrArg _ heq, fun heq => ?_⟩
      exact Manifest.eq_of_segmentID_eq hvalid.data.increasing hx hmem heq
    rw [Manifest.without, herase, hreplay]
    simp only [mem_singleton]
  · have heq := Manifest.eq_of_segmentID_eq hvalid.data.increasing hsegment hmem (mem_singleton.mp hid)
    subst heq
    refine ⟨?_, fun stat hstat hsame => ?_⟩
    · rw [statsKnownForSegment, Bool.or_eq_true] at hknown
      exact hknown
    · -- the entry that was looked at is the only one of the segment
      have hfind := Manifest.find?_key SegmentStats.segmentID (hvalid.stats.increasing.imp Nat.ne_of_lt) hstat
      rw [hsame] at hfind
      rw [hfind] at hzero
      simpa using hzero

variable {expect newActive nextID : Nat} {sealedOld : SegmentSummary}

theorem changed_rotateData (h : s.manifest.installDataRotation expect sealedOld newActive nextID = .ok next) :
    Changed s none { s with manifest := next, dataIDs := s.dataIDs ++ [newActive] } := by
  obtain ⟨hid, rfl, ⟨hnext, -⟩, rfl⟩ := Manifest.installDataRotation_eq_ok h
  have hnumber : nextID = s.manifest.nextDataSegmentID + 1 := hnext.data.next
  subst hnumber
  exact .rotateData hid hnext rfl

theorem changed_reserve {expect count : Nat} {ids : List Nat}
    (h : s.manifest.reserveCompactionSegments expect count = .ok (next, ids)) :
    Changed s none { s with manifest := next, reserved := s.reserved ++ ids } := by
  simp only [Manifest.reserveCompactionSegments] at h
  generalize htop : (if s.manifest.compactionSegmentFloor = 0 then maxUint32
    else s.manifest.compactionSegmentFloor) = top at h
  obtain ⟨-, h⟩ := Lib.guard_eq_ok h
  obtain ⟨-, h⟩ := Lib.guard_eq_ok h
  obtain ⟨hroom, h⟩ := Lib.guard_eq_ok h
  simp only [not_or, not_lt] at hroom
  split at h
  · cases h
  next next' hadvance =>
    obtain ⟨-, hmutate, hnext, -⟩ := Manifest.advance_eq_ok hadvance
    obtain ⟨rfl, rfl⟩ := Prod.mk.inj (Except.ok.inj h)
    refine .reserve ?_ hroom.1 hroom.2 hnext (Except.ok.inj hmutate).symm
    split at htop
    next hzero => exact .inl ⟨hzero, htop.symm⟩
    next hne => exact .inr ⟨hne, htop.symm⟩

theorem changed_installOutputs {expect : Nat} (hmay : s.MayInstall outputs)
    (h : s.manifest.installCompactionOutputs expect outputs = .ok next) :
    Changed s none { s with
      manifest := next
      installed := s.installed ++ outputs.map SegmentSummary.segmentID
      dataIDs := s.dataIDs ++ outputs.map SegmentSummary.segmentID } := by
  obtain ⟨hmutate, hnext, -⟩ := Manifest.install_eq_ok h
  obtain ⟨-, hmutate⟩ := Lib.guard_eq_ok hmutate
  obtain ⟨hrange, hmutate⟩ := Lib.guard_eq_ok hmutate
  obtain ⟨hnodup, hmutate⟩ := Lib.guard_eq_ok hmutate
  rw [not_not, map_append] at hnodup
  refine .installOutputs hmay (fun output hin => ?_) hnodup.of_append_right hnext (Except.ok.inj hmutate).symm
  by_contra hfalse
  exact hrange ⟨output, hin, .inl (Bool.not_eq_true _ ▸ hfalse)⟩

theorem changed_rotateMap {sealedOld : MapSegmentSummary}
    (h : s.manifest.installMapRotation expect sealedOld newActive nextID = .ok next) :
    Changed s none { s with manifest := next, mapIDs := s.mapIDs ++ [newActive] } := by
  obtain ⟨hmutate, hnext, -⟩ := Manifest.install_eq_ok h
  obtain ⟨hguard, hmutate⟩ := Lib.guard_eq_ok hmutate
  simp only [not_or, ne_eq, not_not] at hguard
  obtain ⟨hid, rfl, rfl, -⟩ := hguard
  refine @Changed.mapFiles s _ s.manifest.mappingRoot _ _ Nat.one_pos (fun segment hsegment => ?_) hnext
    (Except.ok.inj hmutate).symm
  rcases Lib.mem_snoc.mp hsegment with hold | hnew
  · exact .inl hold
  · rw [hnew]
    exact .inr (.inl hid)

theorem changed_rewriteMap {base : Manifest} {update : MappingRewrite}
    (h : s.manifest.installMappingRewrite base update = .ok next) :
    Changed s none { s with
      manifest := next
      mapIDs := s.mapIDs ++ update.sealedSegments.map MapSegmentSummary.segmentID ++ [update.activeSegment] } := by
  obtain ⟨-, h⟩ := Lib.guard_eq_ok h
  obtain ⟨-, hmutate, hnext, -⟩ := Manifest.advance_eq_ok h
  dsimp only at hmutate
  generalize (update.sealedSegments.head?.map MapSegmentSummary.segmentID).getD update.activeSegment = first at hmutate
  split at hmutate
  · cases hmutate
  next hguard =>
    simp only [not_or, ne_eq, not_not] at hguard
    obtain ⟨-, -, -, hnumber, rfl, hids, hactive, -⟩ := hguard
    -- the new files have the numbers from the next one on, the active one the last of them
    have hall : update.sealedSegments.map MapSegmentSummary.segmentID ++ [update.activeSegment] =
        List.range' s.manifest.nextMapSegmentID (update.sealedSegments.length + 1) := by
      rw [hids, ← hactive, ← List.range'_1_concat]
    rw [append_assoc, hall]
    refine @Changed.mapFiles s update.sealedSegments update.root _ _ (Nat.succ_pos _)
      (fun segment hsegment => .inr (.inr ?_)) hnext ?_
    · have hin : segment.segmentID ∈ List.range' s.manifest.nextMapSegmentID update.sealedSegments.length :=
        hids ▸ mem_map_of_mem hsegment
      obtain ⟨hlow, hhigh⟩ := mem_range'_1.mp hin
      omega
    · rw [← Except.ok.inj hmutate]
      have hactive' : s.manifest.nextMapSegmentID + (update.sealedSegments.length + 1) - 1 = update.activeSegment := by
        omega
      have hnext' : s.manifest.nextMapSegmentID + (update.sealedSegments.length + 1) = update.nextSegment := by
        omega
      rw [hactive', hnext']

theorem changed_checkpoint {base : Manifest} (h : s.manifest.installCheckpoint base update = .ok next) :
    Changed s (some update) { s with manifest := next } := by
  obtain ⟨⟨hcovered, hreplay, hid, hbatch, hissued⟩, ⟨hnext, -⟩, heq⟩ := Manifest.installCheckpoint_eq_ok h
  exact .checkpoint hcovered hreplay hid hbatch hissued hnext heq

theorem changed_compactData (hvalid : s.manifest.Valid) {expect covered : Nat} {inputs : List SegmentSummary}
    {replayStart : LogPos} (h : s.manifest.installDataCompaction expect inputs covered replayStart = .ok next) :
    Changed s none { s with manifest := next } := by
  obtain ⟨hmutate, hnext, -⟩ := Manifest.install_eq_ok h
  obtain ⟨-, hmutate⟩ := Lib.guard_eq_ok hmutate
  obtain ⟨hinputs, hmutate⟩ := Lib.guard_eq_ok hmutate
  obtain ⟨hlisted, hmutate⟩ := Lib.guard_eq_ok hmutate
  have heq : next = s.manifest.without (inputs.map (·.segmentID)) := (Except.ok.inj hmutate).symm
  subst heq
  refine .remove (fun segment hsegment hid => ?_) hnext
  -- the last input with the number is the segment itself
  obtain ⟨input, hinput, hsame⟩ := mem_map.mp hid
  have hsome : (Manifest.removed inputs input.segmentID).isSome = true :=
    List.find?_isSome.mpr ⟨input, mem_reverse.mpr hinput, decide_eq_true rfl⟩
  obtain ⟨want, hwant⟩ := isSome_iff_exists.mp hsome
  have hwantIn : want ∈ inputs := mem_reverse.mp (mem_of_find?_eq_some hwant)
  have hfound := List.find?_some hwant
  have hwantID : want.segmentID = segment.segmentID := (of_decide_eq_true hfound).trans hsame
  have hwantSealed : want ∈ s.manifest.sealedDataSegments := by
    by_contra hout
    refine hlisted ⟨input, hinput, ?_⟩
    rw [hwant]
    exact decide_eq_true hout
  have heq := Manifest.eq_of_segmentID_eq hvalid.data.increasing hwantSealed hsegment hwantID
  subst heq
  refine ⟨?_, fun stat hstat hstatID => ?_⟩
  · have hknown : statsKnownForSegment s.manifest.replayStart want = true := by
      by_contra hfalse
      exact hinputs ⟨want, hwantIn, .inr (.inl (Bool.not_eq_true _ ▸ hfalse))⟩
    rwa [statsKnownForSegment, Bool.or_eq_true] at hknown
  · by_contra hlive
    refine hinputs ⟨want, hwantIn, .inr (.inr ⟨stat, hstat, hstatID, ?_⟩)⟩
    exact not_and_or.mp hlive

/-- **Every accepted change is one of them.** -/
theorem History.step_changed (hvalid : s.manifest.Valid) (h : s.step e = some s') :
    Changed s e.update s' := by
  cases e with
  | rotateData =>
    obtain ⟨t, ht, rfl⟩ := map_eq_some_iff.mp h
    obtain ⟨next, hnext, rfl⟩ := History.take_eq_some ht
    exact changed_rotateData hnext
  | reserve expect count =>
    simp only [History.step] at h
    split at h
    · cases h
    next next ids hreserve =>
      obtain rfl := some.inj h
      exact changed_reserve hreserve
  | installOutputs expect outputs =>
    obtain ⟨hmay, hmap⟩ := ite_none_right_eq_some.mp h
    obtain ⟨t, ht, rfl⟩ := map_eq_some_iff.mp hmap
    obtain ⟨next, hnext, rfl⟩ := History.take_eq_some ht
    exact changed_installOutputs hmay hnext
  | rotateMap =>
    obtain ⟨t, ht, rfl⟩ := map_eq_some_iff.mp h
    obtain ⟨next, hnext, rfl⟩ := History.take_eq_some ht
    exact changed_rotateMap hnext
  | rewriteMap base update =>
    obtain ⟨t, ht, rfl⟩ := map_eq_some_iff.mp h
    obtain ⟨next, hnext, rfl⟩ := History.take_eq_some ht
    exact changed_rewriteMap hnext
  | checkpoint =>
    obtain ⟨next, hnext, rfl⟩ := History.take_eq_some h
    exact changed_checkpoint hnext
  | compactData =>
    obtain ⟨next, hnext, rfl⟩ := History.take_eq_some h
    exact changed_compactData hvalid hnext
  | retireData expect update =>
    obtain ⟨next, hnext, rfl⟩ := History.take_eq_some h
    obtain ⟨hmutate, hvalid', -⟩ := Manifest.install_eq_ok hnext
    obtain ⟨rfl, hremovable⟩ := applyDataRetire_eq_ok hvalid hmutate
    exact .remove hremovable hvalid'
  | removeData minimumGeneration sealedOld =>
    obtain ⟨next, hnext, rfl⟩ := History.take_eq_some h
    obtain ⟨-, hnext⟩ := Lib.guard_eq_ok hnext
    obtain ⟨-, hmutate, hvalid', -⟩ := Manifest.advance_eq_ok hnext
    obtain ⟨rfl, hremovable⟩ := applyDataRetire_eq_ok hvalid hmutate
    exact .remove hremovable hvalid'

/-! ## §2 — The numbers -/

/-- **The invariant of a history**: what the numbers that were given look like, and that no segment behind the replay
position is missing. -/
structure Numbered (s : History) : Prop where
  valid : s.manifest.Valid
  contiguous : ∀ id, s.manifest.replayStart.segmentID ≤ id → id < s.manifest.activeDataSegmentID →
    ∃ segment ∈ s.manifest.sealedDataSegments, segment.segmentID = id
  given : ∀ id ∈ s.dataIDs, id ≤ s.manifest.activeDataSegmentID ∨ id ∈ s.installed
  outputs : ∀ id ∈ s.installed, id ∈ s.reserved
  dataUnique : s.dataIDs.Nodup
  dataListed : s.manifest.activeDataSegmentID ∈ s.dataIDs ∧
    ∀ segment ∈ s.manifest.sealedDataSegments, segment.segmentID ∈ s.dataIDs
  reservedRange : ∀ id ∈ s.reserved, compactionSegmentBase ≤ id ∧ s.manifest.compactionSegmentFloor < id
  reservedFloor : s.manifest.compactionSegmentFloor = 0 → s.reserved = []
  reservedUnique : s.reserved.Nodup
  mapBelow : ∀ id ∈ s.mapIDs, id < s.manifest.nextMapSegmentID
  mapUnique : s.mapIDs.Nodup
  mapListed : s.manifest.activeMapSegmentID ∈ s.mapIDs ∧
    ∀ segment ∈ s.manifest.sealedMapSegments, segment.segmentID ∈ s.mapIDs

/-- An output has another number than every data segment before. -/
theorem Numbered.fresh_output (h : Numbered s) {id : Nat} (hreserved : id ∈ s.reserved) (hinstalled : id ∉ s.installed) :
    id ∉ s.dataIDs := by
  intro hin
  rcases h.given id hin with hle | hin'
  · have hbase := (h.reservedRange id hreserved).1
    have hactive := h.valid.data.active
    omega
  · exact hinstalled hin'

variable {generation : Nat}

theorem Numbered.rotateData (h : Numbered s)
    (hid : sealedOld.segmentID = s.manifest.activeDataSegmentID) (hnext : next.Valid)
    (heq : next = { s.manifest with
      generation := generation
      sealedDataSegments := sortDataSegments (s.manifest.sealedDataSegments ++ [sealedOld])
      activeDataSegmentID := s.manifest.nextDataSegmentID
      nextDataSegmentID := s.manifest.nextDataSegmentID + 1 }) :
    Numbered { s with
      manifest := next
      dataIDs := s.dataIDs ++ [s.manifest.nextDataSegmentID] } := by
  subst heq
  have hnumber := h.valid.data.next
  have hmem : ∀ segment, segment ∈ sortDataSegments (s.manifest.sealedDataSegments ++ [sealedOld]) ↔
      segment ∈ s.manifest.sealedDataSegments ∨ segment = sealedOld := by
    intro segment
    rw [Manifest.mem_sortDataSegments, mem_append, mem_singleton]
  refine { h with
    valid := hnext
    contiguous := fun id hlow hhigh => ?_
    given := fun id hin => ?_
    dataUnique := ?_
    dataListed := ⟨mem_append_right _ mem_cons_self, fun segment hsegment => ?_⟩ }
  · have hhigh' : id < s.manifest.nextDataSegmentID := hhigh
    rcases Nat.lt_or_ge id s.manifest.activeDataSegmentID with hlt | hge
    · obtain ⟨segment, hsegment, hsame⟩ := h.contiguous id hlow hlt
      exact ⟨segment, (hmem segment).mpr (.inl hsegment), hsame⟩
    · exact ⟨sealedOld, (hmem _).mpr (.inr rfl), by omega⟩
  · show id ≤ s.manifest.nextDataSegmentID ∨ id ∈ s.installed
    rcases Lib.mem_snoc.mp hin with hold | hnew
    · exact (h.given id hold).imp_left fun hle => by omega
    · rw [hnew]
      exact .inl (Nat.le_refl _)
  · refine Lib.nodup_snoc h.dataUnique fun hmem => ?_
    rcases h.given _ hmem with hle | hin
    · omega
    · -- a normal number is below all reserved ones
      have hbase := (h.reservedRange _ (h.outputs _ hin)).1
      have hactive : s.manifest.nextDataSegmentID < compactionSegmentBase := hnext.data.active
      omega
  · rcases (hmem segment).mp hsegment with hold | rfl
    · exact mem_append_left _ (h.dataListed.2 segment hold)
    · exact mem_append_left _ (hid ▸ h.dataListed.1)

theorem Numbered.reserve (h : Numbered s) {top count : Nat}
    (htop : s.manifest.compactionSegmentFloor = 0 ∧ top = maxUint32 ∨
      s.manifest.compactionSegmentFloor ≠ 0 ∧ top = s.manifest.compactionSegmentFloor)
    (hbase : compactionSegmentBase ≤ top) (hcount : count ≤ top - compactionSegmentBase + 1) (hnext : next.Valid)
    (heq : next = { s.manifest with
      generation := generation, compactionSegmentFloor := top - count }) :
    Numbered { s with
      manifest := next, reserved := s.reserved ++ List.range' (top - count + 1) count } := by
  subst heq
  have hbase' : compactionSegmentBase = 2 ^ 31 := rfl
  -- all numbers that were reserved before are above the top
  have habove : ∀ id ∈ s.reserved, top < id := by
    intro id hid
    rcases htop with ⟨hzero, -⟩ | ⟨-, rfl⟩
    · rw [h.reservedFloor hzero] at hid
      exact absurd hid not_mem_nil
    · exact (h.reservedRange id hid).2
  refine { h with
    valid := hnext
    outputs := fun id hid => mem_append_left _ (h.outputs id hid)
    reservedRange := fun id hid => ?_
    reservedFloor := fun hzero => ?_
    reservedUnique := ?_ }
  · show compactionSegmentBase ≤ id ∧ top - count < id
    rcases mem_append.mp hid with hold | hnew
    · have hlt := habove id hold
      exact ⟨(h.reservedRange id hold).1, by omega⟩
    · obtain ⟨hlow, -⟩ := mem_range'_1.mp hnew
      exact ⟨by omega, by omega⟩
  · have hzero' : top - count = 0 := hzero
    omega
  · refine nodup_append.mpr ⟨h.reservedUnique, nodup_range', ?_⟩
    intro a ha b hb hab
    obtain ⟨-, hhigh⟩ := mem_range'_1.mp hb
    have hlt := habove a ha
    omega

theorem Numbered.installOutputs (h : Numbered s) (hmay : s.MayInstall outputs)
    (hnodup : (outputs.map SegmentSummary.segmentID).Nodup) (hnext : next.Valid)
    (heq : next = { s.manifest with
      generation := generation
      sealedDataSegments := sortDataSegments (s.manifest.sealedDataSegments ++ outputs) }) :
    Numbered { s with
      manifest := next
      installed := s.installed ++ outputs.map SegmentSummary.segmentID
      dataIDs := s.dataIDs ++ outputs.map SegmentSummary.segmentID } := by
  subst heq
  have hmem : ∀ segment, segment ∈ sortDataSegments (s.manifest.sealedDataSegments ++ outputs) ↔
      segment ∈ s.manifest.sealedDataSegments ∨ segment ∈ outputs := by
    intro segment
    rw [Manifest.mem_sortDataSegments, mem_append]
  refine { h with
    valid := hnext
    contiguous := fun id hlow hhigh => ?_
    given := fun id hin => ?_
    outputs := fun id hid => ?_
    dataUnique := ?_
    dataListed := ⟨mem_append_left _ h.dataListed.1, fun segment hsegment => ?_⟩ }
  · obtain ⟨segment, hsegment, hsame⟩ := h.contiguous id hlow hhigh
    exact ⟨segment, (hmem segment).mpr (.inl hsegment), hsame⟩
  · rcases mem_append.mp hin with hold | hnew
    · exact (h.given id hold).imp_right fun hin => mem_append_left _ hin
    · exact .inr (mem_append_right _ hnew)
  · rcases mem_append.mp hid with hold | hnew
    · exact h.outputs id hold
    · obtain ⟨output, houtput, rfl⟩ := mem_map.mp hnew
      exact (hmay output houtput).1
  · refine nodup_append.mpr ⟨h.dataUnique, hnodup, ?_⟩
    intro a ha b hb hab
    obtain ⟨output, houtput, rfl⟩ := mem_map.mp hb
    obtain ⟨hreserved, hinstalled⟩ := hmay output houtput
    exact h.fresh_output hreserved hinstalled (hab ▸ ha)
  · rcases (hmem segment).mp hsegment with hold | hnew
    · exact mem_append_left _ (h.dataListed.2 segment hold)
    · exact mem_append_right _ (mem_map_of_mem hnew)

theorem Numbered.mapFiles (h : Numbered s) {segments : List MapSegmentSummary} {root : MapStore.MapAddr} {count : Nat}
    (hcount : 0 < count) (hsegments : ∀ segment ∈ segments, segment ∈ s.manifest.sealedMapSegments ∨
      segment.segmentID = s.manifest.activeMapSegmentID ∨
      s.manifest.nextMapSegmentID ≤ segment.segmentID ∧
        segment.segmentID < s.manifest.nextMapSegmentID + count) (hnext : next.Valid)
    (heq : next = { s.manifest with
      generation := generation, sealedMapSegments := segments
      activeMapSegmentID := s.manifest.nextMapSegmentID + count - 1
      nextMapSegmentID := s.manifest.nextMapSegmentID + count, mappingRoot := root }) :
    Numbered { s with
      manifest := next
      mapIDs := s.mapIDs ++ List.range' s.manifest.nextMapSegmentID count } := by
  subst heq
  have hrange : ∀ id, id ∈ List.range' s.manifest.nextMapSegmentID count ↔
      s.manifest.nextMapSegmentID ≤ id ∧ id < s.manifest.nextMapSegmentID + count := fun id =>
    mem_range'_1
  refine { h with
    valid := hnext
    mapBelow := fun id hin => ?_
    mapUnique := ?_
    mapListed := ⟨mem_append_right _ ((hrange _).mpr ⟨?_, ?_⟩), fun segment hsegment => ?_⟩ }
  · rcases mem_append.mp hin with hold | hnew
    · exact Nat.lt_add_right _ (h.mapBelow id hold)
    · exact ((hrange id).mp hnew).2
  · refine nodup_append.mpr ⟨h.mapUnique, nodup_range', ?_⟩
    intro a ha b hb hab
    have hlt := h.mapBelow a ha
    have hge := ((hrange b).mp hb).1
    omega
  · show s.manifest.nextMapSegmentID ≤ s.manifest.nextMapSegmentID + count - 1
    omega
  · show s.manifest.nextMapSegmentID + count - 1 < s.manifest.nextMapSegmentID + count
    omega
  · rcases hsegments segment hsegment with hold | hactive | hnew
    · exact mem_append_left _ (h.mapListed.2 segment hold)
    · exact mem_append_left _ (hactive ▸ h.mapListed.1)
    · exact mem_append_right _ ((hrange _).mpr hnew)

theorem lt_eq_true {p q : LogPos} : p.lt q = true ↔
    p.segmentID < q.segmentID ∨ p.segmentID = q.segmentID ∧ p.offset < q.offset := by
  simp only [LogPos.lt, Bool.or_eq_true, Bool.and_eq_true, decide_eq_true_eq]

/-- A position that does not go back does not go to an earlier segment. -/
theorem le_of_lt_eq_false {p q : LogPos} (h : p.lt q = false) : q.segmentID ≤ p.segmentID := by
  by_contra hlt
  rw [lt_eq_true.mpr (.inl (Nat.lt_of_not_le hlt))] at h
  cases h

theorem Numbered.checkpoint (h : Numbered s)
    (hreplay : update.replayStart.lt s.manifest.replayStart = false) (hnext : next.Valid)
    (heq : next = Manifest.withCheckpoint { s.manifest with generation := generation } update) :
    Numbered { s with manifest := next } := by
  subst heq
  refine { h with valid := hnext, contiguous := fun id hlow hhigh => ?_ }
  exact h.contiguous id (Nat.le_trans (le_of_lt_eq_false hreplay) hlow) hhigh

variable {segment : SegmentSummary}

/-- A segment from the replay position on stays. -/
theorem Removable.not_from_replay (h : Removable m segment) (hvalid : m.Valid)
    (hlow : m.replayStart.segmentID ≤ segment.segmentID)
    (hhigh : segment.segmentID < m.activeDataSegmentID) : m.replayStart.segmentID = segment.segmentID ∧
      segment.validEnd < m.replayStart.offset := by
  have hactive := hvalid.data.active
  rcases h.behind with hcompaction | hlt
  · rw [isCompactionSegment, decide_eq_true_eq] at hcompaction
    omega
  · have hcases := lt_eq_true.mp hlt
    dsimp only at hcases
    omega

theorem Numbered.remove (h : Numbered s) {ids : List Nat}
    (hremovable : ∀ segment ∈ s.manifest.sealedDataSegments, segment.segmentID ∈ ids →
      Removable s.manifest segment) (hnext : (s.manifest.without ids).Valid) :
    Numbered { s with manifest := s.manifest.without ids } := by
  refine { h with
    valid := hnext
    contiguous := fun id hlow hhigh => ?_
    dataListed := ⟨h.dataListed.1, fun segment hsegment => h.dataListed.2 segment (mem_filter.mp hsegment).1⟩ }
  obtain ⟨segment, hsegment, rfl⟩ := h.contiguous id hlow hhigh
  by_cases hin : segment.segmentID ∈ ids
  · -- only the segment of the replay position itself could go, but the position is in its bytes
    obtain ⟨hsame, hend⟩ := (hremovable segment hsegment hin).not_from_replay h.valid hlow hhigh
    have hbelow : segment.segmentID < s.manifest.activeDataSegmentID := hhigh
    have hfound := h.valid.data.replay
    rw [Manifest.ReplayFound, if_neg (Nat.ne_of_lt (hsame ▸ hbelow))] at hfound
    obtain ⟨other, hother, hid, hle⟩ := hfound
    have heq := Manifest.eq_of_segmentID_eq h.valid.data.increasing hother hsegment (hid.trans hsame)
    subst heq
    omega
  · exact ⟨segment, mem_filter.mpr ⟨hsegment, decide_eq_true hin⟩, rfl⟩

theorem Numbered.changed (h : Numbered s) (hs : Changed s u s') : Numbered s' := by
  cases hs with
  | rotateData hid hnext heq => exact h.rotateData hid hnext heq
  | reserve htop hbase hcount hnext heq => exact h.reserve htop hbase hcount hnext heq
  | installOutputs hmay _ hnodup hnext heq => exact h.installOutputs hmay hnodup hnext heq
  | mapFiles hcount hsegments hnext heq => exact h.mapFiles hcount hsegments hnext heq
  | checkpoint _ hreplay _ _ _ hnext heq => exact h.checkpoint hreplay hnext heq
  | remove hremovable hnext => exact h.remove hremovable hnext

theorem Numbered.initial {storeUUID recordLogID : LogID} {hard : HardLimits}
    (hvalid : (initialManifest storeUUID recordLogID hard).Valid) :
    Numbered (.initial (initialManifest storeUUID recordLogID hard)) := by
  refine ⟨hvalid, fun id hlow hhigh => ?_, fun id hin => ?_, nofun,
    nodup_singleton _, ⟨mem_cons_self, nofun⟩,
    nofun, fun _ => rfl, nodup_nil, fun id hin => ?_, nodup_singleton _,
    ⟨mem_cons_self, nofun⟩⟩
  · have hlow' : 1 ≤ id := hlow
    have hhigh' : id < 1 := hhigh
    omega
  · rw [mem_singleton.mp hin]
    exact .inl (Nat.le_refl _)
  · rw [mem_singleton.mp hin]
    exact Nat.lt_succ_self _

/-! ## §3 — The cut and what is removed -/

/-- **Nothing of the cut goes back.** -/
structure Advances (m next : Manifest) : Prop where
  covered : m.coveredCommitSeq ≤ next.coveredCommitSeq
  replayStart : next.replayStart.lt m.replayStart = false
  reservedID : m.reservedIDHigh ≤ next.reservedIDHigh
  reservedBatchID : m.reservedBatchIDHigh ≤ next.reservedBatchIDHigh
  issuedBatchID : m.issuedBatchIDHighAtCut ≤ next.issuedBatchIDHighAtCut

theorem lt_self (p : LogPos) : p.lt p = false := by
  rw [Bool.eq_false_iff, ne_eq, lt_eq_true]
  omega

/-- The manifests have the same cut. -/
theorem Advances.of_eq (hcovered : next.coveredCommitSeq = m.coveredCommitSeq)
    (hreplay : next.replayStart = m.replayStart) (hid : next.reservedIDHigh = m.reservedIDHigh)
    (hbatch : next.reservedBatchIDHigh = m.reservedBatchIDHigh)
    (hissued : next.issuedBatchIDHighAtCut = m.issuedBatchIDHighAtCut) : Advances m next :=
  ⟨Nat.le_of_eq hcovered.symm, by rw [hreplay]; exact lt_self _, Nat.le_of_eq hid.symm, Nat.le_of_eq hbatch.symm,
    Nat.le_of_eq hissued.symm⟩

theorem Advances.trans {m₁ m₂ m₃ : Manifest} (h : Advances m₁ m₂) (h' : Advances m₂ m₃) : Advances m₁ m₃ where
  covered := Nat.le_trans h.covered h'.covered
  replayStart := by
    have hfirst := h.replayStart
    have hsecond := h'.replayStart
    rw [Bool.eq_false_iff, ne_eq, lt_eq_true] at hfirst hsecond ⊢
    omega
  reservedID := Nat.le_trans h.reservedID h'.reservedID
  reservedBatchID := Nat.le_trans h.reservedBatchID h'.reservedBatchID
  issuedBatchID := Nat.le_trans h.issuedBatchID h'.issuedBatchID

theorem Changed.advances (h : Changed s u s') : Advances s.manifest s'.manifest := by
  cases h with
  | rotateData _ _ heq | reserve _ _ _ _ heq | installOutputs _ _ _ _ heq | mapFiles _ _ _ heq =>
    -- none of these touches the cut
    subst heq
    exact .of_eq rfl rfl rfl rfl rfl
  | checkpoint hcovered hreplay hid hbatch hissued _ heq =>
    subst heq
    exact ⟨hcovered, hreplay, hid, hbatch, hissued⟩
  | remove => exact .of_eq rfl rfl rfl rfl rfl

/-- **A segment that leaves the manifest** could be removed. -/
theorem Changed.removable (h : Changed s u s') (hold : segment ∈ s.manifest.sealedDataSegments)
    (hnew : segment ∉ s'.manifest.sealedDataSegments) : Removable s.manifest segment := by
  cases h with
  | rotateData _ _ heq | installOutputs _ _ _ _ heq =>
    subst heq
    exact absurd (Manifest.mem_sortDataSegments.mpr (mem_append_left _ hold)) hnew
  | reserve _ _ _ _ heq | mapFiles _ _ _ heq | checkpoint _ _ _ _ _ _ heq =>
    subst heq
    exact absurd hold hnew
  | remove hremovable _ =>
    refine hremovable segment hold ?_
    by_contra hin
    exact hnew (mem_filter.mpr ⟨hold, decide_eq_true hin⟩)

/-- **Over a whole run** the cut does not go back. -/
theorem Numbered.exec_advances (h : Numbered s) {es : List CatalogEvent} (hs : catalogManager.exec s es = some s') :
    Advances s.manifest s'.manifest := by
  induction es generalizing s with
  | nil =>
    cases hs
    exact .of_eq rfl rfl rfl rfl rfl
  | cons e es ih =>
    obtain ⟨middle, hstep, hrest⟩ := bind_eq_some_iff.mp hs
    have hchanged := History.step_changed h.valid hstep
    exact hchanged.advances.trans (ih (h.changed hchanged) hrest)

/-! ## §4 — The catalog -/

/-- The data segments that replay reads: `Scan` leaves out those before the start and those behind the active one. -/
def Manifest.scanned (m : Manifest) : List Nat :=
  (m.sealedDataSegments.map SegmentSummary.segmentID ++ [m.activeDataSegmentID]).filter fun id =>
    m.replayStart.segmentID ≤ id && id ≤ m.activeDataSegmentID

/-- What holds of every manifest and of the numbers that were given up to it. -/
structure CatalogSound (s : History) : Prop where
  replay : s.manifest.replayStart.segmentID ≤ s.manifest.activeDataSegmentID
  contiguous : ∀ id, s.manifest.replayStart.segmentID ≤ id → id ≤ s.manifest.activeDataSegmentID →
    id ∈ s.manifest.scanned
  dataUnique : s.dataIDs.Nodup
  dataListed : s.manifest.activeDataSegmentID ∈ s.dataIDs ∧
    ∀ segment ∈ s.manifest.sealedDataSegments, segment.segmentID ∈ s.dataIDs
  reservedUnique : s.reserved.Nodup
  mapUnique : s.mapIDs.Nodup
  mapListed : s.manifest.activeMapSegmentID ∈ s.mapIDs ∧
    ∀ segment ∈ s.manifest.sealedMapSegments, segment.segmentID ∈ s.mapIDs
  total : (s.manifest.segmentStats.map SegmentStats.liveRecords).sum = s.manifest.mappingEntryCount

/-- The replay position of a valid manifest is not behind the active segment, when it is not in an output. -/
theorem Manifest.Valid.replay_le (h : m.Valid) (hnormal : isCompactionSegment m.replayStart.segmentID = false) :
    m.replayStart.segmentID ≤ m.activeDataSegmentID := by
  have hfound := h.data.replay
  rw [Manifest.ReplayFound] at hfound
  split at hfound
  next hactive => exact Nat.le_of_eq hactive
  next =>
    obtain ⟨segment, hsegment, hid, -⟩ := hfound
    rcases (h.data.segments segment hsegment).1 with hlt | ⟨hcompaction, -⟩
    · omega
    · rw [hid, hnormal] at hcompaction
      cases hcompaction

theorem Numbered.sound (h : Numbered s) (hnormal : isCompactionSegment s.manifest.replayStart.segmentID = false) :
    CatalogSound s := by
  refine ⟨h.valid.replay_le hnormal, fun id hlow hhigh => ?_, h.dataUnique, h.dataListed, h.reservedUnique, h.mapUnique,
    h.mapListed, h.valid.stats.total⟩
  refine mem_filter.mpr ⟨?_, ?_⟩
  · rcases Nat.lt_or_eq_of_le hhigh with hlt | heq
    · obtain ⟨segment, hsegment, hid⟩ := h.contiguous id hlow hlt
      exact mem_append_left _ (hid ▸ mem_map_of_mem hsegment)
    · rw [heq]
      exact mem_append_right _ mem_cons_self
  · rw [Bool.and_eq_true, decide_eq_true_eq, decide_eq_true_eq]
    exact ⟨hlow, hhigh⟩

/-- A checkpoint starts the replay in a normal segment. -/
def CatalogEvent.StartsNormal (e : CatalogEvent) : Prop :=
  ∀ update ∈ e.update, isCompactionSegment update.replayStart.segmentID = false

instance (e : CatalogEvent) : Decidable e.StartsNormal := inferInstanceAs (Decidable (∀ _ ∈ _, _))

/-- Only a checkpoint moves the replay position. -/
theorem Changed.normal (h : Changed s u s')
    (hu : ∀ update ∈ u, isCompactionSegment update.replayStart.segmentID = false)
    (hnormal : isCompactionSegment s.manifest.replayStart.segmentID = false) :
    isCompactionSegment s'.manifest.replayStart.segmentID = false := by
  cases h with
  | rotateData _ _ heq | reserve _ _ _ _ heq | installOutputs _ _ _ _ heq | mapFiles _ _ _ heq =>
    subst heq
    exact hnormal
  | checkpoint _ _ _ _ _ _ heq =>
    subst heq
    exact hu _ rfl
  | remove => exact hnormal

theorem normal_of_reach (h : catalogManager.Reach (fun _ e => e.StartsNormal) s) :
    Numbered s ∧ isCompactionSegment s.manifest.replayStart.segmentID = false := by
  refine Lib.Machine.Reach.invariant (M := catalogManager)
    (fun s => Numbered s ∧ isCompactionSegment s.manifest.replayStart.segmentID = false) ?_ ?_ h
  · intro s hs
    obtain ⟨storeUUID, recordLogID, hard, hvalid, rfl⟩ := hs
    exact ⟨Numbered.initial hvalid, rfl⟩
  · intro s e s' hinv he hs
    have hchanged := History.step_changed hinv.1.valid hs
    exact ⟨hinv.1.changed hchanged, hchanged.normal he hinv.2⟩

/-- **The catalog invariant.**  In every manifest that the manager reaches by checkpoints that start in normal segments,
replay finds its start and every segment up to the active one, and every number was given once; from there on the cut
does not go back, and a segment leaves the manifest only behind the replay position, or as an output, and with no record
counted live. -/
theorem catalog_invariant (h : catalogManager.Reach (fun _ e => e.StartsNormal) s) :
    CatalogSound s ∧ (∀ es s', catalogManager.exec s es = some s' → Advances s.manifest s'.manifest) ∧
      ∀ e s', s.step e = some s' → (e.StartsNormal → CatalogSound s') ∧
        ∀ segment ∈ s.manifest.sealedDataSegments, segment ∉ s'.manifest.sealedDataSegments →
          Removable s.manifest segment := by
  obtain ⟨hnumbered, hnormal⟩ := normal_of_reach h
  refine ⟨hnumbered.sound hnormal, fun es s' hs => hnumbered.exec_advances hs, fun e s' hs => ?_⟩
  have hchanged := History.step_changed hnumbered.valid hs
  refine ⟨fun he => ?_, fun segment hold hnew => hchanged.removable hold hnew⟩
  exact (hnumbered.changed hchanged).sound (hchanged.normal he hnormal)

end Steps

/-! ## §5 — Two histories -/

namespace Demo

def emptySegment (id : Nat) : SegmentSummary := ⟨id, RecordLog.segmentHeaderSize, 0, ⟨0⟩, ⟨0⟩⟩

def manifest : Manifest := initialManifest (.ofByte 1) (.ofByte 2) .defaults

theorem initial : catalogManager.init (.initial manifest) :=
  ⟨_, _, _, initialManifest_valid rfl rfl HardLimits.defaults_valid, rfl⟩

/-- A rotation, a checkpoint behind it, an output, a mapping rotation, and the removal of the first segment. -/
def changes : List CatalogEvent :=
  [.rotateData 1 (emptySegment 1) 2 3,
    .checkpoint
      { manifest with
        generation := 2, sealedDataSegments := [emptySegment 1], activeDataSegmentID := 2, nextDataSegmentID := 3 }
      ⟨⟨0⟩, 0, 7, ⟨2, 64⟩, 9, 5, 3, [2], 7, []⟩,
    .reserve 3 1, .installOutputs 4 [emptySegment maxUint32], .rotateMap 5 ⟨1, 64⟩ 2 3,
    .retireData 6 ⟨emptySegment 1, 7, ⟨2, 64⟩⟩]

/-- A segment with one record. -/
def usedSegment : SegmentSummary := ⟨1, 104, 1, ⟨2 ^ 32 + 64⟩, ⟨2 ^ 32 + 64⟩⟩

/-- An output is installed and the replay of a checkpoint starts in it; the active segment gets a record, is rotated
out and retired. -/
def astray : List CatalogEvent :=
  [.reserve 1 1, .installOutputs 2 [emptySegment maxUint32],
    .checkpoint
      { manifest with
        generation := 3, compactionSegmentFloor := maxUint32 - 1, sealedDataSegments := [emptySegment maxUint32] }
      ⟨⟨0⟩, 0, 7, ⟨maxUint32, 64⟩, 1, 1, 1, [], 7, []⟩,
    .rotateData 4 usedSegment 2 3, .retireData 5 ⟨usedSegment, 7, ⟨maxUint32, 64⟩⟩]

end Demo

theorem catalog_invariant_demo : ∃ s, catalogManager.Reach (fun _ e => e.StartsNormal) s ∧
    s.dataIDs = [1, 2, maxUint32] ∧ s.mapIDs = [1, 2] ∧
    s.manifest.sealedDataSegments = [Demo.emptySegment maxUint32] ∧ s.manifest.scanned = [2] ∧ CatalogSound s := by
  obtain ⟨s, hrun, hfacts⟩ := map_eq_some_iff.mp
    (show (catalogManager.exec (.initial Demo.manifest) Demo.changes).map (fun s =>
      (s.dataIDs, s.mapIDs, s.manifest.sealedDataSegments, s.manifest.scanned)) =
      some ([1, 2, maxUint32], [1, 2], [Demo.emptySegment maxUint32], [2]) by decide +kernel)
  have hnormal : ∀ e ∈ Demo.changes, e.StartsNormal := by decide
  have hreach := (Lib.Machine.Reach.start Demo.initial).exec Demo.changes (fun e he _ => hnormal e he) hrun
  obtain ⟨hdata, hmap, hsealed, hscanned⟩ := by simpa only [Prod.mk.injEq] using hfacts
  exact ⟨s, hreach, hdata, hmap, hsealed, hscanned, (catalog_invariant hreach).1⟩

/-- **A checkpoint whose replay starts in an output is accepted**: after it the segment that was active at the cut is
rotated out and retired, with the record that was written to it, and replay reads no segment at all. -/
theorem replay_starts_in_output : ∃ s, catalogManager.Reachable s ∧ s.manifest.activeDataSegmentID = 2 ∧
    s.manifest.replayStart = ⟨maxUint32, 64⟩ ∧ s.manifest.sealedDataSegments = [Demo.emptySegment maxUint32] ∧
    s.manifest.scanned = [] := by
  obtain ⟨s, hrun, hfacts⟩ := map_eq_some_iff.mp
    (show (catalogManager.exec (.initial Demo.manifest) Demo.astray).map (fun s =>
      (s.manifest.activeDataSegmentID, s.manifest.replayStart, s.manifest.sealedDataSegments, s.manifest.scanned)) =
      some (2, ⟨maxUint32, 64⟩, [Demo.emptySegment maxUint32], []) by decide +kernel)
  have hreach : catalogManager.Reachable s :=
    (Lib.Machine.Reach.start Demo.initial).exec Demo.astray (fun _ _ _ => trivial) hrun
  obtain ⟨hactive, hreplay, hsealed, hscanned⟩ := by simpa only [Prod.mk.injEq] using hfacts
  exact ⟨s, hreach, hactive, hreplay, hsealed, hscanned⟩

end Ridstore.StoreCatalog
