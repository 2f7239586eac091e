import Mathlib.Order.Interval.Finset.Nat
import Ridstore.Mapping.PersistentSafety
import Ridstore.StoreCatalog.Install

/-
# Ridstore.Engine.CheckpointStats — the statistics of a checkpoint in the manifest

A checkpoint writes the counters of its mapping into the manifest.  Before it does so it compares them with the
data segments: a segment cannot have more live bytes than it has bytes, and not more live records than records.
Exact counters pass these checks, as long as the segments hold what the mapping refers to.
-/

namespace Ridstore.Engine

open Lib (scan tally FiniteMap)
open Function
open List
open Mapping
open RecordLog (RecordRef LogPos SegmentSummary)
open StoreCatalog (Manifest SegmentStats)

/-! ## §1 — The checks -/

/-- The comparison of a counter with its segment. -/
def StatLocated (m : Manifest) (replayStart : LogPos) (segment : Nat) (stat : SegmentLiveStats) : Prop :=
  if segment = m.activeDataSegmentID then
    replayStart.segmentID = segment ∧ RecordLog.segmentHeaderSize ≤ replayStart.offset ∧
      stat.liveBytes ≤ replayStart.offset - RecordLog.segmentHeaderSize ∧
      stat.liveRecords ≤ stat.liveBytes / RecordLog.recordHeaderSize
  else
    -- the last summary of a segment is the one in the map of the source
    ∃ s ∈ m.sealedDataSegments.reverse.find? fun s => s.segmentID = segment,
      RecordLog.segmentHeaderSize ≤ s.validEnd ∧ stat.liveBytes ≤ s.validEnd - RecordLog.segmentHeaderSize ∧
        stat.liveRecords ≤ s.recordCount

instance (m : Manifest) (replayStart : LogPos) (segment : Nat) (stat : SegmentLiveStats) :
    Decidable (StatLocated m replayStart segment stat) := inferInstanceAs (Decidable (ite _ _ _))

/-- The loop of `checkpointSegmentStats`. -/
def addSegmentStat (m : Manifest) (replayStart : LogPos) (maxEntries : Nat) (result : List SegmentStats)
    (e : Sigma fun _ : Nat => SegmentLiveStats) : Except StoreError (List SegmentStats) :=
  if e.2.liveBytes = 0 ∨ e.2.liveRecords = 0 then .error .corrupt
  else if ¬ StatLocated m replayStart e.1 e.2 then .error .corrupt
  else if result.length = maxEntries then .error .overflow
  else .ok (result ++ [⟨e.1, e.2.liveBytes, e.2.liveRecords⟩])

/-- **`checkpointSegmentStats`.** -/
def checkpointSegmentStats (live : LiveStats) (m : Manifest) (replayStart : LogPos) (maxEntries : Nat) :
    Except StoreError (List SegmentStats) :=
  if replayStart.valid = false then .error .corrupt
  else
    match scan (addSegmentStat m replayStart maxEntries) [] live.entries with
    | .error err => .error err
    | .ok result => .ok (result.insertionSort fun a b => a.segmentID ≤ b.segmentID)

/-! ## §2 — What the segments hold -/

/-- **The segments hold what the mapping refers to.**  `records` are the records of a segment up to the cut; different
identifiers have different records, and the bytes and records of every segment are in its bounds. -/
structure Catalogued (records : Nat → List RecordRef) (m : Manifest) (replayStart : LogPos) (entries : Entries) : Prop where
  valid : replayStart.valid = true
  increasing : (m.sealedDataSegments.map SegmentSummary.segmentID).Pairwise (· < ·)
  nodup : ∀ segment, (records segment).Nodup
  placed : ∀ id ref, entries id = some ref → ref ∈ records ref.addr.segmentID
  injective : ∀ id id' ref, entries id = some ref → entries id' = some ref → id = id'
  numbered : records 0 = []
  segments : ∀ segment, records segment ≠ [] →
    if segment = m.activeDataSegmentID then
      replayStart.segmentID = segment ∧
        RecordLog.segmentHeaderSize + ((records segment).map RecordRef.physicalSize).sum ≤ replayStart.offset
    else
      ∃ s ∈ m.sealedDataSegments, s.segmentID = segment ∧ (records segment).length ≤ s.recordCount ∧
        RecordLog.segmentHeaderSize + ((records segment).map RecordRef.physicalSize).sum ≤ s.validEnd

section Exact

variable {records : Nat → List RecordRef} {m : Manifest} {replayStart : LogPos} {entries : Entries} {segment : Nat}

/-- A segment with a live record has records. -/
theorem Catalogued.records_ne_nil (h : Catalogued records m replayStart entries)
    (hlive : liveRecords entries segment ≠ 0) : records segment ≠ [] := by
  obtain ⟨id, ref, href, hin⟩ := Lib.exists_of_tally_ne_zero hlive
  have hsegment : ref.addr.segmentID = segment := by
    by_contra hne
    exact hin (if_neg hne)
  exact ne_nil_of_mem (hsegment ▸ h.placed id ref href)

section

variable (h : Catalogued records m replayStart entries) (hfinite : FiniteMap entries)

include h hfinite

/-- What is live in a segment is among its records. -/
theorem Catalogued.tally_le {w : RecordRef → Nat} (hw : ∀ ref : RecordRef, w ref ≠ 0 → ref.addr.segmentID = segment) :
    tally w entries ≤ ((records segment).map w).sum :=
  Lib.tally_le_sum hfinite (h.nodup segment) h.injective fun id ref href hne => hw ref hne ▸ h.placed id ref href

theorem Catalogued.liveBytes_le (segment : Nat) :
    liveBytes entries segment ≤ ((records segment).map RecordRef.physicalSize).sum := by
  refine Nat.le_trans (h.tally_le hfinite fun ref hne => ?_) (sum_le_sum fun ref _ => ?_)
  · by_contra hother
    exact hne (if_neg hother)
  · unfold bytesIn
    split
    · exact Nat.le_refl _
    · exact Nat.zero_le _

theorem Catalogued.liveRecords_le (segment : Nat) : liveRecords entries segment ≤ (records segment).length := by
  have hone : ((records segment).map (recordsIn segment)).sum ≤ ((records segment).map fun _ => 1).sum := by
    refine sum_le_sum fun ref _ => ?_
    unfold recordsIn
    split
    · exact Nat.le_refl _
    · exact Nat.zero_le _
  rw [map_const', sum_replicate, smul_eq_mul, Nat.mul_one] at hone
  refine Nat.le_trans (h.tally_le hfinite fun ref hne => ?_) hone
  by_contra hother
  exact hne (if_neg hother)

end

variable {live : LiveStats} {e : Sigma fun _ : Nat => SegmentLiveStats}

/-- A counter of a mapping with valid references is not zero. -/
theorem exact_entry (hexact : Exact live entries) (hproper : Proper entries) (he : e ∈ live.entries) :
    e.2.liveBytes = liveBytes entries e.1 ∧ e.2.liveRecords = liveRecords entries e.1 ∧
      liveRecords entries e.1 ≠ 0 ∧ liveBytes entries e.1 ≠ 0 := by
  have hlookup : live.lookup e.1 = some e.2 := AList.mem_lookup_iff.mpr he
  have hcurrent : live.current e.1 = e.2 := by rw [LiveStats.current, hlookup, Option.getD_some]
  have hne : liveRecords entries e.1 ≠ 0 := by
    intro hzero
    rw [hexact.absent _ hzero] at hlookup
    cases hlookup
  have hle := Mapping.liveRecords_le hproper.finite hproper.valid e.1
  have hheader : RecordLog.recordHeaderSize = 32 := rfl
  refine ⟨hcurrent ▸ hexact.bytes e.1, hcurrent ▸ hexact.records e.1, hne, ?_⟩
  rw [hheader] at hle
  omega

/-- The live records of a segment fit its live bytes. -/
theorem liveRecords_le_div (hproper : Proper entries) (segment : Nat) :
    liveRecords entries segment ≤ liveBytes entries segment / RecordLog.recordHeaderSize := by
  rw [Nat.le_div_iff_mul_le (by decide), Nat.mul_comm]
  exact Mapping.liveRecords_le hproper.finite hproper.valid segment

/-- With increasing numbers a summary is the last one of its segment. -/
theorem find_sealed {segments : List SegmentSummary} (h : (segments.map SegmentSummary.segmentID).Pairwise (· < ·))
    {s : SegmentSummary} (hs : s ∈ segments) :
    segments.reverse.find? (fun x => x.segmentID = s.segmentID) = some s := by
  refine Manifest.find?_key SegmentSummary.segmentID ?_ (mem_reverse.mpr hs)
  rw [map_reverse, nodup_reverse]
  exact h.imp Nat.ne_of_lt

/-- **Exact counters pass the comparison.** -/
theorem Catalogued.located (h : Catalogued records m replayStart entries) (hexact : Exact live entries)
    (hproper : Proper entries) (he : e ∈ live.entries) : StatLocated m replayStart e.1 e.2 := by
  obtain ⟨hbytes, hrecords, hlive, -⟩ := exact_entry hexact hproper he
  have hsegment := h.segments e.1 (h.records_ne_nil hlive)
  have hle := h.liveBytes_le hproper.finite e.1
  unfold StatLocated
  split
  next hactive =>
    rw [if_pos hactive] at hsegment
    obtain ⟨hreplay, hoffset⟩ := hsegment
    refine ⟨hreplay, by omega, by omega, ?_⟩
    rw [hbytes, hrecords]
    exact liveRecords_le_div hproper e.1
  next hactive =>
    rw [if_neg hactive] at hsegment
    obtain ⟨s, hs, hid, hcount, hend⟩ := hsegment
    have hle' := h.liveRecords_le hproper.finite e.1
    refine ⟨s, hid ▸ find_sealed h.increasing hs, by omega, by omega, by omega⟩

/-- The counts of the catalog, for any manifest that lists the segments. -/
theorem Catalogued.validStat (h : Catalogued records m replayStart entries) (hreplay : m.replayStart = replayStart)
    (hexact : Exact live entries) (hproper : Proper entries) (he : e ∈ live.entries) :
    m.ValidStat ⟨e.1, e.2.liveBytes, e.2.liveRecords⟩ := by
  obtain ⟨hbytes, hrecords, hlive, hlive'⟩ := exact_entry hexact hproper he
  have hne := h.records_ne_nil hlive
  have hsegment := h.segments e.1 hne
  have hle := h.liveBytes_le hproper.finite e.1
  have hnumber : e.1 ≠ 0 := fun hzero => hne (hzero ▸ h.numbered)
  refine ⟨Nat.pos_of_ne_zero hnumber, ?_, ?_⟩
  · exact ⟨fun hzero => absurd (hbytes ▸ hzero) hlive', fun hzero => absurd (hrecords ▸ hzero) hlive⟩
  · dsimp only
    split
    next hactive =>
      rw [if_pos hactive] at hsegment
      refine ⟨hreplay ▸ hsegment.1, by rw [hreplay]; omega, ?_⟩
      rw [hbytes, hrecords]
      exact liveRecords_le_div hproper e.1
    next hactive =>
      rw [if_neg hactive] at hsegment
      obtain ⟨s, hs, hid, hcount, hend⟩ := hsegment
      have hle' := h.liveRecords_le hproper.finite e.1
      exact ⟨s, hs, hid, by omega, by omega⟩

/-! ## §3 — The statistics of a mapping -/

variable {maxEntries : Nat} {l : List (Sigma fun _ : Nat => SegmentLiveStats)}

/-- What the loop has collected when it succeeds. -/
theorem scan_addSegmentStat
    {result result' : List SegmentStats} (h : scan (addSegmentStat m replayStart maxEntries) result l = .ok result') :
    result' = result ++ l.map fun e => ⟨e.1, e.2.liveBytes, e.2.liveRecords⟩ := by
  induction l generalizing result with
  | nil =>
    obtain rfl := Except.ok.inj h
    exact (append_nil _).symm
  | cons e rest ih =>
    obtain ⟨middle, hone, hrest⟩ := Lib.scan_cons_eq_ok.mp h
    obtain ⟨-, hone⟩ := Lib.guard_eq_ok hone
    obtain ⟨-, hone⟩ := Lib.guard_eq_ok hone
    obtain ⟨-, hone⟩ := Lib.guard_eq_ok hone
    obtain rfl := Except.ok.inj hone
    rw [ih hrest, append_assoc]
    rfl

/-- The loop fails only for the number of entries when every counter passes. -/
theorem scan_addSegmentStat_ne {result : List SegmentStats}
    (h : ∀ e ∈ l, e.2.liveBytes ≠ 0 ∧ e.2.liveRecords ≠ 0 ∧ StatLocated m replayStart e.1 e.2) :
    scan (addSegmentStat m replayStart maxEntries) result l ≠ .error .corrupt := by
  induction l generalizing result with
  | nil => exact fun hok => (nomatch hok)
  | cons e rest ih =>
    obtain ⟨hbytes, hrecords, hlocated⟩ := h e mem_cons_self
    have hstep : addSegmentStat m replayStart maxEntries result e =
        if result.length = maxEntries then .error .overflow
        else .ok (result ++ [⟨e.1, e.2.liveBytes, e.2.liveRecords⟩]) := by
      rw [addSegmentStat, if_neg (not_or.mpr ⟨hbytes, hrecords⟩), if_neg (not_not.mpr hlocated)]
    by_cases hfull : result.length = maxEntries
    · rw [if_pos hfull] at hstep
      rw [Lib.scan_cons_error hstep]
      exact fun hcorrupt => (nomatch hcorrupt)
    · rw [if_neg hfull] at hstep
      rw [Lib.scan_cons_ok hstep]
      exact ih fun x hx => h x (mem_cons_of_mem _ hx)

/-- The live records of all counters are the entries of the mapping. -/
theorem sum_liveRecords (hexact : Exact live entries) (hproper : Proper entries) :
    (live.entries.map fun e => e.2.liveRecords).sum = entriesOf entries := by
  have hkeys : ∀ id ref, entries id = some ref → ref.addr.segmentID ∈ live.keys := by
    intro id ref href
    by_contra hnone
    have hzero := hexact.records ref.addr.segmentID
    rw [LiveStats.current, AList.lookup_eq_none.mpr (mt AList.mem_keys.mp hnone)] at hzero
    have hle : recordsIn ref.addr.segmentID ref ≤ liveRecords entries ref.addr.segmentID :=
      Lib.le_tally hproper.finite href
    rw [← hzero, recordsIn, if_pos rfl] at hle
    cases hle
  have hclasses := Lib.tally_classes hproper.finite (fun ref => ref.addr.segmentID) live.keys_nodup hkeys
  rw [entriesOf, ← hclasses, AList.keys, List.keys, map_map]
  congr 1
  refine map_congr_left fun e he => ?_
  exact (exact_entry hexact hproper he).2.1

/-- **The statistics of exact counters** are not corrupt, and a manifest that lists the segments takes them. -/
structure StatsTaken (live : LiveStats) (records : Nat → List RecordRef) (m : Manifest) (replayStart : LogPos)
    (entries : Entries) (maxEntries : Nat) : Prop where
  notCorrupt : checkpointSegmentStats live m replayStart maxEntries ≠ .error .corrupt
  increasing : ∀ stats, checkpointSegmentStats live m replayStart maxEntries = .ok stats →
    (stats.map SegmentStats.segmentID).Pairwise (· < ·)
  valid : ∀ stats, checkpointSegmentStats live m replayStart maxEntries = .ok stats →
    ∀ next : Manifest, Catalogued records next replayStart entries → next.replayStart = replayStart →
      ∀ stat ∈ stats, next.ValidStat stat
  total : ∀ stats, checkpointSegmentStats live m replayStart maxEntries = .ok stats →
    (stats.map SegmentStats.liveRecords).sum = entriesOf entries

theorem checkpointSegmentStats_eq_ok {stats : List SegmentStats}
    (h : checkpointSegmentStats live m replayStart maxEntries = .ok stats) :
    stats = (live.entries.map fun e => (⟨e.1, e.2.liveBytes, e.2.liveRecords⟩ : SegmentStats)).insertionSort
      fun a b => a.segmentID ≤ b.segmentID := by
  obtain ⟨-, h⟩ := Lib.guard_eq_ok h
  split at h
  · cases h
  next result hscan =>
    have hresult := scan_addSegmentStat hscan
    rw [nil_append] at hresult
    rw [← hresult]
    exact (Except.ok.inj h).symm

theorem Catalogued.statsTaken (h : Catalogued records m replayStart entries) (hexact : Exact live entries)
    (hproper : Proper entries) (maxEntries : Nat) : StatsTaken live records m replayStart entries maxEntries where
  notCorrupt := by
    have hscan : scan (addSegmentStat m replayStart maxEntries) [] live.entries ≠ .error .corrupt := by
      refine scan_addSegmentStat_ne fun e he => ?_
      obtain ⟨hbytes, hrecords, hlive, hlive'⟩ := exact_entry hexact hproper he
      exact ⟨hbytes ▸ hlive', hrecords ▸ hlive, h.located hexact hproper he⟩
    unfold checkpointSegmentStats
    rw [if_neg (by rw [h.valid]; exact Bool.noConfusion)]
    split
    next err herr => exact fun heq => hscan (herr.trans (congrArg _ (Except.error.inj heq)))
    next => exact fun heq => (nomatch heq)
  increasing := by
    intro stats hstats
    rw [checkpointSegmentStats_eq_ok hstats]
    refine StoreCatalog.Manifest.insertionSort_increasing SegmentStats.segmentID ?_
    rw [map_map]
    exact live.keys_nodup
  valid := by
    intro stats hstats next hnext hreplay stat hstat
    rw [checkpointSegmentStats_eq_ok hstats, (perm_insertionSort _ _).mem_iff] at hstat
    obtain ⟨e, he, rfl⟩ := mem_map.mp hstat
    exact hnext.validStat hreplay hexact hproper he
  total := by
    intro stats hstats
    rw [checkpointSegmentStats_eq_ok hstats, ((perm_insertionSort _ _).map _).sum_eq, map_map]
    exact sum_liveRecords hexact hproper

end Exact

/-! ## §4 — The counters of a running store -/

/-- **The counters of a store are exact** and the checkpoints built from them are taken. -/
structure CountersExact (s : Runtime) : Prop where
  exact : Exact s.mapping.live s.mapping.visible
  applied : ∀ plan ∈ s.plans, plan.baseCommitSeq = s.mapping.covered → (∀ p ∈ plan.proposals, p.Valid) →
    Fits plan.changes (s.after plan) → ∀ first, (applyPlanLiveStats s.mapping.live first plan).2 = .ok ()
  checkpoints : ∀ c ∈ s.candidates, s.mapping.current c.checkpoint → ∀ count, c.entryCount s.entryCount = .ok count →
    ∀ records m replayStart maxEntries, Catalogued records m replayStart c.tree.entries →
      StatsTaken c.checkpoint.live records m replayStart c.tree.entries maxEntries ∧
        entriesOf c.tree.entries = count ∧ count ≤ maxUint64

/-- The same of a mapping in memory, which has no checkpoints. -/
structure MemoryCountersExact (s : MemoryRuntime) : Prop where
  exact : Exact s.mapping.live s.mapping.visible
  applied : ∀ plan ∈ s.plans, plan.baseCommitSeq = s.mapping.covered → (∀ p ∈ plan.proposals, p.Valid) →
    Fits plan.changes (s.after plan) → ∀ first, (applyPlanLiveStats s.mapping.live first plan).2 = .ok ()

theorem entriesOf_le {entries : Entries} (h : Proper entries) : entriesOf entries ≤ maxUint64 := by
  have hkeys : ∀ id, entries id ≠ none → id ∈ Finset.Icc 1 maxUint64 := fun id hid => Finset.mem_Icc.mpr (h.ids id hid)
  have hle := Lib.tally_one_le hkeys
  rwa [Nat.card_Icc, Nat.add_sub_cancel] at hle

/-- **Live statistics are exact** in every run in which the bytes of every published group fit the counters, on disk
and in memory. -/
theorem live_stats_exact {s : Runtime} (h : runtime.Reach Runtime.Fits s) {t : MemoryRuntime}
    (ht : memoryRuntime.Reach MemoryRuntime.Fits t) : CountersExact s ∧ MemoryCountersExact t := by
  have hsound := Sound.reachable h
  have hmemory := MemorySound.reachable ht
  refine ⟨⟨hsound.exact, ?_, ?_⟩, hmemory.exact, ?_⟩
  · intro plan hplan hbase hvalid hfits first
    obtain ⟨live', happly, -⟩ := hsound.applies hplan hbase hvalid hfits first
    rw [happly]
  · intro c hc hcurrent count hcount records m replayStart maxEntries hcatalogued
    obtain ⟨hcheckpoint, hbuilt⟩ := hsound.candidates c hc
    obtain ⟨hfrozen, -⟩ := hsound.checkpoints _ hcheckpoint
    have hproper : Proper c.tree.entries := hbuilt.entries ▸ hfrozen.proper
    have hexact : Exact c.checkpoint.live c.tree.entries := hbuilt.entries ▸ hfrozen.exact
    have heq := hsound.entryCount_eq hc hcurrent.1 hcurrent.2.1 hcount
    exact ⟨hcatalogued.statsTaken hexact hproper maxEntries, heq, heq ▸ entriesOf_le hproper⟩
  · intro plan hplan hbase hvalid hfits first
    obtain ⟨live', happly, -⟩ := hmemory.applies hplan hbase hvalid hfits first
    rw [happly]

/-! ## §5 — A run, and a segment with too many bytes -/

/-- A record at the start of the first segment. -/
def firstRef : RecordRef := ⟨⟨2 ^ 32 + 64⟩, 64⟩

def firstPut : Proposal := ⟨.userCommit, [], [⟨1, firstRef, ⟨0⟩, .put⟩]⟩

def firstPlan : GroupPlan :=
  ⟨0, [⟨.userCommit, true, 1, [⟨⟨1, firstRef, ⟨0⟩, .put⟩, true, none⟩]⟩]⟩

def emptyRoot : Root := ⟨0, fun _ => none, 0⟩

def emptyRuntime : Runtime :=
  { mapping := { root := emptyRoot, covered := 0, active := .empty, frozen := [], checkpointID := 0, inCheckpoint := false
                 checkpointSortBytes := 1024, ledger := ⟨⟨512, 1024, 0, 0⟩, fun _ => ⟨0, true⟩⟩, issued := 0, live := ∅ }
    plans := [], checkpoints := [], candidates := [], entryCount := 0 }

theorem entriesOf_none : entriesOf (fun _ => none) = 0 :=
  Lib.tally_eq_zero fun _ _ h => absurd h (Option.some_ne_none _).symm

theorem emptyRuntime_init : runtime.init emptyRuntime := by
  refine ⟨emptyRoot, ⟨1024, 512, 1024⟩, 0, ∅, emptyRuntime.mapping, rfl, Nat.zero_le _, ?_, exact_empty, ?_⟩
  · exact ⟨Lib.FiniteMap.empty, fun _ _ h => absurd h (Option.some_ne_none _).symm, fun _ h => absurd rfl h⟩
  · show emptyRuntime = ⟨_, [], [], [], entriesOf fun _ => none⟩
    rw [entriesOf_none]
    rfl

def demoManifest : Manifest :=
  StoreCatalog.initialManifest (.ofByte 1) (.ofByte 2) .defaults

/-- The put is resolved and has a reservation. -/
def preparedRuntime : Runtime :=
  { emptyRuntime with
    mapping := { emptyRuntime.mapping with
      ledger := ⟨⟨512, 1024, 0, 64⟩, update (fun _ => ⟨0, true⟩) 0 ⟨64, false⟩⟩, issued := 1 }
    plans := [firstPlan] }

theorem bytesIn_demo {ref : RecordRef} (hsize : ref.physicalSize = 64) (segment : Nat) :
    bytesIn segment ref ≤ maxUint64 := by
  unfold bytesIn
  split
  · exact hsize ▸ show 64 ≤ maxUint64 by decide
  · exact Nat.zero_le _

theorem prepared_fits : Fits firstPlan.changes (preparedRuntime.after firstPlan) := by
  refine ⟨fun _ => Nat.zero_le _, bytesIn_demo rfl, fun segment => ?_⟩
  have hafter : preparedRuntime.after firstPlan = update (fun _ => none) 1 (some firstRef) := rfl
  have hzero : tally (bytesIn segment) (fun _ : Nat => none) = 0 :=
    Lib.tally_eq_zero fun _ _ h => absurd h (Option.some_ne_none _).symm
  have hone := Lib.tally_update Lib.FiniteMap.empty (bytesIn segment) 1 (some firstRef)
  rw [hzero, Nat.zero_add, Lib.weigh_none, Nat.add_zero, Lib.weigh_some] at hone
  rw [liveBytes, hafter, hone]
  exact bytesIn_demo rfl segment

def firstLayer : DeltaLayer := ⟨(∅ : AList _).insert 1 (some firstRef), 64⟩

def firstLive : LiveStats := (∅ : AList _).insert 1 ⟨64, 1, 1⟩

/-- The put is published. -/
def publishedRuntime : Runtime :=
  { preparedRuntime with
    mapping := { preparedRuntime.mapping with
      ledger := ⟨⟨512, 1024, 64, 0⟩, update (update (fun _ => ⟨0, true⟩) 0 ⟨64, false⟩) 0 ⟨64, true⟩⟩
      covered := 1, active := firstLayer, live := firstLive } }

def firstCandidate : CheckpointCandidate :=
  ⟨⟨1, emptyRoot, 1, [firstLayer], firstLive⟩, ⟨5, update (fun _ => none) 1 (some firstRef), 1⟩, ⟨1, 0⟩⟩

/-- A checkpoint is built from it. -/
def builtRuntime : Runtime :=
  { publishedRuntime with
    mapping := { publishedRuntime.mapping with
      active := .empty, frozen := [firstLayer], checkpointID := 1, inCheckpoint := true }
    checkpoints := [firstCandidate.checkpoint], candidates := [firstCandidate] }

theorem reach_built : runtime.Reach Runtime.Fits builtRuntime := by
  have hprepared : runtime.Reach Runtime.Fits preparedRuntime := by
    refine (Lib.Machine.Reach.start emptyRuntime_init).exec [.resolve [firstPut], .reserve [1]] ?_ rfl
    simp [Runtime.Fits]
  have hpublished : runtime.Reach Runtime.Fits publishedRuntime :=
    .next (e := .publish 1 firstPlan [0]) hprepared prepared_fits rfl
  refine hpublished.exec [.freeze 1, .build 0 (.ok 5)] ?_ rfl
  simp [Runtime.Fits]

def demoRecords (segment : Nat) : List RecordRef := if segment = 1 then [firstRef] else []

variable {ref : RecordRef}

theorem firstCandidate_entries {id : Nat} (h : firstCandidate.tree.entries id = some ref) :
    id = 1 ∧ ref = firstRef := by
  by_cases hid : id = 1
  · subst hid
    exact ⟨rfl, (Option.some.inj h).symm⟩
  · have hput : update (fun _ => none) 1 (some firstRef) id = some ref := h
    rw [update_of_ne hid] at hput
    cases hput

theorem firstCandidate_catalogued : Catalogued demoRecords demoManifest ⟨1, 128⟩ firstCandidate.tree.entries where
  valid := rfl
  increasing := List.Pairwise.nil
  nodup := by
    intro segment
    unfold demoRecords
    split <;> decide
  placed := by
    intro id ref h
    obtain ⟨-, rfl⟩ := firstCandidate_entries h
    decide
  injective := fun id id' ref h h' => (firstCandidate_entries h).1.trans (firstCandidate_entries h').1.symm
  numbered := rfl
  segments := by
    intro segment hne
    unfold demoRecords at hne
    split at hne
    next hone =>
      subst hone
      decide
    next => exact absurd rfl hne

/-- A record behind the first one. -/
def secondRef : RecordRef := ⟨⟨2 ^ 32 + 128⟩, 64⟩

/-- A mapping in memory over a snapshot with the first record. -/
def memoryOpened : InMemory := ⟨3, (∅ : AList _).insert 1 firstRef, (∅ : AList _).insert 1 ⟨64, 1, 3⟩⟩

/-- The second record takes its place. -/
def secondPlan : GroupPlan :=
  ⟨3, [⟨.userCommit, true, 1, [⟨⟨1, secondRef, ⟨0⟩, .put⟩, true, some firstRef⟩]⟩]⟩

def memoryPublished : InMemory := ⟨4, (∅ : AList _).insert 1 secondRef, (∅ : AList _).insert 1 ⟨64, 1, 4⟩⟩

theorem memory_fits : Fits secondPlan.changes (MemoryRuntime.after ⟨memoryOpened, [secondPlan]⟩ secondPlan) := by
  refine ⟨bytesIn_demo rfl, bytesIn_demo rfl, fun segment => ?_⟩
  have hkeys : ∀ id, MemoryRuntime.after ⟨memoryOpened, [secondPlan]⟩ secondPlan id ≠ none → id ∈ ({1} : Finset Nat) := by
    intro id hid
    by_contra hne
    rw [Finset.mem_singleton] at hne
    have hnone : update memoryOpened.visible 1 (some secondRef) id = none := by
      rw [update_of_ne hne]
      exact AList.lookup_insert_ne hne
    exact hid hnone
  rw [liveBytes, Lib.tally_eq_sum hkeys, Finset.sum_singleton]
  exact bytesIn_demo rfl segment

theorem reach_memoryPublished : memoryRuntime.Reach MemoryRuntime.Fits ⟨memoryPublished, [secondPlan]⟩ := by
  have hopened : memoryRuntime.Reach MemoryRuntime.Fits ⟨memoryOpened, []⟩ :=
    .start ⟨3, (∅ : AList _).insert 1 firstRef, memoryOpened, rfl, rfl⟩
  have hresolved : memoryRuntime.Reach MemoryRuntime.Fits ⟨memoryOpened, [secondPlan]⟩ :=
    .next (e := .resolve [⟨.userCommit, [], [⟨1, secondRef, ⟨0⟩, .put⟩]⟩]) hopened trivial rfl
  exact .next (e := .publish 4 secondPlan 1) hresolved memory_fits rfl

/-- A store that has put one record and built a checkpoint, next to a mapping in memory in which one record has taken
the place of another. -/
theorem live_stats_exact_demo : ∃ s t, CountersExact s ∧ MemoryCountersExact t ∧
    s.mapping.live.lookup 1 = some ⟨64, 1, 1⟩ ∧ t.mapping.live.lookup 1 = some ⟨64, 1, 4⟩ ∧
    ∃ c ∈ s.candidates, s.mapping.current c.checkpoint ∧ c.entryCount s.entryCount = .ok 1 ∧
      Catalogued demoRecords demoManifest ⟨1, 128⟩ c.tree.entries ∧
      checkpointSegmentStats c.checkpoint.live demoManifest ⟨1, 128⟩ 8 = .ok [⟨1, 64, 1⟩] := by
  obtain ⟨hcounters, hmemory⟩ := live_stats_exact reach_built reach_memoryPublished
  exact ⟨_, _, hcounters, hmemory, rfl, rfl, firstCandidate, mem_singleton.mpr rfl, by decide +kernel, rfl,
    firstCandidate_catalogued, rfl⟩

/-- The largest record. -/
def hugeRef : RecordRef := ⟨⟨2 ^ 32 + 64 + 6⟩, 2 ^ 32 - 8⟩

/-- So many identifiers refer to it that its bytes just fit 64 bits. -/
def hugeCount : Nat := 2 ^ 32 + 8

def hugeRoot : Root := ⟨1, fun id => if 1 ≤ id ∧ id ≤ hugeCount then some hugeRef else none, 0⟩

def hugeLive : LiveStats := (∅ : AList _).insert 1 ⟨2 ^ 64 - 64, hugeCount, 0⟩

def hugePut : Proposal := ⟨.userCommit, [], [⟨hugeCount + 1, hugeRef, ⟨0⟩, .put⟩]⟩

def hugePlan : GroupPlan :=
  ⟨0, [⟨.userCommit, true, 1, [⟨⟨hugeCount + 1, hugeRef, ⟨0⟩, .put⟩, true, none⟩]⟩]⟩

theorem tally_hugeRoot (w : RecordRef → Nat) : tally w hugeRoot.entries = hugeCount * w hugeRef := by
  have hkeys : ∀ id, hugeRoot.entries id ≠ none → id ∈ Finset.Icc 1 hugeCount := by
    intro id hid
    by_contra hout
    exact hid (if_neg fun hin => hout (Finset.mem_Icc.mpr hin))
  rw [Lib.tally_eq_sum hkeys]
  have hsum : ∀ id ∈ Finset.Icc 1 hugeCount, Lib.weigh w (hugeRoot.entries id) = w hugeRef := by
    intro id hid
    have hentry : hugeRoot.entries id = some hugeRef := if_pos (Finset.mem_Icc.mp hid)
    rw [hentry]
    rfl
  rw [Finset.sum_congr rfl hsum, Finset.sum_const, Nat.card_Icc, smul_eq_mul, Nat.add_sub_cancel]

theorem hugeRoot_entries {id : Nat} (h : hugeRoot.entries id = some ref) :
    (1 ≤ id ∧ id ≤ hugeCount) ∧ ref = hugeRef := by
  have hite : (if 1 ≤ id ∧ id ≤ hugeCount then some hugeRef else none) = some ref := h
  obtain ⟨hin, href⟩ := Option.ite_none_right_eq_some.mp hite
  exact ⟨hin, (Option.some.inj href).symm⟩

theorem hugeRoot_proper : Proper hugeRoot.entries := by
  refine ⟨?_, ?_, ?_⟩
  · refine (Set.finite_Icc 1 hugeCount).subset fun id hid => ?_
    obtain ⟨ref, href⟩ := Option.ne_none_iff_exists'.mp hid
    exact (hugeRoot_entries href).1
  · intro id ref h
    rw [(hugeRoot_entries h).2]
    decide
  · intro id hid
    obtain ⟨ref, href⟩ := Option.ne_none_iff_exists'.mp hid
    obtain ⟨⟨hpos, hle⟩, -⟩ := hugeRoot_entries href
    exact ⟨hpos, Nat.le_trans hle (by decide)⟩

theorem hugeLive_exact : Exact hugeLive hugeRoot.entries := by
  have hcurrent : ∀ segment, segment ≠ 1 → hugeLive.lookup segment = none := fun segment hne =>
    AList.lookup_insert_ne hne
  have hother : ∀ segment, segment ≠ 1 → hugeRef.addr.segmentID ≠ segment := fun _ hne heq => hne heq.symm
  refine ⟨fun segment => ?_, fun segment => ?_, fun segment hzero => ?_⟩
  · rw [liveBytes, tally_hugeRoot]
    by_cases hone : segment = 1
    · subst hone
      decide
    · rw [LiveStats.current, hcurrent segment hone, bytesIn, if_neg (hother segment hone)]
      rfl
  · rw [liveRecords, tally_hugeRoot]
    by_cases hone : segment = 1
    · subst hone
      decide
    · rw [LiveStats.current, hcurrent segment hone, recordsIn, if_neg (hother segment hone)]
      rfl
  · refine hcurrent segment fun hone => ?_
    rw [liveRecords, tally_hugeRoot, hone] at hzero
    revert hzero
    decide

def hugeRuntime : Runtime :=
  { mapping := { root := hugeRoot, covered := 0, active := .empty, frozen := [], checkpointID := 0, inCheckpoint := false
                 checkpointSortBytes := 1024, ledger := ⟨⟨512, 1024, 0, 0⟩, fun _ => ⟨0, true⟩⟩, issued := 0
                 live := hugeLive }
    plans := [], checkpoints := [], candidates := [], entryCount := hugeCount }

theorem hugeRuntime_init : runtime.init hugeRuntime := by
  refine ⟨hugeRoot, ⟨1024, 512, 1024⟩, 0, hugeLive, hugeRuntime.mapping, rfl, Nat.zero_le _, hugeRoot_proper,
    hugeLive_exact, ?_⟩
  rw [entriesOf, tally_hugeRoot, Nat.mul_one]
  rfl

/-- A put of one more of the records is resolved and has a reservation. -/
def hugePrepared : Runtime :=
  { hugeRuntime with
    mapping := { hugeRuntime.mapping with
      ledger := ⟨⟨512, 1024, 0, 64⟩, update (fun _ => ⟨0, true⟩) 0 ⟨64, false⟩⟩, issued := 1 }
    plans := [hugePlan] }

/-- **The bytes of a segment can overflow**: with exact counters, a current plan and a reservation the publication of a
plan is corrupt. -/
theorem live_stats_overflow : ∃ s, runtime.Reachable s ∧ ∃ plan ∈ s.plans, plan.baseCommitSeq = s.mapping.covered ∧
    (applyPlanLiveStats s.mapping.live 1 plan).2 = .error .corrupt ∧
    (s.mapping.publishGroup 1 plan [0]).2 = .error .corrupt := by
  have hreach : runtime.Reachable hugePrepared :=
    (Lib.Machine.Reach.start hugeRuntime_init).exec [.resolve [hugePut], .reserve [hugeCount + 1]]
      (fun _ _ _ => trivial) rfl
  exact ⟨hugePrepared, hreach, hugePlan, mem_singleton.mpr rfl, rfl, rfl, rfl⟩

end Ridstore.Engine
