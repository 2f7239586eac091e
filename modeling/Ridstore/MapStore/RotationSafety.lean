import Ridstore.MapStore.RotationSteps

/-
# Ridstore.MapStore.RotationSafety — the mapping store recovers from a crash at every step

No check of a recovery fails, and after at most fourteen operations the store is open again, with one
active segment and every node of the tree as it was appended.
-/

namespace Ridstore.MapStore

open Lib StoreCatalog List Function Option

/-! ## §1 — The recovery of a rotation -/

section Recovery

variable {s : State} {j : RotationJournal}

/-- The journal says what is left to do. -/
theorem Inv.loadJournal (h : Inv s) (hp : s.phase = .load) : Inv s.loadJournal ∧ Progress s s.loadJournal := by
  obtain ⟨⟨hsynced, hnew⟩, hm⟩ := h.at_phase hp
  have hm' : s.memory = none := hm
  have hfits := h.fits _ s.journal.survives_current
  rw [State.loadJournal]
  cases hj : s.journal.current with
  | absent =>
    rw [hj] at hfits
    have hsync : s.journal.sync = .of .absent := congrArg Cell.of hj
    refine ⟨?_, .next hp rfl rfl (by show 1 < 14; decide)⟩
    refine h.step_files s.files _ s.journal.sync s.memory .openFiles h.files.syncNames (fun _ _ => .refl _) ?_
      ⟨Settled.syncNames hfits, hsync⟩ hm'
    exact .of_synced hsync (Settled.syncNames hfits)
  | temp =>
    rw [hj] at hfits
    refine ⟨?_, .next hp rfl rfl (by show 2 < 14; decide)⟩
    refine h.step_files s.files s.names _ s.memory .removeSync h.files (fun _ _ => .refl _) ?_ ⟨hfits, rfl⟩ ?_
    · intro file hfile
      rcases Cell.survives_write.mp hfile with rfl | hold
      · exact hfits
      · exact h.fits file hold
    · intro m hsome
      rw [hm'] at hsome
      cases hsome
  | installed j =>
    have hj' : s.journal = .of (.installed j) := by
      rw [(hsynced (by rw [hj]; rfl)).eq_of, hj]
    rw [hj] at hfits
    obtain ⟨hbase, hcases⟩ := hfits
    dsimp only
    rw [if_neg (Nat.not_lt.mpr hbase)]
    rcases hcases with ⟨hr, -⟩ | hc
    · obtain ⟨hnot, hsegments⟩ := h.not_taken hr
      rw [if_neg hnot, if_neg hsegments]
      exact ⟨h.step_memory s.memory (.resumeSeal j) ⟨hr, hj', hnew⟩ hm', .next hp rfl rfl (by show 13 < 14; decide)⟩
    · rw [if_pos (hc.committedRotation h.files rfl)]
      exact ⟨h.step_memory s.memory (.verify j) ⟨hc, hj'⟩ hm', .next hp rfl rfl (by show 4 < 14; decide)⟩

/-- A store that is being opened has no memory yet. -/
theorem no_memory (hm : s.memory = none) {P : Memory → Prop} (m : Memory) (hsome : s.memory = some m) : P m := by
  rw [hm] at hsome
  cases hsome

/-- The scan of the old segment up to the end in the journal finds what the journal says. -/
theorem Rotating.scanNodes {v : View} (hr : Rotating v j) (root : MapAddr) :
    (v.files v.active).scanNodes (v.header v.active) j.old.validEnd root = .ok (j.old, false) := by
  rw [hr.old_validEnd, hr.journal.old]
  rcases hr.file.shape with ⟨hplain, -⟩ | hfooted
  · rw [File.scanNodes, hplain.drop]
    exact scanFrom_nodes hr.file.full.ordered rfl hr.file.full.room
  · exact hfooted.scanNodes hr.file.full.ordered hr.file.full.room

/-- **The old segment is sealed after the crash**: it has all its nodes. -/
theorem Inv.resumeSeal (h : Inv s) (hp : s.phase = .resumeSeal j) :
    Inv (s.resumeSeal j) ∧ Progress s (s.resumeSeal j) := by
  obtain ⟨⟨hr, hj, hnew⟩, hm⟩ := h.at_phase hp
  have hm' : s.memory = none := hm
  simp only [State.resumeSeal, hr.old_segmentID]
  rcases hr.oldName _ (s.names s.view.active).survives_current with hname | ⟨hname, hsealed⟩
  · -- The segment still has its active name.
    have hheader : (s.files s.view.active).verifyHeader (s.header s.view.active) = .ok () := by
      rcases hr.file.shape with ⟨hplain, -⟩ | hfooted
      · exact hplain.verifyHeader
      · exact hfooted.verifyHeader
    have hend : j.old.validEnd = (s.files s.view.active).nodesEnd := hr.old_validEnd
    have hscan : (s.files s.view.active).scanNodes (s.header s.view.active) (s.files s.view.active).nodesEnd
        s.manifest.mappingRoot = .ok (j.old, false) := by
      rw [← hend]
      exact hr.scanNodes s.manifest.mappingRoot
    have hsize : ¬ ((s.files s.view.active).size < (s.files s.view.active).nodesEnd ∨
        (s.files s.view.active).nodesEnd + segmentFooterSize < (s.files s.view.active).size) := by
      rcases hr.file.shape with ⟨hplain, hlt⟩ | hfooted
      · have hle : (s.files s.view.active).nodesEnd ≤ (s.files s.view.active).size := File.nodesEnd_le_size hplain
        have hlt' : (s.files s.view.active).size < (s.files s.view.active).nodesEnd + segmentFooterSize := hlt
        omega
      · have heq : (s.files s.view.active).size = (s.files s.view.active).nodesEnd + segmentFooterSize := hfooted.size
        omega
    have hactual : ¬ ((false : Bool) = true ∨ j.old ≠ j.old) := by simp
    have hname' : s.name s.view.active = some .active := hname
    simp only [hname', hend, hheader, if_neg hsize, hscan, if_neg hactual]
    rcases hr.file.shape with ⟨hplain, hlt⟩ | hfooted
    · -- The footer is missing or torn and is written again.
      have hlt' : (s.files s.view.active).size < (s.files s.view.active).nodesEnd + segmentFooterSize := hlt
      rw [if_pos (Nat.ne_of_lt hlt')]
      exact ⟨h.writeFooter hr hj hplain hlt' (no_memory hm), .next hp rfl rfl (by show 12 < 13; decide)⟩
    · -- The footer is there.
      have heq : (s.files s.view.active).size = (s.files s.view.active).nodesEnd + segmentFooterSize := hfooted.size
      have hfooter : (s.files s.view.active).footerAt (s.files s.view.active).nodesEnd = .ok j.old := by
        rw [hr.journal.old]
        exact hfooted.footerAt
      simp only [heq, ne_eq, not_true_eq_false, if_false, hfooter, if_true]
      exact ⟨h.step_memory s.memory (.footerSync j) ⟨hr, hj, hfooted⟩ (no_memory hm),
        .next hp rfl rfl (by show 12 < 13; decide)⟩
  · have hopen : s.openSealed s.view.active j.old.validEnd = .ok j.old := by
      rw [hr.old_validEnd, hr.journal.old]
      exact s.openSealed_ok s.view.active hname hsealed hr.file.full
    have hname' : s.name s.view.active = some .sealed := hname
    simp only [hname', hopen]
    exact ⟨h.step_memory s.memory (.ensureActive j) ⟨⟨hr, hsealed, hname⟩, hj, hnew⟩ hm',
      .next hp rfl rfl (by show 9 < 13; decide)⟩

/-- An active segment with its header only opens and has nothing to repair. -/
theorem Disk.openActive_newFile (d : Disk) (id : Nat) (root : MapAddr) (hname : d.name id = some .active)
    (hfile : d.files id = newFile (d.view.header id))
    (hroom : segmentHeaderSize + segmentFooterSize ≤ d.manifest.segmentSize) :
    d.openActive id root = .ok (d, summaryOf id [], false) := by
  have hactive : ActiveFile (d.view.header id) (newFile (d.view.header id)) := ActiveFile.newFile hroom
  have hopen : (d.files id).openActive (d.header id) root = .ok (summaryOf id [], false) := by
    rw [hfile]
    exact hactive.plain.openActive rfl hactive.ordered hactive.room
  simp only [Disk.openActive, if_pos hname, hopen, if_neg Bool.false_ne_true]

/-- A name of the new segment that is not the active one has no active one behind it. -/
theorem View.NewSynced.not_active {v : View} (h : v.NewSynced) (hname : (v.names v.next).current ≠ some .active)
    {a : Option Name} (ha : (v.names v.next).Survives a) : a ≠ some .active := by
  rintro rfl
  rw [(h ha).1.eq_of, Cell.survives_of] at ha
  exact hname ha.symm

/-- **The new segment is there or is created.** -/
theorem Inv.ensureActive (h : Inv s) (hp : s.phase = .ensureActive j) :
    Inv (s.ensureActive j) ∧ Progress s (s.ensureActive j) := by
  obtain ⟨⟨hs, hj, hnew⟩, hm⟩ := h.at_phase hp
  have hm' : s.memory = none := hm
  have hnext : j.newActive = s.view.next := hs.rotating.journal.newActive
  have hsurvives := (s.names s.view.next).survives_current
  simp only [State.ensureActive, hnext]
  rcases hs.rotating.newName _ hsurvives with hname | hname | ⟨hname, hfile⟩
  · have hname' : s.name s.view.next = none := hname
    simp only [hname']
    refine ⟨h.step_memory s.memory (.create j) ⟨hs, hj, hname, fun b hb => hnew.not_active ?_ hb⟩ (no_memory hm),
      .next hp rfl rfl (by show 8 < 9; decide)⟩
    rw [show (s.view.names s.view.next).current = none from hname]
    nofun
  · -- A segment that was being created is removed first.
    have hname' : s.name s.view.next = some .creating := hname
    simp only [hname']
    refine ⟨?_, .next hp rfl rfl (by show 8 < 9; decide)⟩
    have hactive : ∀ b, (s.names s.view.next).Survives b → b ≠ some .active := fun b hb => by
      refine hnew.not_active ?_ hb
      rw [show (s.view.names s.view.next).current = some .creating from hname]
      nofun
    have hstep := h.step_next hs hj (s.files s.view.next) ((s.names s.view.next).write none) (.create j) ?_ ?_
      (fun _ hok => hok) (no_memory hm)
    · rw [update_eq_self] at hstep
      exact hstep
    · intro b hb
      rcases Cell.survives_write.mp hb with rfl | hold
      · exact .inl rfl
      · exact hs.rotating.newName b hold
    · intro hs'
      refine ⟨hs', hj, ?_, ?_⟩
      · show (update s.names s.view.next _ s.view.next).current = none
        rw [update_self, Cell.current_write]
      · intro b hb
        have hb' : (update s.names s.view.next ((s.names s.view.next).write none) s.view.next).Survives b := hb
        rw [update_self] at hb'
        rcases Cell.survives_write.mp hb' with rfl | hold
        · nofun
        · exact hactive b hold
  · -- Both names are synced, so the catalog may take the rotation.
    have hname' : s.name s.view.next = some .active := hname
    obtain ⟨hsynced, hsynced'⟩ := hnew (hname ▸ hsurvives)
    have hroom : segmentHeaderSize + segmentFooterSize ≤ s.manifest.segmentSize := by
      have hfull := hs.rotating.file.full.room
      exact Nat.le_trans (Nat.add_le_add_right (Nat.le_add_right _ _) _) hfull
    have hopen := s.openActive_newFile s.view.next ⟨0⟩ hname' hfile hroom
    have hcount : ¬ ((false : Bool) = true ∨ (summaryOf s.view.next []).nodeCount ≠ 0) := by
      rw [summaryOf_nodeCount]
      simp
    simp only [hname', hopen, if_neg hcount]
    refine ⟨h.step_memory s.memory (.install j s.manifest.generation 0) ⟨hs, hj, hfile, ?_, ?_⟩
      ⟨(no_memory hm), fun _ => rfl⟩, .next hp rfl rfl (by show 4 < 9; decide)⟩
    · rw [hsynced.eq_of]
      exact congrArg Cell.of hname
    · rw [hsynced'.eq_of]
      exact congrArg Cell.of hs.name

/-- The files of a rotation that the catalog has taken open. -/
theorem Inv.verifyCommitted (h : Inv s) (hp : s.phase = .verify j) :
    Inv (s.verifyCommitted j) ∧ Progress s (s.verifyCommitted j) := by
  obtain ⟨⟨hc, hj⟩, hm⟩ := h.at_phase hp
  have hm' : s.memory = none := hm
  have hsealed : s.openSealed j.old.segmentID j.old.validEnd =
      .ok (summaryOf j.old.segmentID (s.files j.old.segmentID).nodes) := by
    have hend : j.old.validEnd = (s.files j.old.segmentID).nodesEnd := h.files.validEnd _ hc.old
    rw [hend]
    exact s.openSealed_ok _ (congrArg Cell.current (h.files.sealedNames _ hc.old)) (h.files.sealedFiles _ hc.old)
      (h.files.full _ hc.old)
  have hactive := s.openActive_newFile s.view.active s.manifest.mappingRoot (congrArg Cell.current hc.settled.name)
    hc.file (by
      have hroom := hc.settled.file.room
      rw [hc.file] at hroom
      exact hroom)
  rw [State.verifyCommitted, hsealed, show j.newActive = s.view.active from hc.newActive, hactive]
  exact ⟨h.step_memory s.memory (.removeJournal j) ⟨hc, hj⟩ (no_memory hm'), .next hp rfl rfl (by show 3 < 4; decide)⟩

end Recovery

/-! ## §2 — The opening of the files -/

section Opening

variable {s : State} {d : Disk} {acc : Nat × Nat} {nodes : List Node} {id : Nat}

/-- The nodes of one more file come after those of the files before it. -/
theorem nextSequence_ok (hacc : acc.2 = acc.1 + 1) (hlt : acc.1 < maxUint64) (hfollows : Follows (.empty id) nodes)
    (hnodes : ∀ n ∈ nodes, acc.1 < n.nodeSeq ∧ n.nodeSeq < maxUint64) :
    ∃ last, nextSequence acc (summaryOf id nodes) = .ok (last, last + 1) ∧ acc.1 ≤ last ∧ last < maxUint64 ∧
      (∀ n ∈ nodes, n.nodeSeq ≤ last) ∧
      (nodes = [] ∧ last = acc.1 ∨ last = (summaryOf id nodes).lastSeq ∧ ∃ n ∈ nodes, last = n.nodeSeq) := by
  by_cases hne : nodes = []
  · subst hne
    refine ⟨acc.1, ?_, Nat.le_refl _, hlt, nofun, .inl ⟨rfl, rfl⟩⟩
    rw [nextSequence, summaryOf_nodeCount, if_pos length_nil, ← hacc]
  · obtain ⟨first, hfirst, hfirstSeq⟩ := summaryOf_firstSeq id hne
    obtain ⟨last, hlast, hlastSeq⟩ := summaryOf_lastSeq id hne
    have h1 := hnodes first hfirst
    have h2 := hnodes last hlast
    have hcount : (summaryOf id nodes).nodeCount ≠ 0 := by
      rw [summaryOf_nodeCount]
      exact fun hzero => hne (length_eq_zero_iff.mp hzero)
    refine ⟨(summaryOf id nodes).lastSeq, ?_, by omega, by omega, fun n hn => nodeSeq_le_summaryOf hfollows hn,
      .inr ⟨rfl, last, hlast, hlastSeq⟩⟩
    rw [nextSequence, if_neg hcount, if_neg (by omega), if_neg (by omega), if_neg (by omega)]

/-- **The sealed segments open**, one after the other. -/
theorem FilesOk.openSealedSegments (hv : FilesOk d.view) {refs : List MapSegmentSummary}
    (hsub : ∀ ref ∈ refs, ref ∈ d.view.set.sealedSegments)
    (hincreasing : refs.Pairwise fun a b => ∀ n ∈ d.view.nodes a.segmentID, ∀ m ∈ d.view.nodes b.segmentID,
      n.nodeSeq < m.nodeSeq)
    (hacc : acc.2 = acc.1 + 1) (hlt : acc.1 < maxUint64)
    (habove : ∀ ref ∈ refs, ∀ n ∈ d.view.nodes ref.segmentID, acc.1 < n.nodeSeq) :
    ∃ last, scan d.openSealedSegment acc refs = .ok (last, last + 1) ∧ acc.1 ≤ last ∧ last < maxUint64 ∧
      (∀ ref ∈ refs, ∀ n ∈ d.view.nodes ref.segmentID, n.nodeSeq ≤ last) ∧
      (last = acc.1 ∨ ∃ ref ∈ refs, ∃ n ∈ d.view.nodes ref.segmentID, last = n.nodeSeq) := by
  induction refs generalizing acc with
  | nil => exact ⟨acc.1, by rw [scan_nil, ← hacc], Nat.le_refl _, hlt, nofun, .inl rfl⟩
  | cons ref rest ih =>
    have href := hsub ref mem_cons_self
    obtain ⟨hfirst, hrest⟩ := pairwise_cons.mp hincreasing
    have hopen : d.openSealed ref.segmentID ref.validEnd =
        .ok (summaryOf ref.segmentID (d.view.nodes ref.segmentID)) := by
      rw [hv.validEnd ref href]
      exact d.openSealed_ok _ (congrArg Cell.current (hv.sealedNames ref href)) (hv.sealedFiles ref href)
        (hv.full ref href)
    obtain ⟨mid, hmid, hle, hmidlt, hmidnodes, hmidcases⟩ := nextSequence_ok hacc hlt (hv.full ref href).ordered
      fun n hn => ⟨habove ref mem_cons_self n hn, (hv.bounds _ (.inr ⟨ref, href, rfl⟩) n hn).2⟩
    have hstep : d.openSealedSegment acc ref = .ok (mid, mid + 1) := by
      rw [Disk.openSealedSegment, hopen]
      exact hmid
    -- The number of the last node so far is below those of the files that follow.
    have hmid' : (mid, mid + 1).2 = (mid, mid + 1).1 + 1 := rfl
    obtain ⟨last, hlast, hle', hlastlt, hlastnodes, hlastcases⟩ := ih
      (fun r hr => hsub r (mem_cons_of_mem _ hr)) hrest hmid' hmidlt (by
        intro r hr n hn
        rcases hmidcases with ⟨-, heq⟩ | ⟨-, m, hm, heq⟩
        · rw [heq]
          exact habove r (mem_cons_of_mem _ hr) n hn
        · rw [heq]
          exact hfirst r hr m hm n hn)
    refine ⟨last, by rw [scan_cons_ok hstep, hlast], Nat.le_trans hle hle', hlastlt, ?_, ?_⟩
    · intro r hr n hn
      rcases mem_cons.mp hr with rfl | hr
      · exact Nat.le_trans (hmidnodes n hn) hle'
      · exact hlastnodes r hr n hn
    · rcases hlastcases with heq | ⟨r, hr, n, hn, heq⟩
      · rcases hmidcases with ⟨-, heq'⟩ | ⟨-, n, hn, heq'⟩
        · exact .inl (heq.trans heq')
        · exact .inr ⟨ref, mem_cons_self, n, hn, heq.trans heq'⟩
      · exact .inr ⟨r, mem_cons_of_mem _ hr, n, hn, heq⟩

/-- **The active segment opens**; a torn tail is cut off. -/
theorem Inv.openActive (h : Inv s) (hsettled : Settled s.view) :
    ∃ f repaired, s.openActive s.view.active s.manifest.mappingRoot =
        .ok (s.setFile s.view.active f, summaryOf s.view.active (s.view.nodes s.view.active), repaired) ∧
      ActiveFile (s.view.header s.view.active) f ∧ f.torn = none ∧ (s.files s.view.active).SameNodes f := by
  have hfile := hsettled.file
  have hname : s.name s.view.active = some .active := congrArg Cell.current hsettled.name
  by_cases htorn : (s.files s.view.active).torn = none
  · have hopen : (s.files s.view.active).openActive (s.header s.view.active) s.manifest.mappingRoot =
        .ok (summaryOf s.view.active (s.view.nodes s.view.active), false) :=
      hfile.plain.openActive htorn hfile.ordered hfile.room
    refine ⟨s.files s.view.active, false, ?_, hfile, htorn, .refl _⟩
    simp only [Disk.openActive, if_pos hname, hopen, if_neg Bool.false_ne_true, Disk.setFile,
      update_eq_self]
  · have hopen : (s.files s.view.active).openActive (s.header s.view.active) s.manifest.mappingRoot =
        .ok (summaryOf s.view.active (s.view.nodes s.view.active), true) :=
      hfile.plain.openActive_torn htorn hfile.torn hfile.ordered hfile.room fun hroot =>
        h.root_lt (fun _ _ hat => hfile.plain.node_le hat) hroot
    refine ⟨(s.files s.view.active).truncate.sync, true, ?_, hfile.truncate, rfl, File.sameNodes_truncate _⟩
    simp only [Disk.openActive, if_pos hname, hopen, if_true]

variable {summary : SegmentSummary}

/-- A node of the set is read by the store that is open. -/
theorem FilesOk.read_ok (hv : FilesOk d.view) {addr : MapAddr} {n : Node}
    (hplain : (d.files d.view.active).Plain (d.view.header d.view.active))
    (hend : summary.validEnd = (d.files d.view.active).nodesEnd) (hvalid : addr.valid = true)
    (hin : d.view.Listed addr.segmentID)
    (hat : pieceAt Piece.size (d.files addr.segmentID).pieces addr.offset = some (.node n)) :
    d.read d.view.active summary addr = .ok n := by
  rw [Disk.read, if_neg (by rw [hvalid]; nofun)]
  by_cases hactive : addr.segmentID = d.view.active
  · rw [hactive] at hat
    rw [if_pos hactive, hend]
    exact File.readNodeAt_ok hat (hplain.node_le hat)
  · obtain heq | ⟨ref, href, hid⟩ := hin
    · exact absurd heq hactive
    rw [if_neg hactive]
    cases hfind : d.manifest.sealedMapSegments.find? fun r => r.segmentID = addr.segmentID with
    | none =>
      rw [List.find?_eq_none] at hfind
      exact absurd (decide_eq_true hid) (hfind ref href)
    | some r =>
      have hid' : r.segmentID = addr.segmentID := by simpa using List.find?_some hfind
      have hr : r ∈ d.view.set.sealedSegments := mem_of_find?_eq_some hfind
      rw [← hid'] at hat
      have hend' : r.validEnd = (d.files r.segmentID).nodesEnd := hv.validEnd r hr
      dsimp only
      rw [hend']
      exact File.readNodeAt_ok hat ((hv.sealedFiles r hr).footed.node_le hat)

/-- The root of the manifest is found after the opening. -/
theorem Inv.rootValid (h : Inv s) (hv : FilesOk d.view) (hmanifest : d.manifest = s.manifest)
    (hplain : (d.files d.view.active).Plain (d.view.header d.view.active))
    (hend : summary.validEnd = (d.files d.view.active).nodesEnd)
    (hkeeps : ∀ id, s.view.Listed id → (s.files id).Keeps (d.files id)) : d.rootValid summary = true := by
  rw [Disk.rootValid, hmanifest]
  rcases h.root_found with hzero | ⟨n, hread, hlevel, hpre, hcovered⟩
  · rw [decide_eq_true hzero, Bool.true_or]
  · obtain ⟨hvalid, hin, hsynced⟩ := Disk.syncedReader_eq_ok.mp hread
    have hin' : d.view.Listed s.manifest.mappingRoot.segmentID := by
      rw [show d.view.Listed _ ↔ s.view.Listed _ from by rw [View.Listed, View.Listed, Disk.view, hmanifest]; rfl]
      exact hin
    have hread' := hv.read_ok hplain hend hvalid hin' (hkeeps _ hin _ _ hsynced).1
    have hactive : d.view.active = s.manifest.activeMapSegmentID := by
      show d.manifest.activeMapSegmentID = _
      rw [hmanifest]
    rw [hactive] at hread'
    rw [hread']
    simp [hlevel, hpre, hcovered]

/-- The check of the catalog's snapshot passes. -/
theorem Inv.snapshotValid (h : Inv s) : s.snapshotValid = true := by
  have hactive : s.manifest.activeMapSegmentID < maxUint32 := h.files.active
  have hnext : s.manifest.nextMapSegmentID = s.manifest.activeMapSegmentID + 1 := h.files.next
  rw [Disk.snapshotValid, decide_eq_true (Nat.ne_of_lt hactive), decide_eq_true hnext]
  rfl

/-- **The files open** and the store is in memory again. -/
theorem Inv.openFiles (h : Inv s) (hp : s.phase = .openFiles) : Inv s.openFiles ∧ Progress s s.openFiles := by
  obtain ⟨⟨hsettled, hj⟩, -⟩ := h.at_phase hp
  have hsnapshot : ¬ s.snapshotValid = false := Bool.not_eq_false _ ▸ h.snapshotValid
  obtain ⟨hpairs, -, hlastPairs⟩ := pairwise_append.mp h.files.increasing
  have hzero : ((0 : Nat), (1 : Nat)).2 = ((0 : Nat), (1 : Nat)).1 + 1 := rfl
  obtain ⟨last, hscan, -, hlastlt, hlastnodes, hlastcases⟩ := h.files.openSealedSegments (fun _ href => href)
    (pairwise_map.mp hpairs) hzero (by decide) fun ref href n hn =>
      (h.files.bounds _ (.inr ⟨ref, href, rfl⟩) n hn).1
  obtain ⟨f, repaired, hopen, hfile, htorn, hsame⟩ := h.openActive hsettled
  -- The nodes of the active segment come after those of the sealed ones.
  have hactive : ∀ n ∈ s.view.nodes s.view.active, last < n.nodeSeq ∧ n.nodeSeq < maxUint64 := by
    intro n hn
    obtain ⟨hpos, hlt⟩ := h.files.bounds _ (.inl rfl) n hn
    refine ⟨?_, hlt⟩
    rcases hlastcases with rfl | ⟨ref, href, m, hm, rfl⟩
    · exact hpos
    · exact hlastPairs _ (mem_map.mpr ⟨ref, href, rfl⟩) _ (mem_singleton.mpr rfl) m hm n hn
  have hlast' : (last, last + 1).2 = (last, last + 1).1 + 1 := rfl
  obtain ⟨final, hfinal, hle, hfinallt, hfinalnodes, hfinalcases⟩ :=
    nextSequence_ok hlast' hlastlt hsettled.file.ordered hactive
  have hfiles : FilesOk (s.view.setFile s.view.active f) :=
    h.files.setActiveFile fun n hn => by rwa [hsame.nodes] at hn
  have hend : (summaryOf s.view.active (s.view.nodes s.view.active)).validEnd = f.nodesEnd := by
    rw [summaryOf_validEnd, File.nodesEnd, hsame.nodes]
    rfl
  have hroot : (s.setFile s.view.active f).rootValid (summaryOf s.view.active (s.view.nodes s.view.active)) = true := by
    refine h.rootValid (d := s.setFile s.view.active f) hfiles rfl ?_ ?_ fun id _ =>
      (File.sameNodes_update hsame id).keeps
    · show ((s.view.setFile s.view.active f).files s.view.active).Plain (s.view.header s.view.active)
      rw [View.setFile_self]
      exact hfile.plain
    · show _ = ((s.view.setFile s.view.active f).files s.view.active).nodesEnd
      rw [View.setFile_self]
      exact hend
  have hstate : s.openFiles =
      { s with
        files := update s.files s.view.active f
        memory := some ⟨s.view.active, s.view.next, summaryOf s.view.active (s.view.nodes s.view.active), final + 1,
          false, none⟩
        phase := .idle } := by
    have hscan' : scan s.openSealedSegment (0, 1) s.manifest.sealedMapSegments = .ok (last, last + 1) := hscan
    have hopen' : s.openActive s.manifest.activeMapSegmentID s.manifest.mappingRoot =
        .ok (s.setFile s.view.active f, summaryOf s.view.active (s.view.nodes s.view.active), repaired) := hopen
    have hfinal' : nextSequence (last, last + 1) (summaryOf s.view.active (s.view.nodes s.view.active)) =
        .ok (final, final + 1) := hfinal
    simp only [State.openFiles, if_neg hsnapshot, hscan', hopen', hfinal', if_pos hroot]
    rfl
  have hsettled' : Settled (s.view.setFile s.view.active f) := hsettled.setActiveFile hfile
  rw [hstate]
  refine ⟨?_, fun _ => ⟨rfl, .inr ⟨_, rfl⟩⟩⟩
  refine h.step_files _ s.names s.journal _ .idle hfiles (fun id _ => File.sameNodes_update hsame id) ?_ ?_ ?_
  · exact .of_synced hj hsettled'
  · refine ⟨hsettled', ?_, hj⟩
    show ((s.view.setFile s.view.active f).files s.view.active).torn = none
    rw [View.setFile_self]
    exact htorn
  · refine ⟨_, rfl, MemoryOk.frame (v := s.view) ?_ fun id _ => (File.sameNodes_update hsame id).nodes⟩
    exact
    { active := rfl
      next := rfl
      summary := rfl
      follows := by
        rcases hfinalcases with ⟨hnil, -⟩ | ⟨heq, -⟩
        · left
          rw [summaryOf_nodeCount]
          exact congrArg List.length hnil
        · exact .inr (congrArg (· + 1) heq)
      seq :=
      { pos := Nat.succ_pos _
        le := hfinallt
        pending := fun hne => absurd rfl hne
        above := by
          rintro id (rfl | ⟨ref, href, rfl⟩) n hn
          · exact Nat.lt_succ_of_le (hfinalnodes n hn)
          · exact Nat.lt_succ_of_le (Nat.le_trans (hlastnodes ref href n hn) hle) } }

end Opening

/-! ## §3 — Runs -/

section Runs

variable {s s' : State} {e : Event} {m : Memory}

/-- **Every operation keeps the invariant** and brings a recovery closer to its end. -/
theorem Inv.advance (h : Inv s) : s.phase = .idle ∨ ∃ s', s.advance = some s' ∧ Inv s' ∧ Progress s s' := by
  rw [State.advance]
  cases hp : s.phase with
  | idle => exact .inl rfl
  | journalRename j =>
    obtain ⟨-, ⟨m, hm, -⟩, -⟩ := h.at_phase hp
    exact .inr ⟨_, rfl, h.journalRename hp, .of_running hm⟩
  | journalSync j =>
    obtain ⟨-, m, hm, -⟩ := h.at_phase hp
    exact .inr ⟨_, rfl, h.journalSync hp, .of_running hm⟩
  | footer j =>
    obtain ⟨-, m, hm, -⟩ := h.at_phase hp
    exact .inr ⟨_, rfl, h.footer hp, .of_running hm⟩
  | footerSync j => exact .inr ⟨_, rfl, h.footerSync hp, .next hp rfl rfl (Nat.lt_succ_self 11)⟩
  | sealRename j => exact .inr ⟨_, rfl, h.sealRename hp, .next hp rfl rfl (Nat.lt_succ_self 10)⟩
  | sealSync j =>
    have hnext := h.sealSync hp
    rw [State.advance, hp] at hnext
    exact .inr hnext
  | create j =>
    have hnext := h.create hp
    rw [State.advance, hp] at hnext
    exact .inr hnext
  | createSync j => exact .inr ⟨_, rfl, h.createSync hp, .next hp rfl rfl (Nat.lt_succ_self 6)⟩
  | createRename j => exact .inr ⟨_, rfl, h.createRename hp, .next hp rfl rfl (Nat.lt_succ_self 5)⟩
  | createDirSync j => exact .inr ⟨_, rfl, h.createDirSync hp, .next hp rfl rfl (Nat.lt_succ_self 4)⟩
  | install => exact .inr ⟨_, rfl, h.install hp⟩
  | removeJournal j =>
    refine .inr ⟨_, rfl, h.removeJournal hp, fun hnone => ⟨rfl, .inl ⟨?_, ?_⟩⟩⟩
    · rw [hnone]
      rfl
    · rw [hp]
      exact Nat.lt_succ_self 2
  | removeSync => exact .inr ⟨_, rfl, h.removeSync hp⟩
  | load => exact .inr ⟨_, rfl, h.loadJournal hp⟩
  | resumeSeal j => exact .inr ⟨_, rfl, h.resumeSeal hp⟩
  | ensureActive j => exact .inr ⟨_, rfl, h.ensureActive hp⟩
  | verify j => exact .inr ⟨_, rfl, h.verifyCommitted hp⟩
  | openFiles => exact .inr ⟨_, rfl, h.openFiles hp⟩
  | failed err => exact (h.at_phase hp).1.elim

/-- **Every event keeps the invariant.** -/
theorem Inv.step (h : Inv s) (hsynced : RotatesSynced s e) (hstep : s.step e = some s') : Inv s' := by
  cases e with
  | append build =>
    obtain ⟨m, hready, rfl⟩ := map_eq_some_iff.mp hstep
    exact h.append hready (hsynced.1 m hready)
  | sync =>
    obtain ⟨m, hready, rfl⟩ := map_eq_some_iff.mp hstep
    exact h.sync hready
  | advance =>
    obtain ⟨-, hstep⟩ := ite_none_left_eq_some.mp hstep
    rcases h.advance with hidle | ⟨s₁, hadvance, hinv, -⟩
    · rw [State.advance, hidle] at hstep
      cases hstep
    · rw [hadvance, Option.some.injEq] at hstep
      rw [← hstep]
      exact hinv
  | checkpoint base update =>
    simp only [State.step] at hstep
    split at hstep
    next m found next hready hwalk hinstall =>
      obtain ⟨hp, hm, -⟩ := ready_eq_some hready
      obtain ⟨-, ⟨hvalid, -⟩, rfl⟩ := Manifest.installCheckpoint_eq_ok hinstall
      rw [Option.some.injEq] at hstep
      subst hstep
      exact h.step_catalog rfl rfl hsynced.1 (.inl (h.opened hp hm).2) hvalid hm ⟨_, hwalk⟩
    next => cases hstep
  | dataRotation sealedOld =>
    simp only [State.step] at hstep
    split at hstep
    next m next hm hinstall =>
      obtain ⟨-, -, ⟨hvalid, -⟩, rfl⟩ := Manifest.installDataRotation_eq_ok hinstall
      rw [Option.some.injEq] at hstep
      subst hstep
      obtain ⟨hgen, hsize⟩ := hsynced.1
      refine h.step_catalog rfl rfl hgen (.inr ?_) hvalid hm h.stored
      -- one more sealed data segment
      rw [Manifest.payloadSize_eq] at hsize ⊢
      dsimp only [sortDataSegments]
      rw [length_insertionSort, length_append, length_singleton]
      omega
    next => cases hstep
  | crash keep entry k => exact h.crash keep entry k hstep
  | stop =>
    obtain rfl := some.inj hstep
    exact h.stop hsynced.2

/-- A fresh store fulfils the invariant. -/
theorem Inv.of_fresh (h : Fresh s) : Inv s := by
  have hroom : segmentHeaderSize + segmentFooterSize ≤ s.manifest.segmentSize := by
    have hminimum := h.valid.limits.minimumMapSegment
    show segmentHeaderSize + segmentFooterSize ≤ s.manifest.hardLimits.segmentSize
    omega
  have hfile : s.files s.view.active = newFile (s.view.header s.view.active) := h.file
  have hempty : s.view.nodes s.view.active = [] := congrArg File.nodes hfile
  have hnosealed : s.view.set.sealedSegments = [] := h.noSealed
  have hlisted : ∀ id, s.view.Listed id → id = s.view.active := by
    rintro id (heq | ⟨ref, href, -⟩)
    · exact heq
    · rw [hnosealed] at href
      cases href
  have hnonodes : ∀ id, s.view.Listed id → ∀ n ∈ s.view.nodes id, False := by
    intro id hin n hn
    rw [hlisted id hin, hempty] at hn
    cases hn
  have hsettled : Settled s.view :=
    { file := by
        rw [show s.view.files s.view.active = _ from hfile]
        exact ActiveFile.newFile hroom
      name := h.name
      nextName := by
        refine h.noNames _ ?_
        rw [show s.view.next = _ from h.next]
        exact Nat.succ_ne_self _ }
  exact
  { valid := h.valid
    generation := h.generation
    files :=
    { next := h.next
      active := h.active
      segmentSize := h.valid.limits.maximum
      below := by rw [hnosealed]; nofun
      sealedNames := by rw [hnosealed]; nofun
      sealedFiles := by rw [hnosealed]; nofun
      full := by rw [hnosealed]; nofun
      validEnd := by rw [hnosealed]; nofun
      increasing := by
        rw [hnosealed]
        exact pairwise_singleton _ _
      bounds := fun id hin n hn => (hnonodes id hin n hn).elim
      others := fun id hin _ => h.noNames id fun heq => hin (.inl heq) }
    stored := ⟨[], if_pos h.root⟩
    history := by
      intro id hin offset n hat
      rw [hlisted id hin, show s.files s.view.active = _ from hfile] at hat
      rcases pieceAt_concat hat with hnone | ⟨-, heq⟩
      · cases hnone
      · cases heq
    fits := .of_synced h.journal hsettled
    phase := by
      rw [h.phase]
      exact ⟨hsettled, congrArg File.torn hfile, h.journal⟩
    memory := by
      rw [h.phase]
      refine ⟨_, h.memory, rfl, rfl, ?_, .inl rfl, ?_⟩
      · rw [hempty]
        rfl
      · exact ⟨Nat.one_pos, show 1 ≤ maxUint64 by decide, fun hne => absurd rfl hne, fun id hin n hn => (hnonodes id hin n hn).elim⟩ }

/-- The tree of the manifest, read from the history of the appends. -/
def Disk.appendedTree (d : Disk) : Radix.Tree where
  reader addr :=
    match d.appended addr with
    | some n => .ok n
    | none => .error .notFound
  root := d.manifest.mappingRoot
  covered := d.manifest.coveredCommitSeq

/-- **What an opening has to give**: one active segment, that of the manifest, and every node below the root
read as it was appended. -/
structure Intact (s : State) (m : Memory) : Prop where
  active : ∀ id, s.name id = some .active ↔ id = s.manifest.activeMapSegmentID
  nodes : ∀ level keyPrefix addr, s.appendedTree.Reaches level keyPrefix addr →
    ∃ n, s.appended addr = some n ∧ s.read m.active m.summary addr = .ok n

/-- An address is that of its segment and its offset. -/
theorem newMapAddr_eq (addr : MapAddr) : newMapAddr addr.segmentID addr.offset = addr := by
  obtain ⟨raw⟩ := addr
  simp only [newMapAddr, MapAddr.segmentID, MapAddr.offset, MapAddr.mk.injEq]
  omega

/-- The synced nodes are those that were appended. -/
theorem Inv.extends (h : Inv s) :
    (s.syncedTree s.manifest.mappingRoot s.manifest.coveredCommitSeq).Extends s.appendedTree where
  root := rfl
  covered := rfl
  reads := by
    intro addr n hread
    obtain ⟨-, hin, hat, -⟩ := Disk.syncedReader_eq_ok.mp hread
    have hknown := h.history _ hin _ _ hat
    rw [newMapAddr_eq] at hknown
    simp only [Disk.appendedTree, hknown]

/-- **An open store is intact.** -/
theorem Inv.intact (h : Inv s) (hready : s.ready = some m) : Intact s m := by
  obtain ⟨hp, hm, -⟩ := ready_eq_some hready
  obtain ⟨⟨-, hsettled, -, hok⟩, -⟩ := h.opened hp hm
  constructor
  · intro id
    constructor
    · intro hname
      by_contra hne
      by_cases hin : s.view.Listed id
      · obtain heq | ⟨ref, href, rfl⟩ := hin
        · exact hne heq
        · rw [show s.name ref.segmentID = some .sealed from congrArg Cell.current (h.files.sealedNames ref href)]
            at hname
          cases hname
      · by_cases hnext : id = s.view.next
        · rw [hnext, show s.name s.view.next = none from congrArg Cell.current hsettled.nextName] at hname
          cases hname
        · rw [show s.name id = none from congrArg Cell.current (h.files.others id hin hnext)] at hname
          cases hname
    · rintro rfl
      exact congrArg Cell.current hsettled.name
  · intro level keyPrefix addr hreach
    obtain ⟨found, hwalk⟩ := h.stored
    -- The node is below the root of the synced tree too, where every node has been read.
    obtain ⟨below, hbelow⟩ := (h.extends.reaches hwalk hreach).walkNode hwalk
    obtain ⟨n, hload⟩ := Radix.Tree.walkNode_load hbelow
    obtain ⟨hread, -⟩ := Radix.Tree.load_eq_ok hload
    obtain ⟨hvalid, hin, hat, -⟩ := Disk.syncedReader_eq_ok.mp hread
    have hknown := h.history _ hin _ _ hat
    rw [newMapAddr_eq] at hknown
    refine ⟨n, hknown, ?_⟩
    rw [hok.active]
    refine h.files.read_ok hsettled.file.plain ?_ hvalid hin hat
    rw [hok.summary, summaryOf_validEnd]
    rfl

/-- **A recovery ends** with an open store and the root it started with. -/
theorem Inv.recovers (h : Inv s) (hm : s.memory = none) :
    ∃ k s' m, system.exec s (List.replicate k .advance) = some s' ∧ s'.manifest.mappingRoot = s.manifest.mappingRoot ∧
      s'.ready = some m ∧ Inv s' := by
  -- Induction on the number of operations that are left.
  induction hn : s.phase.left using Nat.strongRecOn generalizing s with
  | ind n ih =>
    rcases h.advance with hidle | ⟨s₁, hadvance, hinv, hprogress⟩
    · obtain ⟨-, m, hsome, -⟩ := h.at_phase hidle
      rw [hm] at hsome
      cases hsome
    · have hstep : system.step s .advance = some s₁ := by
        show (if s.stuck then none else s.advance) = some s₁
        rw [State.stuck, hm]
        exact hadvance
      obtain ⟨hroot, ⟨hnone, hlt⟩ | ⟨m, hready⟩⟩ := hprogress hm
      · obtain ⟨k, s', m, hexec, hroot', hready, hinv'⟩ := ih _ (hn ▸ hlt) hinv hnone rfl
        refine ⟨k + 1, s', m, ?_, hroot'.trans hroot, hready, hinv'⟩
        rw [replicate_succ, Machine.exec, hstep]
        exact hexec
      · refine ⟨1, s₁, m, ?_, hroot, hready, hinv⟩
        rw [replicate_one, Machine.exec, hstep]
        rfl

/-- **The mapping store is crash safe** in a run that syncs the active segment before it rotates: a store
that is open is intact, and one that is being recovered, after one crash or several, opens in the end with
the root of its manifest and is intact. -/
theorem rotation_recovers (h : system.Reach RotatesSynced s) :
    (∀ m, s.ready = some m → Intact s m) ∧
      (s.memory = none → ∃ k s' m, system.exec s (List.replicate k .advance) = some s' ∧
        s'.manifest.mappingRoot = s.manifest.mappingRoot ∧ s'.ready = some m ∧ Intact s' m) := by
  have hinv : Inv s := h.invariant Inv (fun _ hfresh => .of_fresh hfresh) fun _ _ _ hi hok hs => hi.step hok hs
  refine ⟨fun m hready => hinv.intact hready, fun hm => ?_⟩
  obtain ⟨k, s', m, hexec, hroot, hready, hinv'⟩ := hinv.recovers hm
  exact ⟨k, s', m, hexec, hroot, hready, hinv'.intact hready⟩

/-- **Sealed segments are whole and synced**, and node sequences increase from segment to segment. -/
theorem segments_ordered (h : system.Reach RotatesSynced s) :
    (∀ ref ∈ s.view.set.sealedSegments, SealedFile (s.view.header ref.segmentID) (s.files ref.segmentID)) ∧
      (s.view.set.sealedSegments.map (·.segmentID) ++ [s.view.active]).Pairwise
        fun a b => ∀ n ∈ s.view.nodes a, ∀ m ∈ s.view.nodes b, n.nodeSeq < m.nodeSeq := by
  have hinv : Inv s := h.invariant Inv (fun _ hfresh => .of_fresh hfresh) fun _ _ _ hi hok hs => hi.step hok hs
  exact ⟨hinv.files.sealedFiles, hinv.files.increasing⟩

end Runs

/-! ## §4 — Rotations with and without a sync before them -/

/-- A full leaf with one record in every slot. -/
def fullLeaf (keyPrefix : Nat) : NodeBuild where
  level := 0
  keyPrefix := keyPrefix
  coveredCommitSeq := 1
  slots := fun _ => 2 ^ 32 + 64
  sizes := fun _ => 64

/-- Segments of two pages. -/
def twoPages : HardLimits := ⟨8192, 1024, 4096, 16, 16, 4, 4096, 16, 16⟩

/-- A new store whose segments have room for one full leaf. -/
def newStore : State where
  manifest := initialManifest (.ofByte 1) (.ofByte 2) twoPages
  files := fun id => if id = 1 then newFile (headerFor 8192 1) else .empty
  names := fun id => .of (if id = 1 then some .active else none)
  appended := fun _ => none
  journal := .of .absent
  memory := some ⟨1, 2, .empty 1, 1, false, none⟩
  phase := .idle

theorem newStore_fresh : Fresh newStore where
  valid := initialManifest_valid rfl rfl (by decide)
  generation := by decide
  next := rfl
  active := by decide
  noSealed := rfl
  root := rfl
  file := rfl
  name := rfl
  noNames := fun _ hne => congrArg Cell.of (if_neg hne)
  journal := rfl
  appended := rfl
  memory := rfl
  phase := rfl

/-- A rotation after a sync that crashes with a part of its footer written; the process that recovers it ends once, and
the next one crashes. -/
def syncedRotation : List Event :=
  [.append (fullLeaf 1), .sync, .append (fullLeaf 2), .advance, .advance, .advance,
    .crash (fun _ => 6300) (fun _ => 0) 0, .advance, .advance, .stop, .advance, .advance, .advance, .advance,
    .crash (fun _ => 0) (fun _ => 0) 0, .advance]

theorem recovers_from_two_crashes :
    ∃ s, system.Reach RotatesSynced s ∧ s.memory = none ∧ ∃ k s' m,
      system.exec s (List.replicate k .advance) = some s' ∧ s'.manifest.mappingRoot = s.manifest.mappingRoot ∧
        s'.ready = some m ∧ Intact s' m := by
  have hrun : (system.execOk RotatesSynced newStore syncedRotation).map (·.memory.isNone) = some true := by
    decide +kernel
  obtain ⟨s, hexec, hnone⟩ := map_eq_some_iff.mp hrun
  have hreach : system.Reach RotatesSynced s := (Machine.Reach.start newStore_fresh).execOk syncedRotation hexec
  have hm : s.memory = none := isNone_iff_eq_none.mp hnone
  exact ⟨s, hreach, hm, (rotation_recovers hreach).2 hm⟩

theorem segments_ordered_rotated : ∃ s, system.Reach RotatesSynced s ∧
    [1, 2].Pairwise fun a b => ∀ n ∈ s.view.nodes a, ∀ m ∈ s.view.nodes b, n.nodeSeq < m.nodeSeq := by
  have hrun : (system.execOk RotatesSynced newStore
      ([.append (fullLeaf 1), .sync, .append (fullLeaf 2)] ++ replicate 13 .advance)).map
        (fun s => s.view.set.sealedSegments.map (·.segmentID) ++ [s.view.active]) = some [1, 2] := by
    decide +kernel
  obtain ⟨s, hexec, hlisted⟩ := map_eq_some_iff.mp hrun
  have hreach := (Machine.Reach.start newStore_fresh).execOk _ hexec
  exact ⟨s, hreach, hlisted ▸ (segments_ordered hreach).2⟩

/-- **A rotation without a sync before it**: the crash takes the node that the journal counts, and no
recovery gets past the check of the old segment. -/
theorem unsynced_rotation_fails : ∃ s, system.Reachable s ∧ s.memory = none ∧ s.phase = .failed .corrupt := by
  have hrun : (system.exec newStore [.append (fullLeaf 1), .append (fullLeaf 2), .advance, .advance,
      .crash (fun _ => 0) (fun _ => 0) 0, .advance, .advance]).map (fun s => (s.memory.isNone, s.phase)) =
        some (true, .failed .corrupt) := by
    decide +kernel
  obtain ⟨s, hexec, heq⟩ := map_eq_some_iff.mp hrun
  obtain ⟨hnone, hphase⟩ := Prod.mk.inj heq
  refine ⟨s, ?_, isNone_iff_eq_none.mp hnone, hphase⟩
  exact (Machine.Reach.start newStore_fresh).exec _ (fun _ _ _ => trivial) hexec

/-- The process ends before the directory is synced for the journal; the next one seals the old segment, and the crash
takes the journal but not the sealed name. -/
def killedAtJournal : List Event :=
  [.append (fullLeaf 1), .sync, .append (fullLeaf 2), .advance, .stop, .advance, .advance, .advance, .advance,
    .crash (fun _ => 0) (fun _ => 0) 2, .advance, .advance]

/-- The process ends before the directory is synced for the new segment; the next one has the catalog take the rotation,
and the crash takes the name of the new segment. -/
def killedAtCreation : List Event :=
  [.append (fullLeaf 1), .sync, .append (fullLeaf 2)] ++ replicate 9 .advance ++
    [.stop, .advance, .advance, .advance, .advance, .crash (fun _ => 0) (fun _ => 1) 0, .advance, .advance]

/-- **A process that ends between a rename and its sync**: a crash after the recovery leaves a store that no longer opens,
though the old segment was synced. -/
theorem killed_rotation_fails : ∀ events ∈ [killedAtJournal, killedAtCreation],
    ∃ s, system.execOk BytesSynced newStore events = some s ∧ system.Reach BytesSynced s ∧ s.memory = none ∧
      s.phase = .failed .notFound := by
  have hruns : ∀ events ∈ [killedAtJournal, killedAtCreation],
      (system.execOk BytesSynced newStore events).map (fun s => (s.memory.isNone, s.phase)) =
        some (true, .failed .notFound) := by
    decide +kernel
  intro events hevents
  obtain ⟨s, hexec, heq⟩ := map_eq_some_iff.mp (hruns events hevents)
  obtain ⟨hnone, hphase⟩ := Prod.mk.inj heq
  exact ⟨s, hexec, (Machine.Reach.start newStore_fresh).execOk events hexec, isNone_iff_eq_none.mp hnone, hphase⟩

end Ridstore.MapStore
