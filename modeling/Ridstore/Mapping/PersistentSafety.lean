import Ridstore.Mapping.Persistent

/-
# Ridstore.Mapping.PersistentSafety — the visible mapping and its counters

Freezing, folding and dropping layers does not change what is visible.  A plan whose base is what the mapping
covers was resolved against the visible mapping, since only a publication changes it; so its replaced references
are the visible ones and the counters stay exact.
-/

namespace Ridstore.Mapping

open RecordLog (RecordRef)
open Function
open List
open Lib (scan tally FiniteMap eq_ok_of_toOption)

/-! ## §1 — Layers over a mapping -/

section Overlay

variable (base : Entries)

theorem overlay_append (layers layers' : List DeltaLayer) :
    overlay base (layers ++ layers') = overlay (overlay base layers) layers' := by
  funext id
  show ((layers ++ layers').reverse.findSome? _).getD _ = (lookupLayers layers' id).getD ((lookupLayers layers id).getD _)
  rw [reverse_append, List.findSome?_append]
  show ((lookupLayers layers' id).or (lookupLayers layers id)).getD _ = _
  cases lookupLayers layers' id <;> rfl

theorem overlay_singleton (layer : DeltaLayer) (id : Nat) :
    overlay base [layer] id = (layer.values.lookup id).getD (base id) := by
  show ((List.findSome? _ [layer]).getD _) = _
  rw [List.findSome?_singleton]

/-- An entry of the newest layer. -/
theorem overlay_insert (values : AList fun _ : Nat => Option RecordRef) (charge charge' id : Nat) (v : Option RecordRef) :
    overlay base [⟨values.insert id v, charge⟩] = update (overlay base [⟨values, charge'⟩]) id v := by
  funext x
  rw [overlay_singleton]
  by_cases hx : x = id
  · rw [hx, update_self]
    rw [AList.lookup_insert]
    rfl
  · rw [update_of_ne hx, overlay_singleton]
    rw [AList.lookup_insert_ne hx]

/-- The changes of a plan go into the newest layer. -/
theorem overlay_record (changes : List ResolvedChange) (values : AList fun _ : Nat => Option RecordRef)
    (charge charge' : Nat) : overlay base [⟨changes.foldl ResolvedChange.record values, charge⟩] =
      changes.foldl (fun entries r => r.applyTo entries) (overlay base [⟨values, charge'⟩]) := by
  induction changes generalizing values with
  | nil => rfl
  | cons r rest ih =>
    rw [foldl_cons, foldl_cons, ih]
    congr 1
    unfold ResolvedChange.record ResolvedChange.applyTo
    split
    · exact overlay_insert base values charge' charge' _ _
    · rfl

end Overlay

variable {changes : List ResolvedChange}

theorem Follows.eq_foldl {e e' : Entries} (h : Follows e changes e') :
    e' = changes.foldl (fun entries r => r.applyTo entries) e := by
  induction changes generalizing e with
  | nil => exact h
  | cons r rest ih => exact ih h.2

/-! ## §2 — Folding layers into a mapping -/

/-- The mutations one after the other. -/
def applyMutations (base : Entries) (l : List (Nat × Option RecordRef)) : Entries :=
  l.foldl (fun entries m => update entries m.1 m.2) base

theorem applyMutations_cons (base : Entries) (m : Nat × Option RecordRef) (l : List (Nat × Option RecordRef)) :
    applyMutations base (m :: l) = applyMutations (update base m.1 m.2) l := rfl

theorem applyMutations_append (base : Entries) (l l' : List (Nat × Option RecordRef)) :
    applyMutations base (l ++ l') = applyMutations (applyMutations base l) l' := foldl_append

/-- A mutation passes those of smaller identifiers. -/
theorem applyMutations_orderedInsert (base : Entries) (m : Nat × Option RecordRef) (l : List (Nat × Option RecordRef)) :
    applyMutations base (l.orderedInsert (fun m m' => m.1 ≤ m'.1) m) = applyMutations base (m :: l) := by
  induction l generalizing base with
  | nil => rfl
  | cons m' rest ih =>
    rw [orderedInsert_cons]
    split
    · rfl
    next hlt =>
      have hne : m.1 ≠ m'.1 := fun heq => hlt (Nat.le_of_eq heq)
      rw [applyMutations_cons, ih, applyMutations_cons, applyMutations_cons, applyMutations_cons,
        update_comm hne.symm]

/-- **The sorting is stable**: the mutations of one identifier stay in their order. -/
theorem applyMutations_insertionSort (base : Entries) (l : List (Nat × Option RecordRef)) :
    applyMutations base (l.insertionSort fun m m' => m.1 ≤ m'.1) = applyMutations base l := by
  induction l generalizing base with
  | nil => rfl
  | cons m rest ih =>
    rw [insertionSort_cons, applyMutations_orderedInsert, applyMutations_cons, ih, applyMutations_cons]

/-- The last mutation of a run counts. -/
theorem applyMutations_lastOfRuns (base : Entries) (l : List (Nat × Option RecordRef)) :
    applyMutations base (lastOfRuns l) = applyMutations base l := by
  induction l generalizing base with
  | nil => rfl
  | cons m rest ih =>
    unfold lastOfRuns
    split
    next => rfl
    next m' more =>
      split
      next heq =>
        rw [ih, applyMutations_cons, applyMutations_cons, applyMutations_cons, heq, update_idem]
      next => exact ih _

/-- The entries of an association list over a mapping. -/
theorem applyMutations_entries {α : Type} (f : α → Option RecordRef) (base : Entries)
    {l : List (Sigma fun _ : Nat => α)} (hnodup : l.NodupKeys) (id : Nat) :
    applyMutations base (l.map fun e => (e.1, f e.2)) id = ((l.dlookup id).map f).getD (base id) := by
  induction l generalizing base with
  | nil => rfl
  | cons e rest ih =>
    obtain ⟨hfresh, hrest⟩ := nodupKeys_cons.mp hnodup
    rw [map_cons, applyMutations_cons, ih _ hrest]
    by_cases hid : id = e.1
    · have hnone : rest.dlookup id = none := dlookup_eq_none.mpr (hid ▸ hfresh)
      rw [hnone, hid, dlookup_cons_eq, Option.map_none, Option.getD_none, update_self]
      rfl
    · rw [dlookup_cons_ne _ _ hid, update_of_ne hid]

/-- One layer. -/
theorem applyMutations_layer (base : Entries) (layer : DeltaLayer) :
    applyMutations base (layer.values.entries.map fun e => (e.1, e.2)) = overlay base [layer] := by
  funext id
  rw [overlay_singleton, applyMutations_entries (fun new => new) base layer.values.nodupKeys, Option.map_id']
  rfl

/-- **The folded mutations are the layers.** -/
theorem applyMutations_folded (base : Entries) (layers : List DeltaLayer) :
    applyMutations base (foldedMutations layers) = overlay base layers := by
  rw [foldedMutations, applyMutations_lastOfRuns, applyMutations_insertionSort]
  induction layers generalizing base with
  | nil => rfl
  | cons layer rest ih =>
    rw [mutations, flatMap_cons, applyMutations_append, applyMutations_layer]
    show applyMutations _ (mutations rest) = _
    rw [ih, ← overlay_append]
    rfl

/-- The number of entries after a mutation. -/
theorem entriesOf_applyMutation {built : Entries × EntryDelta} (hfinite : FiniteMap built.1)
    (m : Nat × Option RecordRef) :
    entriesOf (applyMutation built m).1 + (applyMutation built m).2.removed + built.2.added =
      entriesOf built.1 + (applyMutation built m).2.added + built.2.removed := by
  have htally := Lib.tally_update hfinite (fun _ => 1) m.1 m.2
  unfold entriesOf applyMutation
  cases hold : built.1 m.1 <;> cases hnew : m.2 <;> rw [hold, hnew] at htally <;> dsimp only <;>
    simp only [Lib.weigh_none, Lib.weigh_some] at htally <;> omega

/-- **The build counts what it adds and removes.** -/
theorem foldl_applyMutation (l : List (Nat × Option RecordRef)) (built : Entries × EntryDelta)
    (hfinite : FiniteMap built.1) :
    (l.foldl applyMutation built).1 = applyMutations built.1 l ∧
      entriesOf (l.foldl applyMutation built).1 + (l.foldl applyMutation built).2.removed + built.2.added =
        entriesOf built.1 + (l.foldl applyMutation built).2.added + built.2.removed := by
  induction l generalizing built with
  | nil => exact ⟨rfl, by simp only [foldl_nil]; omega⟩
  | cons m rest ih =>
    obtain ⟨hentries, hcount⟩ := ih (applyMutation built m) (hfinite.update _ _)
    have hone := entriesOf_applyMutation hfinite m
    refine ⟨hentries, ?_⟩
    rw [foldl_cons]
    omega

/-! ## §3 — Plans -/

/-- The entries of the layer do not change what a plan says. -/
theorem assignEntries_changes (seen : Nat → Bool) (proposals : List ResolvedProposal) :
    ((assignEntries seen proposals).filter fun p => p.accepted).flatMap ResolvedProposal.changes =
      (proposals.filter fun p => p.accepted).flatMap ResolvedProposal.changes := by
  induction proposals generalizing seen with
  | nil => rfl
  | cons p rest ih =>
    unfold assignEntries
    cases haccepted : p.accepted with
    | true =>
      simp only [if_true]
      rw [filter_cons_of_pos rfl, filter_cons_of_pos haccepted, flatMap_cons,
        flatMap_cons, ih]
    | false =>
      have hneg : ¬ p.accepted = true := by rw [haccepted]; exact Bool.false_ne_true
      simp only [Bool.false_eq_true, if_false]
      rw [filter_cons_of_neg hneg, filter_cons_of_neg hneg, ih]

/-- **A plan of the visible mapping.** -/
structure Planned (entries : Entries) (plan : GroupPlan) : Prop where
  follows : ∃ entries', Follows entries plan.changes entries'
  ids : ∀ r ∈ plan.changes, r.change.recordID ≤ maxUint64

variable {r : ResolvedChange} {entries : Entries}

theorem mem_resolveChanges {kind : ProposalKind} {changes : List Change}
    (h : r ∈ (resolveChanges kind entries changes).1) : r.change ∈ changes := by
  induction changes generalizing entries with
  | nil => exact absurd h not_mem_nil
  | cons c rest ih =>
    rcases mem_cons.mp h with rfl | hin
    · exact mem_cons_self
    · exact mem_cons_of_mem _ (ih hin)

variable {proposals : List Proposal}

theorem mem_resolveProposals {p : ResolvedProposal} (h : p ∈ (resolveProposals entries proposals).1)
    (hr : r ∈ p.changes) : ∃ q ∈ proposals, r.change ∈ q.changes := by
  induction proposals generalizing entries with
  | nil => exact absurd h not_mem_nil
  | cons q rest ih =>
    rw [resolveProposals_cons] at h
    rcases mem_cons.mp h with rfl | hin
    · refine ⟨q, mem_cons_self, ?_⟩
      unfold Proposal.resolve at hr
      split at hr
      · exact mem_resolveChanges hr
      · exact absurd hr not_mem_nil
    · obtain ⟨q', hq', hchange⟩ := ih hin
      exact ⟨q', mem_cons_of_mem _ hq', hchange⟩

/-- What `ResolveGroup` returns is a plan of the mapping it has read. -/
theorem planned_resolve {base : Nat} {active : Nat → Bool} (hbounded : ∀ p ∈ proposals, p.Bounded) :
    Planned entries (assignDeltaEntries (resolveGroupAt base proposals entries) active) := by
  have hchanges : (assignDeltaEntries (resolveGroupAt base proposals entries) active).changes =
      (resolveGroupAt base proposals entries).changes := assignEntries_changes _ _
  refine ⟨⟨(resolveProposals entries proposals).2, ?_⟩, ?_⟩
  · rw [hchanges]
    exact follows_resolveProposals entries proposals
  · rw [hchanges]
    intro r hr
    obtain ⟨p, hp, hin⟩ := mem_flatMap.mp hr
    obtain ⟨q, hq, hchange⟩ := mem_resolveProposals (mem_filter.mp hp).1 hin
    exact hbounded q hq _ hchange

variable {plan : GroupPlan}

/-- The checks of `validateResolvedPlan` on the references of a change. -/
theorem refsValid_of_valid (h : ∀ p ∈ plan.proposals, p.Valid)
    (hr : r ∈ plan.changes) : r.RefsValid ∧ r.change.recordID ≠ 0 := by
  obtain ⟨p, hp, hin⟩ := mem_flatMap.mp hr
  obtain ⟨hmem, haccepted⟩ := mem_filter.mp hp
  have hvalid := h p hmem
  rw [ResolvedProposal.Valid, if_pos haccepted] at hvalid
  obtain ⟨hold, hproposal⟩ := hvalid
  have hchange := hproposal.changes r.change (mem_map_of_mem hin)
  refine ⟨⟨fun ref href => ?_, fun ref href => ?_⟩, ?_⟩
  · have hall := (hold r hin).1
    rw [href] at hall
    exact hall
  · have hchange' : r.change.ValidIn p.kind := hchange
    unfold Change.result at href
    cases hkind : p.kind with
    | userCommit =>
      rw [hkind] at hchange'
      rcases hchange'.2 with ⟨hput, hvalid⟩ | ⟨hdelete, -⟩
      · rw [hput] at href
        exact Option.some.inj href ▸ hvalid
      · rw [hdelete] at href
        cases href
    | relocation =>
      rw [hkind] at hchange'
      obtain ⟨hrelocate, hvalid, -⟩ := hchange'
      rw [hrelocate] at href
      exact Option.some.inj href ▸ hvalid
  · refine hproposal.changeIDs.1 _ ?_
    rw [map_map]
    exact mem_map.mpr ⟨r, hin, rfl⟩

theorem ValidEntries.applyTo (h : ValidEntries entries) (hvalid : r.RefsValid) :
    ValidEntries (r.applyTo entries) := by
  unfold ResolvedChange.applyTo
  split
  · intro id ref href
    by_cases heq : id = r.change.recordID
    · rw [heq, update_self] at href
      exact hvalid.new ref href
    · rw [update_of_ne heq] at href
      exact h id ref href
  · exact h

/-- The mapping after a change with valid references. -/
theorem Proper.applyTo (h : Proper entries) (hvalid : r.RefsValid)
    (hid : r.change.recordID ≠ 0 ∧ r.change.recordID ≤ maxUint64) : Proper (r.applyTo entries) := by
  have hnew := ValidEntries.applyTo h.valid hvalid
  unfold ResolvedChange.applyTo at hnew ⊢
  split
  next happly =>
    rw [if_pos happly] at hnew
    refine ⟨h.finite.update _ _, hnew, fun id hne => ?_⟩
    by_cases heq : id = r.change.recordID
    · rw [heq]
      exact ⟨Nat.pos_of_ne_zero hid.1, hid.2⟩
    · rw [update_of_ne heq] at hne
      exact h.ids id hne
  next => exact h

theorem Proper.foldl (h : Proper entries)
    (hrefs : ∀ r ∈ changes, r.RefsValid ∧ r.change.recordID ≠ 0) (hids : ∀ r ∈ changes, r.change.recordID ≤ maxUint64) :
    Proper (changes.foldl (fun entries r => r.applyTo entries) entries) := by
  induction changes generalizing entries with
  | nil => exact h
  | cons r rest ih =>
    obtain ⟨hvalid, hzero⟩ := hrefs r mem_cons_self
    have hone := h.applyTo hvalid ⟨hzero, hids r mem_cons_self⟩
    exact ih hone (fun x hx => hrefs x (mem_cons_of_mem _ hx)) fun x hx => hids x (mem_cons_of_mem _ hx)

/-! ## §4 — The invariant -/

/-- The counters of a frozen checkpoint are those of the mapping it freezes. -/
structure FrozenCheckpoint.Sound (c : FrozenCheckpoint) : Prop where
  proper : Proper (overlay c.base.entries c.layers)
  exact : Exact c.live (overlay c.base.entries c.layers)

/-- The new tree holds the frozen mapping, and the build has counted its entries. -/
structure CheckpointCandidate.Built (c : CheckpointCandidate) : Prop where
  entries : c.tree.entries = overlay c.checkpoint.base.entries c.checkpoint.layers
  count : entriesOf c.tree.entries + c.entryDelta.removed = entriesOf c.checkpoint.base.entries + c.entryDelta.added

/-- **The invariant of the runtime.** -/
structure Sound (s : Runtime) : Prop where
  covered : s.mapping.covered ≤ maxUint64
  proper : Proper s.mapping.visible
  exact : Exact s.mapping.live s.mapping.visible
  plans : ∀ plan ∈ s.plans, plan.baseCommitSeq ≤ s.mapping.covered ∧
    (plan.baseCommitSeq = s.mapping.covered → Planned s.mapping.visible plan)
  checkpoints : ∀ c ∈ s.checkpoints, c.Sound ∧ c.id ≤ s.mapping.checkpointID ∧
    (s.mapping.inCheckpoint = true → c.id = s.mapping.checkpointID →
      c.layers = s.mapping.frozen ∧ c.base = s.mapping.root)
  candidates : ∀ c ∈ s.candidates, c.checkpoint ∈ s.checkpoints ∧ c.Built
  root : FiniteMap s.mapping.root.entries
  count : s.entryCount = entriesOf s.mapping.root.entries

/-- The changes of a plan on the visible mapping. -/
def Runtime.after (s : Runtime) (plan : GroupPlan) : Entries :=
  plan.changes.foldl (fun entries r => r.applyTo entries) s.mapping.visible

/-- **The bytes of a publication fit the counters.** -/
def Runtime.Fits (s : Runtime) : MappingEvent → Prop
  | .publish _ plan _ => Mapping.Fits plan.changes (s.after plan)
  | .reserve _ | .release _ | .resolve _ | .freeze _ | .build _ _ | .install _ | .abort _ => True

variable {s s' : Runtime}

/-- A step that leaves the mapping as it is apart from the budget. -/
theorem Sound.ledger (h : Sound s) (ledger : Ledger) (issued : Nat) :
    Sound { s with mapping := { s.mapping with ledger := ledger, issued := issued } } := { h with }

theorem Sound.reserve (h : Sound s) {ids : List Nat} (hs : s.reserve ids = some s') : Sound s' := by
  obtain ⟨m, hm, rfl⟩ := Option.map_eq_some_iff.mp hs
  have hok : s.mapping.reserveDelta ids = .ok m := eq_ok_of_toOption hm
  obtain ⟨-, hok⟩ := Lib.guard_eq_ok hok
  split at hok
  · split at hok <;> cases hok
  · cases hok
  · obtain ⟨-, hok⟩ := Lib.guard_eq_ok hok
    obtain rfl := Except.ok.inj hok
    exact h.ledger _ _

theorem Sound.resolve (h : Sound s) (hs : s.resolve proposals = some s') : Sound s' := by
  obtain ⟨hbounded, hmap⟩ := Option.ite_none_right_eq_some.mp hs
  obtain ⟨plan, hplan, rfl⟩ := Option.map_eq_some_iff.mp hmap
  have hok : s.mapping.resolveGroup proposals = .ok plan := eq_ok_of_toOption hplan
  obtain ⟨-, hok⟩ := Lib.guard_eq_ok hok
  obtain rfl := Except.ok.inj hok
  refine { h with plans := fun plan hin => ?_ }
  rcases Lib.mem_snoc.mp hin with hold | rfl
  · exact h.plans plan hold
  · exact ⟨Nat.le_refl _, fun _ => planned_resolve hbounded⟩

/-- The visible mapping after a publication. -/
theorem visible_publish (m : Persistent) (plan : GroupPlan) (ledger : Ledger) (live : LiveStats) (covered charge : Nat) :
    Persistent.visible { m with
      ledger := ledger, live := live, covered := covered
      active := ⟨plan.changes.foldl ResolvedChange.record m.active.values, charge⟩ } =
      plan.changes.foldl (fun entries r => r.applyTo entries) m.visible := by
  show overlay m.root.entries (m.frozen ++ [_]) = List.foldl _ (overlay m.root.entries (m.frozen ++ [m.active])) _
  rw [overlay_append, overlay_append]
  exact overlay_record _ _ _ _ m.active.charge

/-- A publication that fails before the counters, or changes them. -/
theorem publishGroup_cases (m : Persistent) (first : Nat) (plan : GroupPlan) (reservations : List Nat) :
    (∃ ledger, (m.publishGroup first plan reservations).1 = { m with ledger := ledger }) ∨
      ∃ ledger charge, m.checkPlan first plan reservations = .ok () ∧
        (m.publishGroup first plan reservations).1 =
          match applyPlanLiveStats m.live first plan with
          | (live, .error _) => { m with ledger := ledger, live := live }
          | (live, .ok _) => { m with
              ledger := ledger, live := live, covered := first + plan.acceptedCount - 1
              active := ⟨plan.changes.foldl ResolvedChange.record m.active.values, charge⟩ } := by
  unfold Persistent.publishGroup
  split
  next => exact .inl ⟨m.ledger, rfl⟩
  next hcheck =>
    split
    next ledger err hsettle => exact .inl ⟨ledger, rfl⟩
    next ledger charged hsettle =>
      split
      next => exact .inl ⟨ledger, rfl⟩
      next =>
        refine .inr ⟨ledger, m.active.charge + charged, hcheck, ?_⟩
        split <;> simp only [*]

variable {first : Nat}

/-- What a plan that is taken says about the sequences. -/
theorem checkPlan_eq_ok {reservations : List Nat} {m : Persistent}
    (h : m.checkPlan first plan reservations = .ok ()) (hcovered : m.covered ≤ maxUint64) :
    (∀ p ∈ plan.proposals, p.Valid) ∧ plan.baseCommitSeq = m.covered ∧
      m.covered < first + plan.acceptedCount - 1 ∧ first + plan.acceptedCount - 1 ≤ maxUint64 := by
  obtain ⟨hshape, h⟩ := Lib.guard_eq_ok h
  obtain ⟨hfresh, h⟩ := Lib.guard_eq_ok h
  obtain ⟨hseq, h⟩ := Lib.guard_eq_ok h
  simp only [not_or, not_exists, not_and, not_not, not_lt] at hshape hfresh hseq
  obtain ⟨hfirst, -, -, hvalid, -⟩ := hshape
  obtain ⟨hcount, hnext, hmax⟩ := hseq
  -- the covered sequence is not the last one, for the first one of the group would be zero
  have hlt : m.covered + 1 < 2 ^ 64 := by
    rcases Nat.lt_or_ge (m.covered + 1) (2 ^ 64) with hlt | hge
    · exact hlt
    · have heq : m.covered + 1 = 2 ^ 64 := by
        unfold maxUint64 at hcovered
        omega
      rw [heq, Nat.mod_self] at hnext
      exact absurd hnext hfirst
  rw [Nat.mod_eq_of_lt hlt] at hnext
  unfold maxUint64 at hmax ⊢
  exact ⟨hvalid, hfresh.1, by omega, by omega⟩

section

variable (h : Sound s)

include h

/-- **The counters of a current plan**: they are applied without an error and stay exact. -/
theorem Sound.applies (hmem : plan ∈ s.plans) (hbase : plan.baseCommitSeq = s.mapping.covered)
    (hvalid : ∀ p ∈ plan.proposals, p.Valid) (hfits : Mapping.Fits plan.changes (s.after plan)) (first : Nat) :
    ∃ live', applyPlanLiveStats s.mapping.live first plan = (live', .ok ()) ∧ Exact live' (s.after plan) ∧
      Proper (s.after plan) := by
  obtain ⟨⟨entries', hfollows⟩, hids⟩ := (h.plans plan hmem).2 hbase
  have hrefs := fun r (hr : r ∈ plan.changes) => refsValid_of_valid hvalid hr
  have hafter : entries' = s.after plan := hfollows.eq_foldl
  have hproper : Proper (s.after plan) := h.proper.foldl hrefs hids
  obtain ⟨live', happly, hexact⟩ := applyPlanLiveStats_exact first h.proper.finite h.exact
    (hafter ▸ hfollows) (fun r hr => (hrefs r hr).1) hproper.valid hfits
  exact ⟨live', happly, hexact, hproper⟩

/-- **A publication**: a plan that is taken keeps the counters exact. -/
theorem Sound.publish {first : Nat} {reservations : List Nat} (hfits : s.Fits (.publish first plan reservations))
    (hs : s.publish first plan reservations = some s') : Sound s' := by
  obtain ⟨hmem, rfl⟩ := Lib.when_eq_some hs
  rcases publishGroup_cases s.mapping first plan reservations with ⟨ledger, hledger⟩ | ⟨ledger, charge, hcheck, hm⟩
  · rw [hledger]
    exact h.ledger ledger s.mapping.issued
  obtain ⟨hvalid, hbase, hlt, hmax⟩ := checkPlan_eq_ok hcheck h.covered
  obtain ⟨live', happly, hexact, hproper⟩ := h.applies hmem hbase hvalid hfits first
  rw [happly] at hm
  rw [hm]
  have hvisible := visible_publish s.mapping plan ledger live' (first + plan.acceptedCount - 1) charge
  refine ⟨hmax, ?_, ?_, fun other hother => ?_, h.checkpoints, h.candidates, h.root, h.count⟩
  · rw [hvisible]
    exact hproper
  · dsimp only
    rw [hvisible]
    exact hexact
  · have hle := (h.plans other hother).1
    refine ⟨Nat.le_trans hle (Nat.le_of_lt hlt), fun hsame => ?_⟩
    have hsame' : other.baseCommitSeq = first + plan.acceptedCount - 1 := hsame
    exact absurd (hsame' ▸ hle) (Nat.not_le_of_lt hlt)

/-- **Freezing the active layer** does not change what is visible. -/
theorem Sound.freeze {expected : Nat} (hs : s.freeze expected = some s') : Sound s' := by
  obtain ⟨⟨m, c⟩, hm, rfl⟩ := Option.map_eq_some_iff.mp hs
  have hok := eq_ok_of_toOption hm
  obtain ⟨hfresh, hok⟩ := Lib.guard_eq_ok hok
  obtain ⟨-, hok⟩ := Lib.guard_eq_ok hok
  obtain ⟨rfl, rfl⟩ := Prod.mk.inj (Except.ok.inj hok)
  have hvisible : overlay s.mapping.root.entries (s.mapping.layers ++ [.empty]) = s.mapping.visible := by
    rw [overlay_append]
    funext id
    exact overlay_singleton _ _ _
  refine ⟨h.covered, ?_, ?_, ?_, ?_, fun x hx => ?_, h.root, h.count⟩
  · show Proper (overlay _ (s.mapping.layers ++ [.empty]))
    rw [hvisible]
    exact h.proper
  · show Exact _ (overlay _ (s.mapping.layers ++ [.empty]))
    rw [hvisible]
    exact h.exact
  · intro plan hplan
    refine ⟨(h.plans plan hplan).1, fun hbase => ?_⟩
    show Planned (overlay _ (s.mapping.layers ++ [.empty])) plan
    rw [hvisible]
    exact (h.plans plan hplan).2 hbase
  · intro c hc
    rcases Lib.mem_snoc.mp hc with hold | rfl
    · obtain ⟨hsound, hid, -⟩ := h.checkpoints c hold
      refine ⟨hsound, Nat.le_succ_of_le hid, fun _ hsame => ?_⟩
      have hsame' : c.id = s.mapping.checkpointID + 1 := hsame
      omega
    · exact ⟨⟨h.proper, h.exact⟩, Nat.le_refl _, fun _ _ => ⟨rfl, rfl⟩⟩
  · exact ⟨mem_append_left _ (h.candidates x hx).1, (h.candidates x hx).2⟩

variable {checkpoint : Nat}

theorem Sound.build {written : Except StoreError Nat} (hs : s.build checkpoint written = some s') : Sound s' := by
  obtain ⟨c, hc, hmap⟩ := Option.bind_eq_some_iff.mp hs
  obtain ⟨candidate, hcandidate, rfl⟩ := Option.map_eq_some_iff.mp hmap
  have hok := eq_ok_of_toOption hcandidate
  have hmem : c ∈ s.checkpoints := mem_of_getElem? hc
  obtain ⟨hcurrent, hok⟩ := Lib.guard_eq_ok hok
  obtain ⟨-, hok⟩ := Lib.guard_eq_ok hok
  split at hok
  · cases hok
  · obtain rfl := Except.ok.inj hok
    refine { h with candidates := fun x hx => ?_ }
    rcases Lib.mem_snoc.mp hx with hold | rfl
    · exact h.candidates x hold
    · -- the base of the running checkpoint is the root
      obtain ⟨-, hbase⟩ := (h.checkpoints c hmem).2.2 (not_not.mp hcurrent).1 (not_not.mp hcurrent).2.1
      obtain ⟨hentries, hcount⟩ := foldl_applyMutation (foldedMutations c.layers) (c.base.entries, ⟨0, 0⟩)
        (hbase ▸ h.root)
      refine ⟨hmem, hentries.trans (applyMutations_folded _ _), ?_⟩
      exact hcount

/-- The number of entries that the manifest gets with a candidate. -/
theorem Sound.entryCount_eq {c : CheckpointCandidate} (hc : c ∈ s.candidates)
    (hrunning : s.mapping.inCheckpoint = true) (hid : c.checkpoint.id = s.mapping.checkpointID) {count : Nat}
    (hcount : c.entryCount s.entryCount = .ok count) : entriesOf c.tree.entries = count := by
  obtain ⟨hcheckpoint, hbuilt⟩ := h.candidates c hc
  obtain ⟨-, hbase⟩ := (h.checkpoints _ hcheckpoint).2.2 hrunning hid
  have hsum := hbuilt.count
  rw [hbase, ← h.count] at hsum
  unfold CheckpointCandidate.entryCount at hcount
  split at hcount
  · cases hcount
  · split at hcount
    · cases hcount
    · have heq := Except.ok.inj hcount
      omega

/-- **The folded layers are dropped**: the new root has them. -/
theorem Sound.install {candidate : Nat} (hs : s.install candidate = some s') : Sound s' := by
  obtain ⟨c, hc, hmatch⟩ := Option.bind_eq_some_iff.mp hs
  have hmem : c ∈ s.candidates := mem_of_getElem? hc
  obtain ⟨hcheckpoint, hbuilt⟩ := h.candidates c hmem
  split at hmatch
  next count m hcount hinstall =>
    cases hmatch
    unfold Persistent.installCheckpoint at hinstall
    obtain ⟨hcurrent, hinstall⟩ := Lib.guard_eq_ok hinstall
    obtain ⟨-, hinstall⟩ := Lib.guard_eq_ok hinstall
    obtain rfl := Except.ok.inj hinstall
    obtain ⟨hrunning, hid, -⟩ := not_not.mp (not_or.mp hcurrent).1
    obtain ⟨hsound, -, hrest⟩ := h.checkpoints _ hcheckpoint
    obtain ⟨hlayers, hbase⟩ := hrest hrunning hid
    have hentries : c.tree.entries = overlay s.mapping.root.entries s.mapping.frozen := by
      rw [hbuilt.entries, hlayers, hbase]
    have hdropped : s.mapping.frozen.drop c.checkpoint.layers.length = [] := by rw [hlayers, drop_length]
    have hvisible : overlay c.tree.entries (s.mapping.frozen.drop c.checkpoint.layers.length ++ [s.mapping.active]) =
        s.mapping.visible := by
      rw [hdropped, nil_append, hentries, ← overlay_append]
      rfl
    refine ⟨h.covered, ?_, ?_, ?_, ?_, h.candidates, ?_, ?_⟩
    · show Proper (overlay c.tree.entries (s.mapping.frozen.drop _ ++ [s.mapping.active]))
      rw [hvisible]
      exact h.proper
    · show Exact _ (overlay c.tree.entries (s.mapping.frozen.drop _ ++ [s.mapping.active]))
      rw [hvisible]
      exact h.exact
    · intro plan hplan
      refine ⟨(h.plans plan hplan).1, fun hsame => ?_⟩
      show Planned (overlay c.tree.entries (s.mapping.frozen.drop _ ++ [s.mapping.active])) plan
      rw [hvisible]
      exact (h.plans plan hplan).2 hsame
    · exact fun x hx => ⟨(h.checkpoints x hx).1, (h.checkpoints x hx).2.1, fun hfalse => (nomatch hfalse)⟩
    · rw [hbuilt.entries]
      exact hsound.proper.finite
    · exact (h.entryCount_eq hmem hrunning hid hcount).symm
  next => cases hmatch

theorem Sound.abort (hs : s.abort checkpoint = some s') : Sound s' := by
  obtain ⟨c, -, hmap⟩ := Option.bind_eq_some_iff.mp hs
  obtain ⟨m, hm, rfl⟩ := Option.map_eq_some_iff.mp hmap
  have hok := eq_ok_of_toOption hm
  unfold Persistent.abortCheckpoint at hok
  split at hok
  · obtain rfl := Except.ok.inj hok
    refine { h with checkpoints := fun x hx => ?_ }
    exact ⟨(h.checkpoints x hx).1, (h.checkpoints x hx).2.1, fun hfalse => (nomatch hfalse)⟩
  · cases hok

/-- **The step lemma.** -/
theorem Sound.step {e : MappingEvent} (hfits : s.Fits e) (hs : s.step e = some s') : Sound s' := by
  cases e with
  | reserve ids => exact h.reserve hs
  | release ticket =>
    cases hs
    exact h.ledger _ _
  | resolve proposals => exact h.resolve hs
  | publish => exact h.publish hfits hs
  | freeze expected => exact h.freeze hs
  | build checkpoint written => exact h.build hs
  | install candidate => exact h.install hs
  | abort checkpoint => exact h.abort hs

end

theorem Sound.initial (h : runtime.init s) : Sound s := by
  obtain ⟨root, config, statsCovered, live, m, hopen, hcovered, hproper, hexact, rfl⟩ := h
  obtain ⟨-, hopen⟩ := Lib.guard_eq_ok hopen
  obtain rfl := Except.ok.inj hopen
  have hvisible : overlay root.entries ([] ++ [.empty]) = root.entries := by
    funext id
    exact overlay_singleton _ _ _
  refine ⟨hcovered, ?_, ?_, nofun, nofun,
    nofun, hproper.finite, rfl⟩
  · show Proper (overlay root.entries ([] ++ [.empty]))
    rw [hvisible]
    exact hproper
  · show Exact live (overlay root.entries ([] ++ [.empty]))
    rw [hvisible]
    exact hexact

theorem Sound.reachable (h : runtime.Reach Runtime.Fits s) : Sound s :=
  Lib.Machine.Reach.invariant (M := runtime) Sound (fun _ => Sound.initial) (fun _ _ _ h hfits hs => h.step hfits hs) h

/-! ## §5 — The mapping in memory -/

variable {live live' : LiveStats}

/-- One more reference is counted. -/
theorem Exact.add {id seq : Nat} {ref : RecordRef}
    (h : Exact live entries) (hfinite : FiniteMap entries) (hnone : entries id = none)
    (hadd : addLiveRef live ref seq = .ok live') : Exact live' (update entries id (some ref)) := by
  unfold addLiveRef at hadd
  obtain ⟨-, hadd⟩ := Lib.guard_eq_ok hadd
  obtain rfl := Except.ok.inj hadd
  have htally : ∀ w, tally w (update entries id (some ref)) = tally w entries + w ref := by
    intro w
    have hone := Lib.tally_update hfinite w id (some ref)
    rw [hnone] at hone
    exact hone
  have hlookup : ∀ s, s ≠ ref.addr.segmentID → ∀ stat : SegmentLiveStats,
      (live.insert ref.addr.segmentID stat).lookup s = live.lookup s := fun s hs _ => AList.lookup_insert_ne hs
  refine ⟨fun s => ?_, fun s => ?_, fun s hzero => ?_⟩
  · unfold liveBytes LiveStats.current
    rw [htally]
    by_cases hs : s = ref.addr.segmentID
    · rw [hs, AList.lookup_insert, LiveDeltas.bytesIn_self]
      exact congrArg (· + _) (h.bytes _)
    · rw [hlookup s hs, (LiveDeltas.weightless hs).1]
      exact h.bytes s
  · unfold liveRecords LiveStats.current
    rw [htally]
    by_cases hs : s = ref.addr.segmentID
    · rw [hs, AList.lookup_insert, LiveDeltas.recordsIn_self]
      exact congrArg (· + 1) (h.records _)
    · rw [hlookup s hs, (LiveDeltas.weightless hs).2]
      exact h.records s
  · unfold liveRecords at hzero
    rw [htally] at hzero
    by_cases hs : s = ref.addr.segmentID
    · rw [hs, LiveDeltas.recordsIn_self] at hzero
      cases hzero
    · rw [hlookup s hs]
      exact h.absent s (Nat.eq_zero_of_add_eq_zero_right hzero)

/-- **The counters of a new mapping are exact.** -/
theorem scan_addLiveRef {seq : Nat} {l : List (Sigma fun _ : Nat => RecordRef)}
    (h : scan (fun live (e : Sigma fun _ : Nat => RecordRef) => addLiveRef live e.2 seq) live l = .ok live')
    (hexact : Exact live entries) (hfinite : FiniteMap entries) (hfresh : ∀ e ∈ l, entries e.1 = none)
    (hnodup : l.NodupKeys) : Exact live' (applyMutations entries (l.map fun e => (e.1, some e.2))) := by
  induction l generalizing live entries with
  | nil =>
    obtain rfl := Except.ok.inj h
    exact hexact
  | cons e rest ih =>
    obtain ⟨middle, hone, hrest⟩ := Lib.scan_cons_eq_ok.mp h
    obtain ⟨hnew, hnodup'⟩ := nodupKeys_cons.mp hnodup
    have hfresh' : ∀ x ∈ rest, update entries e.1 (some e.2) x.1 = none := by
      intro x hx
      have hne : x.1 ≠ e.1 := fun heq => hnew (heq ▸ mem_keys_of_mem hx)
      rw [update_of_ne hne]
      exact hfresh x (mem_cons_of_mem _ hx)
    exact ih hrest (hexact.add hfinite (hfresh e mem_cons_self) hone) (hfinite.update _ _) hfresh' hnodup'

theorem exact_empty : Exact ∅ fun _ => none where
  bytes := fun _ => (Lib.tally_eq_zero fun _ _ h => absurd h (Option.some_ne_none _).symm).symm
  records := fun _ => (Lib.tally_eq_zero fun _ _ h => absurd h (Option.some_ne_none _).symm).symm
  absent := fun _ _ => rfl

/-- The invariant of a mapping in memory. -/
structure MemorySound (s : MemoryRuntime) : Prop where
  finite : FiniteMap s.mapping.visible
  valid : ValidEntries s.mapping.visible
  exact : Exact s.mapping.live s.mapping.visible
  plans : ∀ plan ∈ s.plans, plan.baseCommitSeq ≤ s.mapping.covered ∧
    (plan.baseCommitSeq = s.mapping.covered → ∃ entries', Follows s.mapping.visible plan.changes entries')

def MemoryRuntime.after (s : MemoryRuntime) (plan : GroupPlan) : Entries :=
  plan.changes.foldl (fun entries r => r.applyTo entries) s.mapping.visible

def MemoryRuntime.Fits (s : MemoryRuntime) : MemoryEvent → Prop
  | .publish _ plan _ => Mapping.Fits plan.changes (s.after plan)
  | .resolve _ => True

variable {t t' : MemoryRuntime}

theorem InMemory.finite_visible (m : InMemory) : FiniteMap m.visible := by
  have hkeys : ∀ id, m.visible id ≠ none → id ∈ m.entries.keys.toFinset := by
    intro id hid
    obtain ⟨ref, href⟩ := Option.ne_none_iff_exists'.mp hid
    have hsome : (m.entries.lookup id).isSome = true := by
      show (m.visible id).isSome = true
      rw [href]
      rfl
    exact mem_toFinset.mpr (AList.mem_keys.mp (AList.lookup_isSome.mp hsome))
  exact Lib.FiniteMap.of_subset hkeys

theorem InMemory.visible_record (changes : List ResolvedChange) (covered : Nat) (live : LiveStats)
    (entries : AList fun _ : Nat => RecordRef) :
    InMemory.visible ⟨covered, changes.foldl InMemory.record entries, live⟩ =
      changes.foldl (fun entries r => r.applyTo entries) fun id => entries.lookup id := by
  induction changes generalizing entries with
  | nil => rfl
  | cons r rest ih =>
    rw [foldl_cons, foldl_cons, ih]
    congr 1
    unfold InMemory.record ResolvedChange.applyTo
    split
    · funext id
      by_cases hid : id = r.change.recordID
      · rw [hid, update_self]
        split
        next hnone => rw [AList.lookup_erase, hnone]
        next ref href => rw [AList.lookup_insert, href]
      · rw [update_of_ne hid]
        split
        · exact AList.lookup_erase_ne hid
        · exact AList.lookup_insert_ne hid
    · rfl

theorem ValidEntries.foldl (h : ValidEntries entries)
    (hrefs : ∀ r ∈ changes, r.RefsValid) : ValidEntries (changes.foldl (fun entries r => r.applyTo entries) entries) := by
  induction changes generalizing entries with
  | nil => exact h
  | cons r rest ih =>
    exact ih (h.applyTo (hrefs r mem_cons_self)) fun x hx => hrefs x (mem_cons_of_mem _ hx)

theorem MemorySound.resolve (h : MemorySound t) (hs : t.step (.resolve proposals) = some t') : MemorySound t' := by
  obtain ⟨plan, hplan, rfl⟩ := Option.map_eq_some_iff.mp hs
  have hok := eq_ok_of_toOption hplan
  obtain ⟨-, hok⟩ := Lib.guard_eq_ok hok
  obtain rfl := Except.ok.inj hok
  refine { h with plans := fun plan hin => ?_ }
  rcases Lib.mem_snoc.mp hin with hold | rfl
  · exact h.plans plan hold
  · refine ⟨Nat.le_refl _, fun _ => ⟨(resolveProposals t.mapping.visible proposals).2, ?_⟩⟩
    have hchanges := assignEntries_changes (fun _ => false) (resolveProposals t.mapping.visible proposals).1
    show Follows _ (List.flatMap _ (List.filter _
      (assignEntries _ (resolveProposals t.mapping.visible proposals).1))) _
    rw [hchanges]
    exact follows_resolveProposals _ _

theorem MemorySound.applies (h : MemorySound t) (hmem : plan ∈ t.plans)
    (hbase : plan.baseCommitSeq = t.mapping.covered) (hplan : ∀ p ∈ plan.proposals, p.Valid)
    (hfits : Mapping.Fits plan.changes (t.after plan)) (first : Nat) :
    ∃ live', applyPlanLiveStats t.mapping.live first plan = (live', .ok ()) ∧ Exact live' (t.after plan) ∧
      ValidEntries (t.after plan) := by
  obtain ⟨entries', hfollows⟩ := (h.plans plan hmem).2 hbase
  have hrefs := fun r (hr : r ∈ plan.changes) => (refsValid_of_valid hplan hr).1
  have hafter : entries' = t.after plan := hfollows.eq_foldl
  have hvalid : ValidEntries (t.after plan) := h.valid.foldl hrefs
  obtain ⟨live', happly, hexact⟩ := applyPlanLiveStats_exact first h.finite h.exact (hafter ▸ hfollows) hrefs
    hvalid hfits
  exact ⟨live', happly, hexact, hvalid⟩

/-- A publication in memory. -/
theorem MemorySound.publish (h : MemorySound t) {reservations : Nat}
    (hfits : t.Fits (.publish first plan reservations)) (hs : t.step (.publish first plan reservations) = some t') :
    MemorySound t' := by
  obtain ⟨hmem, rfl⟩ := Lib.when_eq_some hs
  unfold InMemory.publishGroup
  split
  · exact h
  next hshape =>
    split
    · exact h
    next hbase =>
      split
      · exact h
      next hseq =>
        simp only [not_or, not_exists, not_and, not_not, not_lt] at hshape hbase hseq
        obtain ⟨live', happly, hexact, hvalid⟩ := h.applies hmem hbase hshape.2.2.2.2 hfits first
        rw [happly]
        have hvisible := InMemory.visible_record plan.changes (first + plan.acceptedCount - 1) live' t.mapping.entries
        refine ⟨InMemory.finite_visible _, ?_, ?_, fun other hother => ?_⟩
        · rw [hvisible]
          exact hvalid
        · dsimp only
          rw [hvisible]
          exact hexact
        · have hle := (h.plans other hother).1
          obtain ⟨-, hfirst, hcount, -⟩ := hseq
          refine ⟨Nat.le_trans hle ?_, fun hsame => ?_⟩
          · show t.mapping.covered ≤ first + plan.acceptedCount - 1
            omega
          · have hsame' : other.baseCommitSeq = first + plan.acceptedCount - 1 := hsame
            omega

theorem MemorySound.reachable (h : memoryRuntime.Reach MemoryRuntime.Fits t) : MemorySound t := by
  refine Lib.Machine.Reach.invariant (M := memoryRuntime) MemorySound ?_ ?_ h
  · rintro s ⟨covered, snapshot, m, hnew, rfl⟩
    obtain ⟨hvalid, hnew⟩ := Lib.guard_eq_ok hnew
    split at hnew
    · cases hnew
    next live hscan =>
      obtain rfl := Except.ok.inj hnew
      have hexact := scan_addLiveRef hscan exact_empty Lib.FiniteMap.empty (fun _ _ => rfl) snapshot.nodupKeys
      refine ⟨InMemory.finite_visible _, fun id ref href => ?_, ?_, nofun⟩
      · have hmem : (⟨id, ref⟩ : Sigma fun _ : Nat => RecordRef) ∈ snapshot.entries := AList.mem_lookup_iff.mp href
        simp only [not_exists, not_and, not_or, Bool.not_eq_false] at hvalid
        exact (hvalid _ hmem).2
      · have hentries : applyMutations (fun _ => none) (snapshot.entries.map fun e => (e.1, some e.2)) =
            fun id => snapshot.lookup id := by
          funext id
          rw [applyMutations_entries some _ snapshot.nodupKeys]
          show ((snapshot.lookup id).map some).getD none = snapshot.lookup id
          cases snapshot.lookup id <;> rfl
        rw [hentries] at hexact
        exact hexact
  · intro s e s' h hfits hs
    cases e with
    | resolve proposals => exact h.resolve hs
    | publish => exact h.publish hfits hs

end Ridstore.Mapping
