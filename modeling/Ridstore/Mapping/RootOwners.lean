import Ridstore.Lib.Transition

/-
# Ridstore.Mapping.RootOwners — readers of a checkpointed root and its replacement

A lookup that misses the layers reads nodes through the root.  It counts itself into the owner of the root while it
has the read lock, and out of it without any lock.  `ReplaceCheckpointRoot` marks the old owner as retired; whoever
finds the owner retired and without readers closes its channel, and then the old mapping files are removed.
The decrement of a release and its look at the mark are two steps, and a reader may come in between.
-/

namespace Ridstore.Mapping

open List Function Option

/-! ## §1 — The owners -/

/-- `rootOwner`, without its syncer: `once` is the state of `closeOnce`, `closes` counts the closings of `drained`. -/
structure RootOwner where
  readers : Int
  retired : Bool
  once : Bool
  closes : Nat
  deriving DecidableEq, Repr

/-- `closeOnce.Do` with the closing of the channel. -/
def RootOwner.drain (c : RootOwner) : RootOwner :=
  if c.once then c else { c with once := true, closes := c.closes + 1 }

/-- The owners by their numbers; one that was not made yet has no readers and no mark.  `holding` has the owner of
every reader, `checking` the releases between their decrement and their look at the mark, each with the count it got,
and `replacing` the owner that `ReplaceCheckpointRoot` has marked while it has the lock. -/
structure RootState where
  owners : Nat → RootOwner
  owner : Nat
  root : Nat
  holding : List Nat
  checking : List (Nat × Int)
  replacing : Option Nat

/-- The steps of `LookupRef`, `ResolveGroup` and `WalkCheckpoint` (`pin`), of a checkpoint view (`pinView`), of
`releaseRoot`, of `InstallCheckpoint` and of `ReplaceCheckpointRoot`. -/
inductive RootEvent
  | pin
  | pinView (tree rootOwner : Nat)
  | decrement (owner : Nat)
  | check (owner : Nat) (remaining : Int)
  | installCheckpoint
  | replace
  | finishReplace
  deriving DecidableEq, Repr

namespace RootState

variable (s : RootState)

def modify (o : Nat) (f : RootOwner → RootOwner) : RootState :=
  { s with owners := update s.owners o (f (s.owners o)) }

def addReader (o : Nat) : RootState :=
  { s.modify o fun c => { c with readers := c.readers + 1 } with holding := o :: s.holding }

/-- **A step.**  The pins and `InstallCheckpoint` need the lock that `ReplaceCheckpointRoot` has. -/
def step : RootEvent → Option RootState
  | .pin => if s.replacing = none then some (s.addReader s.owner) else none
  | .pinView tree rootOwner =>
    if s.replacing = none then
      if s.root ≠ tree ∨ s.owner ≠ rootOwner then some s else some (s.addReader rootOwner)
    else none
  | .decrement o =>
    if o ∈ s.holding then
      some { s.modify o fun c => { c with readers := c.readers - 1 } with
        holding := s.holding.erase o, checking := (o, (s.owners o).readers - 1) :: s.checking }
    else none
  | .check o remaining =>
    if (o, remaining) ∈ s.checking then
      let s' := { s with checking := s.checking.erase (o, remaining) }
      if remaining = 0 ∧ (s.owners o).retired = true then some (s'.modify o RootOwner.drain) else some s'
    else none
  | .installCheckpoint => if s.replacing = none then some { s with root := s.root + 1 } else none
  | .replace =>
    if s.replacing = none then
      some { s.modify s.owner fun c => { c with retired := true } with
        owner := s.owner + 1, root := s.root + 1, replacing := some s.owner }
    else none
  | .finishReplace =>
    match s.replacing with
    | none => none
    | some o =>
      let s' := { s with replacing := none }
      if (s.owners o).readers = 0 then some (s'.modify o RootOwner.drain) else some s'

end RootState

/-- **The owners of roots**, from one owner without readers on. -/
def rootOwners : Lib.Machine RootState RootEvent :=
  ⟨fun s => s = ⟨fun _ => ⟨0, false, false, 0⟩, 0, 0, [], [], none⟩, RootState.step⟩

/-- No release that has counted the owner down to zero and has not yet looked at the mark is overtaken by a reader
when the owner is replaced. -/
def UnhurriedReplace (s : RootState) (e : RootEvent) : Prop :=
  e = .replace → (s.owner, 0) ∈ s.checking → s.owner ∉ s.holding

instance (s : RootState) (e : RootEvent) : Decidable (UnhurriedReplace s e) := inferInstanceAs (Decidable (_ → _))

/-! ## §2 — One owner -/

/-- What holds of an owner with `held` readers; `zero` says that a release has counted it down to zero and has yet to
look at the mark, `busy` that it is being replaced. -/
structure RootOwner.Ok (c : RootOwner) (held : Nat) (zero busy : Prop) : Prop where
  readers : c.readers = held
  closes : c.closes = if c.once then 1 else 0
  marked : busy → c.retired = true
  safe : c.once = true → c.retired = true ∧ held = 0
  last : zero → c.retired = true → held = 0
  drained : c.retired = true → ¬ busy → held = 0 → c.once = true ∨ zero

namespace RootOwner.Ok

variable {c : RootOwner} {held : Nat} {zero zero' busy busy' : Prop}

/-- A release that is over was none that counted a retired owner down. -/
theorem congr (h : c.Ok held zero busy) (hzero : zero' → zero) (hkeep : c.retired = true → zero → zero')
    (hbusy : busy' ↔ busy) : c.Ok held zero' busy' where
  readers := h.readers
  closes := h.closes
  marked := fun hb => h.marked (hbusy.mp hb)
  safe := h.safe
  last := fun hz => h.last (hzero hz)
  drained := fun hretired hb hheld =>
    (h.drained hretired (fun hb' => hb (hbusy.mpr hb')) hheld).imp_right (hkeep hretired)

/-- The channel of a retired owner without readers is closed. -/
theorem drain (h : c.Ok held zero busy) (hretired : c.retired = true) (hheld : held = 0) :
    c.drain.Ok held zero' busy' := by
  have hcloses := h.closes
  unfold RootOwner.drain
  split
  next honce =>
    exact ⟨h.readers, hcloses, fun _ => hretired, h.safe, fun _ _ => hheld, fun _ _ _ => .inl honce⟩
  next honce =>
    rw [if_neg honce] at hcloses
    exact ⟨h.readers, by rw [hcloses]; rfl, fun _ => hretired, fun _ => ⟨hretired, hheld⟩, fun _ _ => hheld,
      fun _ _ _ => .inl rfl⟩

end RootOwner.Ok

theorem RootOwner.drain_retired (c : RootOwner) : c.drain.retired = c.retired := by
  unfold RootOwner.drain
  split <;> rfl

/-! ## §3 — Every run -/

namespace RootState

variable {s s' : RootState} {o : Nat}

/-- **The invariant.** -/
structure Sound (s : RootState) : Prop where
  ok : ∀ o, (s.owners o).Ok (s.holding.count o) ((o, 0) ∈ s.checking) (s.replacing = some o)
  current : ∀ o, s.owner ≤ o → (s.owners o).retired = false

/-- A step changes one owner, and the others see nothing of it. -/
theorem Sound.modify (h : s.Sound) {c : RootOwner} (howners : s'.owners = update s.owners o c)
    (hown : c.Ok (s'.holding.count o) ((o, 0) ∈ s'.checking) (s'.replacing = some o))
    (hretired : s'.owner ≤ o → c.retired = false) (howner : s.owner ≤ s'.owner)
    (hothers : ∀ x ≠ o, s'.holding.count x = s.holding.count x ∧
      ((x, 0) ∈ s'.checking ↔ (x, 0) ∈ s.checking) ∧ (s'.replacing = some x ↔ s.replacing = some x)) :
    s'.Sound := by
  refine ⟨fun x => ?_, fun x hx => ?_⟩
  · rw [howners]
    by_cases hxo : x = o
    · subst hxo
      rw [update_self]
      exact hown
    · obtain ⟨hcount, hzero, hbusy⟩ := hothers x hxo
      rw [update_of_ne hxo, hcount]
      exact (h.ok x).congr hzero.mp (fun _ => hzero.mpr) hbusy
  · rw [howners]
    by_cases hxo : x = o
    · subst hxo
      rw [update_self]
      exact hretired hx
    · rw [update_of_ne hxo]
      exact h.current x (Nat.le_trans howner hx)

/-- A pin is taken on the current owner, which is not retired. -/
theorem Sound.addReader (h : s.Sound) : (s.addReader s.owner).Sound := by
  have hfresh := h.current s.owner (Nat.le_refl _)
  have hown := h.ok s.owner
  refine h.modify rfl ?_ (fun _ => hfresh) (Nat.le_refl _) fun x hx => ⟨?_, Iff.rfl, Iff.rfl⟩
  · have hnot {p : Prop} (hretired : (s.owners s.owner).retired = true) : p := by
      rw [hfresh] at hretired
      cases hretired
    refine ⟨?_, hown.closes, hown.marked, fun honce => hnot (hown.safe honce).1, fun _ => hnot, hnot⟩
    show (s.owners s.owner).readers + 1 = ((s.owner :: s.holding).count s.owner : Nat)
    rw [count_cons_self, hown.readers]
    rfl
  · exact count_cons_of_ne hx.symm

theorem Sound.decrement (h : s.Sound) (hs : s.step (.decrement o) = some s') : s'.Sound := by
  simp only [step, ite_none_right_eq_some, some.injEq] at hs
  obtain ⟨ho, rfl⟩ := hs
  have hown := h.ok o
  have hheld : 0 < s.holding.count o := count_pos_iff.mpr ho
  have hreaders := hown.readers
  refine h.modify rfl ?_ (h.current o) (Nat.le_refl _) fun x hx => ⟨?_, ?_, Iff.rfl⟩
  · rw [count_erase_self]
    refine ⟨?_, hown.closes, hown.marked, fun honce => ?_, fun hzero hretired => ?_, fun _ _ hlast => .inr ?_⟩
    · dsimp only
      omega
    · have hnone := (hown.safe honce).2
      omega
    · rcases mem_cons.mp hzero with heq | hold
      · have hone : (s.owners o).readers - 1 = 0 := (congrArg Prod.snd heq).symm
        omega
      · have hnone := hown.last hold hretired
        omega
    · have hone : (s.owners o).readers - 1 = 0 := by omega
      rw [hone]
      exact mem_cons_self
  · exact count_erase_of_ne hx
  · rw [mem_cons]
    exact or_iff_right fun heq => hx (congrArg Prod.fst heq)

theorem Sound.check (h : s.Sound) {remaining : Int} (hs : s.step (.check o remaining) = some s') : s'.Sound := by
  simp only [step, ite_none_right_eq_some] at hs
  obtain ⟨hmem, hs⟩ := hs
  have hothers : ∀ x ≠ o, s.holding.count x = s.holding.count x ∧
      ((x, (0 : Int)) ∈ s.checking.erase (o, remaining) ↔ (x, 0) ∈ s.checking) ∧
      (s.replacing = some x ↔ s.replacing = some x) := fun x hx =>
    ⟨rfl, mem_erase_of_ne fun heq => hx (congrArg Prod.fst heq), Iff.rfl⟩
  split at hs
  next hzero =>
    cases hs
    obtain ⟨rfl, hretired⟩ := hzero
    refine h.modify rfl ((h.ok o).drain hretired ((h.ok o).last hmem hretired)) (fun hle => ?_) (Nat.le_refl _)
      hothers
    rw [RootOwner.drain_retired]
    exact h.current o hle
  next hnot =>
    obtain rfl := some.inj hs
    refine h.modify (update_eq_self ..).symm ?_ (h.current o) (Nat.le_refl _) hothers
    refine (h.ok o).congr mem_of_mem_erase (fun hretired hold => ?_) Iff.rfl
    refine (mem_erase_of_ne fun heq => hnot ⟨(congrArg Prod.snd heq).symm, hretired⟩).mpr hold

theorem Sound.replace (h : s.Sound) (hok : UnhurriedReplace s .replace) (hs : s.step .replace = some s') :
    s'.Sound := by
  simp only [step, ite_none_right_eq_some, some.injEq] at hs
  obtain ⟨hfree, rfl⟩ := hs
  have hown := h.ok s.owner
  refine h.modify rfl ?_ (fun hle => absurd hle (Nat.not_succ_le_self _)) (Nat.le_succ _) fun x hx =>
    ⟨rfl, Iff.rfl, ?_⟩
  · refine ⟨hown.readers, hown.closes, fun _ => rfl, fun honce => ⟨rfl, (hown.safe honce).2⟩,
      fun hzero _ => ?_, fun _ hbusy => absurd rfl hbusy⟩
    exact count_eq_zero.mpr (hok rfl hzero)
  · rw [hfree]
    exact ⟨fun heq => absurd (some.inj heq).symm hx, nofun⟩

theorem Sound.finishReplace (h : s.Sound) (hs : s.step .finishReplace = some s') : s'.Sound := by
  simp only [step] at hs
  split at hs
  · cases hs
  next o hbusy =>
    have hown := h.ok o
    have hothers : ∀ x ≠ o, s.holding.count x = s.holding.count x ∧
        ((x, (0 : Int)) ∈ s.checking ↔ (x, 0) ∈ s.checking) ∧ ((none : Option Nat) = some x ↔ s.replacing = some x) := by
      intro x hx
      refine ⟨rfl, Iff.rfl, ?_⟩
      rw [hbusy]
      exact ⟨nofun, fun heq => absurd (some.inj heq).symm hx⟩
    have hreaders := hown.readers
    split at hs
    next hzero =>
      cases hs
      have hnone : s.holding.count o = 0 := Int.natCast_eq_zero.mp (hreaders.symm.trans hzero)
      refine h.modify rfl (hown.drain (hown.marked hbusy) hnone) (fun hle => ?_) (Nat.le_refl _) hothers
      rw [RootOwner.drain_retired]
      exact h.current o hle
    next hsome =>
      obtain rfl := some.inj hs
      refine h.modify (update_eq_self ..).symm ?_ (h.current o) (Nat.le_refl _) hothers
      refine ⟨hreaders, hown.closes, nofun, hown.safe, hown.last, fun _ _ hnone => ?_⟩
      exact absurd (hreaders.trans (Int.natCast_eq_zero.mpr hnone)) hsome

/-- **One step.** -/
theorem Sound.step (h : s.Sound) {e : RootEvent} (hok : UnhurriedReplace s e) (hs : s.step e = some s') :
    s'.Sound := by
  cases e with
  | pin =>
    simp only [RootState.step, ite_none_right_eq_some, some.injEq] at hs
    obtain ⟨-, rfl⟩ := hs
    exact h.addReader
  | pinView tree rootOwner =>
    simp only [RootState.step, ite_none_right_eq_some] at hs
    obtain ⟨-, hs⟩ := hs
    split at hs
    next =>
      cases hs
      exact h
    next hview =>
      obtain rfl := some.inj hs
      obtain rfl : s.owner = rootOwner := not_not.mp fun hne => hview (.inr hne)
      exact h.addReader
  | decrement o => exact h.decrement hs
  | check o remaining => exact h.check hs
  | installCheckpoint =>
    simp only [RootState.step, ite_none_right_eq_some, some.injEq] at hs
    obtain ⟨-, rfl⟩ := hs
    exact ⟨h.ok, h.current⟩
  | replace => exact h.replace hok hs
  | finishReplace => exact h.finishReplace hs

/-- Readers only come to the current owner. -/
theorem count_le_of_step {e : RootEvent} (ho : o ≠ s.owner) (hs : s.step e = some s') :
    s'.holding.count o ≤ s.holding.count o := by
  have hpin : (s.addReader s.owner).holding.count o = s.holding.count o := count_cons_of_ne ho.symm
  cases e with
  | decrement x =>
    simp only [RootState.step, ite_none_right_eq_some, some.injEq] at hs
    obtain ⟨-, rfl⟩ := hs
    exact List.Sublist.count_le o erase_sublist
  | _ =>
    simp only [RootState.step] at hs
    grind [RootState.modify]

end RootState

/-- **Retired roots drain when they are unused**, in every run in which no replacement overtakes such a release. -/
theorem retired_roots_drain {s : RootState} (h : rootOwners.Reach UnhurriedReplace s) (o : Nat) :
    (s.owners o).closes ≤ 1 ∧ (0 < (s.owners o).closes → (s.owners o).retired = true ∧ o ∉ s.holding) ∧
      ((s.owners o).retired = true → o ∉ s.holding → (∀ remaining, (o, remaining) ∉ s.checking) →
        s.replacing ≠ some o → (s.owners o).closes = 1) ∧
      ∀ e s', rootOwners.step s e = some s' → (s.owners o).retired = true →
        s'.holding.count o ≤ s.holding.count o := by
  have hsound : s.Sound := by
    refine Lib.Machine.Reach.invariant RootState.Sound ?_ (fun _ _ _ hs hok hstep => hs.step hok hstep) h
    rintro s rfl
    exact ⟨fun o => ⟨rfl, rfl, nofun, nofun, nofun, nofun⟩, fun _ _ => rfl⟩
  have hown := hsound.ok o
  have hcloses := hown.closes
  refine ⟨?_, fun hpos => ?_, fun hretired hfree hquiet hidle => ?_, fun e s' hstep hretired => ?_⟩
  · split at hcloses <;> omega
  · have honce : (s.owners o).once = true := by
      by_contra hnot
      rw [if_neg hnot] at hcloses
      omega
    exact ⟨(hown.safe honce).1, count_eq_zero.mp (hown.safe honce).2⟩
  · have honce := (hown.drained hretired hidle (count_eq_zero.mpr hfree)).resolve_right (hquiet 0)
    rw [hcloses, if_pos honce]
  · refine RootState.count_le_of_step (fun heq => ?_) hstep
    have hcurrent := hsound.current o (Nat.le_of_eq heq.symm)
    rw [hretired] at hcurrent
    cases hcurrent

/-- One reader leaves, another comes, the owner is replaced, and the second reader leaves. -/
theorem retired_roots_drain_demo :
    ∃ s, rootOwners.Reach UnhurriedReplace s ∧ (s.owners 0).closes = 1 ∧ s.owner = 1 := by
  have hreach : rootOwners.Reach UnhurriedReplace _ := Lib.Machine.Reach.execOk (.start rfl)
    [.pin, .decrement 0, .check 0 0, .pin, .replace, .finishReplace, .decrement 0, .check 0 0] rfl
  exact ⟨_, hreach, (retired_roots_drain hreach 0).2.2.1 rfl not_mem_nil nofun nofun, rfl⟩

/-- **A channel that is closed under a reader**: the first reader has counted itself out and does not yet look at the
mark, a second one comes, the owner is replaced, and the first one finds the mark. -/
theorem drained_under_reader : ∃ s, rootOwners.Reachable s ∧ (s.owners 0).closes = 1 ∧ 0 ∈ s.holding := by
  refine ⟨_, Lib.Machine.Reach.exec (.start rfl)
    [.pin, .decrement 0, .pin, .replace, .finishReplace, .check 0 0] (fun _ _ _ => trivial) rfl, rfl, ?_⟩
  exact mem_cons_self

end Ridstore.Mapping
