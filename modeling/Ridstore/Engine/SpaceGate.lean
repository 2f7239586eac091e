import Mathlib.Algebra.Order.BigOperators.Group.List
import Mathlib.Algebra.Order.Group.Nat
import Ridstore.Base
import Ridstore.Lib.Transition

/-
# Ridstore.Engine.SpaceGate — the gate in front of the free disk space

A writer reserves the bytes it is about to append and completes the reservation afterwards.  The gate compares
the reservations with a sample of the free space, which it caches: a success takes its bytes off the sample, a
failure drops it, and a gate without reservations samples again after an interval.

A reserving call is taken apart at its samples, since the holders of other reservations go on writing while it
has the mutex; a completion is one step.  The state also has the real free space, what the reservations have
consumed of it, and a history of the grants.
-/

namespace Ridstore.Engine.SpaceGate

open List Option

/-! ## §1 — The gate -/

/-- `spaceGate`; `ready` when its root and its two functions are given. -/
structure Gate where
  ready : Bool
  minimum : Nat
  interval : Int
  valid : Bool
  lastSample : Int
  free : Nat
  reserved : Nat
  rejections : Nat
  checkErrors : Nat
  deriving DecidableEq, Repr

/-- The arguments of `reserveWithMinimum` and the time it reads. -/
structure Call where
  bytes : Nat
  minimum : Nat
  countRejection : Bool
  now : Int
  deriving DecidableEq, Repr

/-- Where a call is inside of the mutex: before the regular sample, before the sample for a request that does
not fit, or before the decision. -/
inductive Stage
  | first
  | second
  | last
  deriving DecidableEq, Repr

/-- `spaceReservation`, with what its holder has consumed; a completed one has no bytes. -/
structure Reservation where
  bytes : Nat
  consumed : Nat
  deriving DecidableEq, Repr

/-- The minimum of a grant, and the reserved total and the cached sample right after it. -/
structure Grant where
  minimum : Nat
  reserved : Nat
  free : Nat
  deriving DecidableEq, Repr

structure State where
  gate : Gate
  lock : Option (Call × Stage)
  reservations : List Reservation
  grants : List Grant
  real : Nat
  deriving DecidableEq, Repr

/-- `fitsBelow`. -/
def fitsBelow (reserved requested free minimum : Nat) : Bool :=
  reserved + requested ≤ maxUint64 && (minimum ≤ free && reserved + requested ≤ free - minimum)

namespace Gate

variable (g : Gate) (c : Call)

/-- `newSpaceGate`. -/
def new (ready : Bool) (minimum : Nat) (interval : Int) : Gate := ⟨ready, minimum, interval, false, 0, 0, 0, 0, 0⟩

/-- The configuration checks of `reserveWithMinimum`. -/
def accepts : Bool := c.bytes ≠ 0 && c.minimum ≠ 0 && g.ready && g.minimum ≠ 0 && 0 < g.interval

def fits : Bool := fitsBelow g.reserved c.bytes g.free c.minimum

/-- **`complete`** inside of the mutex; the cached sample does not go below zero. -/
def complete (bytes : Nat) (success : Bool) : Gate :=
  let g := if bytes ≤ g.reserved then { g with reserved := g.reserved - bytes }
    else { g with reserved := 0, valid := false }
  if success then { g with free := g.free - bytes } else { g with valid := false }

end Gate

/-! ## §2 — The gate with its reservations -/

namespace State

variable (s : State)

/-- `reserveWithMinimum` up to the mutex. -/
def reserveWithMinimum (cancelled : Bool) (c : Call) : Option State :=
  if cancelled ∨ s.gate.accepts c = false then some s
  else if s.lock = none then some { s with lock := some (c, .first) } else none

/-- `reserve`. -/
def reserve (cancelled : Bool) (bytes : Nat) (now : Int) : Option State :=
  s.reserveWithMinimum cancelled ⟨bytes, s.gate.minimum, true, now⟩

/-- `refreshLocked`; the call goes on if the sample could be taken. -/
def refreshLocked (c : Call) (next : Stage) : Option Nat → State
  | none => { s with gate := { s.gate with valid := false, checkErrors := s.gate.checkErrors + 1 }, lock := none }
  | some free =>
    { s with gate := { s.gate with free := free, lastSample := c.now, valid := true }, lock := some (c, next) }

/-- The reservation is handed out. -/
def grant (c : Call) : State :=
  { s with
    gate := { s.gate with reserved := s.gate.reserved + c.bytes }, lock := none
    reservations := ⟨c.bytes, 0⟩ :: s.reservations
    grants := ⟨c.minimum, s.gate.reserved + c.bytes, s.gate.free⟩ :: s.grants }

/-- **`reserveWithMinimum`** inside of the mutex, one stage at a time. -/
def advance (sample : Option Nat) : Option State :=
  match s.lock with
  | none => none
  | some (c, .first) =>
    if s.gate.valid = false ∨ s.gate.reserved = 0 ∧ s.gate.interval ≤ c.now - s.gate.lastSample then
      some (s.refreshLocked c .second sample)
    else some { s with lock := some (c, .second) }
  | some (c, .second) =>
    if s.gate.fits c = false ∧ s.gate.reserved = 0 then some (s.refreshLocked c .last sample)
    else some { s with lock := some (c, .last) }
  | some (c, .last) =>
    if s.gate.fits c then some (s.grant c)
    else
      let rejections := s.gate.rejections + if c.countRejection then 1 else 0
      some { s with gate := { s.gate with rejections := rejections }, lock := none }

end State

/-- A completion is `raced` if it has looked at the bytes before another one has cleared them.  `drain` is space
that somebody else takes. -/
inductive Event
  | reserve (cancelled : Bool) (bytes : Nat) (now : Int)
  | reserveWithMinimum (cancelled : Bool) (c : Call)
  | advance (sample : Option Nat)
  | complete (r : Reservation) (raced success : Bool)
  | consume (r : Reservation) (n : Nat)
  | drain (n : Nat)
  | freed (n : Nat)
  deriving DecidableEq, Repr

/-- The gate of an opened store, over any free space. -/
def machine : Lib.Machine State Event where
  init s := ∃ ready minimum interval real, s = ⟨Gate.new ready minimum interval, none, [], [], real⟩
  step s
    | .reserve cancelled bytes now => s.reserve cancelled bytes now
    | .reserveWithMinimum cancelled c => s.reserveWithMinimum cancelled c
    | .advance sample => s.advance sample
    | .complete r raced success =>
      if r.bytes = 0 ∧ raced = false then some s
      else if s.lock = none ∧ r ∈ s.reservations then
        let reservations := ⟨0, 0⟩ :: s.reservations.erase r
        some { s with gate := s.gate.complete r.bytes success, reservations := reservations }
      else none
    | .consume r n =>
      if r ∈ s.reservations then
        let r' : Reservation := { r with consumed := r.consumed + n }
        some { s with reservations := r' :: s.reservations.erase r, real := s.real - n }
      else none
    | .drain n => some { s with real := s.real - n }
    | .freed n => some { s with real := s.real + n }

/-- **The store has the disk for itself**: a holder consumes what it has reserved, nobody else consumes, and a
sample is not above the free space. -/
def Covered (s : State) : Event → Prop
  | .consume r n => r.consumed + n ≤ r.bytes
  | .drain _ => False
  | .advance sample => ∀ free ∈ sample, free ≤ s.real
  | .reserve _ _ _ | .reserveWithMinimum _ _ | .complete _ _ _ | .freed _ => True

instance (s : State) : (e : Event) → Decidable (Covered s e)
  | .consume r n => inferInstanceAs (Decidable (r.consumed + n ≤ r.bytes))
  | .drain _ => inferInstanceAs (Decidable False)
  | .advance sample => inferInstanceAs (Decidable (∀ free ∈ sample, free ≤ s.real))
  | .reserve _ _ _ | .reserveWithMinimum _ _ | .complete _ _ _ | .freed _ => inferInstanceAs (Decidable True)

namespace State

variable {s s' : State} {e : Event} {r : Reservation} {sample : Option Nat}

/-- The bytes of the reservations; those of the completed ones are zero. -/
def reserved (s : State) : Nat := (s.reservations.map Reservation.bytes).sum

/-- What their holders have consumed. -/
def consumed (s : State) : Nat := (s.reservations.map Reservation.consumed).sum

/-- The cached sample is in use: it is valid, or a call has passed its first stage with it. -/
def Live (s : State) : Prop := s.gate.valid = true ∨ ∃ c stage, s.lock = some (c, stage) ∧ stage ≠ .first

/-! ## §3 — The steps -/

theorem reserveWithMinimum_eq_some {cancelled : Bool} {c : Call} (h : s.reserveWithMinimum cancelled c = some s') :
    s' = s ∨ s.lock = none ∧ s' = { s with lock := some (c, .first) } := by
  simp only [reserveWithMinimum] at h
  split at h
  next => exact .inl (Option.some.inj h).symm
  next =>
    obtain ⟨hlock, hs'⟩ := ite_none_right_eq_some.mp h
    exact .inr ⟨hlock, (Option.some.inj hs').symm⟩

/-- **What a stage does**: a call is granted bytes that fit a sample in use, or the reservations stay and the
sample in use is the old one or a new one. -/
theorem advance_eq_some (h : s.advance sample = some s') :
    (∃ c, s.Live ∧ s.gate.fits c = true ∧ s' = s.grant c) ∨
      ∃ g lock, s' = { s with gate := g, lock := lock } ∧ g.reserved = s.gate.reserved ∧
        (s'.Live → g.free ∈ sample ∨ s.Live ∧ g.free = s.gate.free) := by
  have hrefresh : ∀ c next, some (s.refreshLocked c next sample) = some s' → ∃ g lock,
      s' = { s with gate := g, lock := lock } ∧ g.reserved = s.gate.reserved ∧
        (s'.Live → g.free ∈ sample ∨ s.Live ∧ g.free = s.gate.free) := by
    rintro c next ⟨⟩
    cases sample with
    | none => exact ⟨_, _, rfl, rfl, by rintro (hvalid | ⟨_, _, hlock, -⟩) <;> contradiction⟩
    | some free => exact ⟨_, _, rfl, rfl, fun _ => .inl rfl⟩
  simp only [advance] at h
  split at h
  next => cases h
  next c hlock =>
    split at h
    next => exact .inr (hrefresh _ _ h)
    next hfresh =>
      cases h
      refine .inr ⟨_, _, rfl, rfl, fun _ => .inr ⟨.inl ?_, rfl⟩⟩
      exact Bool.not_eq_false _ ▸ fun hinvalid => hfresh (.inl hinvalid)
  next c hlock =>
    split at h
    next => exact .inr (hrefresh _ _ h)
    next =>
      cases h
      exact .inr ⟨_, _, rfl, rfl, fun _ => .inr ⟨.inr ⟨c, _, hlock, nofun⟩, rfl⟩⟩
  next c hlock =>
    have hlive : s.Live := .inr ⟨c, _, hlock, nofun⟩
    split at h
    next hfits =>
      cases h
      exact .inl ⟨c, hlive, hfits, rfl⟩
    next =>
      cases h
      exact .inr ⟨_, _, rfl, rfl, fun _ => .inr ⟨hlive, rfl⟩⟩

/-- A reservation is part of the sums. -/
theorem sums_erase (h : r ∈ s.reservations) :
    s.reserved = r.bytes + ((s.reservations.erase r).map Reservation.bytes).sum ∧
      s.consumed = r.consumed + ((s.reservations.erase r).map Reservation.consumed).sum :=
  ⟨(sum_map_erase Reservation.bytes h).symm, (sum_map_erase Reservation.consumed h).symm⟩

theorem fits_eq_true {g : Gate} {c : Call} (h : g.fits c = true) : g.reserved + c.bytes + c.minimum ≤ g.free := by
  simp only [Gate.fits, fitsBelow, Bool.and_eq_true, decide_eq_true_eq] at h
  omega

theorem complete_of_le {g : Gate} {bytes : Nat} (h : bytes ≤ g.reserved) (success : Bool) :
    (g.complete bytes success).reserved = g.reserved - bytes ∧
      ((g.complete bytes success).valid = true → g.valid = true ∧ (g.complete bytes success).free = g.free - bytes) := by
  simp only [Gate.complete, if_pos h]
  cases success with
  | true => exact ⟨rfl, fun hvalid => ⟨hvalid, rfl⟩⟩
  | false => exact ⟨rfl, nofun⟩

/-! ## §4 — The reservations add up -/

/-- **The books of the gate.** -/
structure Balanced (s : State) : Prop where
  reserved : s.gate.reserved = s.reserved
  grants : ∀ grant ∈ s.grants, grant.reserved + grant.minimum ≤ grant.free

theorem Balanced.step (h : s.Balanced) (hstep : machine.step s e = some s') : s'.Balanced := by
  have henter : ∀ {cancelled c}, s.reserveWithMinimum cancelled c = some s' → s'.Balanced := by
    intro cancelled c hs'
    rcases reserveWithMinimum_eq_some hs' with rfl | ⟨-, rfl⟩
    · exact h
    · exact { h with }
  cases e with
  | reserve cancelled bytes now => exact henter hstep
  | reserveWithMinimum cancelled c => exact henter hstep
  | advance sample =>
    rcases advance_eq_some hstep with ⟨c, -, hfits, rfl⟩ | ⟨g, lock, rfl, hreserved, -⟩
    · refine ⟨?_, forall_mem_cons.mpr ⟨fits_eq_true hfits, h.grants⟩⟩
      simp only [grant, State.reserved, map_cons, sum_cons, h.reserved]
      exact Nat.add_comm _ _
    · exact ⟨hreserved.trans h.reserved, h.grants⟩
  | complete r raced success =>
    simp only [machine] at hstep
    split at hstep
    next =>
      cases hstep
      exact h
    next =>
      obtain ⟨⟨-, hr⟩, hs'⟩ := ite_none_right_eq_some.mp hstep
      cases hs'
      have hsum := (sums_erase hr).1
      rw [← h.reserved] at hsum
      refine ⟨?_, h.grants⟩
      rw [(complete_of_le (by omega) success).1, hsum, Nat.add_sub_cancel_left]
      exact (Nat.zero_add _).symm
  | consume r n =>
    obtain ⟨hr, hs'⟩ := ite_none_right_eq_some.mp hstep
    cases hs'
    exact ⟨h.reserved.trans (sums_erase hr).1, h.grants⟩
  | drain n | freed n =>
    cases hstep
    exact { h with }

/-! ## §5 — The real free space -/

/-- **The cached and the real free space** of a store that has the disk for itself. -/
structure Backed (s : State) : Prop where
  balanced : s.Balanced
  within : ∀ r ∈ s.reservations, r.consumed ≤ r.bytes
  cached : s.Live → s.gate.free ≤ s.real + s.consumed
  floor : s.grants ≠ [] → ∃ grant ∈ s.grants, grant.minimum + s.reserved ≤ s.real + s.consumed

theorem Backed.step (h : s.Backed) (hok : Covered s e) (hstep : machine.step s e = some s') : s'.Backed := by
  have hbalanced := h.balanced.step hstep
  have henter : ∀ {cancelled c}, s.reserveWithMinimum cancelled c = some s' → s'.Backed := by
    intro cancelled c hs'
    rcases reserveWithMinimum_eq_some hs' with rfl | ⟨-, rfl⟩
    · exact h
    · refine { h with balanced := hbalanced, cached := ?_ }
      rintro (hvalid | ⟨_, _, ⟨⟩, hne⟩)
      · exact h.cached (.inl hvalid)
      · exact absurd rfl hne
  cases e with
  | reserve cancelled bytes now => exact henter hstep
  | reserveWithMinimum cancelled c => exact henter hstep
  | advance sample =>
    rcases advance_eq_some hstep with ⟨c, hlive, hfits, rfl⟩ | ⟨g, lock, rfl, -, hlive⟩
    · have hcached := h.cached hlive
      have hconsumed : (s.grant c).consumed = s.consumed := Nat.zero_add _
      refine ⟨hbalanced, forall_mem_cons.mpr ⟨Nat.zero_le _, h.within⟩, fun _ => ?_, fun _ => ?_⟩
      · rw [hconsumed]
        exact hcached
      · refine ⟨_, mem_cons_self, ?_⟩
        rw [hconsumed, ← hbalanced.reserved]
        have hfree := fits_eq_true hfits
        show c.minimum + (s.gate.reserved + c.bytes) ≤ s.real + s.consumed
        omega
    · refine { h with balanced := hbalanced, cached := fun hlive' => ?_ }
      rcases hlive hlive' with hnew | ⟨hold, hfree⟩
      · exact Nat.le_add_right_of_le (hok _ hnew)
      · exact hfree.trans_le (h.cached hold)
  | complete r raced success =>
    simp only [machine] at hstep
    split at hstep
    next =>
      cases hstep
      exact h
    next =>
      obtain ⟨⟨hlock, hr⟩, hs'⟩ := ite_none_right_eq_some.mp hstep
      cases hs'
      obtain ⟨hreserved, hconsumed⟩ := sums_erase hr
      have hwithin := h.within r hr
      refine ⟨hbalanced, ?_, ?_, fun hne => ?_⟩
      · exact forall_mem_cons.mpr ⟨Nat.le_refl _, fun r' hr' => h.within r' (mem_of_mem_erase hr')⟩
      · rintro (hvalid | ⟨_, _, hsome, -⟩)
        · have hle : r.bytes ≤ s.gate.reserved := by
            rw [h.balanced.reserved]
            omega
          obtain ⟨hold, hfree⟩ := (complete_of_le hle success).2 hvalid
          have hcached := h.cached (.inl hold)
          simp only [State.consumed, map_cons, sum_cons]
          omega
        · cases hlock.symm.trans hsome
      · obtain ⟨grant, hgrant, hle⟩ := h.floor hne
        refine ⟨grant, hgrant, ?_⟩
        simp only [State.reserved, State.consumed, map_cons, sum_cons]
        omega
  | consume r n =>
    obtain ⟨hr, hs'⟩ := ite_none_right_eq_some.mp hstep
    cases hs'
    obtain ⟨hreserved, hconsumed⟩ := sums_erase hr
    have hmore : s.real + s.consumed ≤
        s.real - n + (r.consumed + n + ((s.reservations.erase r).map Reservation.consumed).sum) := by omega
    refine ⟨hbalanced, ?_, fun hlive => Nat.le_trans (h.cached hlive) hmore, fun hne => ?_⟩
    · exact forall_mem_cons.mpr ⟨hok, fun r' hr' => h.within r' (mem_of_mem_erase hr')⟩
    · obtain ⟨grant, hgrant, hle⟩ := h.floor hne
      rw [hreserved] at hle
      exact ⟨grant, hgrant, hle.trans hmore⟩
  | drain n => exact hok.elim
  | freed n =>
    cases hstep
    have hmore : s.real + s.consumed ≤ s.real + n + s.consumed := by omega
    refine { h with balanced := hbalanced, cached := fun hlive => Nat.le_trans (h.cached hlive) hmore, floor := ?_ }
    exact fun hne => (h.floor hne).imp fun grant hgrant => ⟨hgrant.1, hgrant.2.trans hmore⟩

/-- **The gate**: the reserved total is the sum of the reservations that are not completed, so that a completion
never finds more bytes than are reserved; every grant leaves its minimum of the cached sample; and a store that
has the disk for itself never has less free space than the smallest minimum of a grant. -/
theorem reserved_eq_and_minimum_le_real (h : machine.Reachable s) :
    s.gate.reserved = (s.reservations.map Reservation.bytes).sum ∧
      (∀ r ∈ s.reservations, r.bytes ≤ s.gate.reserved) ∧
      (∀ grant ∈ s.grants, grant.reserved + grant.minimum ≤ grant.free) ∧
      (machine.Reach Covered s → s.grants ≠ [] → ∃ grant ∈ s.grants, grant.minimum ≤ s.real) := by
  have hinit : ∀ s, machine.init s → s.Backed := by
    rintro _ ⟨ready, minimum, interval, real, rfl⟩
    refine ⟨⟨rfl, nofun⟩, nofun, fun _ => Nat.zero_le _, fun hne => absurd rfl hne⟩
  have hbalanced : s.Balanced :=
    h.invariant Balanced (fun s hs => (hinit s hs).balanced) fun _ _ _ hs _ hstep => hs.step hstep
  refine ⟨hbalanced.reserved, fun r hr => ?_, hbalanced.grants, fun hcovered hne => ?_⟩
  · rw [hbalanced.reserved, (sums_erase hr).1]
    exact Nat.le_add_right _ _
  · have hbacked := hcovered.invariant Backed hinit fun _ _ _ hs hok hstep => hs.step hok hstep
    obtain ⟨grant, hgrant, hle⟩ := hbacked.floor hne
    have hwithin : s.consumed ≤ s.reserved := sum_le_sum hbacked.within
    exact ⟨grant, hgrant, by omega⟩

/-- Two reservations, one of which is completed while the other one is in use. -/
theorem reserved_eq_and_minimum_le_real_run : ∃ s, machine.Reach Covered s ∧ s.reservations = [⟨0, 0⟩, ⟨10, 4⟩] ∧
    s.gate.reserved = (s.reservations.map Reservation.bytes).sum ∧ (∀ r ∈ s.reservations, r.bytes ≤ s.gate.reserved) ∧
    (∀ grant ∈ s.grants, grant.reserved + grant.minimum ≤ grant.free) ∧ ∃ grant ∈ s.grants, grant.minimum ≤ s.real := by
  let run : List Event :=
    [.reserve false 20 0, .advance (some 100), .advance none, .advance none,
      .reserve false 10 1, .advance none, .advance none, .advance none,
      .consume ⟨20, 0⟩ 20, .consume ⟨10, 0⟩ 4, .complete ⟨20, 20⟩ false true]
  let s : State :=
    ⟨⟨true, 60, 5, true, 0, 80, 10, 0, 0⟩, none, [⟨0, 0⟩, ⟨10, 4⟩], [⟨60, 30, 100⟩, ⟨60, 20, 100⟩], 76⟩
  have hinit : machine.init ⟨Gate.new true 60 5, none, [], [], 100⟩ := ⟨true, 60, 5, 100, rfl⟩
  have hcovered : machine.Reach Covered s := Lib.Machine.Reach.execOk (.start hinit) run (by decide)
  have hreached : machine.Reachable s := Lib.Machine.Reach.exec (.start hinit) run (fun _ _ _ => trivial) (by decide)
  obtain ⟨hreserved, hwithin, hgrants, hreal⟩ := reserved_eq_and_minimum_le_real hreached
  exact ⟨s, hcovered, rfl, hreserved, hwithin, hgrants, hreal hcovered (by decide)⟩

end State

end Ridstore.Engine.SpaceGate
