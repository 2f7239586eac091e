import Mathlib.Algebra.Order.BigOperators.Group.Finset
import Ridstore.Base

/-
# Ridstore.Mapping.Budget — the delta budget and its reservations

A request reserves the bytes its entries may need in the active layer before it is queued.  Publication turns
the reservation into the charge of the new entries; a request that fails gives the reservation back.  The
reservations are kept by the number they were issued under, so that what the budget holds can be compared
with the ones that are still open.
-/

namespace Ridstore.Mapping

open Function

/-! ## §1 — The budget -/

def deltaEntryCharge : Nat := 64

/-- `deltaBudget`. -/
structure DeltaBudget where
  soft : Nat
  hard : Nat
  charged : Nat
  reserved : Nat
  deriving DecidableEq, Repr

/-- `newDeltaBudget`. -/
def newDeltaBudget (soft hard : Nat) : Except StoreError DeltaBudget :=
  if soft = 0 ∨ hard ≤ soft ∨ hard < deltaEntryCharge then .error .invalid else .ok ⟨soft, hard, 0, 0⟩

/-- `deltaReservation`; `consumed` is set by the release as well. -/
structure DeltaReservation where
  upper : Nat
  consumed : Bool
  deriving DecidableEq, Repr

/-- `multiply` by the charge of an entry; `none` when the product does not fit. -/
def deltaBytes (entries : Nat) : Option Nat :=
  if entries * deltaEntryCharge ≤ maxUint64 then some (entries * deltaEntryCharge) else none

/-- **`reserve`.** -/
def DeltaBudget.reserve (b : DeltaBudget) (entries : Nat) : Except StoreError (DeltaBudget × DeltaReservation) :=
  match deltaBytes entries with
  | none => .error .batchTooLarge
  | some bytes =>
    if b.hard < bytes then .error .batchTooLarge
    else if b.hard < b.charged ∨ b.hard - b.charged < b.reserved ∨ b.hard - b.charged - b.reserved < bytes then
      .error .budget
    else .ok ({ b with reserved := b.reserved + bytes }, ⟨bytes, false⟩)

/-- **`Release`.** -/
def DeltaBudget.release (b : DeltaBudget) (r : DeltaReservation) : DeltaBudget × DeltaReservation :=
  if r.consumed then (b, r)
  else (if r.upper ≤ b.reserved then { b with reserved := b.reserved - r.upper } else b, { r with consumed := true })

/-- **`consume`.**  The reservation is marked before the budget is looked at. -/
def DeltaBudget.consume (b : DeltaBudget) (r : DeltaReservation) (entries : Nat) :
    DeltaBudget × DeltaReservation × Except StoreError Nat :=
  match deltaBytes entries with
  | none => (b, r, .error .corrupt)
  | some actual =>
    if r.consumed ∨ r.upper < actual then (b, r, .error .corrupt)
    else if b.reserved < r.upper ∨ b.hard - actual < b.charged then
      (b, { r with consumed := true }, .error .corrupt)
    else
      ({ b with reserved := b.reserved - r.upper, charged := b.charged + actual }, { r with consumed := true },
        .ok actual)

/-! ## §2 — The reservations of a run -/

/-- The budget with the reservations by their numbers. -/
structure Ledger where
  budget : DeltaBudget
  reservations : Nat → DeltaReservation

namespace Ledger

variable (l : Ledger) (t : Nat)

/-- The reservation is neither released nor consumed. -/
def held : Bool := !(l.reservations t).consumed

/-- What a reservation takes of the budget. -/
def holding : Nat := if l.held t then (l.reservations t).upper else 0

/-- The ledger with another budget and another value of one reservation. -/
def write (b : DeltaBudget) (r : DeltaReservation) : Ledger := ⟨b, update l.reservations t r⟩

/-- A new reservation. -/
def reserve (entries : Nat) : Except StoreError Ledger :=
  match l.budget.reserve entries with
  | .error err => .error err
  | .ok (b, r) => .ok (l.write t b r)

def release : Ledger :=
  let (b, r) := l.budget.release (l.reservations t)
  l.write t b r

def consume (entries : Nat) : Ledger × Except StoreError Nat :=
  let (b, r, result) := l.budget.consume (l.reservations t) entries
  (l.write t b r, result)

/-- A checkpoint gives back the charge of the layers it has covered. -/
def discharge (bytes : Nat) : Ledger := { l with budget := { l.budget with charged := l.budget.charged - bytes } }

/-- **The budget holds exactly the open reservations**, and with the charges they fit the hard limit. -/
structure Sound (issued : Nat) : Prop where
  reserved : l.budget.reserved = ∑ t ∈ Finset.range issued, l.holding t
  fits : l.budget.charged + l.budget.reserved ≤ l.budget.hard
  unissued : ∀ t, issued ≤ t → l.held t = false

end Ledger

/-! ## §3 — What the operations keep -/

section Ledger

variable {l l' : Ledger} {b b' : DeltaBudget} {r r' : DeltaReservation} {t u entries issued bytes actual : Nat}

@[simp] theorem Ledger.write_self : (l.write t b r).reservations t = r := by
  simp only [Ledger.write, update_self]

theorem Ledger.write_of_ne (h : u ≠ t) : (l.write t b r).reservations u = l.reservations u := by
  simp only [Ledger.write, ne_eq, h, not_false_eq_true, update_of_ne]

theorem Ledger.held_write_of_ne (h : u ≠ t) : (l.write t b r).held u = l.held u := by
  simp only [Ledger.held, Ledger.write_of_ne h]

theorem Ledger.holding_write_of_ne (h : u ≠ t) : (l.write t b r).holding u = l.holding u := by
  simp only [Ledger.holding, Ledger.held_write_of_ne h, Ledger.write_of_ne h]

/-- Writing one reservation changes the sum of the open ones at that number only. -/
theorem Ledger.sum_holding_write (ht : t < issued) :
    (∑ u ∈ Finset.range issued, (l.write t b r).holding u) + l.holding t =
      (∑ u ∈ Finset.range issued, l.holding u) + (l.write t b r).holding t := by
  have hmem : t ∈ Finset.range issued := Finset.mem_range.mpr ht
  rw [← Finset.add_sum_erase _ _ hmem, ← Finset.add_sum_erase _ (l.holding) hmem]
  have hrest : ∑ u ∈ (Finset.range issued).erase t, (l.write t b r).holding u =
      ∑ u ∈ (Finset.range issued).erase t, l.holding u :=
    Finset.sum_congr rfl fun u hu => Ledger.holding_write_of_ne (Finset.ne_of_mem_erase hu)
  rw [hrest]
  omega

/-- An open reservation is part of what the budget holds. -/
theorem Ledger.Sound.holding_le (h : l.Sound issued) (ht : t < issued) : l.holding t ≤ l.budget.reserved := by
  rw [h.reserved]
  exact Finset.single_le_sum (f := l.holding) (fun _ _ => Nat.zero_le _) (Finset.mem_range.mpr ht)

/-- What `reserve` takes is within the hard limit. -/
theorem reserve_eq_ok (h : b.reserve entries = .ok (b', r')) :
    ∃ bytes, r' = ⟨bytes, false⟩ ∧ b' = { b with reserved := b.reserved + bytes } ∧
      b.charged + b.reserved + bytes ≤ b.hard := by
  simp only [DeltaBudget.reserve] at h
  split at h
  next => cases h
  next bytes _ =>
    split at h
    next => cases h
    next =>
      split at h
      next => cases h
      next hfit =>
        cases h
        refine ⟨bytes, rfl, rfl, ?_⟩
        omega

/-- A number that was issued without a reservation takes nothing. -/
theorem Ledger.Sound.issue (h : l.Sound issued) : l.Sound (issued + 1) := by
  refine ⟨?_, h.fits, fun t ht => h.unissued t (Nat.le_of_succ_le ht)⟩
  rw [Finset.sum_range_succ, h.reserved]
  simp only [Ledger.holding, h.unissued issued (Nat.le_refl _), Bool.false_eq_true, if_false, Nat.add_zero]

/-- One reservation is rewritten and the budget with it. -/
theorem Ledger.Sound.write (h : l.Sound issued) (ht : t < issued)
    (hres : b.reserved + l.holding t = l.budget.reserved + if r.consumed then 0 else r.upper)
    (hfits : b.charged + b.reserved ≤ b.hard) : (l.write t b r).Sound issued := by
  refine ⟨?_, hfits, fun u hu => ?_⟩
  · have hsum := Ledger.sum_holding_write (l := l) (b := b) (r := r) ht
    have hafter : (l.write t b r).holding t = if r.consumed then 0 else r.upper := by
      simp only [Ledger.holding, Ledger.held, Ledger.write_self]
      cases r.consumed <;> rfl
    rw [hafter, ← h.reserved] at hsum
    show b.reserved = _
    omega
  · rw [Ledger.held_write_of_ne (by omega)]
    exact h.unissued u hu

/-- The reservation under the next number is open, and the budget holds it. -/
theorem Ledger.Sound.reserve (h : l.Sound issued) (hr : l.reserve issued entries = .ok l') :
    l'.Sound (issued + 1) ∧ l'.held issued = true ∧ ∀ u ≠ issued, l'.held u = l.held u := by
  simp only [Ledger.reserve] at hr
  split at hr
  next => cases hr
  next b r hres =>
    cases hr
    obtain ⟨bytes, rfl, rfl, hfit⟩ := reserve_eq_ok hres
    have hbefore : l.holding issued = 0 := by
      simp only [Ledger.holding, h.unissued issued (Nat.le_refl _), Bool.false_eq_true, if_false]
    refine ⟨h.issue.write (Nat.lt_succ_self issued) ?_ ?_, ?_, fun u hu => Ledger.held_write_of_ne hu⟩
    · rw [hbefore]
      rfl
    · show l.budget.charged + (l.budget.reserved + bytes) ≤ l.budget.hard
      omega
    · simp only [Ledger.held, Ledger.write_self, Bool.not_false]

/-- A reservation that has been settled stays as it is, and so does the budget. -/
theorem Ledger.release_of_not_held (h : l.held t = false) : l.release t = l := by
  have hcons : (l.reservations t).consumed = true := by simpa only [Ledger.held, Bool.not_eq_false'] using h
  simp only [Ledger.release, DeltaBudget.release, hcons, if_true, Ledger.write, update_eq_self]

/-- Settling an open reservation: the budget gives its bytes back and may charge at most as many. -/
theorem Ledger.Sound.settle (h : l.Sound issued) (ht : t < issued) (hheld : l.held t = true)
    (hactual : actual ≤ (l.reservations t).upper) :
    (l.write t { l.budget with
      reserved := l.budget.reserved - (l.reservations t).upper
      charged := l.budget.charged + actual } { l.reservations t with consumed := true }).Sound issued := by
  have hholding : l.holding t = (l.reservations t).upper := by simp only [Ledger.holding, hheld, if_true]
  have hle := h.holding_le ht
  have hfits := h.fits
  refine h.write ht ?_ ?_
  · show l.budget.reserved - (l.reservations t).upper + l.holding t = l.budget.reserved + 0
    omega
  · show l.budget.charged + actual + (l.budget.reserved - (l.reservations t).upper) ≤ l.budget.hard
    omega

/-- **A release settles its reservation** and keeps the others and the accounts. -/
theorem Ledger.Sound.release (h : l.Sound issued) :
    (l.release t).Sound issued ∧ (l.release t).held t = false ∧ ∀ u ≠ t, (l.release t).held u = l.held u := by
  by_cases hheld : l.held t = true
  · have ht : t < issued := by
      by_contra hge
      rw [h.unissued t (Nat.le_of_not_lt hge)] at hheld
      cases hheld
    have hcons : (l.reservations t).consumed = false := by simpa only [Ledger.held, Bool.not_eq_true'] using hheld
    have hle : (l.reservations t).upper ≤ l.budget.reserved := by
      have := h.holding_le ht
      simpa only [Ledger.holding, hheld, if_true] using this
    have hrel : l.release t = l.write t { l.budget with
        reserved := l.budget.reserved - (l.reservations t).upper
        charged := l.budget.charged + 0 } { l.reservations t with consumed := true } := by
      simp only [Ledger.release, DeltaBudget.release, hcons, Bool.false_eq_true, if_false, hle, if_true,
        Nat.add_zero]
    rw [hrel]
    refine ⟨h.settle ht hheld (Nat.zero_le _), ?_, fun u hu => Ledger.held_write_of_ne hu⟩
    simp only [Ledger.held, Ledger.write_self, Bool.not_true]
  · have hheld := Bool.eq_false_of_not_eq_true hheld
    rw [Ledger.release_of_not_held hheld]
    exact ⟨h, hheld, fun _ _ => rfl⟩

/-- **A consumption settles its reservation or leaves everything as it was**: with sound accounts the checks
that come after the mark cannot fail. -/
theorem Ledger.Sound.consume (h : l.Sound issued) (t entries : Nat) :
    (∃ err, l.consume t entries = (l, .error err)) ∨
      ∃ l' actual, l.consume t entries = (l', .ok actual) ∧ l'.Sound issued ∧ l.held t = true ∧
        l'.held t = false ∧ ∀ u ≠ t, l'.held u = l.held u := by
  have hsame : l.write t l.budget (l.reservations t) = l := by
    simp only [Ledger.write, update_eq_self]
  simp only [Ledger.consume, DeltaBudget.consume]
  cases hbytes : deltaBytes entries with
  | none => exact .inl ⟨.corrupt, by dsimp only; rw [hsame]⟩
  | some actual =>
    by_cases hbad : (l.reservations t).consumed = true ∨ (l.reservations t).upper < actual
    · exact .inl ⟨.corrupt, by dsimp only; rw [if_pos hbad, hsame]⟩
    · simp only [not_or, Bool.not_eq_true, Nat.not_lt] at hbad
      obtain ⟨hcons, hactual⟩ := hbad
      have hheld : l.held t = true := by simp only [Ledger.held, hcons, Bool.not_false]
      have ht : t < issued := by
        by_contra hge
        rw [h.unissued t (Nat.le_of_not_lt hge)] at hheld
        cases hheld
      have hle := h.holding_le ht
      simp only [Ledger.holding, hheld, if_true] at hle
      have hfits := h.fits
      refine .inr ⟨_, actual, ?_, h.settle ht hheld hactual, hheld, ?_, fun u hu => Ledger.held_write_of_ne hu⟩
      · dsimp only
        rw [if_neg (by simp only [hcons, Bool.false_eq_true, false_or]; omega), if_neg (by omega)]
      · simp only [Ledger.held, Ledger.write_self, Bool.not_true]

theorem Ledger.Sound.discharge (h : l.Sound issued) : (l.discharge bytes).Sound issued := by
  refine ⟨h.reserved, ?_, h.unissued⟩
  have := h.fits
  show l.budget.charged - bytes + l.budget.reserved ≤ l.budget.hard
  omega

end Ledger

end Ridstore.Mapping
