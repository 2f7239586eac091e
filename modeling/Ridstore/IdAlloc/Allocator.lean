import Ridstore.Base
import Ridstore.Lib.Scan

/-
# Ridstore.IdAlloc.Allocator — durable ID ranges

An allocator hands out ids below a high watermark and extends the range by appending a reserve record
to the log before it raises the watermark.  Replay checks the reserve records of each kind as a
chain: every record raises the recovered high by exactly the reserve size.
-/

namespace Ridstore.IdAlloc

/-- `idalloc.Kind`. -/
inductive Kind
  | recordID
  | batchID
  deriving DecidableEq, Repr

/-- `idalloc.Allocator`, without its mutex and log. -/
structure Allocator where
  reserve : Nat
  next : Nat
  high : Nat
  deriving DecidableEq, Repr

/-- `idalloc.New`: an empty range at the durable high. -/
def new (reserveSize durableHigh : Nat) : Except StoreError Allocator :=
  if reserveSize = 0 ∨ durableHigh = 0 ∨ (durableHigh - 1) % reserveSize ≠ 0 then .error .invalidConfig
  else .ok { reserve := reserveSize, next := durableHigh, high := durableHigh }

namespace Allocator

/-- The last lines of `Allocate`: hand out the next id. -/
def take (a : Allocator) : Nat × Allocator := (a.next, { a with next := a.next + 1 })

/-- `DurableHigh`. -/
def durableHigh (a : Allocator) : Nat := a.high

/-- `CanUse`. -/
def canUse (a : Allocator) (id : Nat) : Bool := id ≠ 0 && id < a.next

/-- The first half of `reserveRange`: the high the reserve record will carry. -/
def newHigh (a : Allocator) : Except StoreError Nat :=
  if a.high > maxUint64 - a.reserve then .error .idExhausted else .ok (a.high + a.reserve)

/-- The second half of `reserveRange`, once the record is durable. -/
def extend (a : Allocator) (newHigh : Nat) : Allocator := { a with next := a.high, high := newHigh }

end Allocator

/-- `AdvanceRecovered`: one reserve record in replay order. -/
def advanceRecovered (reserveSize currentHigh highExclusive : Nat) : Except StoreError Nat :=
  if reserveSize = 0 ∨ currentHigh = 0 ∨ highExclusive ≤ currentHigh ∨
      currentHigh > maxUint64 - reserveSize ∨ highExclusive ≠ currentHigh + reserveSize ∨
      (highExclusive - 1) % reserveSize ≠ 0 then .error .corrupt
  else .ok highExclusive

/-- A high that `New` accepts: positive and aligned to the reserve size. -/
structure Aligned (reserveSize high : Nat) : Prop where
  size : reserveSize ≠ 0
  pos : high ≠ 0
  mod : (high - 1) % reserveSize = 0

variable {reserveSize high : Nat}

theorem new_eq_ok (h : Aligned reserveSize high) :
    new reserveSize high = .ok { reserve := reserveSize, next := high, high := high } := by
  unfold new
  rw [if_neg]
  simp [h.size, h.pos, h.mod]

theorem Aligned.add (h : Aligned reserveSize high) : Aligned reserveSize (high + reserveSize) := by
  refine ⟨h.size, ?_, ?_⟩
  · have hpos := h.pos
    omega
  · have hpos := h.pos
    have hshift : high + reserveSize - 1 = high - 1 + reserveSize := by omega
    rw [hshift, Nat.add_mod_right, h.mod]

/-- **What the chain check accepts:** exactly the record the allocator appends at that high. -/
theorem advanceRecovered_eq_ok_iff {reserveSize current record recovered : Nat} (h : Aligned reserveSize current) :
    advanceRecovered reserveSize current record = .ok recovered ↔
      current ≤ maxUint64 - reserveSize ∧ record = current + reserveSize ∧ recovered = record := by
  have hsize := h.size
  have hmod := h.add.mod
  unfold advanceRecovered
  constructor
  · intro hok
    split at hok
    · cases hok
    · rename_i hguard
      simp only [not_or, not_not, gt_iff_lt, Nat.not_lt] at hguard
      obtain ⟨-, -, -, hbound, hrecord, -⟩ := hguard
      cases hok
      exact ⟨hbound, hrecord, rfl⟩
  · rintro ⟨hbound, rfl, rfl⟩
    have hpos := h.pos
    rw [if_neg]
    rintro (hz | hz | hle | hgt | hne | hm)
    · exact hsize hz
    · exact hpos hz
    · omega
    · omega
    · exact hne rfl
    · exact hm hmod

end Ridstore.IdAlloc
