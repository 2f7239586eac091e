import Mathlib.Algebra.Ring.Nat

/-
# Ridstore.Base — the error values and machine bounds shared by the components
-/

namespace Ridstore

/-- `math.MaxUint64`. -/
def maxUint64 : Nat := 2 ^ 64 - 1

/-- `math.MaxUint32`. -/
def maxUint32 : Nat := 2 ^ 32 - 1

/-- The sentinel errors of the packages (`base.Err…`, `mapping.Err…`, `recordlog.Err…`). -/
inductive StoreError
  | invalidConfig
  | corrupt
  | conflict
  | closed
  | readOnly
  | notFound
  | overflow
  | idExhausted
  | budget
  | batchTooLarge
  | tooLarge
  | stalePlan
  | segmentMissing
  | segmentRetiring
  | recoveryRequired
  | invalidID
  | invalidVAddr
  | invalidLogPos
  | readersActive
  | invalid
  | batchClosed
  | batchFailed
  | valueTooLarge
  | invalidAddress
  | commitUnknown
  | generationExhausted
  | statusCapacity
  | poisoned
  | cancelled
  deriving DecidableEq, Repr

end Ridstore
