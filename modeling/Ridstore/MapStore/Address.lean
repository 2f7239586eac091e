import Ridstore.Base

/-
# Ridstore.MapStore.Address — addresses of the nodes of the persistent mapping
-/

namespace Ridstore.MapStore

def segmentHeaderSize : Nat := 64

def segmentFooterSize : Nat := 64

def alignment : Nat := 8

/-- `MapAddr`, the raw 64-bit word.  Zero means no node. -/
structure MapAddr where
  raw : Nat
  deriving DecidableEq, Repr

namespace MapAddr

def segmentID (a : MapAddr) : Nat := a.raw / 2 ^ 32

def offset (a : MapAddr) : Nat := a.raw % 2 ^ 32

/-- `MapAddr.Valid`. -/
def valid (a : MapAddr) : Bool := a.segmentID ≠ 0 && segmentHeaderSize ≤ a.offset && a.offset % alignment = 0

end MapAddr

end Ridstore.MapStore
