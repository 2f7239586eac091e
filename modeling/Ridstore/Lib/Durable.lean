import Mathlib.Algebra.Ring.Nat
import Mathlib.Data.List.GetD

/-
# Ridstore.Lib.Durable — what a crash leaves of directory entries and of appended files

Two things of a file system survive a crash only once they are synced.  A *cell* holds a directory entry:
the value of the last directory sync and the values written since, any one of which may be found after a
crash.  A *file* is written at its end, piece by piece: after a crash it has all bytes up to its last sync
and any number of the bytes written later, so that its last piece may be torn.
-/

namespace Ridstore.Lib

open List

/-! ## §1 — Directory entries -/

/-- The value made durable by the last sync and the values written since, the newest first. -/
structure Cell (α : Type*) where
  durable : α
  written : List α
  deriving DecidableEq, Repr

namespace Cell

variable {α : Type*} {c : Cell α} {a : α}

/-- An entry with nothing unsynced. -/
def of (a : α) : Cell α := ⟨a, []⟩

/-- What the running system reads. -/
def current (c : Cell α) : α := c.written.headD c.durable

def write (c : Cell α) (a : α) : Cell α := { c with written := a :: c.written }

def sync (c : Cell α) : Cell α := of c.current

/-- A crash keeps the synced value or, by the number `k`, one of those written since. -/
def crash (c : Cell α) (k : Nat) : Cell α := of (c.written.getD k c.durable)

/-- What may be found after a crash: a value the entry has had since the last sync. -/
def Survives (c : Cell α) (a : α) : Prop := a = c.durable ∨ a ∈ c.written

instance [DecidableEq α] (c : Cell α) (a : α) : Decidable (c.Survives a) := inferInstanceAs (Decidable (_ ∨ _))

/-- Nothing was written since the last sync. -/
def Synced (c : Cell α) : Prop := c.written = []

instance (c : Cell α) : Decidable c.Synced := inferInstanceAs (Decidable (_ = []))

theorem Synced.eq_of (h : c.Synced) : c = of c.current := by
  obtain ⟨durable, written⟩ := c
  cases h
  rfl

@[simp] theorem current_write (c : Cell α) (a : α) : (c.write a).current = a := rfl

@[simp] theorem sync_of (a : α) : (of a).sync = of a := rfl

@[simp] theorem crash_of (a : α) (k : Nat) : (of a).crash k = of a := by
  simp [crash, of]

/-- **What survives.** -/
theorem crash_eq (c : Cell α) (k : Nat) : ∃ a, c.Survives a ∧ c.crash k = of a := by
  refine ⟨c.written.getD k c.durable, ?_, rfl⟩
  by_cases hk : k < c.written.length
  · right
    rw [getD_eq_getElem _ _ hk]
    exact getElem_mem hk
  · left
    exact getD_eq_default _ _ (Nat.le_of_not_lt hk)

@[simp] theorem survives_of {b : α} : (of a).Survives b ↔ b = a := by
  simp [Survives, of]

theorem survives_write {b : α} : (c.write a).Survives b ↔ b = a ∨ c.Survives b := by
  simp only [Survives, write, mem_cons]
  exact or_left_comm

theorem survives_sync {b : α} : c.sync.Survives b ↔ b = c.current := survives_of

theorem survives_current (c : Cell α) : c.Survives c.current := by
  cases h : c.written with
  | nil => exact .inl (by rw [current, h]; rfl)
  | cons b rest => exact .inr (by rw [current, h]; exact mem_cons_self)

end Cell

/-! ## §2 — Lists of sized pieces -/

section Pieces

variable {β : Type*} (size : β → Nat)

/-- The bytes of a list of pieces. -/
def bytes (pieces : List β) : Nat := (pieces.map size).sum

/-- The piece that starts at a byte offset. -/
def pieceAt : List β → Nat → Option β
  | [], _ => none
  | p :: _, 0 => some p
  | p :: rest, offset + 1 => if size p ≤ offset + 1 then pieceAt rest (offset + 1 - size p) else none

/-- The pieces that lie wholly in the first `n` bytes. -/
def whole : List β → Nat → List β
  | [], _ => []
  | p :: rest, n => if size p ≤ n then p :: whole rest (n - size p) else []

/-- The piece of which only the first bytes lie in the first `n` bytes, with their number. -/
def torn : List β → Nat → Option (β × Nat)
  | [], _ => none
  | p :: rest, n => if size p ≤ n then torn rest (n - size p) else if n = 0 then none else some (p, n)

variable {size} {pieces rest : List β} {p : β} {offset n : Nat}

@[simp] theorem bytes_nil : bytes size [] = 0 := rfl

@[simp] theorem bytes_cons : bytes size (p :: rest) = size p + bytes size rest := by
  simp [bytes]

@[simp] theorem bytes_append (l₁ l₂ : List β) : bytes size (l₁ ++ l₂) = bytes size l₁ + bytes size l₂ := by
  simp [bytes]

/-- The piece at an offset is that of the rest, past the first piece. -/
theorem pieceAt_cons (hoff : offset ≠ 0) :
    pieceAt size (p :: rest) offset = if size p ≤ offset then pieceAt size rest (offset - size p) else none := by
  obtain ⟨o, rfl⟩ := Nat.exists_eq_succ_of_ne_zero hoff
  rfl

theorem whole_isPrefix (pieces : List β) (n : Nat) : whole size pieces n <+: pieces := by
  induction pieces generalizing n with
  | nil => exact prefix_rfl
  | cons p rest ih =>
    simp only [whole]
    split
    · exact (prefix_cons_inj p).mpr (ih _)
    · exact List.nil_prefix

theorem whole_append_of_le {l₁ l₂ : List β} (h : bytes size l₁ ≤ n) :
    whole size (l₁ ++ l₂) n = l₁ ++ whole size l₂ (n - bytes size l₁) := by
  induction l₁ generalizing n with
  | nil => simp
  | cons p rest ih =>
    rw [bytes_cons] at h
    rw [cons_append, whole, if_pos (by omega), ih (by omega), bytes_cons, Nat.sub_sub, cons_append]

theorem torn_append_of_le {l₁ l₂ : List β} (h : bytes size l₁ ≤ n) :
    torn size (l₁ ++ l₂) n = torn size l₂ (n - bytes size l₁) := by
  induction l₁ generalizing n with
  | nil => simp
  | cons p rest ih =>
    rw [bytes_cons] at h
    rw [cons_append, torn, if_pos (by omega), ih (by omega), bytes_cons, Nat.sub_sub]

/-- A piece found in a list is found in every longer one. -/
theorem pieceAt_append {more : List β} (h : pieceAt size pieces offset = some p) :
    pieceAt size (pieces ++ more) offset = some p := by
  induction pieces generalizing offset with
  | nil => cases h
  | cons q rest ih =>
    cases offset with
    | zero => exact h
    | succ offset =>
      rw [pieceAt_cons (Nat.succ_ne_zero _)] at h
      rw [cons_append, pieceAt_cons (Nat.succ_ne_zero _)]
      split at h
      next hle => rw [if_pos hle, ih h]
      next => cases h

theorem pieceAt_of_isPrefix {longer : List β} (hpre : pieces <+: longer)
    (h : pieceAt size pieces offset = some p) : pieceAt size longer offset = some p := by
  obtain ⟨more, rfl⟩ := hpre
  exact pieceAt_append h

/-- A piece found in a list with one more piece is that piece or was there before. -/
theorem pieceAt_concat {last : β} (h : pieceAt size (pieces ++ [last]) offset = some p) :
    pieceAt size pieces offset = some p ∨ offset = bytes size pieces ∧ p = last := by
  induction pieces generalizing offset with
  | nil =>
    cases offset with
    | zero =>
      cases h
      exact .inr ⟨rfl, rfl⟩
    | succ offset =>
      rw [nil_append, pieceAt_cons (Nat.succ_ne_zero _)] at h
      split at h
      · cases h
      · cases h
  | cons q rest ih =>
    cases offset with
    | zero => exact .inl h
    | succ offset =>
      rw [cons_append, pieceAt_cons (Nat.succ_ne_zero _)] at h
      rw [pieceAt_cons (Nat.succ_ne_zero _), bytes_cons]
      split at h
      next hle =>
        rw [if_pos hle]
        rcases ih h with hold | ⟨hoff, heq⟩
        · exact .inl hold
        · exact .inr ⟨by omega, heq⟩
      next => cases h

theorem pieceAt_le (h : pieceAt size pieces offset = some p) : offset + size p ≤ bytes size pieces := by
  induction pieces generalizing offset with
  | nil => cases h
  | cons q rest ih =>
    rw [bytes_cons]
    cases offset with
    | zero =>
      cases h
      omega
    | succ offset =>
      rw [pieceAt_cons (Nat.succ_ne_zero _)] at h
      split at h
      next hle =>
        have := ih h
        omega
      next => cases h

/-- A piece that ends in the first `n` bytes is one of the whole ones. -/
theorem pieceAt_whole (h : pieceAt size pieces offset = some p) (hle : offset + size p ≤ n) :
    pieceAt size (whole size pieces n) offset = some p := by
  induction pieces generalizing offset n with
  | nil => cases h
  | cons q rest ih =>
    cases offset with
    | zero =>
      cases h
      rw [whole, if_pos (by omega)]
      rfl
    | succ offset =>
      rw [pieceAt_cons (Nat.succ_ne_zero _)] at h
      split at h
      next hq =>
        rw [whole, if_pos (by omega), pieceAt_cons (Nat.succ_ne_zero _), if_pos hq]
        exact ih h (by omega)
      next => cases h

/-- The piece at the end of a list of pieces that take up room. -/
theorem pieceAt_bytes {l₁ l₂ : List β} (hpos : ∀ q ∈ l₁, 0 < size q) :
    pieceAt size (l₁ ++ p :: l₂) (bytes size l₁) = some p := by
  induction l₁ with
  | nil => rfl
  | cons q rest ih =>
    have hq := hpos q mem_cons_self
    have hrest := ih fun r hr => hpos r (mem_cons_of_mem _ hr)
    rw [cons_append, bytes_cons, pieceAt_cons (by omega), if_pos (by omega), Nat.add_sub_cancel_left, hrest]

/-- A torn piece follows the whole ones. -/
theorem torn_eq_some {k : Nat} (h : torn size pieces n = some (p, k)) :
    ∃ rest, pieces = whole size pieces n ++ p :: rest ∧ 0 < k ∧ k < size p ∧
      n = bytes size (whole size pieces n) + k := by
  induction pieces generalizing n with
  | nil => cases h
  | cons q rest ih =>
    simp only [torn] at h
    split at h
    next hle =>
      obtain ⟨more, heq, hpos, hlt, hn⟩ := ih h
      refine ⟨more, ?_, hpos, hlt, ?_⟩
      · rw [whole, if_pos hle, cons_append, ← heq]
      · rw [whole, if_pos hle, bytes_cons]
        omega
    next hle =>
      split at h
      · cases h
      next hne =>
        cases h
        rw [whole, if_neg hle]
        exact ⟨rest, rfl, Nat.pos_of_ne_zero hne, by omega, by simp⟩

/-- Without a torn piece the whole ones take up all the bytes there are. -/
theorem bytes_whole (h : torn size pieces n = none) (hn : n ≤ bytes size pieces) :
    bytes size (whole size pieces n) = n := by
  induction pieces generalizing n with
  | nil => exact (Nat.le_zero.mp hn).symm
  | cons q rest ih =>
    rw [bytes_cons] at hn
    simp only [torn] at h
    split at h
    next hle =>
      rw [whole, if_pos hle, bytes_cons, ih h (by omega)]
      omega
    next hle =>
      split at h
      next hzero => rw [whole, if_neg hle, hzero, bytes_nil]
      next => cases h

end Pieces

end Ridstore.Lib
