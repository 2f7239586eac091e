import Mathlib.Data.List.Basic

/-
# Ridstore.Lib.Scan — fallible scans of a log

A scan folds a fallible step over the records of a log, as replay does.  The rules are those of a
scan over a concatenation: it succeeds exactly when the two parts do, one after the other.
-/

namespace Ridstore.Lib

open List

variable {α β ε : Type*} {f : β → α → Except ε β} {b b' : β}

/-- A result that is there. -/
theorem eq_ok_of_toOption {x : Except ε α} {a : α} (h : x.toOption = some a) : x = .ok a := by
  cases x with
  | error err => cases h
  | ok value => exact congrArg Except.ok (Option.some.inj h)

/-- A guarded result that is there has passed its guard. -/
theorem guard_eq_ok {bad : Prop} [Decidable bad] {err : ε} {x : Except ε α} {a : α}
    (h : (if bad then .error err else x) = .ok a) : ¬ bad ∧ x = .ok a := by
  split at h
  · cases h
  next hgood => exact ⟨hgood, h⟩

/-- Fold a fallible step over a list, stopping at the first error. -/
def scan (f : β → α → Except ε β) : β → List α → Except ε β
  | b, [] => .ok b
  | b, a :: as =>
    match f b a with
    | .error e => .error e
    | .ok b' => scan f b' as

@[simp] theorem scan_nil : scan f b [] = .ok b := rfl

theorem scan_cons_ok {a : α} {as : List α} {m : β} (h : f b a = .ok m) : scan f b (a :: as) = scan f m as := by
  simp only [scan, h]

theorem scan_cons_error {a : α} {as : List α} {e : ε} (h : f b a = .error e) : scan f b (a :: as) = .error e := by
  simp only [scan, h]

/-- A scan of a nonempty log that succeeds took its first record. -/
theorem scan_cons_eq_ok {a : α} {as : List α} :
    scan f b (a :: as) = .ok b' ↔ ∃ m, f b a = .ok m ∧ scan f m as = .ok b' := by
  simp only [scan]
  cases h : f b a with
  | error e => simp
  | ok m => simp

/-- **A scan splits over a concatenation.** -/
theorem scan_append_eq_ok {as bs : List α} :
    scan f b (as ++ bs) = .ok b' ↔ ∃ m, scan f b as = .ok m ∧ scan f m bs = .ok b' := by
  induction as generalizing b with
  | nil => simp
  | cons a as ih =>
    rw [cons_append, scan_cons_eq_ok]
    constructor
    · rintro ⟨m, hm, hrest⟩
      obtain ⟨m', has, hbs⟩ := ih.mp hrest
      exact ⟨m', scan_cons_eq_ok.mpr ⟨m, hm, has⟩, hbs⟩
    · rintro ⟨m', has, hbs⟩
      obtain ⟨m, hm, has⟩ := scan_cons_eq_ok.mp has
      exact ⟨m, hm, ih.mpr ⟨m', has, hbs⟩⟩

/-- Every cut of a log that scans: the part before the cut scans, and the rest scans from there. -/
theorem scan_take_drop {as : List α} (h : scan f b as = .ok b') (n : Nat) :
    ∃ m, scan f b (as.take n) = .ok m ∧ scan f m (as.drop n) = .ok b' := by
  rw [← take_append_drop n as] at h
  exact scan_append_eq_ok.mp h

/-- One more record at the end. -/
theorem scan_snoc_ok {as : List α} {a : α} {m : β} (h : scan f b as = .ok m) (ha : f m a = .ok b') :
    scan f b (as ++ [a]) = .ok b' := by
  refine scan_append_eq_ok.mpr ⟨m, h, ?_⟩
  rw [scan_cons_ok ha, scan_nil]

/-- A scan with a step that succeeds wherever another one does, with the same result. -/
theorem scan_mono {g : β → α → Except ε β} {as : List α} (hstep : ∀ b a b', f b a = .ok b' → g b a = .ok b')
    (h : scan f b as = .ok b') : scan g b as = .ok b' := by
  induction as generalizing b with
  | nil => exact h
  | cons a as ih =>
    obtain ⟨m, hm, hrest⟩ := scan_cons_eq_ok.mp h
    exact scan_cons_eq_ok.mpr ⟨m, hstep b a m hm, ih hrest⟩

/-- A scan that succeeds has taken every record of the log. -/
theorem scan_mem_ok {as : List α} {a : α} (h : scan f b as = .ok b') (ha : a ∈ as) : ∃ m m', f m a = .ok m' := by
  obtain ⟨before, after, rfl⟩ := append_of_mem ha
  obtain ⟨m, -, hrest⟩ := scan_append_eq_ok.mp h
  obtain ⟨m', hm', -⟩ := scan_cons_eq_ok.mp hrest
  exact ⟨m, m', hm'⟩

end Ridstore.Lib
