import Mathlib.Algebra.Ring.Nat
import Mathlib.Data.List.Basic

/-
# Ridstore.Lib.Frames — scanning frames that were written one after the other

An append-only file holds frames of different sizes without a gap.  A scan looks at one position after the
other: it takes a frame and moves behind it, or it finds the file torn and stops.  A file that was cut at an
arbitrary byte is scanned up to its last whole frame, whatever was written behind it.
-/

namespace Ridstore.Lib

open List

variable {α β ε : Type}

/-- What a scan does at one position. -/
inductive FrameStep (β : Type)
  | torn
  | next (size : Nat) (hpos : 0 < size) (state : β)

/-- The loop of a scan up to the end of the file; the flag tells that it stopped at a torn frame. -/
def scanFrames (body : β → Nat → Except ε (FrameStep β)) (limit : Nat) (state : β) (off : Nat) :
    Except ε (β × Nat × Bool) :=
  if off < limit then
    match body state off with
    | .error err => .error err
    | .ok .torn => .ok (state, off, true)
    | .ok (.next size _ state') => scanFrames body limit state' (off + size)
  else .ok (state, off, false)
termination_by limit - off

variable {body : β → Nat → Except ε (FrameStep β)} {limit off : Nat} {s s' : β}

theorem scanFrames_end (h : limit ≤ off) : scanFrames body limit s off = .ok (s, off, false) := by
  rw [scanFrames, if_neg (Nat.not_lt.mpr h)]

theorem scanFrames_torn (h : off < limit) (hbody : body s off = .ok .torn) :
    scanFrames body limit s off = .ok (s, off, true) := by
  rw [scanFrames, if_pos h, hbody]

theorem scanFrames_next {n : Nat} {hpos : 0 < n} (h : off < limit) (hbody : body s off = .ok (.next n hpos s')) :
    scanFrames body limit s off = scanFrames body limit s' (off + n) := by
  rw [scanFrames, if_pos h, hbody]

section Cut

variable (size : α → Nat) (step : β → α → β)

/-- The frames from an offset on that end before the limit. -/
def wholeFrames (limit : Nat) : Nat → List α → List α
  | _, [] => []
  | off, f :: rest => if off + size f ≤ limit then f :: wholeFrames limit (off + size f) rest else []

variable (body limit) in
/-- **The scan understands the frames**: it takes every whole one, and calls everything else torn. -/
inductive Understands : Nat → List α → Prop
  | tail (off : Nat) : (off < limit → ∀ s, body s off = .ok .torn) → Understands off []
  | frame (off : Nat) (f : α) (rest : List α) (hpos : 0 < size f) :
      (off + size f ≤ limit → ∀ s, body s off = .ok (.next (size f) hpos (step s f))) →
      (off < limit → limit < off + size f → ∀ s, body s off = .ok .torn) →
      (off + size f ≤ limit → Understands (off + size f) rest) → Understands off (f :: rest)

variable {size step} {frames : List α}

/-- **A cut file is scanned up to its last whole frame**, and is torn when something is left behind it. -/
theorem Understands.scan (h : Understands body limit size step off frames) (hoff : off ≤ limit) (s : β) :
    scanFrames body limit s off =
      .ok ((wholeFrames size limit off frames).foldl step s,
        off + ((wholeFrames size limit off frames).map size).sum,
        decide (off + ((wholeFrames size limit off frames).map size).sum < limit)) := by
  induction h generalizing s with
  | tail off htorn =>
    simp only [wholeFrames, foldl_nil, map_nil, sum_nil, Nat.add_zero]
    rcases Nat.lt_or_eq_of_le hoff with hlt | rfl
    · rw [scanFrames_torn hlt (htorn hlt s), decide_eq_true hlt]
    · rw [scanFrames_end (Nat.le_refl _), decide_eq_false (Nat.lt_irrefl _)]
  | frame off f rest hpos hwhole hcut _ ih =>
    rw [wholeFrames]
    split
    next hfit =>
      rw [scanFrames_next (by omega) (hwhole hfit s), ih hfit hfit (step s f), foldl_cons, map_cons,
        sum_cons, Nat.add_assoc]
    next hfit =>
      simp only [foldl_nil, map_nil, sum_nil, Nat.add_zero]
      rcases Nat.lt_or_eq_of_le hoff with hlt | rfl
      · rw [scanFrames_torn hlt (hcut hlt (Nat.lt_of_not_le hfit) s), decide_eq_true hlt]
      · rw [scanFrames_end (Nat.le_refl _), decide_eq_false (Nat.lt_irrefl _)]

/-- The whole frames are the first ones, and they end before the limit. -/
theorem wholeFrames_spec (size : α → Nat) (frames : List α) (hoff : off ≤ limit) :
    wholeFrames size limit off frames <+: frames ∧
      off + ((wholeFrames size limit off frames).map size).sum ≤ limit := by
  induction frames generalizing off with
  | nil => exact ⟨prefix_refl _, by simpa [wholeFrames] using hoff⟩
  | cons f rest ih =>
    rw [wholeFrames]
    split
    next hfit =>
      obtain ⟨hfirst, hend⟩ := ih hfit
      refine ⟨(prefix_cons_inj f).mpr hfirst, ?_⟩
      rw [map_cons, sum_cons, ← Nat.add_assoc]
      exact hend
    next => exact ⟨List.nil_prefix, by simpa using hoff⟩

end Cut

end Ridstore.Lib
