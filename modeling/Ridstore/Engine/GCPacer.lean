import Mathlib.Algebra.Order.Ring.Int
import Ridstore.Base
import Ridstore.Lib.Transition

/-
# Ridstore.Engine.GCPacer — the pace of the garbage collector

A pacer counts the bytes that were copied since it was started and holds its caller back until they are due
at the configured rate.  The time they take is a number of seconds and a rest, and the rest goes through a
product of 128 bits and a division by the rate.  The clock and `wait` belong to the caller, so every call of
`pace` brings the readings of the clock and the error of `wait`; times are in nanoseconds.
-/

namespace Ridstore.Engine

open Option

/-! ## §1 — `pace` -/

/-- `math.MaxInt64`. -/
def maxInt64 : Nat := 2 ^ 63 - 1

/-- `time.Second`. -/
def second : Nat := 10 ^ 9

/-- The result of an operation on 64-bit integers. -/
def int64 (x : Int) : Int := x.bmod (2 ^ 64)

/-- `Time.Sub`, which stops at the ends of the durations. -/
def timeSub (t u : Int) : Int := max (-(maxInt64 + 1)) (min maxInt64 (t - u))

/-- `bits.Mul64`: the high and the low word of a product. -/
def mul64 (x y : Nat) : Nat × Nat := (x * y / 2 ^ 64, x * y % 2 ^ 64)

/-- The quotient of `bits.Div64`, which panics if that is no word. -/
def div64 (high low y : Nat) : Option Nat := if y ≤ high then none else some ((high * 2 ^ 64 + low) / y)

/-- `gcPacer`. -/
structure GCPacer where
  started : Int
  copied : Nat
  rate : Nat
  deriving DecidableEq

/-- A call of `pace`: the bytes, the clock when the delay is computed, before `wait` and after it, and what `wait`
returns.  A call that does not wait returns at the last of the three instants. -/
structure PaceCall where
  copied : Nat
  checked : Int
  began : Int
  ended : Int
  waitErr : Option StoreError
  word : copied ≤ maxUint64 := by decide

namespace GCPacer

variable (p : GCPacer)

/-- The target of `pace` for the bytes that are counted; `none` is a panic. -/
def target : Option (Except StoreError Int) :=
  if maxInt64 / second < p.copied / p.rate then some (.error .overflow)
  else
    let whole := int64 (p.copied / p.rate * second : Nat)
    if p.copied % p.rate = 0 then some (.ok whole)
    else
      let (high, low) := mul64 (p.copied % p.rate) second
      (div64 high low p.rate).map fun quotient : Nat =>
        let nanos : Nat := if quotient = 0 then 1 else quotient
        if maxInt64 - whole < nanos then .error .overflow else .ok (int64 (whole + nanos))

/-- `p.copied += copied`. -/
def count (copied : Nat) : GCPacer := { p with copied := p.copied + copied }

/-- `pace` up to its `wait`: the pacer with the bytes counted, and the delay. -/
def delay (copied : Nat) (checked : Int) : Option (GCPacer × Except StoreError Int) :=
  if copied = 0 ∨ p.rate = 0 then some (p, .ok 0)
  else if maxUint64 - copied < p.copied then some (p, .error .overflow)
  else
    (p.count copied).target.map fun target =>
      (p.count copied, target.map fun t => int64 (t - timeSub checked p.started))

/-- **`pace`**: the time that was waited and the error. -/
def pace (c : PaceCall) : Option (GCPacer × Int × Option StoreError) :=
  (p.delay c.copied c.checked).map fun (p', delay) =>
    match delay with
    | .error err => (p', 0, some err)
    | .ok d => if d ≤ 0 then (p', 0, none) else (p', max 0 (timeSub c.ended c.began), c.waitErr)

/-! ## §2 — The target -/

/-- The nanoseconds that the bytes take at the rate, rounded down. -/
def due : Nat := p.copied * second / p.rate

/-- The target: a rest that takes less than a nanosecond counts for one. -/
def rounded : Nat :=
  if p.copied % p.rate ≠ 0 ∧ p.due = p.copied / p.rate * second then p.due + 1 else p.due

variable {p}

theorem int64_of_le {n : Nat} (h : n ≤ maxInt64) : int64 n = n := by
  unfold int64 maxInt64 at *
  rw [Int.bmod_eq_of_le] <;> omega

/-- The whole seconds and the rest. -/
theorem due_eq (hrate : 0 < p.rate) :
    p.due = p.copied / p.rate * second + p.copied % p.rate * second / p.rate := by
  have hsplit : p.copied * second = p.rate * (p.copied / p.rate * second) + p.copied % p.rate * second := by
    rw [← Nat.mul_assoc, ← Nat.add_mul, Nat.div_add_mod]
  rw [due, hsplit, Nat.mul_add_div hrate]

/-- **The division does not panic**, and it divides the product. -/
theorem div64_mul64 {x y rate : Nat} (hx : x < rate) (hy : y < 2 ^ 64) :
    div64 (mul64 x y).1 (mul64 x y).2 rate = some (x * y / rate) := by
  have hlt : x * y / 2 ^ 64 < rate := by
    refine Nat.div_lt_of_lt_mul ?_
    rw [Nat.mul_comm]
    exact Nat.mul_lt_mul_of_lt_of_le hy (Nat.le_of_lt hx) (Nat.zero_lt_of_lt hx)
  rw [div64, mul64, if_neg (Nat.not_le_of_lt hlt), Nat.mul_comm (x * y / 2 ^ 64), Nat.div_add_mod]

/-- The whole seconds, and at least a nanosecond for a rest. -/
theorem rounded_eq (hrate : 0 < p.rate) :
    p.rounded = p.copied / p.rate * second +
      if p.copied % p.rate = 0 then 0 else max 1 (p.copied % p.rate * second / p.rate) := by
  rw [rounded, due_eq hrate]
  by_cases hrest : p.copied % p.rate = 0
  · simp [hrest]
  · generalize p.copied % p.rate * second / p.rate = nanos
    simp only [hrest, ne_eq, not_false_eq_true, true_and, if_false]
    split <;> omega

theorem due_le_rounded : p.due ≤ p.rounded := by
  unfold rounded
  split <;> omega

/-- **The target is the rounded time**, or it does not fit. -/
theorem target_eq (hrate : 0 < p.rate) :
    p.target = some (if maxInt64 < p.rounded then .error .overflow else .ok p.rounded) := by
  rw [target, rounded_eq hrate]
  by_cases hseconds : maxInt64 / second < p.copied / p.rate
  · have hlarge := (Nat.div_lt_iff_lt_mul (by decide)).1 hseconds
    rw [if_pos hseconds, if_pos (Nat.lt_add_right _ hlarge)]
  · have hfits : p.copied / p.rate * second ≤ maxInt64 :=
      (Nat.le_div_iff_mul_le (by decide)).1 (Nat.le_of_not_lt hseconds)
    rw [if_neg hseconds, int64_of_le hfits]
    by_cases hrest : p.copied % p.rate = 0
    · simp only [hrest, if_true, Nat.add_zero, if_neg (Nat.not_lt_of_le hfits)]
    · have hdiv := div64_mul64 (y := second) (Nat.mod_lt p.copied hrate) (by decide)
      simp only [hrest, if_false, hdiv]
      generalize p.copied % p.rate * second / p.rate = nanos at *
      generalize p.copied / p.rate * second = whole at *
      have hnanos : (if nanos = 0 then 1 else nanos) = max 1 nanos := by split <;> omega
      rw [map_some, hnanos]
      by_cases hover : maxInt64 < whole + max 1 nanos
      · rw [if_pos hover, if_pos (by omega)]
      · rw [if_neg hover, if_neg (by omega), ← Nat.cast_add, int64_of_le (Nat.le_of_not_lt hover)]

/-! ## §3 — One call -/

/-- **The rate is kept at an instant**: `copied * 10^9 < rate * (elapsed + 1)`. -/
def OnTime (p : GCPacer) (t : Int) : Prop := (p.copied * second : Int) < p.rate * (t - p.started + 1)

theorem OnTime.later {t u : Int} (h : p.OnTime t) (htu : t ≤ u) : p.OnTime u := by
  refine lt_of_lt_of_le h (mul_le_mul_of_nonneg_left ?_ (Int.natCast_nonneg _))
  omega

/-- Once the target has passed the rate is kept. -/
theorem onTime_of_rounded {t : Int} (hrate : 0 < p.rate) (h : p.rounded ≤ t - p.started) : p.OnTime t := by
  have hdue : p.copied * second < p.rate * (p.due + 1) := Nat.lt_mul_div_succ _ hrate
  have helapsed : (p.due + 1 : Int) ≤ t - p.started + 1 := by
    have hle := due_le_rounded (p := p)
    omega
  calc (p.copied * second : Int) < p.rate * (p.due + 1) := mod_cast hdue
    _ ≤ p.rate * (t - p.started + 1) := mul_le_mul_of_nonneg_left helapsed (Int.natCast_nonneg _)

/-- The delay lasts until the target: `Sub` stops at the longest duration, and no target is longer. -/
theorem target_le_delay {r : Nat} {t u : Int} (hr : r ≤ maxInt64) (htu : u ≤ t) :
    r ≤ t - u + int64 (r - timeSub t u) := by
  unfold int64 timeSub maxInt64 at *
  rw [Int.bmod_eq_of_le] <;> omega

/-- **What a call does, and the error that it returns.** -/
inductive Paced (p : GCPacer) (c : PaceCall) : GCPacer → Option StoreError → Prop
  | nothing (hn : c.copied = 0) : Paced p c p none
  | exceeds (hn : c.copied ≠ 0) (h : maxUint64 < p.copied + c.copied) : Paced p c p (some .overflow)
  | unfit (hn : c.copied ≠ 0) (h : p.copied + c.copied ≤ maxUint64) (hover : maxInt64 < (p.count c.copied).rounded)
      (htarget : (p.count c.copied).target = some (.error .overflow)) : Paced p c (p.count c.copied) (some .overflow)
  | untilDue {d : Int} {err : Option StoreError} (hn : c.copied ≠ 0) (h : p.copied + c.copied ≤ maxUint64)
      (hfits : (p.count c.copied).rounded ≤ maxInt64)
      (htarget : (p.count c.copied).target = some (.ok (p.count c.copied).rounded))
      (hd : d = int64 ((p.count c.copied).rounded - timeSub c.checked p.started))
      (hdelay : p.delay c.copied c.checked = some (p.count c.copied, .ok d))
      (herr : d ≤ 0 ∧ err = none ∨ err = c.waitErr) : Paced p c (p.count c.copied) err

/-- **Every call returns**: no division panics. -/
theorem pace_paced (hrate : 0 < p.rate) (c : PaceCall) :
    ∃ p' waited err, p.pace c = some (p', waited, err) ∧ p.Paced c p' err := by
  have hword := c.word
  unfold pace
  by_cases hn : c.copied = 0
  · have hdelay : p.delay c.copied c.checked = some (p, .ok 0) := if_pos (.inl hn)
    rw [hdelay]
    exact ⟨_, _, _, rfl, .nothing hn⟩
  have hsome : ¬ (c.copied = 0 ∨ p.rate = 0) := not_or.2 ⟨hn, hrate.ne'⟩
  by_cases h : maxUint64 - c.copied < p.copied
  · have hdelay : p.delay c.copied c.checked = some (p, .error .overflow) := by
      rw [delay, if_neg hsome, if_pos h]
    rw [hdelay]
    exact ⟨_, _, _, rfl, .exceeds hn (by omega)⟩
  have htarget := target_eq (p := p.count c.copied) hrate
  by_cases hover : maxInt64 < (p.count c.copied).rounded
  · rw [if_pos hover] at htarget
    have hdelay : p.delay c.copied c.checked = some (p.count c.copied, .error .overflow) := by
      rw [delay, if_neg hsome, if_neg h, htarget]
      rfl
    rw [hdelay]
    exact ⟨_, _, _, rfl, .unfit hn (by omega) hover htarget⟩
  · rw [if_neg hover] at htarget
    obtain ⟨d, hd⟩ : ∃ d, d = int64 ((p.count c.copied).rounded - timeSub c.checked p.started) := ⟨_, rfl⟩
    have hdelay : p.delay c.copied c.checked = some (p.count c.copied, .ok d) := by
      rw [delay, if_neg hsome, if_neg h, htarget, hd]
      rfl
    rw [hdelay]
    by_cases hle : d ≤ 0
    · refine ⟨_, _, _, congrArg some (if_pos hle), .untilDue hn ?_ (Nat.le_of_not_lt hover) htarget hd hdelay ?_⟩
      · omega
      · exact .inl ⟨hle, rfl⟩
    · refine ⟨_, _, _, congrArg some (if_neg hle), .untilDue hn ?_ (Nat.le_of_not_lt hover) htarget hd hdelay ?_⟩
      · omega
      · exact .inr rfl

end GCPacer

/-! ## §4 — Runs -/

/-- A run of a pacer: the pacer, the last instant, and whether a call has failed. -/
structure Pacing where
  pacer : GCPacer
  now : Int
  failed : Bool

/-- The runs of a pacer that `newGCPacer` made, with a rate of at least 1. -/
def pacing : Lib.Machine Pacing PaceCall where
  init s := s.pacer.copied = 0 ∧ 1 ≤ s.pacer.rate ∧ s.now = s.pacer.started ∧ s.failed = false
  step s c := (s.pacer.pace c).map fun (p, _, err) => ⟨p, c.ended, s.failed || err.isSome⟩

/-- **The clock is monotone, and `wait` returns no error only after its duration.** -/
def Timely (s : Pacing) (c : PaceCall) : Prop :=
  s.now ≤ c.checked ∧ c.checked ≤ c.began ∧ c.began ≤ c.ended ∧
    ∀ p d, s.pacer.delay c.copied c.checked = some (p, .ok d) → c.waitErr = none → c.began + d ≤ c.ended

namespace Pacing

variable {s : Pacing} {c : PaceCall}

/-- Over a whole run: the clock has not gone back, and the rate is kept as long as no call has failed. -/
structure InTime (s : Pacing) : Prop where
  rate : 0 < s.pacer.rate
  started : s.pacer.started ≤ s.now
  onTime : s.failed = false → s.pacer.OnTime s.now

/-- A call that succeeds keeps the rate, unless it has nothing to pace after one that failed. -/
theorem InTime.paced {p : GCPacer} (hs : InTime s) (hc : Timely s c) (h : s.pacer.Paced c p none)
    (hsome : c.copied ≠ 0 ∨ s.failed = false) : p.OnTime c.ended := by
  obtain ⟨hchecked, hbegan, hended, hwait⟩ := hc
  cases h with
  | nothing hn => exact (hs.onTime (hsome.resolve_left (· hn))).later (by omega)
  | @untilDue d _ _ _ hfits _ hd hdelay hreturn =>
    have htarget := GCPacer.target_le_delay hfits (hs.started.trans hchecked)
    rw [← hd] at htarget
    have hpassed : c.checked + d ≤ c.ended := by
      obtain ⟨hle, -⟩ | hreturn := hreturn
      · omega
      · have hwaited := hwait _ d hdelay hreturn.symm
        omega
    refine GCPacer.onTime_of_rounded hs.rate ?_
    show _ ≤ c.ended - s.pacer.started
    omega

theorem step_of_pace {p : GCPacer} (waited : Int) (err : Option StoreError)
    (hpace : s.pacer.pace c = some (p, waited, err)) :
    pacing.step s c = some ⟨p, c.ended, s.failed || err.isSome⟩ := by
  simp only [pacing, hpace, map_some]

theorem inTime (h : pacing.Reach Timely s) : InTime s := by
  refine h.invariant InTime (fun s hs => ?_) fun s c s' hs hc hstep => ?_
  · obtain ⟨hcopied, hrate, hnow, -⟩ := hs
    refine ⟨hrate, hnow.ge, fun _ => ?_⟩
    rw [GCPacer.OnTime, hcopied, hnow]
    simpa using Nat.lt_of_lt_of_le Nat.one_pos hrate
  · obtain ⟨p, waited, err, hpace, hpaced⟩ := GCPacer.pace_paced hs.rate c
    have hnow : s.now ≤ c.ended := hc.1.trans (hc.2.1.trans hc.2.2.1)
    have hsame : p.started = s.pacer.started ∧ p.rate = s.pacer.rate := by
      cases hpaced <;> exact ⟨rfl, rfl⟩
    obtain rfl := Option.some.inj ((step_of_pace _ _ hpace).symm.trans hstep)
    refine ⟨hsame.2 ▸ hs.rate, hsame.1 ▸ hs.started.trans hnow, fun hok => ?_⟩
    obtain ⟨hfailed, herr⟩ := Bool.or_eq_false_iff.1 hok
    cases err with
    | none => exact hs.paced hc hpaced (.inr hfailed)
    | some err => cases herr

/-- **The pacer keeps its rate.**  At a positive rate every call returns, with the target and the errors that `Paced`
says: the floor of `copied * 10^9 / rate`, or the nanosecond after the whole seconds, unless the bytes are no word or
the target no duration.  With a monotone clock and a `wait` that ends without an error only after its duration, the
rate is kept after every call of a run that succeeds, if it copied a byte or no call has failed. -/
theorem pace_keeps_rate (c : PaceCall) (hrate : 1 ≤ s.pacer.rate) :
    ∃ p waited err, s.pacer.pace c = some (p, waited, err) ∧ s.pacer.Paced c p err ∧
      (pacing.Reach Timely s → Timely s c → err = none → c.copied ≠ 0 ∨ s.failed = false → p.OnTime c.ended) := by
  obtain ⟨p, waited, err, hpace, hpaced⟩ := GCPacer.pace_paced hrate c
  refine ⟨p, waited, err, hpace, hpaced, fun hs hc herr hsome => ?_⟩
  subst herr
  exact (inTime hs).paced hc hpaced hsome

theorem timely_of_delay {p : GCPacer} {d : Int} (hclock : s.now ≤ c.checked ∧ c.checked ≤ c.began ∧ c.began ≤ c.ended)
    (hdelay : s.pacer.delay c.copied c.checked = some (p, .ok d)) (hwait : c.began + d ≤ c.ended) : Timely s c := by
  refine ⟨hclock.1, hclock.2.1, hclock.2.2, fun p' d' hd _ => ?_⟩
  cases hdelay.symm.trans hd
  exact hwait

/-- Three calls at a gigabyte a second: the third one waits for the bytes of all of them. -/
theorem pace_keeps_rate_gigabyte :
    pacing.Reach Timely ⟨⟨0, 8, 10 ^ 9⟩, 8, false⟩ ∧
      (GCPacer.mk 0 8 (10 ^ 9)).pace ⟨2, 8, 9, 11, none, by decide⟩ = some (⟨0, 10, 10 ^ 9⟩, 2, none) ∧
      (GCPacer.mk 0 10 (10 ^ 9)).OnTime 11 := by
  have hstart : pacing.Reach Timely ⟨⟨0, 0, 10 ^ 9⟩, 0, false⟩ := .start ⟨rfl, by decide, rfl, rfl⟩
  have hone : pacing.Reach Timely ⟨⟨0, 3, 10 ^ 9⟩, 3, false⟩ :=
    .next hstart (e := ⟨3, 0, 0, 3, none, by decide⟩)
      (timely_of_delay (p := ⟨0, 3, 10 ^ 9⟩) (d := 3) (by decide) (by decide) (by decide))
      (step_of_pace 3 none (by decide))
  have htwo : pacing.Reach Timely ⟨⟨0, 8, 10 ^ 9⟩, 8, false⟩ :=
    .next hone (e := ⟨5, 4, 4, 8, none, by decide⟩)
      (timely_of_delay (p := ⟨0, 8, 10 ^ 9⟩) (d := 4) (by decide) (by decide) (by decide))
      (step_of_pace 4 none (by decide))
  have hreturns : (GCPacer.mk 0 8 (10 ^ 9)).pace ⟨2, 8, 9, 11, none, by decide⟩ =
      some (⟨0, 10, 10 ^ 9⟩, 2, none) := by decide
  obtain ⟨p, waited, err, hpace, -, hkeeps⟩ :=
    pace_keeps_rate (s := ⟨⟨0, 8, 10 ^ 9⟩, 8, false⟩) ⟨2, 8, 9, 11, none, by decide⟩ (by decide)
  cases hreturns.symm.trans hpace
  have htimely : Timely ⟨⟨0, 8, 10 ^ 9⟩, 8, false⟩ ⟨2, 8, 9, 11, none, by decide⟩ :=
    timely_of_delay (p := ⟨0, 10, 10 ^ 9⟩) (d := 2) (by decide) (by decide) (by decide)
  exact ⟨htwo, hreturns, hkeeps htwo htimely rfl (.inl two_ne_zero)⟩

/-- **A call without bytes does not wait for those of a call that failed**: the first `wait` is cancelled, its bytes
stay counted, and the next call succeeds at once. -/
theorem pace_nothing_after_cancelled :
    ∃ s c p, pacing.Reach Timely s ∧ Timely s c ∧ s.pacer.pace c = some (p, 0, none) ∧ ¬ p.OnTime c.ended := by
  have hreach : pacing.Reach Timely ⟨⟨0, 2, 10 ^ 9⟩, 0, true⟩ :=
    .next (.start (s := ⟨⟨0, 0, 10 ^ 9⟩, 0, false⟩) ⟨rfl, by decide, rfl, rfl⟩)
      (e := ⟨2, 0, 0, 0, some .cancelled, by decide⟩) ⟨le_rfl, le_rfl, le_rfl, nofun⟩
      (step_of_pace 0 (some .cancelled) (by decide))
  refine ⟨_, ⟨0, 0, 0, 0, none, by decide⟩, ⟨0, 2, 10 ^ 9⟩, hreach,
    timely_of_delay (d := 0) (by decide) rfl (by decide), rfl, ?_⟩
  simp [GCPacer.OnTime, second]

end Pacing

end Ridstore.Engine
