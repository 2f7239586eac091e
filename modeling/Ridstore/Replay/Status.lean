import Mathlib.Data.List.Nodup
import Mathlib.Data.List.Perm.Subperm
import Ridstore.Base
import Ridstore.Lib.Scan

/-
# Ridstore.Replay.Status — the batch statuses that replay retains

`Recover` starts with the batches that were open at the cut and gives every batch with a terminal record
behind the replay start its status.  A batch with two terminal records is corruption; more statuses than the
capacity are refused.  The maps of statuses and of terminal batches are lists of batches here, and a record
is what it says about the end of user batches: relocations in a group, puts, reserve records and markers do
not count.  The upper bound of the batch identifiers is checked by the reserve chain and left out.
-/

namespace Ridstore.Replay

open Lib (scan)
open List

/-- A record of the log as far as the ends of batches are concerned. -/
inductive LogRecord
  | group (users : List Nat)
  | abort (batch : Nat)
  | other
  deriving DecidableEq, Repr

/-- The user batches that a record ends. -/
def LogRecord.ends : LogRecord → List Nat
  | .group users => users
  | .abort batch => [batch]
  | .other => []

/-- The batches that have a status, and those of them with a terminal record. -/
structure Recovered where
  statuses : List Nat
  seenTerminal : List Nat
  deriving DecidableEq, Repr

/-- The first loop of `replayGroup`: the terminal batches and the number of new statuses. -/
def seeTerminal (statuses : List Nat) : List Nat → List Nat → Except StoreError (List Nat × Nat)
  | seen, [] => .ok (seen, 0)
  | seen, batch :: rest =>
    if batch ∈ seen then .error .corrupt
    else (seeTerminal statuses (batch :: seen) rest).map fun result =>
      (result.1, if batch ∈ statuses then result.2 else result.2 + 1)

/-- **`replayGroup`** on the statuses. -/
def replayGroup (capacity : Nat) (r : Recovered) (users : List Nat) : Except StoreError Recovered :=
  match seeTerminal r.statuses r.seenTerminal users with
  | .error err => .error err
  | .ok (seen, newStatuses) =>
    if capacity < newStatuses ∨ capacity - newStatuses < r.statuses.length then .error .statusCapacity
    else .ok ⟨users ∪ r.statuses, seen⟩

/-- **`retainStatus`.** -/
def retainStatus (capacity : Nat) (r : Recovered) (batch : Nat) : Except StoreError Recovered :=
  if batch ∉ r.statuses ∧ capacity ≤ r.statuses.length then .error .statusCapacity
  else .ok { r with statuses := r.statuses.insert batch }

/-- The visitor of `Recover`. -/
def visit (capacity : Nat) (r : Recovered) : LogRecord → Except StoreError Recovered
  | .group users => replayGroup capacity r users
  | .abort batch =>
    if batch ∈ r.seenTerminal then .error .corrupt
    else retainStatus capacity { r with seenTerminal := batch :: r.seenTerminal } batch
  | .other => .ok r

/-- **`Recover`** on the statuses. -/
def recover (capacity : Nat) (openBatchIDs : List Nat) (log : List LogRecord) : Except StoreError Recovered :=
  if capacity = 0 ∨ capacity < openBatchIDs.length then .error .invalidConfig
  else if 0 ∈ openBatchIDs ∨ ¬ openBatchIDs.Nodup then .error .corrupt
  else scan (visit capacity) ⟨openBatchIDs, []⟩ log

/-! ## What is recovered -/

variable {capacity : Nat} {r r' : Recovered} {log : List LogRecord} {users openBatchIDs : List Nat}

/-- The batches that are ended by the records of a log. -/
def ends (log : List LogRecord) : List Nat := log.flatMap LogRecord.ends

@[simp] theorem ends_append (log log' : List LogRecord) : ends (log ++ log') = ends log ++ ends log' :=
  flatMap_append

@[simp] theorem ends_cons (record : LogRecord) (log : List LogRecord) : ends (record :: log) = record.ends ++ ends log :=
  flatMap_cons

/-- The statuses that a union adds. -/
theorem length_union {statuses : List Nat} (hstatuses : statuses.Nodup) (husers : users.Nodup) :
    (users ∪ statuses).length = statuses.length + (users.filter fun u => u ∉ statuses).length := by
  have hperm : (users ∪ statuses).Perm (statuses ++ users.filter fun u => u ∉ statuses) := by
    refine (perm_ext_iff_of_nodup (hstatuses.union users) ?_).mpr fun a => ?_
    · refine nodup_append.mpr ⟨hstatuses, husers.filter _, fun a ha b hb heq => ?_⟩
      subst heq
      exact absurd ha (of_decide_eq_true (mem_filter.mp hb).2)
    · rw [mem_union_iff, mem_append, mem_filter, decide_eq_true_eq]
      by_cases ha : a ∈ statuses
      · simp only [ha, or_true, true_or]
      · simp only [ha, or_false, false_or, not_false_eq_true, and_true]
  rw [hperm.length_eq, length_append]

theorem seeTerminal_eq_ok {statuses seen : List Nat} (husers : users.Nodup) (hseen : ∀ u ∈ users, u ∉ seen) :
    seeTerminal statuses seen users = .ok (users.reverse ++ seen, (users.filter fun u => u ∉ statuses).length) := by
  induction users generalizing seen with
  | nil => rfl
  | cons u rest ih =>
    obtain ⟨hu, hrest⟩ := nodup_cons.mp husers
    have hnext : ∀ v ∈ rest, v ∉ u :: seen := by
      intro v hv hmem
      rcases mem_cons.mp hmem with rfl | hin
      · exact hu hv
      · exact hseen v (mem_cons_of_mem _ hv) hin
    rw [seeTerminal, if_neg (hseen u mem_cons_self), ih hrest hnext]
    by_cases hstatus : u ∈ statuses <;>
      simp [Except.map, hstatus]

variable {record : LogRecord}

/-- A record that ends new batches, for which there is room. -/
theorem visit_eq_ok (hstatuses : r.statuses.Nodup) (hends : record.ends.Nodup)
    (hseen : ∀ u ∈ record.ends, u ∉ r.seenTerminal) (hroom : (record.ends ∪ r.statuses).length ≤ capacity) :
    ∃ r', visit capacity r record = .ok r' ∧ r'.statuses = record.ends ∪ r.statuses ∧
      ∀ u, u ∈ r'.seenTerminal ↔ u ∈ record.ends ∨ u ∈ r.seenTerminal := by
  cases record with
  | group users =>
    have hlength := length_union hstatuses hends
    simp only [LogRecord.ends] at *
    refine ⟨⟨users ∪ r.statuses, users.reverse ++ r.seenTerminal⟩, ?_, rfl, fun u => ?_⟩
    · rw [visit, replayGroup, seeTerminal_eq_ok hends hseen]
      refine if_neg ?_
      omega
    · rw [mem_append, mem_reverse]
  | abort batch =>
    have hunion : [batch] ∪ r.statuses = r.statuses.insert batch := rfl
    simp only [LogRecord.ends, mem_singleton, forall_eq] at *
    refine ⟨⟨r.statuses.insert batch, batch :: r.seenTerminal⟩, ?_, hunion.symm, fun u => mem_cons⟩
    rw [visit, if_neg hseen, retainStatus]
    refine if_neg ?_
    rintro ⟨hnew, hfull⟩
    rw [hunion, length_insert_of_not_mem hnew] at hroom
    exact absurd hroom (Nat.not_le_of_lt (Nat.lt_succ_of_le hfull))
  | other => exact ⟨r, rfl, rfl, fun u => by simp [LogRecord.ends]⟩

/-- **Replay retains every status** when the batches are ended once and there is room for all of them. -/
theorem scan_eq_ok (hstatuses : r.statuses.Nodup) (hends : (ends log).Nodup)
    (hseen : ∀ u ∈ ends log, u ∉ r.seenTerminal) (hroom : (ends log ∪ r.statuses).length ≤ capacity) :
    ∃ r', scan (visit capacity) r log = .ok r' ∧ r'.statuses.Nodup ∧
      ∀ u, u ∈ r'.statuses ↔ u ∈ ends log ∨ u ∈ r.statuses := by
  induction log generalizing r with
  | nil => exact ⟨r, rfl, hstatuses, fun u => by simp [ends]⟩
  | cons record log ih =>
    rw [ends_cons] at hends hseen hroom
    obtain ⟨hrecord, hlog, hdisjoint⟩ := nodup_append.mp hends
    have hsub : record.ends ∪ r.statuses ⊆ (record.ends ++ ends log) ∪ r.statuses := by
      intro u hu
      rw [mem_union_iff, mem_append]
      exact (mem_union_iff.mp hu).imp .inl id
    have hle : (record.ends ∪ r.statuses).length ≤ capacity :=
      Nat.le_trans (subperm_of_subset (hstatuses.union _) hsub).length_le hroom
    obtain ⟨m, hm, hmstatuses, hmseen⟩ := visit_eq_ok hstatuses hrecord
      (fun u hu => hseen u (mem_append_left _ hu)) hle
    have hnodup : m.statuses.Nodup := hmstatuses ▸ hstatuses.union _
    have hsub' : ends log ∪ m.statuses ⊆ (record.ends ++ ends log) ∪ r.statuses := by
      intro u hu
      rw [mem_union_iff, hmstatuses, mem_union_iff] at hu
      rw [mem_union_iff, mem_append]
      tauto
    have hseen' : ∀ u ∈ ends log, u ∉ m.seenTerminal := by
      intro u hu hin
      rcases (hmseen u).mp hin with hfirst | hold
      · exact hdisjoint u hfirst u hu rfl
      · exact hseen u (mem_append_right _ hu) hold
    obtain ⟨r', hr', hnodup', hmem⟩ := ih hnodup hlog hseen'
      (Nat.le_trans (subperm_of_subset (hnodup.union _) hsub').length_le hroom)
    refine ⟨r', Lib.scan_cons_eq_ok.mpr ⟨m, hm, hr'⟩, hnodup', fun u => ?_⟩
    rw [hmem, hmstatuses, mem_union_iff, ends_cons, mem_append]
    tauto

/-- **`Recover` does not run out of statuses.** -/
theorem recover_eq_ok (hcapacity : capacity ≠ 0) (hopen : openBatchIDs.Nodup) (hzero : 0 ∉ openBatchIDs)
    (hends : (ends log).Nodup) (hroom : (ends log ∪ openBatchIDs).length ≤ capacity) :
    ∃ r, recover capacity openBatchIDs log = .ok r ∧ r.statuses.Nodup ∧
      ∀ u, u ∈ r.statuses ↔ u ∈ ends log ∨ u ∈ openBatchIDs := by
  have hle : openBatchIDs.length ≤ capacity := by
    have hsub : openBatchIDs ⊆ ends log ∪ openBatchIDs := fun u hu => mem_union_iff.mpr (.inr hu)
    exact Nat.le_trans (subperm_of_subset hopen hsub).length_le hroom
  obtain ⟨r, hr, hnodup, hmem⟩ := scan_eq_ok (r := ⟨openBatchIDs, []⟩) hopen hends
    (fun u _ => not_mem_nil) hroom
  refine ⟨r, ?_, hnodup, hmem⟩
  rw [recover, if_neg (by omega), if_neg (by tauto)]
  exact hr

/-- A record that ends new batches is taken, or there is no room for it. -/
theorem visit_cases (hends : record.ends.Nodup) (hseen : ∀ u ∈ record.ends, u ∉ r.seenTerminal) :
    visit capacity r record = .error .statusCapacity ∨ ∃ r', visit capacity r record = .ok r' ∧
      ∀ u, u ∈ r'.seenTerminal ↔ u ∈ record.ends ∨ u ∈ r.seenTerminal := by
  cases record with
  | group users =>
    have hsee : seeTerminal r.statuses r.seenTerminal users = _ := seeTerminal_eq_ok hends hseen
    simp only [visit, replayGroup, hsee]
    split
    · exact .inl rfl
    · refine .inr ⟨_, rfl, fun u => ?_⟩
      rw [mem_append, mem_reverse]
      rfl
  | abort batch =>
    simp only [visit, if_neg (hseen batch mem_cons_self), retainStatus]
    split
    · exact .inl rfl
    · refine .inr ⟨_, rfl, fun u => ?_⟩
      rw [mem_cons, LogRecord.ends, mem_singleton]
  | other => exact .inr ⟨r, rfl, fun u => (or_iff_right not_mem_nil).symm⟩

/-- **Replay reports no duplicate terminal batch** when the batches are ended once. -/
theorem scan_cases (hends : (ends log).Nodup) (hseen : ∀ u ∈ ends log, u ∉ r.seenTerminal) :
    scan (visit capacity) r log = .error .statusCapacity ∨ ∃ r', scan (visit capacity) r log = .ok r' := by
  induction log generalizing r with
  | nil => exact .inr ⟨r, rfl⟩
  | cons record log ih =>
    rw [ends_cons] at hends hseen
    obtain ⟨hrecord, hlog, hdisjoint⟩ := nodup_append.mp hends
    rcases visit_cases hrecord fun u hu => hseen u (mem_append_left _ hu) with hfull | ⟨m, hm, hmseen⟩
    · exact .inl (Lib.scan_cons_error hfull)
    · have hnext : ∀ u ∈ ends log, u ∉ m.seenTerminal := by
        intro u hu hin
        rcases (hmseen u).mp hin with hfirst | hold
        · exact hdisjoint u hfirst u hu rfl
        · exact hseen u (mem_append_right _ hu) hold
      rw [Lib.scan_cons_ok hm]
      exact ih hlog hnext

theorem recover_ne_corrupt (hopen : openBatchIDs.Nodup) (hzero : 0 ∉ openBatchIDs) (hends : (ends log).Nodup) :
    recover capacity openBatchIDs log ≠ .error .corrupt := by
  unfold recover
  split
  · exact nofun
  · rw [if_neg (not_or.mpr ⟨hzero, not_not.mpr hopen⟩)]
    rcases scan_cases (r := ⟨openBatchIDs, []⟩) hends fun u _ => not_mem_nil with hfull | ⟨r', hok⟩
    · rw [hfull]
      exact nofun
    · rw [hok]
      exact nofun

end Ridstore.Replay
