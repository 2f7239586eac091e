import Mathlib.Algebra.Ring.Nat
import Mathlib.Data.List.Induction
import Mathlib.Data.List.Nodup
import Mathlib.Data.List.Perm.Subperm

/-
# Ridstore.Engine.StatusRetention — the window of retained Batch outcomes

A store keeps the outcomes of the newest Batches in a map.  A queue remembers in which order they were added;
its entries carry a serial number, so that an entry whose Batch was added again is recognised as stale.  When
the map is too large the queue is read from its head, stale entries are skipped, and the read part of the queue
is dropped from time to time.

Serial numbers are natural numbers: two calls with the same 64-bit serial number are `2 ^ 64` calls apart, and
an entry is stale only while it stands in a slice together with all entries that were added after it.
-/

namespace Ridstore.Engine

open List hiding beq_eq_decide

/-! ## §1 — The model -/

/-- `BatchState`. -/
inductive BatchState
  | opened
  | committing
  | committed
  | aborted
  | commitUnknown
  deriving DecidableEq, Repr

/-- `BatchStatus`. -/
structure BatchStatus where
  batchID : Nat
  state : BatchState
  commitSeq : Nat
  deriving DecidableEq, Repr

/-- `statusEntry`. -/
structure StatusEntry where
  status : BatchStatus
  serial : Nat
  deriving DecidableEq, Repr

/-- `statusOrderEntry`. -/
structure StatusOrderEntry where
  id : Nat
  serial : Nat
  deriving DecidableEq, Repr

/-- The fields of `storeState` that retain outcomes; the map is the list of its entries. -/
structure StatusState where
  statuses : List StatusEntry
  statusOrder : List StatusOrderEntry
  statusOrderHead : Nat
  statusSerial : Nat
  recoveryAbortedValid : Bool
  deriving DecidableEq, Repr

namespace StatusState

/-- The read of the map. -/
def lookup (statuses : List StatusEntry) (id : Nat) : Option StatusEntry :=
  statuses.find? fun e => e.status.batchID = id

/-- `delete` on the map. -/
def delete (statuses : List StatusEntry) (id : Nat) : List StatusEntry :=
  statuses.filter fun e => e.status.batchID ≠ id

/-- The entry of the queue is the newest one of its Batch. -/
def current (statuses : List StatusEntry) (oldest : StatusOrderEntry) : Bool :=
  (lookup statuses oldest.id).any fun e => e.serial = oldest.serial

/-- The status is written to the map and its entry appended to the queue. -/
def push (t : StatusState) (status : BatchStatus) : StatusState :=
  { t with
    statuses := ⟨status, t.statusSerial + 1⟩ :: delete t.statuses status.batchID
    statusOrder := t.statusOrder ++ [⟨status.batchID, t.statusSerial + 1⟩]
    statusSerial := t.statusSerial + 1 }

/-- The eviction loop, over the part of the queue from its head on. -/
def evict (retention : Nat) (t : StatusState) : List StatusOrderEntry → StatusState
  | [] => t
  | oldest :: rest =>
    if retention < t.statuses.length then
      if current t.statuses oldest then
        evict retention { t with
          statuses := delete t.statuses oldest.id, statusOrderHead := t.statusOrderHead + 1
          recoveryAbortedValid := false } rest
      else evict retention { t with statusOrderHead := t.statusOrderHead + 1 } rest
    else t

/-- The read part of the queue is dropped. -/
def compact (retention : Nat) (t : StatusState) : StatusState :=
  if retention < t.statusOrderHead ∧ t.statusOrder.length ≤ t.statusOrderHead * 2 then
    { t with statusOrder := t.statusOrder.drop t.statusOrderHead, statusOrderHead := 0 }
  else t

/-- **`addStatusLocked`.** -/
def addStatusLocked (retention : Nat) (t : StatusState) (status : BatchStatus) : StatusState :=
  let pushed := t.push status
  (evict retention pushed (pushed.statusOrder.drop pushed.statusOrderHead)).compact retention

/-- The table of a new store after some calls. -/
def run (retention : Nat) (calls : List BatchStatus) : StatusState :=
  calls.foldl (addStatusLocked retention) ⟨[], [], 0, 0, false⟩

/-- **What the table is for**: the latest status of every Batch, the Batch that was added last first. -/
def recent (calls : List BatchStatus) : List BatchStatus :=
  calls.foldl (fun statuses status => status :: statuses.filter (·.batchID ≠ status.batchID)) []

theorem recent_append (calls : List BatchStatus) (status : BatchStatus) :
    recent (calls ++ [status]) = status :: (recent calls).filter (·.batchID ≠ status.batchID) := by
  simp [recent]

theorem nodup_recent (calls : List BatchStatus) : ((recent calls).map (·.batchID)).Nodup := by
  induction calls using List.reverseRecOn with
  | nil => simp [recent]
  | append_singleton calls status ih =>
    rw [recent_append, map_cons, nodup_cons]
    exact ⟨by simp, ih.sublist (filter_sublist.map _)⟩

theorem mem_of_mem_recent {calls : List BatchStatus} {status : BatchStatus} (h : status ∈ recent calls) :
    status ∈ calls := by
  induction calls using List.reverseRecOn with
  | nil => exact h
  | append_singleton calls last ih =>
    rw [recent_append] at h
    rcases mem_cons.mp h with rfl | h
    · simp
    · exact mem_append_left _ (ih (mem_of_mem_filter h))

/-! ## §2 — The queue and the map -/

/-- The entry of the queue that belongs to an entry of the map. -/
def key (e : StatusEntry) : StatusOrderEntry := ⟨e.status.batchID, e.serial⟩

/-- **The queue without its stale entries is the map, the oldest entry first.** -/
structure Aligned (order : List StatusOrderEntry) (statuses : List StatusEntry) : Prop where
  unique : (statuses.map (·.status.batchID)).Nodup
  live : order.filter (· ∈ statuses.map key) = (statuses.map key).reverse

variable {statuses : List StatusEntry} {order : List StatusOrderEntry} {r : Nat}

theorem lookup_of_mem (unique : (statuses.map (·.status.batchID)).Nodup) {e : StatusEntry} (he : e ∈ statuses) :
    lookup statuses e.status.batchID = some e := by
  have hsome : (lookup statuses e.status.batchID).isSome := find?_isSome.mpr ⟨e, he, by simp⟩
  obtain ⟨e', he'⟩ := Option.isSome_iff_exists.mp hsome
  have hid : e'.status.batchID = e.status.batchID := by simpa using find?_some he'
  rw [he', inj_on_of_nodup_map unique (mem_of_find?_eq_some he') he hid]

theorem current_iff (unique : (statuses.map (·.status.batchID)).Nodup) (oldest : StatusOrderEntry) :
    current statuses oldest = true ↔ oldest ∈ statuses.map key := by
  constructor
  · intro h
    obtain ⟨e, he, hserial⟩ := (Option.any_eq_true _ _).mp h
    have hid : e.status.batchID = oldest.id := by simpa using find?_some he
    have hkey : key e = oldest := by rw [key, hid, of_decide_eq_true hserial]
    exact hkey ▸ mem_map_of_mem (mem_of_find?_eq_some he)
  · intro h
    obtain ⟨e, he, rfl⟩ := mem_map.mp h
    simp [current, key, lookup_of_mem unique he]

/-- The entries of the queue that stay live are those of the other Batches. -/
theorem mem_push_iff {serial : Nat} {q : StatusOrderEntry} (hq : q.serial < serial) (status : BatchStatus) :
    q ∈ (⟨status, serial⟩ :: delete statuses status.batchID : List StatusEntry).map key ↔
      q ∈ statuses.map key ∧ q.id ≠ status.batchID := by
  have hne : q ≠ key ⟨status, serial⟩ := fun h => Nat.ne_of_lt hq (congrArg StatusOrderEntry.serial h)
  simp only [map_cons, mem_cons, hne, false_or, mem_map, delete, mem_filter]
  constructor
  · rintro ⟨e, ⟨he, hid⟩, rfl⟩
    exact ⟨⟨e, he, rfl⟩, of_decide_eq_true hid⟩
  · rintro ⟨⟨e, he, rfl⟩, hid⟩
    exact ⟨e, ⟨he, decide_eq_true hid⟩, rfl⟩

theorem Aligned.push (h : Aligned order statuses) {serial : Nat} (hserial : ∀ q ∈ order, q.serial < serial)
    (status : BatchStatus) :
    Aligned (order ++ [⟨status.batchID, serial⟩]) (⟨status, serial⟩ :: delete statuses status.batchID) where
  unique := by
    rw [map_cons, nodup_cons]
    exact ⟨by simp [delete], h.unique.sublist (filter_sublist.map _)⟩
  live := by
    have hold :
        order.filter (· ∈ (⟨status, serial⟩ :: delete statuses status.batchID : List StatusEntry).map key) =
          (order.filter (· ∈ statuses.map key)).filter (·.id ≠ status.batchID) := by
      rw [filter_filter]
      refine filter_congr fun q hq => ?_
      rw [← Bool.decide_and, decide_eq_decide, mem_push_iff (hserial q hq), and_comm]
    rw [filter_append, hold, h.live, filter_reverse, filter_map, map_cons, reverse_cons]
    congr 1
    exact filter_eq_self.mpr (by simp [key])

/-- The live entry at the head of the queue belongs to the last entry of the map. -/
theorem Aligned.exists_last {oldest : StatusOrderEntry} (h : Aligned (oldest :: order) statuses)
    (hlive : oldest ∈ statuses.map key) :
    ∃ front last, statuses = front ++ [last] ∧ key last = oldest ∧ delete statuses oldest.id = front ∧
      Aligned order front := by
  have hlast := h.live
  rw [filter_cons_of_pos (by simpa using hlive), eq_comm, reverse_eq_cons_iff] at hlast
  obtain ⟨front, back, rfl, hfront, hback⟩ := map_eq_append_iff.mp hlast
  obtain ⟨last, rfl, rfl⟩ := map_eq_singleton_iff.mp hback
  have hnodup := h.unique
  rw [map_append, nodup_append] at hnodup
  obtain ⟨hunique, -, hother⟩ := hnodup
  refine ⟨front, last, rfl, rfl, ?_, hunique, ?_⟩
  · rw [delete, filter_append, filter_eq_self.mpr]
    · simp [key]
    · exact fun e he => decide_eq_true (hother _ (mem_map_of_mem he) _ (by simp [key]))
  · -- an entry of the rest of the queue that was live belongs to the front of the map
    rw [hfront, reverse_reverse]
    refine filter_congr fun q hq => ?_
    rw [decide_eq_decide, mem_reverse, mem_filter, decide_eq_true_iff]
    exact and_iff_right hq

/-- The newest entries are kept, and the queue is read up to the oldest of them. -/
def Evicts (r : Nat) (order : List StatusOrderEntry) (t t' : StatusState) : Prop :=
  ∃ n, n ≤ order.length ∧ t' = { t with
      statuses := t.statuses.take r, statusOrderHead := t.statusOrderHead + n
      recoveryAbortedValid := t.recoveryAbortedValid && decide (t.statuses.length ≤ r) } ∧
    Aligned (order.drop n) (t.statuses.take r) ∧
    (order = (t.statuses.map key).reverse → order.drop n = ((t.statuses.take r).map key).reverse)

/-- The eviction loop ends at once when the map is small enough. -/
theorem evicts_self {t : StatusState} (h : Aligned order t.statuses) (hlen : t.statuses.length ≤ r) :
    Evicts r order t t := by
  refine ⟨0, Nat.zero_le _, ?_⟩
  rw [take_of_length_le hlen, decide_eq_true hlen, Bool.and_true, Nat.add_zero]
  exact ⟨rfl, h, id⟩

/-- **The eviction loop keeps the newest entries.** -/
theorem evicts_evict {t : StatusState} (h : Aligned order t.statuses) : Evicts r order t (evict r t order) := by
  induction order generalizing t with
  | nil =>
    have hempty : t.statuses = [] := by simpa using h.live
    exact evicts_self h (by simp [hempty])
  | cons oldest rest ih =>
    by_cases hloop : r < t.statuses.length
    case neg =>
      rw [evict, if_neg hloop]
      exact evicts_self h (Nat.not_lt.mp hloop)
    by_cases hlive : oldest ∈ t.statuses.map key
    · obtain ⟨front, last, hstatuses, hlast, hdelete, hrest⟩ := h.exists_last hlive
      have htake : front.take r = t.statuses.take r := by
        rw [hstatuses, take_append_of_le_length]
        rw [hstatuses, length_append] at hloop
        exact Nat.le_of_lt_succ hloop
      obtain ⟨n, hn, hevict, haligned, htight⟩ := ih (t := { t with
        statuses := front, statusOrderHead := t.statusOrderHead + 1, recoveryAbortedValid := false }) hrest
      rw [htake] at hevict haligned htight
      refine ⟨n + 1, Nat.succ_le_succ hn, ?_, haligned, fun htail => htight ?_⟩
      · rw [evict, if_pos hloop, if_pos ((current_iff h.unique oldest).mpr hlive), hdelete, hevict]
        simp [hloop, Nat.add_assoc, Nat.add_comm 1 n]
      · rw [hstatuses, map_append, reverse_append] at htail
        exact tail_eq_of_cons_eq htail
    · have hrest : Aligned rest t.statuses :=
        ⟨h.unique, by rw [← h.live, filter_cons_of_neg (by simpa using hlive)]⟩
      obtain ⟨n, hn, hevict, haligned, -⟩ := ih (t := { t with statusOrderHead := t.statusOrderHead + 1 }) hrest
      refine ⟨n + 1, Nat.succ_le_succ hn, ?_, haligned, fun htail => ?_⟩
      · rw [evict, if_pos hloop, if_neg (mt (current_iff h.unique oldest).mp hlive), hevict]
        simp [Nat.add_assoc, Nat.add_comm 1 n]
      · exact absurd (mem_reverse.mp (htail ▸ mem_cons_self)) hlive

/-! ## §3 — Every sequence of calls -/

/-- **The invariant between calls.**  The queue has no stale entry while every Batch was added once. -/
structure Retains (r : Nat) (calls : List BatchStatus) (t : StatusState) : Prop where
  statuses : t.statuses.map (·.status) = (recent calls).take r
  head_le : t.statusOrderHead ≤ t.statusOrder.length
  aligned : Aligned (t.statusOrder.drop t.statusOrderHead) t.statuses
  serial : ∀ q ∈ t.statusOrder, q.serial ≤ t.statusSerial
  tight : (calls.map (·.batchID)).Nodup → t.statusOrder.drop t.statusOrderHead = (t.statuses.map key).reverse

variable {calls : List BatchStatus} {t : StatusState}

/-- A window that loses one Batch to its new place at the front is filled again by none: it had room for it. -/
theorem take_cons_filter_take (hr : 1 ≤ r) {window : List BatchStatus} (unique : (window.map (·.batchID)).Nodup)
    (status : BatchStatus) :
    (status :: (window.take r).filter (·.batchID ≠ status.batchID)).take r =
      (status :: window.filter (·.batchID ≠ status.batchID)).take r := by
  obtain ⟨n, rfl⟩ := Nat.exists_eq_add_of_le' hr
  rw [take_succ_cons, take_succ_cons]
  congr 1
  conv => rhs; rw [← take_append_drop (n + 1) window, filter_append]
  by_cases hlen : window.length ≤ n + 1
  · rw [drop_of_length_le hlen, filter_nil, append_nil]
  -- at most one Batch of a full window is left out
  have hunique := unique.sublist ((take_sublist (n + 1) window).map _)
  have herase : (((window.take (n + 1)).filter (·.batchID ≠ status.batchID)).map (·.batchID)) =
      ((window.take (n + 1)).map (·.batchID)).erase status.batchID := by
    rw [hunique.erase_eq_filter, filter_map]
    exact congrArg _ (filter_congr fun s _ => by rw [Function.comp, bne, beq_eq_decide, decide_not])
  have hkept := congrArg List.length herase
  have hbound := le_length_erase (a := status.batchID) (l := (window.take (n + 1)).map (·.batchID))
  rw [length_map] at hkept
  rw [length_map, length_take] at hbound
  rw [take_append_of_le_length]
  omega

theorem retains_nil (r : Nat) : Retains r [] (run r []) where
  statuses := take_nil.symm
  head_le := Nat.zero_le _
  aligned := ⟨nodup_nil, rfl⟩
  serial := nofun
  tight _ := rfl

/-- The map before the eviction holds the window with the new status at its front. -/
theorem Retains.push_statuses (h : Retains r calls t) (status : BatchStatus) :
    (t.push status).statuses.map (·.status) =
      status :: ((recent calls).take r).filter (·.batchID ≠ status.batchID) := by
  rw [push, map_cons, delete, ← h.statuses, filter_map]
  rfl

theorem Retains.push_aligned (h : Retains r calls t) (status : BatchStatus) :
    Aligned ((t.push status).statusOrder.drop t.statusOrderHead) (t.push status).statuses := by
  rw [push, drop_append_of_le_length h.head_le]
  exact h.aligned.push (fun q hq => Nat.lt_succ_of_le (h.serial q (mem_of_mem_drop hq))) status

/-- A Batch that is added for the first time leaves no stale entry behind. -/
theorem Retains.push_tight (h : Retains r calls t) {status : BatchStatus}
    (hnodup : ((calls ++ [status]).map (·.batchID)).Nodup) :
    (t.push status).statusOrder.drop t.statusOrderHead = ((t.push status).statuses.map key).reverse := by
  rw [map_append, nodup_append] at hnodup
  obtain ⟨hcalls, -, hfresh⟩ := hnodup
  have hdelete : delete t.statuses status.batchID = t.statuses := by
    refine filter_eq_self.mpr fun e he => decide_eq_true ?_
    have hmem : e.status ∈ (recent calls).take r := h.statuses ▸ mem_map_of_mem he
    exact hfresh _ (mem_map_of_mem (mem_of_mem_recent (mem_of_mem_take hmem))) _ (by simp)
  rw [push, drop_append_of_le_length h.head_le, h.tight hcalls, hdelete, map_cons, reverse_cons]
  rfl

/-- **The invariant before the compaction of the queue.** -/
theorem Retains.evicted (hr : 1 ≤ r) (h : Retains r calls t) (status : BatchStatus) :
    ∃ t', addStatusLocked r t status = t'.compact r ∧ Retains r (calls ++ [status]) t' ∧
      t'.statuses = (t.push status).statuses.take r ∧ t'.recoveryAbortedValid =
        (t.recoveryAbortedValid && decide ((t.push status).statuses.length ≤ r)) := by
  obtain ⟨n, hn, hevict, haligned, htight⟩ := evicts_evict (r := r) (h.push_aligned status)
  rw [drop_drop] at haligned htight
  rw [length_drop] at hn
  refine ⟨_, congrArg (compact r) hevict, ?_, rfl, rfl⟩
  refine ⟨?_, ?_, haligned, ?_, fun hnodup => htight (h.push_tight hnodup)⟩
  · rw [map_take, h.push_statuses, take_cons_filter_take hr (nodup_recent calls), recent_append]
  · have hhead := h.head_le
    have hlen : (t.push status).statusOrder.length = t.statusOrder.length + 1 := length_append
    exact (by omega : t.statusOrderHead + n ≤ (t.push status).statusOrder.length)
  · intro q hq
    rcases mem_append.mp hq with hq | hq
    · exact Nat.le_succ_of_le (h.serial q hq)
    · exact (mem_singleton.mp hq) ▸ Nat.le_refl _

theorem Retains.compact (h : Retains r calls t) : Retains r calls (t.compact r) := by
  unfold StatusState.compact
  split
  · exact ⟨h.statuses, Nat.zero_le _, h.aligned, fun q hq => h.serial q (mem_of_mem_drop hq), h.tight⟩
  · exact h

/-- A queue that is not compacted has a short part that was read, or a long one that was not. -/
theorem length_compact_le (hlen : t.statusOrder.length - t.statusOrderHead ≤ r) :
    (t.compact r).statusOrder.length ≤ 2 * r := by
  unfold StatusState.compact
  split
  · exact length_drop ▸ Nat.le_trans hlen (by omega)
  · omega

theorem compact_statuses : (t.compact r).statuses = t.statuses := by
  unfold StatusState.compact
  split <;> rfl

theorem compact_recoveryAbortedValid : (t.compact r).recoveryAbortedValid = t.recoveryAbortedValid := by
  unfold StatusState.compact
  split <;> rfl

theorem retains_run (hr : 1 ≤ r) (calls : List BatchStatus) : Retains r calls (run r calls) := by
  induction calls using List.reverseRecOn with
  | nil => exact retains_nil r
  | append_singleton calls status ih =>
    obtain ⟨t', hcall, h, -⟩ := ih.evicted hr status
    rw [run, foldl_append, foldl_cons, foldl_nil, ← run, hcall]
    exact h.compact

/-- The map holds a status of the Batch. -/
def Holds (t : StatusState) (id : Nat) : Prop := (lookup t.statuses id).isSome

theorem holds_iff {id : Nat} : t.Holds id ↔ id ∈ t.statuses.map (·.status.batchID) := by
  rw [Holds, lookup, find?_isSome, mem_map]
  exact exists_congr fun e => and_congr_right fun _ => decide_eq_true_iff

/-- A call evicts no entry iff the map has room for the new status. -/
theorem Retains.holds_iff_length_le (hr : 1 ≤ r) (h : Retains r calls t) (status : BatchStatus) :
    (∀ id, t.Holds id → (addStatusLocked r t status).Holds id) ↔ (t.push status).statuses.length ≤ r := by
  obtain ⟨t', hcall, -, hstatuses, -⟩ := h.evicted hr status
  simp only [holds_iff, hcall, compact_statuses, hstatuses]
  constructor
  · intro hstay
    have hsubset : (t.push status).statuses.map (·.status.batchID) ⊆
        ((t.push status).statuses.take r).map (·.status.batchID) := by
      intro id hid
      rcases mem_cons.mp hid with rfl | hid
      · obtain ⟨n, rfl⟩ := Nat.exists_eq_add_of_le' hr
        exact mem_cons_self
      · exact hstay id ((filter_sublist.map _).subset hid)
    have hlen := ((h.push_aligned status).unique.subperm hsubset).length_le
    rw [length_map, length_map, length_take] at hlen
    omega
  · intro hlen id hid
    rw [take_of_length_le hlen]
    by_cases heq : id = status.batchID
    · exact heq ▸ mem_cons_self
    · obtain ⟨e, he, rfl⟩ := mem_map.mp hid
      exact mem_cons_of_mem _ (mem_map_of_mem (mem_filter.mpr ⟨he, decide_eq_true heq⟩))

/-- **The retention window.**  The map holds the Batches that were added last, each with its latest status; a
call clears the flag of the recovered range iff it evicts an entry; and without repetitions the queue stays
short. -/
theorem retention_window (hr : 1 ≤ r) (calls : List BatchStatus) :
    (∀ id, (lookup (run r calls).statuses id).map (·.status) =
      ((recent calls).take r).find? (·.batchID = id)) ∧
    (run r calls).statuses.length = min r (recent calls).length ∧
    (∀ valid status, let t := { run r calls with recoveryAbortedValid := valid }
      ((∃ id, t.Holds id ∧ ¬ (addStatusLocked r t status).Holds id) →
        (addStatusLocked r t status).recoveryAbortedValid = false) ∧
      ((∀ id, t.Holds id → (addStatusLocked r t status).Holds id) →
        (addStatusLocked r t status).recoveryAbortedValid = valid)) ∧
    ((calls.map (·.batchID)).Nodup → (run r calls).statusOrder.length ≤ 2 * r) := by
  have hrun := retains_run hr calls
  refine ⟨fun id => ?_, ?_, fun valid status => ?_, fun hnodup => ?_⟩
  · rw [← hrun.statuses, find?_map]
    rfl
  · rw [← length_take, ← hrun.statuses, length_map]
  · have h : Retains r calls { run r calls with recoveryAbortedValid := valid } :=
      ⟨hrun.statuses, hrun.head_le, hrun.aligned, hrun.serial, hrun.tight⟩
    obtain ⟨t', hcall, -, -, hvalid⟩ := h.evicted hr status
    rw [← compact_recoveryAbortedValid (r := r), ← hcall] at hvalid
    refine ⟨fun ⟨id, hheld, hlost⟩ => ?_, fun hstay => ?_⟩
    · have hlen : ¬ (push _ status).statuses.length ≤ r :=
        fun hlen => hlost ((h.holds_iff_length_le hr status).mpr hlen id hheld)
      rw [hvalid, decide_eq_false hlen, Bool.and_false]
    · rw [hvalid, decide_eq_true ((h.holds_iff_length_le hr status).mp hstay), Bool.and_true]
  · rcases eq_nil_or_concat calls with rfl | ⟨calls, status, rfl⟩
    · exact Nat.zero_le _
    · obtain ⟨t', hcall, h, hstatuses, -⟩ := (retains_run hr calls).evicted hr status
      rw [concat_eq_append] at hnodup ⊢
      rw [run, foldl_append, foldl_cons, foldl_nil, ← run, hcall]
      refine length_compact_le ?_
      rw [← length_drop, h.tight hnodup, length_reverse, length_map, hstatuses, length_take]
      exact Nat.min_le_left _ _

/-- Two Batches are retained of three, one of them with its second status. -/
theorem retention_window_two :
    (lookup (run 2 [⟨1, .committed, 1⟩, ⟨2, .aborted, 0⟩, ⟨1, .commitUnknown, 0⟩, ⟨3, .committed, 2⟩]).statuses
      1).map (·.status) = some ⟨1, .commitUnknown, 0⟩ :=
  (retention_window (r := 2) (by decide) _).1 1

end StatusState

end Ridstore.Engine
