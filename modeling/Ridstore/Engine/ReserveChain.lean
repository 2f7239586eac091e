import Mathlib.Order.Nat
import Ridstore.IdAlloc.Allocator
import Ridstore.Lib.Transition

/-
# Ridstore.Engine.ReserveChain — allocators, checkpoints and the recovery of the reserve chain

`Allocate` extends its range by a reserve record while a checkpoint appends its marker, reads both
allocators' highs and installs them in the manifest.  Replay starts right after the marker with the
installed highs and wants every reserve record it meets to extend the chain.  A reserve record that
is acknowledged after the marker and before the capture is counted in the captured high *and* met by
replay, and the chain check then fails: the highs are read later than the position they belong to.

The log is modelled by its records in order with a durable prefix; a crash or a close keeps any prefix
that contains the durable one.  An `Allocate` that extends its range holds its allocator's mutex from
the append to the acknowledgement.
-/

namespace Ridstore.Engine.ReserveChain

open IdAlloc (Kind Allocator Aligned advanceRecovered)
open Function
open List
open Lib (scan)

/-! ## §1 — The system -/

/-- The records of the log as far as the reserve chain is concerned. -/
inductive LogRecord
  | reserve (kind : Kind) (highExclusive : Nat)
  | marker
  | other
  deriving DecidableEq, Repr

/-- The fields of the manifest that recovery of the allocators reads.  `replayStart` counts the records
before the position. -/
structure Manifest where
  replayStart : Nat
  reservedHigh : Kind → Nat

/-- How far the current checkpoint is: `prepareCheckpoint` up to `prepared`, then `finishCheckpoint`. -/
inductive Stage
  | idle
  | marking (marker : Nat)
  | fenced (replayStart epoch : Nat)
  | capturedIDs (replayStart epoch idHigh : Nat)
  | captured (replayStart epoch : Nat) (highs : Kind → Nat)
  | prepared (replayStart : Nat) (highs : Kind → Nat)

/-- The log, the allocators with the position their mutex holder waits for, the checkpoint and the
installed manifest.  `issued` and `extended` are history: the ids handed out, and whether a reserve
record behind the current checkpoint's marker was acknowledged before that kind's high was read. -/
structure State where
  log : List LogRecord
  durable : Nat
  poisoned : Bool
  allocators : Kind → Allocator
  appending : Kind → Option Nat
  issued : Kind → List Nat
  epoch : Nat
  stage : Stage
  extended : Bool
  manifest : Manifest

/-- The events of the system. -/
inductive Event
  | allocate (kind : Kind)
  | reserveAppend (kind : Kind)
  | reserveDone (kind : Kind)
  | reserveFailed (kind : Kind)
  | append
  | sync (upTo : Nat)
  | poison
  | batchEpoch
  | marker
  | fence
  | captureIDs
  | captureBatches
  | checkEpoch
  | install
  | abort
  | reopen (survivors : Nat)

/-- The kinds whose high the checkpoint has still to read, with the position replay will start from. -/
def Stage.uncaptured : Stage → Kind → Option Nat
  | .marking marker, _ => some (marker + 1)
  | .fenced replayStart _, _ => some replayStart
  | .capturedIDs replayStart _ _, .batchID => some replayStart
  | _, _ => none

/-- The reserve branch of `replay.Recover`; other records leave the highs alone. -/
def reserveStep (size : Kind → Nat) (highs : Kind → Nat) : LogRecord → Except StoreError (Kind → Nat)
  | .reserve kind high => (advanceRecovered (size kind) (highs kind) high).map (update highs kind)
  | .marker | .other => .ok highs

/-- `Recover` on the reserve records: scan from the installed position with the installed highs. -/
def recover (size : Kind → Nat) (manifest : Manifest) (log : List LogRecord) :
    Except StoreError (Kind → Nat) :=
  scan (reserveStep size) manifest.reservedHigh (log.drop manifest.replayStart)

/-- The end of `Allocate`: hand out an id of the range. -/
def State.issue (s : State) (kind : Kind) (a : Allocator) : State :=
  { s with
    allocators := update s.allocators kind a.take.2
    issued := update s.issued kind (a.take.1 :: s.issued kind) }

/-- `Open` after a crash or a close that kept `survivors` records. -/
def State.reopen (size : Kind → Nat) (s : State) (survivors : Nat) : Option State :=
  match recover size s.manifest (s.log.take survivors) with
  | .error _ => none
  | .ok highs =>
    match IdAlloc.new (size .recordID) (highs .recordID), IdAlloc.new (size .batchID) (highs .batchID) with
    | .ok ids, .ok batches =>
      some { s with
        log := s.log.take survivors, durable := survivors, poisoned := false
        allocators := fun | .recordID => ids | .batchID => batches
        appending := fun _ => none, epoch := 0, stage := .idle }
    | _, _ => none

/-- `applyCheckpoint` refuses to move the position or a high back. -/
def Manifest.admits (m : Manifest) (replayStart : Nat) (highs : Kind → Nat) : Bool :=
  m.replayStart ≤ replayStart && m.reservedHigh .recordID ≤ highs .recordID &&
    m.reservedHigh .batchID ≤ highs .batchID

/-- One event. -/
def State.step (size : Kind → Nat) (s : State) : Event → Option State
  | .allocate kind =>
    let a := s.allocators kind
    if s.appending kind = none ∧ a.next ≠ a.high then some (s.issue kind a) else none
  | .reserveAppend kind =>
    let a := s.allocators kind
    if s.appending kind = none ∧ a.next = a.high ∧ s.poisoned = false then
      match a.newHigh with
      | .error _ => none
      | .ok high =>
        some { s with
          log := s.log ++ [.reserve kind high]
          appending := update s.appending kind (some s.log.length) }
    else none
  | .reserveDone kind =>
    match s.appending kind with
    | none => none
    | some position =>
      if position < s.durable then
        let a := s.allocators kind
        let late := match s.stage.uncaptured kind with
          | none => false
          | some replayStart => decide (replayStart ≤ position)
        some (({ s with
          appending := update s.appending kind none
          extended := s.extended || late }).issue kind (a.extend (a.high + a.reserve)))
      else none
  | .reserveFailed kind =>
    match s.appending kind with
    | none => none
    | some position =>
      if s.poisoned ∧ s.durable ≤ position then
        some { s with appending := update s.appending kind none }
      else none
  | .append => if s.poisoned then none else some { s with log := s.log ++ [.other] }
  | .sync upTo =>
    if s.poisoned = false ∧ s.durable ≤ upTo ∧ upTo ≤ s.log.length then some { s with durable := upTo }
    else none
  | .poison => some { s with poisoned := true }
  -- `batchEpoch.Add(1)` happens under `state.mu`, which the checkpoint holds while it captures.
  | .batchEpoch =>
    match s.stage with
    | .capturedIDs _ _ _ => none
    | _ => some { s with epoch := s.epoch + 1 }
  | .marker =>
    match s.stage with
    | .idle =>
      if s.poisoned then none
      else some { s with log := s.log ++ [.marker], stage := .marking s.log.length, extended := false }
    | _ => none
  | .fence =>
    match s.stage with
    | .marking marker =>
      if marker < s.durable then some { s with stage := .fenced (marker + 1) s.epoch } else none
    | _ => none
  | .captureIDs =>
    match s.stage with
    | .fenced replayStart epoch =>
      if s.appending .recordID = none then
        some { s with stage := .capturedIDs replayStart epoch (s.allocators .recordID).durableHigh }
      else none
    | _ => none
  | .captureBatches =>
    match s.stage with
    | .capturedIDs replayStart epoch idHigh =>
      if s.appending .batchID = none then
        some { s with stage := .captured replayStart epoch fun
          | .recordID => idHigh
          | .batchID => (s.allocators .batchID).durableHigh }
      else none
    | _ => none
  | .checkEpoch =>
    match s.stage with
    | .captured replayStart epoch highs =>
      some { s with stage := if epoch = s.epoch then .prepared replayStart highs else .idle }
    | _ => none
  | .install =>
    match s.stage with
    | .prepared replayStart highs =>
      if s.manifest.admits replayStart highs then
        some { s with manifest := ⟨replayStart, highs⟩, stage := .idle }
      else some { s with stage := .idle }
    | _ => none
  | .abort => some { s with stage := .idle }
  | .reopen survivors =>
    if s.durable ≤ survivors ∧ survivors ≤ s.log.length then s.reopen size survivors else none

/-- A new store: nothing logged, both allocators at the highs of the first manifest. -/
def Fresh (size : Kind → Nat) (s : State) : Prop :=
  (∀ kind, Aligned (size kind) (s.manifest.reservedHigh kind)) ∧
    s = { log := [], durable := 0, poisoned := false
          allocators := fun kind => ⟨size kind, s.manifest.reservedHigh kind, s.manifest.reservedHigh kind⟩
          appending := fun _ => none, issued := fun _ => [], epoch := 0, stage := .idle, extended := false
          manifest := ⟨0, s.manifest.reservedHigh⟩ }

/-- Allocators and checkpoints over one log, across any number of reopenings. -/
def system (size : Kind → Nat) : Lib.Machine State Event where
  init := Fresh size
  step := State.step size

/-! ## §2 — The chain -/

variable {size : Kind → Nat} {highs highs' base : Kind → Nat} {log : List LogRecord} {kind : Kind}
  {high : Nat} {s s' : State} {position : Nat}

/-- Highs that the allocators of both kinds would start from. -/
def AllAligned (size highs : Kind → Nat) : Prop := ∀ kind, Aligned (size kind) (highs kind)

/-- What one accepted reserve record does to the highs. -/
theorem reserveStep_reserve (h : AllAligned size highs) :
    reserveStep size highs (.reserve kind high) = .ok highs' ↔
      highs kind ≤ maxUint64 - size kind ∧ high = highs kind + size kind ∧
        highs' = update highs kind high := by
  simp only [reserveStep]
  cases hadvance : advanceRecovered (size kind) (highs kind) high with
  | error e =>
    have hnot : ¬ (highs kind ≤ maxUint64 - size kind ∧ high = highs kind + size kind) := by
      rintro ⟨hbound, hrecord⟩
      have hok := (IdAlloc.advanceRecovered_eq_ok_iff (h kind)).mpr ⟨hbound, hrecord, rfl⟩
      rw [hadvance] at hok
      cases hok
    simp only [Except.map, reduceCtorEq, false_iff]
    rintro ⟨hbound, hrecord, -⟩
    exact hnot ⟨hbound, hrecord⟩
  | ok recovered =>
    obtain ⟨hbound, hrecord, rfl⟩ := (IdAlloc.advanceRecovered_eq_ok_iff (h kind)).mp hadvance
    simp only [Except.map, Except.ok.injEq, hbound, true_and]
    constructor
    · rintro rfl
      exact ⟨hrecord, rfl⟩
    · rintro ⟨-, rfl⟩
      rfl

variable {record : LogRecord}

/-- One step keeps the highs aligned, never lowers one, and covers the record it took. -/
theorem reserveStep_bounds (h : AllAligned size highs) (hok : reserveStep size highs record = .ok highs') :
    AllAligned size highs' ∧ (∀ kind, highs kind ≤ highs' kind) ∧
      ∀ kind high, record = .reserve kind high → high ≤ highs' kind := by
  cases record with
  | reserve kind high =>
    obtain ⟨-, rfl, rfl⟩ := (reserveStep_reserve h).mp hok
    refine ⟨?_, ?_, ?_⟩
    · intro other
      rcases eq_or_ne other kind with rfl | hne
      · rw [update_self]
        exact (h other).add
      · rw [update_of_ne hne]
        exact h other
    · intro other
      rcases eq_or_ne other kind with rfl | hne
      · rw [update_self]
        omega
      · rw [update_of_ne hne]
    · rintro other high ⟨⟩
      rw [update_self]
  | _ =>
    cases hok
    exact ⟨h, fun _ => le_rfl, fun _ _ hr => by cases hr⟩

/-- **The recovered highs** are aligned, at least the starting ones and at least every record's. -/
theorem scan_bounds (h : AllAligned size highs) (hok : scan (reserveStep size) highs log = .ok highs') :
    AllAligned size highs' ∧ (∀ kind, highs kind ≤ highs' kind) ∧
      ∀ kind high, .reserve kind high ∈ log → high ≤ highs' kind := by
  induction log generalizing highs with
  | nil =>
    cases hok
    exact ⟨h, fun _ => le_rfl, fun _ _ hr => by cases hr⟩
  | cons record log ih =>
    obtain ⟨middle, hstep, hrest⟩ := Lib.scan_cons_eq_ok.mp hok
    obtain ⟨haligned, hle, hrecord⟩ := reserveStep_bounds h hstep
    obtain ⟨haligned', hle', hrest'⟩ := ih haligned hrest
    refine ⟨haligned', fun kind => (hle kind).trans (hle' kind), ?_⟩
    intro kind high hmem
    rcases mem_cons.mp hmem with hhead | htail
    · exact (hrecord kind high hhead.symm).trans (hle' kind)
    · exact hrest' kind high htail

/-- A longer prefix of a log recovers at least as much. -/
theorem scan_take_mono (h : AllAligned size base) {n m : Nat} (hnm : n ≤ m)
    (hn : scan (reserveStep size) base (log.take n) = .ok highs)
    (hm : scan (reserveStep size) base (log.take m) = .ok highs') : ∀ kind, highs kind ≤ highs' kind := by
  obtain ⟨middle, hfirst, hrest⟩ := Lib.scan_take_drop hm n
  rw [take_take, Nat.min_eq_left hnm, hn] at hfirst
  obtain rfl := Except.ok.inj hfirst
  exact (scan_bounds (scan_bounds h hn).1 hrest).2.1

/-- A log whose reserve records extend the highs of the first manifest one after the other. -/
structure Chained (size base : Kind → Nat) (log : List LogRecord) : Prop where
  aligned : AllAligned size base
  scans : ∃ final, scan (reserveStep size) base log = .ok final

/-- The highs after the first records of a log. -/
def chain (size base : Kind → Nat) (log : List LogRecord) (n : Nat) : Kind → Nat :=
  match scan (reserveStep size) base (log.take n) with
  | .ok highs => highs
  | .error _ => base

variable {n : Nat} {suffix : List LogRecord}

theorem chain_append (hn : n ≤ log.length) : chain size base (log ++ suffix) n = chain size base log n := by
  rw [chain, take_append_of_le_length hn, chain]

theorem chain_take {n m : Nat} (hnm : n ≤ m) : chain size base (log.take m) n = chain size base log n := by
  rw [chain, take_take, Nat.min_eq_left hnm, chain]

theorem chain_of_scan (h : scan (reserveStep size) base (log.take n) = .ok highs) :
    chain size base log n = highs := by
  rw [chain, h]

namespace Chained

variable {m : Nat}

section

variable (h : Chained size base log)

include h

theorem scan_take (n : Nat) : scan (reserveStep size) base (log.take n) = .ok (chain size base log n) := by
  obtain ⟨final, hfinal⟩ := h.scans
  obtain ⟨highs, hhighs, -⟩ := Lib.scan_take_drop hfinal n
  rw [chain_of_scan hhighs, hhighs]

theorem aligned_chain (n : Nat) : AllAligned size (chain size base log n) :=
  (scan_bounds h.aligned (h.scan_take n)).1

theorem mono (hnm : n ≤ m) (kind : Kind) : chain size base log n kind ≤ chain size base log m kind :=
  scan_take_mono h.aligned hnm (h.scan_take n) (h.scan_take m) kind

theorem mem_le (hmem : .reserve kind high ∈ log.take n) : high ≤ chain size base log n kind :=
  (scan_bounds h.aligned (h.scan_take n)).2.2 kind high hmem

theorem take (n : Nat) : Chained size base (log.take n) :=
  ⟨h.aligned, _, h.scan_take n⟩

theorem scan_log : scan (reserveStep size) base log = .ok (chain size base log log.length) := by
  have hscan := h.scan_take log.length
  rwa [take_length] at hscan

theorem append_other :
    Chained size base (log ++ [.other]) ∧
      chain size base (log ++ [.other]) (log ++ [LogRecord.other]).length = chain size base log log.length := by
  have hscan : scan (reserveStep size) base (log ++ [.other]) = .ok (chain size base log log.length) :=
    Lib.scan_snoc_ok h.scan_log rfl
  refine ⟨⟨h.aligned, _, hscan⟩, chain_of_scan ?_⟩
  rw [take_length]
  exact hscan

/-- The reserve record that extends the high of its kind. -/
theorem append_reserve (hbound : chain size base log log.length kind ≤ maxUint64 - size kind)
    (hhigh : high = chain size base log log.length kind + size kind) :
    Chained size base (log ++ [.reserve kind high]) ∧
      chain size base (log ++ [.reserve kind high]) (log ++ [LogRecord.reserve kind high]).length =
        update (chain size base log log.length) kind high := by
  have hscan : scan (reserveStep size) base (log ++ [.reserve kind high]) =
      .ok (update (chain size base log log.length) kind high) :=
    Lib.scan_snoc_ok h.scan_log ((reserveStep_reserve (h.aligned_chain _)).mpr ⟨hbound, hhigh, rfl⟩)
  refine ⟨⟨h.aligned, _, hscan⟩, chain_of_scan ?_⟩
  rw [take_length]
  exact hscan

/-- **Replay recovers the chain** from a manifest that agrees with it. -/
theorem recover_eq {manifest : Manifest} (hstart : manifest.replayStart ≤ n)
    (hhigh : manifest.reservedHigh = chain size base log manifest.replayStart) :
    recover size manifest (log.take n) = .ok (chain size base log n) := by
  obtain ⟨middle, hfirst, hrest⟩ := Lib.scan_take_drop (h.scan_take n) manifest.replayStart
  rw [take_take, Nat.min_eq_left hstart, h.scan_take] at hfirst
  rw [recover, hhigh]
  rw [← Except.ok.inj hfirst] at hrest
  exact hrest

end

end Chained

/-! ## §3 — The invariant -/

/-- The highs the checkpoint must install are those of the chain before its replay position; what it
has captured agrees with them, and what it has still to read will. -/
def CutAgrees (size base : Kind → Nat) (s : State) (replayStart : Nat) (highs : Kind → Nat) : Prop :=
  replayStart ≤ s.log.length ∧ scan (reserveStep size) base (s.log.take replayStart) = .ok highs

/-- A kind whose high is still to be read: the record in flight is before the cut and will be counted
when it is acknowledged, or nothing behind the cut has been acknowledged. -/
def Pending (size : Kind → Nat) (s : State) (replayStart : Nat) (cut : Kind → Nat) (kind : Kind) : Prop :=
  (∃ position, s.appending kind = some position ∧ position < replayStart ∧
      cut kind = (s.allocators kind).high + size kind) ∨
    cut kind = (s.allocators kind).high

/-- The current checkpoint's cut, as long as no reserve record came between marker and capture. -/
def StageAgrees (size base : Kind → Nat) (s : State) : Prop :=
  match s.stage with
  | .idle => True
  | .marking marker =>
    marker < s.log.length ∧ ((s.poisoned = true ∧ s.durable ≤ marker) ∨
      ∃ cut, CutAgrees size base s (marker + 1) cut ∧ ∀ kind, Pending size s (marker + 1) cut kind)
  | .fenced replayStart _ =>
    replayStart ≤ s.durable ∧ ∃ cut, CutAgrees size base s replayStart cut ∧
      ∀ kind, Pending size s replayStart cut kind
  | .capturedIDs replayStart _ idHigh =>
    replayStart ≤ s.durable ∧ ∃ cut, CutAgrees size base s replayStart cut ∧ cut .recordID = idHigh ∧
      Pending size s replayStart cut .batchID
  | .captured replayStart _ highs | .prepared replayStart highs =>
    replayStart ≤ s.durable ∧ CutAgrees size base s replayStart highs

/-- The allocator of a kind against the chain in the log (`final`) and in its durable part. -/
structure AllocatorAgrees (size base : Kind → Nat) (s : State) (final : Kind → Nat) (kind : Kind) : Prop where
  reserve : (s.allocators kind).reserve = size kind
  next_le : (s.allocators kind).next ≤ (s.allocators kind).high
  issued : ∀ id ∈ s.issued kind, id < (s.allocators kind).next
  idle : s.appending kind = none → s.poisoned = false → final kind = (s.allocators kind).high
  flight : ∀ position, s.appending kind = some position →
    s.log[position]? = some (.reserve kind ((s.allocators kind).high + size kind)) ∧
      final kind = (s.allocators kind).high + size kind ∧ (s.allocators kind).next = (s.allocators kind).high
  durable : ∀ highs, scan (reserveStep size) base (s.log.take s.durable) = .ok highs →
    (s.allocators kind).high ≤ highs kind

/-- The invariant of a run, over the highs `base` of the first manifest. -/
structure Inv (size base : Kind → Nat) (s : State) : Prop where
  aligned : AllAligned size base
  durable_le : s.durable ≤ s.log.length
  chain : ∃ final, scan (reserveStep size) base s.log = .ok final ∧
    ∀ kind, AllocatorAgrees size base s final kind
  start_le : s.manifest.replayStart ≤ s.durable
  manifest : scan (reserveStep size) base (s.log.take s.manifest.replayStart) = .ok s.manifest.reservedHigh
  stage : s.extended = false → StageAgrees size base s

variable {replayStart : Nat} {cut : Kind → Nat}

theorem CutAgrees.extend (h : CutAgrees size base s replayStart cut) (hlog : s'.log = s.log ++ suffix) :
    CutAgrees size base s' replayStart cut := by
  obtain ⟨hle, hscan⟩ := h
  refine ⟨?_, ?_⟩
  · rw [hlog, length_append]
    omega
  · rw [hlog, take_append_of_le_length hle]
    exact hscan

/-- A step that keeps the stage keeps its agreement when it keeps every kind that is still to be read, but for a
cut that will never be durable. -/
theorem StageAgrees.frame {l : List LogRecord} (h : StageAgrees size base s)
    (hlog : s'.log = s.log ++ l) (hstage : s'.stage = s.stage) (hdurable : s.durable ≤ s'.durable)
    (hpoisoned : s.poisoned = true → s'.poisoned = true ∧ s'.durable = s.durable)
    (hpending : ∀ replayStart cut kind, s.stage.uncaptured kind = some replayStart →
      CutAgrees size base s replayStart cut → Pending size s replayStart cut kind →
      Pending size s' replayStart cut kind ∨ s'.poisoned = true ∧ s'.durable < replayStart) :
    StageAgrees size base s' := by
  unfold StageAgrees at h ⊢
  rw [hstage]
  cases hs : s.stage with
  | idle => trivial
  | marking marker =>
    rw [hs] at h hpending
    obtain ⟨hlt, hcase⟩ := h
    refine ⟨by rw [hlog, length_append]; omega, ?_⟩
    rcases hcase with ⟨hp, hd⟩ | ⟨cut, hcut, hpend⟩
    · obtain ⟨hp', hd'⟩ := hpoisoned hp
      exact .inl ⟨hp', hd' ▸ hd⟩
    · by_cases hdead : s'.poisoned = true ∧ s'.durable < marker + 1
      · exact .inl ⟨hdead.1, Nat.le_of_lt_succ hdead.2⟩
      · exact .inr ⟨cut, hcut.extend hlog, fun kind => (hpending _ cut kind rfl hcut (hpend kind)).resolve_right hdead⟩
  | fenced replayStart epoch =>
    rw [hs] at h hpending
    obtain ⟨hle, cut, hcut, hpend⟩ := h
    exact ⟨hle.trans hdurable, cut, hcut.extend hlog,
      fun kind => (hpending _ cut kind rfl hcut (hpend kind)).resolve_right (by omega)⟩
  | capturedIDs =>
    rw [hs] at h hpending
    obtain ⟨hle, cut, hcut, hid, hpend⟩ := h
    exact ⟨hle.trans hdurable, cut, hcut.extend hlog, hid,
      (hpending _ cut .batchID rfl hcut hpend).resolve_right (by omega)⟩
  | _ =>
    rw [hs] at h
    exact ⟨h.1.trans hdurable, h.2.extend hlog⟩

/-- Reading an entry of the log after an append. -/
theorem getElem?_append_some (h : log[position]? = some record) : (log ++ suffix)[position]? = some record := by
  obtain ⟨hlt, -⟩ := List.getElem?_eq_some_iff.mp h
  rw [List.getElem?_append_left hlt, h]

namespace Inv

section

variable (h : Inv size base s)

include h

/-- Appending a record that is not a reserve record changes no agreement. -/
theorem append {record : LogRecord} {stage : Stage} {extended : Bool}
    (hrecord : ∀ highs, reserveStep size highs record = .ok highs)
    (hstage : extended = false →
      StageAgrees size base { s with log := s.log ++ [record], stage := stage, extended := extended }) :
    Inv size base { s with log := s.log ++ [record], stage := stage, extended := extended } := by
  obtain ⟨final, hfinal, hagree⟩ := h.chain
  have htake : ∀ n, n ≤ s.log.length → (s.log ++ [record]).take n = s.log.take n :=
    fun n hn => take_append_of_le_length hn
  refine ⟨h.aligned, ?_, ⟨final, Lib.scan_snoc_ok hfinal (hrecord final), fun kind => ?_⟩, h.start_le, ?_, hstage⟩
  · rw [length_append]
    exact h.durable_le.trans (Nat.le_add_right _ _)
  · refine { hagree kind with flight := fun position hpos => ?_, durable := ?_ }
    · obtain ⟨hentry, hrest⟩ := (hagree kind).flight position hpos
      exact ⟨getElem?_append_some hentry, hrest⟩
    · rw [htake _ h.durable_le]
      exact (hagree kind).durable
  · rw [htake _ (h.start_le.trans h.durable_le)]
    exact h.manifest

/-- A step of the checkpoint that only moves its stage. -/
theorem restage {stage : Stage} {epoch : Nat} {extended : Bool}
    (hstage : extended = false →
      StageAgrees size base { s with stage := stage, epoch := epoch, extended := extended }) :
    Inv size base { s with stage := stage, epoch := epoch, extended := extended } := by
  obtain ⟨final, hfinal, hagree⟩ := h.chain
  exact ⟨h.aligned, h.durable_le, ⟨final, hfinal, fun kind => { hagree kind with }⟩, h.start_le, h.manifest, hstage⟩

theorem chained : Chained size base s.log := by
  obtain ⟨final, hfinal, -⟩ := h.chain
  exact ⟨h.aligned, final, hfinal⟩

theorem sync {upTo : Nat} (hpoisoned : s.poisoned = false) (hle : s.durable ≤ upTo)
    (hlen : upTo ≤ s.log.length) : Inv size base { s with durable := upTo } := by
  obtain ⟨final, hfinal, hagree⟩ := h.chain
  refine ⟨h.aligned, hlen, ⟨final, hfinal, fun kind => ?_⟩, h.start_le.trans hle, h.manifest, fun hext => ?_⟩
  · refine { hagree kind with durable := fun highs hhighs => ?_ }
    have hbefore := h.chained.scan_take s.durable
    exact ((hagree kind).durable _ hbefore).trans (scan_take_mono h.aligned hle hbefore hhighs kind)
  · refine (h.stage hext).frame (l := []) (append_nil _).symm rfl hle ?_ fun _ _ _ _ _ => .inl
    intro hp
    rw [hpoisoned] at hp
    cases hp

theorem poison : Inv size base { s with poisoned := true } := by
  obtain ⟨final, hfinal, hagree⟩ := h.chain
  refine ⟨h.aligned, h.durable_le, ⟨final, hfinal, fun kind => ?_⟩, h.start_le, h.manifest, fun hext => ?_⟩
  · exact { hagree kind with idle := fun _ hp => by cases hp }
  · exact (h.stage hext).frame (l := []) (append_nil _).symm rfl le_rfl (fun _ => ⟨rfl, rfl⟩)
      fun _ _ _ _ _ => .inl

/-- Handing out an id below the high. -/
theorem allocate (hfree : s.appending kind = none) (hroom : (s.allocators kind).next ≠ (s.allocators kind).high) :
    Inv size base (s.issue kind (s.allocators kind)) := by
  obtain ⟨final, hfinal, hagree⟩ := h.chain
  have hhigh : ∀ other, ((s.issue kind (s.allocators kind)).allocators other).high =
      (s.allocators other).high := by
    intro other
    rcases eq_or_ne other kind with rfl | hne
    · simp only [State.issue, Allocator.take, update_self]
    · simp only [State.issue, update_of_ne hne]
  refine ⟨h.aligned, h.durable_le, ⟨final, hfinal, fun other => ?_⟩, h.start_le, h.manifest, fun hext => ?_⟩
  · obtain ⟨hreserve, hnext, hissued, hidle, hflight, hdurable⟩ := hagree other
    rcases eq_or_ne other kind with rfl | hne
    · refine ⟨?_, ?_, ?_, by rwa [hhigh], ?_, by rwa [hhigh]⟩
      · simpa only [State.issue, Allocator.take, update_self] using hreserve
      · rw [hhigh]
        simp only [State.issue, Allocator.take, update_self]
        omega
      · simp only [State.issue, Allocator.take, update_self, mem_cons]
        rintro id (rfl | hid)
        · omega
        · exact Nat.lt_succ_of_lt (hissued id hid)
      · intro position hpos
        rw [show (s.issue other (s.allocators other)).appending other = none from hfree] at hpos
        cases hpos
    · have halloc : (s.issue kind (s.allocators kind)).allocators other = s.allocators other :=
        update_of_ne hne ..
      have hiss : (s.issue kind (s.allocators kind)).issued other = s.issued other :=
        update_of_ne hne ..
      exact ⟨by rwa [halloc], by rwa [halloc], by rwa [halloc, hiss], by rwa [halloc], by rwa [halloc],
        by rwa [halloc]⟩
  · refine (h.stage hext).frame (l := []) (append_nil _).symm rfl le_rfl (fun hp => ⟨hp, rfl⟩) ?_
    intro replayStart cut other _ _ hpend
    unfold Pending at hpend ⊢
    rw [hhigh]
    exact .inl hpend

/-- Appending a reserve record: the chain grows by exactly what the allocator will add. -/
theorem reserveAppend (hfree : s.appending kind = none) (hopen : s.poisoned = false)
    (hempty : (s.allocators kind).next = (s.allocators kind).high) (hnew : (s.allocators kind).newHigh = .ok high) :
    Inv size base { s with
      log := s.log ++ [.reserve kind high]
      appending := update s.appending kind (some s.log.length) } := by
  obtain ⟨final, hfinal, hagree⟩ := h.chain
  have hbound : (s.allocators kind).high ≤ maxUint64 - size kind ∧ high = (s.allocators kind).high + size kind := by
    unfold Allocator.newHigh at hnew
    rw [(hagree kind).reserve] at hnew
    split at hnew
    · cases hnew
    · rename_i hle
      cases hnew
      exact ⟨Nat.le_of_not_lt hle, rfl⟩
  have hcurrent : final kind = (s.allocators kind).high := (hagree kind).idle hfree hopen
  have hstep : reserveStep size final (.reserve kind high) = .ok (update final kind high) := by
    refine (reserveStep_reserve (scan_bounds h.aligned hfinal).1).mpr ?_
    rw [hcurrent]
    exact ⟨hbound.1, hbound.2, rfl⟩
  have htake : ∀ n, n ≤ s.log.length → (s.log ++ [LogRecord.reserve kind high]).take n = s.log.take n :=
    fun n hn => take_append_of_le_length hn
  refine ⟨h.aligned, ?_, ⟨update final kind high, Lib.scan_snoc_ok hfinal hstep, fun other => ?_⟩,
    h.start_le, ?_, fun hext => ?_⟩
  · rw [length_append]
    exact h.durable_le.trans (Nat.le_add_right _ _)
  · obtain ⟨hreserve, hnext, hissued, hidle, hflight, hdurable⟩ := hagree other
    rcases eq_or_ne other kind with rfl | hne
    · refine ⟨hreserve, hnext, hissued, ?_, ?_, ?_⟩ <;> dsimp only
      · intro hnone
        rw [update_self] at hnone
        cases hnone
      · intro position hpos
        rw [update_self] at hpos
        cases hpos
        refine ⟨?_, ?_, hempty⟩
        · rw [List.getElem?_concat_length, hbound.2]
        · rw [update_self, hbound.2]
      · rw [htake _ h.durable_le]
        exact hdurable
    · refine ⟨hreserve, hnext, hissued, ?_, ?_, ?_⟩ <;> dsimp only
      · rw [update_of_ne hne, update_of_ne hne]
        exact hidle
      · intro position hpos
        rw [update_of_ne hne] at hpos
        obtain ⟨hentry, hfin, hnx⟩ := hflight position hpos
        refine ⟨getElem?_append_some hentry, ?_, hnx⟩
        rw [update_of_ne hne]
        exact hfin
      · rw [htake _ h.durable_le]
        exact hdurable
  · rw [htake _ (h.start_le.trans h.durable_le)]
    exact h.manifest
  · refine (h.stage hext).frame (l := [.reserve kind high]) rfl rfl le_rfl (fun hp => ⟨hp, rfl⟩) ?_
    rintro replayStart cut other - - (⟨position, hpos, hlt, hcut⟩ | hcut)
    · refine .inl (.inl ⟨position, ?_, hlt, hcut⟩)
      have hne : other ≠ kind := by
        rintro rfl
        rw [hfree] at hpos
        cases hpos
      exact (update_of_ne hne ..).trans hpos
    · exact .inl (.inr hcut)

/-- The records before a position recover at least what an entry of theirs carries. -/
theorem entry_le {position n : Nat} (hentry : s.log[position]? = some (.reserve kind high)) (hlt : position < n)
    (hok : scan (reserveStep size) base (s.log.take n) = .ok highs) : high ≤ highs kind := by
  refine (scan_bounds h.aligned hok).2.2 kind high ?_
  have htake : (s.log.take n)[position]? = some (.reserve kind high) := by
    rw [List.getElem?_take_of_lt hlt, hentry]
  exact mem_of_getElem? htake

/-- The acknowledgement of a reserve record raises the high to what the chain already has. -/
theorem reserveDone (hpos : s.appending kind = some position) (hdur : position < s.durable) {late : Bool}
    (hlate : ∀ replayStart, s.stage.uncaptured kind = some replayStart → late = false → position < replayStart) :
    Inv size base (({ s with
      appending := update s.appending kind none
      extended := s.extended || late }).issue kind
        ((s.allocators kind).extend ((s.allocators kind).high + (s.allocators kind).reserve))) := by
  obtain ⟨final, hfinal, hagree⟩ := h.chain
  obtain ⟨hreserve, hnext, hissued, hidle, hflight, hdurable⟩ := hagree kind
  obtain ⟨hentry, hfin, hnx⟩ := hflight position hpos
  have hsize : size kind ≠ 0 := (h.aligned kind).size
  refine ⟨h.aligned, h.durable_le, ⟨final, hfinal, fun other => ?_⟩, h.start_le, h.manifest, fun hext => ?_⟩
  · rcases eq_or_ne other kind with rfl | hne
    · refine ⟨?_, ?_, ?_, ?_, ?_, ?_⟩ <;>
        simp only [State.issue, Allocator.take, Allocator.extend, update_self, hreserve]
      · omega
      · intro id hid
        rcases mem_cons.mp hid with rfl | hid
        · omega
        · have hlt := hissued id hid
          omega
      · exact fun _ _ => hfin
      · intro p hp
        cases hp
      · exact fun highs hhighs => h.entry_le hentry hdur hhighs
    · obtain ⟨hreserve, hnext, hissued, hidle, hflight, hdurable⟩ := hagree other
      refine ⟨?_, ?_, ?_, ?_, ?_, ?_⟩ <;> simp only [State.issue, update_of_ne hne] <;> assumption
  · obtain ⟨hext, hnot⟩ : s.extended = false ∧ late = false := by
      simpa only [State.issue, Bool.or_eq_false_iff] using hext
    refine (h.stage hext).frame (l := []) (append_nil _).symm rfl le_rfl (fun hp => ⟨hp, rfl⟩) ?_
    intro replayStart cut other huncaptured hcut hpend
    rcases eq_or_ne other kind with rfl | hne
    · -- The record is before the cut, so the cut counts it and the raised high now agrees.
      refine .inl (.inr ?_)
      simp only [State.issue, Allocator.take, Allocator.extend, update_self, hreserve]
      rcases hpend with ⟨-, -, -, hval⟩ | hval
      · exact hval
      · have hge := h.entry_le hentry (hlate replayStart huncaptured hnot) hcut.2
        omega
    · unfold Pending at hpend ⊢
      simp only [State.issue, update_of_ne hne]
      exact .inl hpend

/-- A reserve record that was not acknowledged is not before the cut of a marker that was. -/
theorem reserveFailed (hpos : s.appending kind = some position) (hpoisoned : s.poisoned = true)
    (hdur : s.durable ≤ position) : Inv size base { s with appending := update s.appending kind none } := by
  obtain ⟨final, hfinal, hagree⟩ := h.chain
  refine ⟨h.aligned, h.durable_le, ⟨final, hfinal, fun other => ?_⟩, h.start_le, h.manifest, fun hext => ?_⟩
  · obtain ⟨hreserve, hnext, hissued, hidle, hflight, hdurable⟩ := hagree other
    refine ⟨hreserve, hnext, hissued, ?_, ?_, hdurable⟩
    · intro _ hp
      rw [show s.poisoned = false from hp] at hpoisoned
      cases hpoisoned
    · intro p hp
      dsimp only at hp
      have hne : other ≠ kind := by
        rintro rfl
        rw [update_self] at hp
        cases hp
      rw [update_of_ne hne] at hp
      exact hflight p hp
  · refine (h.stage hext).frame (l := []) (append_nil _).symm rfl le_rfl (fun hp => ⟨hp, rfl⟩) ?_
    rintro replayStart cut other - - (⟨p, hp, hlt, hcut⟩ | hcut)
    · rcases eq_or_ne other kind with rfl | hne
      · -- The record was before the cut, so the marker is not durable either.
        obtain rfl := Option.some.inj (hpos.symm.trans hp)
        exact .inr ⟨hpoisoned, Nat.lt_of_le_of_lt hdur hlt⟩
      · exact .inl (.inl ⟨p, (update_of_ne hne ..).trans hp, hlt, hcut⟩)
    · exact .inl (.inr hcut)

/-- Installing a cut that agrees with the chain. -/
theorem install {replayStart : Nat} (hdur : replayStart ≤ s.durable) (hcut : CutAgrees size base s replayStart highs) :
    Inv size base { s with manifest := ⟨replayStart, highs⟩, stage := .idle } := by
  obtain ⟨final, hfinal, hagree⟩ := h.chain
  exact ⟨h.aligned, h.durable_le, ⟨final, hfinal, fun kind => { hagree kind with }⟩, hdur, hcut.2, fun _ => trivial⟩

/-- **Recovery of any surviving prefix** gives the chain of that prefix. -/
theorem recover_eq (hle : s.durable ≤ n) :
    ∃ highs, recover size s.manifest (s.log.take n) = .ok highs ∧
      scan (reserveStep size) base (s.log.take n) = .ok highs := by
  have hhighs := (chain_of_scan h.manifest).symm
  exact ⟨_, h.chained.recover_eq (h.start_le.trans hle) hhighs, h.chained.scan_take n⟩

theorem issued_lt (hle : s.durable ≤ n) (hok : scan (reserveStep size) base (s.log.take n) = .ok highs) {id : Nat}
    (hid : id ∈ s.issued kind) : id < highs kind := by
  obtain ⟨final, -, hagree⟩ := h.chain
  have hd := h.chained.scan_take s.durable
  have hissued := (hagree kind).issued id hid
  have hnext := (hagree kind).next_le
  have hdurable := (hagree kind).durable _ hd
  have hmono := scan_take_mono h.aligned hle hd hok kind
  omega

/-- The next open starts both allocators at the recovered chain. -/
theorem reopen {survivors : Nat} (hle : s.durable ≤ survivors)
    (hlen : survivors ≤ s.log.length) (hopen : s.reopen size survivors = some s') : Inv size base s' := by
  obtain ⟨highs, hrecover, hscan⟩ := h.recover_eq hle
  obtain ⟨haligned, -, -⟩ := scan_bounds h.aligned hscan
  simp only [State.reopen, hrecover, IdAlloc.new_eq_ok (haligned _), Option.some.injEq] at hopen
  subst hopen
  have htake : ∀ m, m ≤ survivors → (s.log.take survivors).take m = s.log.take m := by
    intro m hm
    rw [take_take, Nat.min_eq_left hm]
  have halloc : ∀ kind : Kind, (match kind with
      | .recordID => (⟨size .recordID, highs .recordID, highs .recordID⟩ : Allocator)
      | .batchID => ⟨size .batchID, highs .batchID, highs .batchID⟩) =
        ⟨size kind, highs kind, highs kind⟩ := by
    intro kind
    cases kind <;> rfl
  refine ⟨h.aligned, ?_, ⟨highs, hscan, fun kind => ?_⟩, h.start_le.trans hle, ?_, fun _ => trivial⟩
  · dsimp only
    rw [length_take]
    omega
  · refine ⟨?_, ?_, ?_, ?_, ?_, ?_⟩ <;> simp only [halloc]
    · exact le_rfl
    · exact fun id hid => h.issued_lt hle hscan hid
    · exact fun _ _ => trivial
    · intro position hpos
      cases hpos
    · intro recovered hok
      rw [htake _ le_rfl, hscan] at hok
      obtain rfl := Except.ok.inj hok
      exact le_rfl
  · rw [htake _ (h.start_le.trans hle)]
    exact h.manifest

end

end Inv

/-! ## §4 — Every run -/

/-- The checkpoint that is about to be installed saw no reserve record acknowledged between its marker
and its reading of that kind's high. -/
def QuietCapture (s : State) : Event → Prop
  | .install => s.extended = false
  | _ => True

/-- A free allocator that is still to be read stands at the cut. -/
theorem Pending.of_free (h : Pending size s replayStart cut kind)
    (hfree : s.appending kind = none) : cut kind = (s.allocators kind).durableHigh := by
  rcases h with ⟨position, hpos, -⟩ | hval
  · rw [hfree] at hpos
    cases hpos
  · exact hval

namespace Inv

section

variable (h : Inv size base s)

include h

/-- The marker's cut counts every reserve record in the log, those in flight included. -/
theorem marker (hopen : s.poisoned = false) :
    Inv size base { s with log := s.log ++ [.marker], stage := .marking s.log.length, extended := false } := by
  obtain ⟨final, hfinal, hagree⟩ := h.chain
  refine h.append (fun _ => rfl) fun _ => ⟨?_, .inr ⟨final, ⟨?_, ?_⟩, fun kind => ?_⟩⟩
  · rw [length_append]
    exact Nat.lt_succ_self _
  · dsimp only
    rw [length_append]
    exact le_rfl
  · have hall : (s.log ++ [LogRecord.marker]).take (s.log.length + 1) = s.log ++ [.marker] :=
      take_of_length_le (by rw [length_append]; exact le_rfl)
    rw [hall]
    exact Lib.scan_snoc_ok hfinal rfl
  · cases happending : s.appending kind with
    | none => exact .inr ((hagree kind).idle happending hopen)
    | some position =>
      obtain ⟨hentry, hval, -⟩ := (hagree kind).flight position happending
      obtain ⟨hlt, -⟩ := List.getElem?_eq_some_iff.mp hentry
      exact .inl ⟨position, happending, Nat.lt_succ_of_lt hlt, hval⟩

/-- The fence is held once the marker is durable. -/
theorem fence {marker : Nat} (hs : s.stage = .marking marker) (hlt : marker < s.durable) :
    Inv size base { s with stage := .fenced (marker + 1) s.epoch } := by
  refine h.restage fun hext => ?_
  have hstage := h.stage hext
  rw [StageAgrees, hs] at hstage
  rcases hstage.2 with ⟨-, hd⟩ | ⟨cut, hcut, hpend⟩
  · omega
  · exact ⟨hlt, cut, hcut, hpend⟩

variable {epoch : Nat}

theorem captureIDs (hs : s.stage = .fenced replayStart epoch) (hfree : s.appending .recordID = none) :
    Inv size base
      { s with stage := .capturedIDs replayStart epoch (s.allocators .recordID).durableHigh } := by
  refine h.restage fun hext => ?_
  have hstage := h.stage hext
  rw [StageAgrees, hs] at hstage
  obtain ⟨hle, cut, hcut, hpend⟩ := hstage
  exact ⟨hle, cut, hcut, (hpend .recordID).of_free hfree, hpend .batchID⟩

theorem captureBatches {replayStart epoch idHigh : Nat}
    (hs : s.stage = .capturedIDs replayStart epoch idHigh) (hfree : s.appending .batchID = none) :
    Inv size base { s with stage := .captured replayStart epoch fun
      | .recordID => idHigh
      | .batchID => (s.allocators .batchID).durableHigh } := by
  refine h.restage fun hext => ?_
  have hstage := h.stage hext
  rw [StageAgrees, hs] at hstage
  obtain ⟨hle, cut, hcut, hid, hpend⟩ := hstage
  have hcaptured : cut = fun | .recordID => idHigh | .batchID => (s.allocators .batchID).durableHigh := by
    funext kind
    cases kind
    · exact hid
    · exact hpend.of_free hfree
  exact ⟨hle, hcaptured ▸ hcut⟩

/-- A changed epoch drops the checkpoint, an unchanged one keeps its cut. -/
theorem checkEpoch (hs : s.stage = .captured replayStart epoch highs) :
    Inv size base { s with stage := if epoch = s.epoch then .prepared replayStart highs else .idle } := by
  refine h.restage fun hext => ?_
  have hstage := h.stage hext
  rw [StageAgrees, hs] at hstage
  by_cases hepoch : epoch = s.epoch
  · simp only [StageAgrees, hepoch, if_true]
    exact hstage
  · simp only [StageAgrees, hepoch, if_false]

/-- The epoch is no part of the cut. -/
theorem batchEpoch : Inv size base { s with epoch := s.epoch + 1 } :=
  h.restage fun hext => (h.stage hext).frame (l := []) (append_nil _).symm rfl le_rfl
    (fun hp => ⟨hp, rfl⟩) fun _ _ _ _ _ => .inl

end

end Inv

/-- **One event.** -/
theorem Inv.step (h : Inv size base s) {e : Event} (hquiet : QuietCapture s e)
    (hstep : s.step size e = some s') : Inv size base s' := by
  cases e with simp only [State.step] at hstep
  | allocate kind =>
    split at hstep <;> cases hstep
    rename_i hguard
    exact h.allocate hguard.1 hguard.2
  | reserveAppend kind =>
    split at hstep
    · rename_i hguard
      split at hstep <;> cases hstep
      rename_i high hnew
      exact h.reserveAppend hguard.1 hguard.2.2 hguard.2.1 hnew
    · cases hstep
  | reserveDone kind =>
    split at hstep
    · cases hstep
    · rename_i position hpos
      split at hstep <;> cases hstep
      rename_i hdur
      refine h.reserveDone hpos hdur ?_
      intro replayStart huncaptured hlate
      rw [huncaptured] at hlate
      exact Nat.lt_of_not_le (of_decide_eq_false hlate)
  | reserveFailed kind =>
    split at hstep
    · cases hstep
    · rename_i position hpos
      split at hstep <;> cases hstep
      rename_i hguard
      exact h.reserveFailed hpos hguard.1 hguard.2
  | append =>
    split at hstep <;> cases hstep
    exact h.append (fun _ => rfl) fun hext =>
      (h.stage hext).frame (l := [.other]) rfl rfl le_rfl (fun hp => ⟨hp, rfl⟩) fun _ _ _ _ _ => .inl
  | sync upTo =>
    split at hstep <;> cases hstep
    rename_i hguard
    exact h.sync hguard.1 hguard.2.1 hguard.2.2
  | poison =>
    cases hstep
    exact h.poison
  | batchEpoch =>
    split at hstep
    · cases hstep
    · cases hstep
      exact h.batchEpoch
  | marker =>
    split at hstep
    · split at hstep <;> cases hstep
      rename_i hopen
      exact h.marker (Bool.eq_false_iff.mpr hopen)
    · cases hstep
  | fence =>
    split at hstep
    · rename_i marker hs
      split at hstep <;> cases hstep
      rename_i hlt
      exact h.fence hs hlt
    · cases hstep
  | captureIDs =>
    split at hstep
    · rename_i replayStart epoch hs
      split at hstep <;> cases hstep
      rename_i hfree
      exact h.captureIDs hs hfree
    · cases hstep
  | captureBatches =>
    split at hstep
    · rename_i replayStart epoch idHigh hs
      split at hstep <;> cases hstep
      rename_i hfree
      exact h.captureBatches hs hfree
    · cases hstep
  | checkEpoch =>
    split at hstep
    · rename_i replayStart epoch highs hs
      cases hstep
      exact h.checkEpoch hs
    · cases hstep
  | install =>
    split at hstep
    · rename_i replayStart highs hs
      have hstage := h.stage hquiet
      rw [StageAgrees, hs] at hstage
      split at hstep <;> cases hstep
      · exact h.install hstage.1 hstage.2
      · exact h.restage fun _ => trivial
    · cases hstep
  | abort =>
    cases hstep
    exact h.restage fun _ => trivial
  | reopen survivors =>
    split at hstep
    · rename_i hguard
      exact h.reopen hguard.1 hguard.2 hstep
    · cases hstep

theorem Inv.initial (h : Fresh size s) : Inv size s.manifest.reservedHigh s := by
  obtain ⟨haligned, hs⟩ := h
  rw [hs]
  refine ⟨haligned, le_rfl, ⟨s.manifest.reservedHigh, rfl, fun kind => ?_⟩, le_rfl, rfl, fun _ => trivial⟩
  refine ⟨rfl, le_rfl, (fun id hid => by cases hid), fun _ _ => rfl, (fun p hp => by cases hp), ?_⟩
  intro highs hok
  cases hok
  exact le_rfl

/-- A new store whose allocators reserve four ids at a time. -/
def freshStore : State where
  log := []
  durable := 0
  poisoned := false
  allocators := fun _ => ⟨4, 1, 1⟩
  appending := fun _ => none
  issued := fun _ => []
  epoch := 0
  stage := .idle
  extended := false
  manifest := ⟨0, fun _ => 1⟩

theorem freshStore_fresh : Fresh (fun _ => 4) freshStore :=
  ⟨fun _ => ⟨Nat.succ_ne_zero 3, Nat.succ_ne_zero 0, rfl⟩, rfl⟩

end Ridstore.Engine.ReserveChain
