import Ridstore.Engine.ReserveChain

/-
# Ridstore.Engine.Lifetimes — identifiers over many process lifetimes

An allocator hands out the identifiers of a range whose reserve record is durable, and the next lifetime
starts at the high that replay recovers from the installed manifest and the records the log was opened with.
`Open` reads the active segment as the operating system has it: records that were written and never synced
survive the end of a process, and only the cut of a torn tail is followed by a sync.  The durable prefix of
the log is therefore kept apart from the records it was opened with; a crash of the machine may take back what
is not durable, in whatever lifetime it was written.

Allocated identifiers do not depend on the difference, because every lifetime syncs a record before it hands
out its first one.  `CanUse` answers from the recovered high at once.
-/

namespace Ridstore.Engine.Lifetimes

open Option

open IdAlloc (Kind Allocator Aligned)
open Function
open List
open ReserveChain (LogRecord Manifest Chained chain chain_append chain_take recover)

/-! ## §1 — The system -/

/-- What a caller was told: an identifier of `Allocate`, or that `CanUse` holds of one. -/
inductive Answer
  | allocated (id : Nat)
  | usable (id : Nat)
  deriving DecidableEq, Repr

/-- The log with its durable records and those it was opened with, the allocators with the position their
mutex holder waits for, the installed manifest and the history of the answers. -/
structure State where
  log : List LogRecord
  durable : Nat
  opened : Nat
  poisoned : Bool
  allocators : Kind → Allocator
  appending : Kind → Option Nat
  manifest : Manifest
  history : List (Kind × Answer)

inductive Event
  | allocate (kind : Kind)
  | reserveAppend (kind : Kind)
  | reserveDone (kind : Kind)
  | reserveFailed (kind : Kind)
  | canUse (kind : Kind) (id : Nat)
  | append
  | sync (upTo : Nat)
  | poison
  | checkpoint (replayStart : Nat) (highs : Kind → Nat)
  | reopen (survivors : Nat) (torn : Bool)

namespace State

variable (size : Kind → Nat) (s : State)

/-- The end of `Allocate`: hand out an identifier of the range. -/
def issue (kind : Kind) (a : Allocator) : State :=
  { s with
    allocators := update s.allocators kind a.take.2
    history := s.history ++ [(kind, .allocated a.take.1)] }

/-- The part of `reserveRange` up to the acknowledgement; the mutex stays locked. -/
def reserveAppend (kind : Kind) : Option State :=
  if s.appending kind = none ∧ (s.allocators kind).next = (s.allocators kind).high ∧ s.poisoned = false then
    match (s.allocators kind).newHigh with
    | .error _ => none
    | .ok high =>
      some { s with
        log := s.log ++ [.reserve kind high]
        appending := update s.appending kind (some s.log.length) }
  else none

/-- The record is durable: the range is extended and `Allocate` returns. -/
def reserveDone (kind : Kind) : Option State :=
  match s.appending kind with
  | none => none
  | some position =>
    if position < s.durable then
      let a := s.allocators kind
      some (({ s with appending := update s.appending kind none }).issue kind
        (a.extend (a.high + a.reserve)))
    else none

/-- The append has failed: the log is poisoned and the record may be in the file or not. -/
def reserveFailed (kind : Kind) : Option State :=
  match s.appending kind with
  | none => none
  | some position =>
    if s.poisoned ∧ s.durable ≤ position then
      some { s with appending := update s.appending kind none }
    else none

/-- The installation of a checkpoint whose highs obey the reserve chain: they are what replay from the
installed manifest recovers from the records before the new position. -/
def checkpoint (replayStart : Nat) (highs : Kind → Nat) : Option State :=
  if s.manifest.replayStart ≤ replayStart ∧ replayStart ≤ s.durable then
    match recover size s.manifest (s.log.take replayStart) with
    | .error _ => none
    | .ok recovered =>
      if recovered .recordID = highs .recordID ∧ recovered .batchID = highs .batchID then
        some { s with manifest := ⟨replayStart, highs⟩ }
      else none
  else none

/-- The next lifetime: `Open` with the records that have survived.  It syncs the file when it has cut a torn
tail off. -/
def reopen (survivors : Nat) (torn : Bool) : Option State :=
  if s.durable ≤ survivors ∧ survivors ≤ s.log.length then
    match recover size s.manifest (s.log.take survivors) with
    | .error _ => none
    | .ok highs =>
      match IdAlloc.new (size .recordID) (highs .recordID), IdAlloc.new (size .batchID) (highs .batchID) with
      | .ok ids, .ok batches =>
        some { s with
          log := s.log.take survivors
          durable := if torn then survivors else s.durable
          opened := survivors
          poisoned := false
          allocators := fun | .recordID => ids | .batchID => batches
          appending := fun _ => none }
      | _, _ => none
  else none

/-- One event. -/
def step : Event → Option State
  | .allocate kind =>
    if s.appending kind = none ∧ (s.allocators kind).next ≠ (s.allocators kind).high then
      some (s.issue kind (s.allocators kind))
    else none
  | .reserveAppend kind => s.reserveAppend kind
  | .reserveDone kind => s.reserveDone kind
  | .reserveFailed kind => s.reserveFailed kind
  | .canUse kind id =>
    if s.appending kind = none ∧ (s.allocators kind).canUse id then
      some { s with history := s.history ++ [(kind, .usable id)] }
    else none
  | .append => if s.poisoned then none else some { s with log := s.log ++ [.other] }
  | .sync upTo =>
    if s.poisoned = false ∧ s.durable ≤ upTo ∧ upTo ≤ s.log.length then some { s with durable := upTo } else none
  | .poison => some { s with poisoned := true }
  | .checkpoint replayStart highs => s.checkpoint size replayStart highs
  | .reopen survivors torn => s.reopen size survivors torn

end State

/-- A new store: nothing logged, both allocators at the highs of the first manifest. -/
def Fresh (size : Kind → Nat) (s : State) : Prop :=
  (∀ kind, Aligned (size kind) (s.manifest.reservedHigh kind)) ∧
    s = { log := [], durable := 0, opened := 0, poisoned := false
          allocators := fun kind => ⟨size kind, s.manifest.reservedHigh kind, s.manifest.reservedHigh kind⟩
          appending := fun _ => none, manifest := ⟨0, s.manifest.reservedHigh⟩, history := [] }

/-- The allocators over one log, through any number of lifetimes. -/
def system (size : Kind → Nat) : Lib.Machine State Event := ⟨Fresh size, State.step size⟩

/-! ## §2 — The invariant -/

variable {size base : Kind → Nat} {kind : Kind} {s s' : State}

/-- The allocator of a kind against the chain. -/
structure Holds (size base : Kind → Nat) (s : State) (kind : Kind) : Prop where
  reserve : (s.allocators kind).reserve = size kind
  next_le : (s.allocators kind).next ≤ (s.allocators kind).high
  ranged : (s.allocators kind).next < (s.allocators kind).high →
    .reserve kind (s.allocators kind).high ∈ s.log.take s.durable
  bounded : (s.allocators kind).high ≤ chain size base s.log (max s.durable s.opened) kind
  idle : s.appending kind = none → s.poisoned = false →
    chain size base s.log s.log.length kind = (s.allocators kind).high
  flight : ∀ position, s.appending kind = some position →
    s.log[position]? = some (.reserve kind ((s.allocators kind).high + size kind)) ∧
      chain size base s.log s.log.length kind = (s.allocators kind).high + size kind ∧
      (s.allocators kind).next = (s.allocators kind).high

/-- What was told is below what is handed out next, in this lifetime and in every later one. -/
def Told (size base : Kind → Nat) (s : State) (kind : Kind) (id : Nat) : Prop :=
  id < (s.allocators kind).next ∧ id < chain size base s.log s.durable kind

/-- Two answers of a history, the earlier one first; answers of `CanUse` count when `strict` is set. -/
def Apart (strict : Bool) (earlier later : Kind × Answer) : Prop :=
  ∀ kind id, later = (kind, .allocated id) →
    earlier ≠ (kind, .allocated id) ∧ (strict = true → earlier ≠ (kind, .usable id))

structure Inv (strict : Bool) (size base : Kind → Nat) (s : State) : Prop where
  chained : Chained size base s.log
  durable_le : s.durable ≤ s.log.length
  opened_le : s.opened ≤ s.log.length
  start_le : s.manifest.replayStart ≤ s.durable
  manifest : s.manifest.reservedHigh = chain size base s.log s.manifest.replayStart
  holds : ∀ kind, Holds size base s kind
  allocated : ∀ kind id, (kind, .allocated id) ∈ s.history →
    Told size base s kind id ∧ ∃ high, .reserve kind high ∈ s.log.take s.durable ∧ id < high
  usable : ∀ kind id, (kind, .usable id) ∈ s.history → strict = true → Told size base s kind id
  apart : s.history.Pairwise (Apart strict)

namespace Inv

variable {strict : Bool}

/-- The range of a kind and the record in flight, which a step of the log may change. -/
def Ranges (size base : Kind → Nat) (s : State) (kind : Kind) : Prop :=
  (s.appending kind = none → s.poisoned = false →
      chain size base s.log s.log.length kind = (s.allocators kind).high) ∧
    ∀ position, s.appending kind = some position →
      s.log[position]? = some (.reserve kind ((s.allocators kind).high + size kind)) ∧
        chain size base s.log s.log.length kind = (s.allocators kind).high + size kind ∧
        (s.allocators kind).next = (s.allocators kind).high

section

variable (h : Inv strict size base s)

include h

theorem ranges (kind : Kind) : Ranges size base s kind :=
  ⟨(h.holds kind).idle, (h.holds kind).flight⟩

/-- A step that only adds to the log and to its durable part. -/
theorem frame (suffix : List LogRecord) (hlog : s'.log = s.log ++ suffix) (hchained : Chained size base s'.log)
    (hdurable : s.durable ≤ s'.durable) (hle : s'.durable ≤ s'.log.length) (hopened : s'.opened = s.opened)
    (hmanifest : s'.manifest = s.manifest) (halloc : s'.allocators = s.allocators) (hhistory : s'.history = s.history)
    (hranges : ∀ kind, Ranges size base s' kind) : Inv strict size base s' := by
  have hchain : ∀ n, n ≤ s.log.length → chain size base s'.log n = chain size base s.log n := by
    intro n hn
    rw [hlog, chain_append hn]
  have hmem : ∀ record, record ∈ s.log.take s.durable → record ∈ s'.log.take s'.durable := by
    intro record hrecord
    have htake : (s.log ++ suffix).take s.durable = s.log.take s.durable :=
      take_append_of_le_length h.durable_le
    rw [hlog]
    rw [← htake] at hrecord
    exact (take_sublist_take_left hdurable).subset hrecord
  have htold : ∀ {kind id}, Told size base s kind id → Told size base s' kind id := by
    intro kind id ht
    refine ⟨by rw [halloc]; exact ht.1, Nat.lt_of_lt_of_le ht.2 ?_⟩
    rw [← hchain _ h.durable_le]
    exact hchained.mono hdurable kind
  refine ⟨hchained, hle, ?_, ?_, ?_, fun kind => ⟨?_, ?_, ?_, ?_, (hranges kind).1, (hranges kind).2⟩, ?_, ?_, ?_⟩
  · rw [hopened, hlog, length_append]
    exact h.opened_le.trans (Nat.le_add_right _ _)
  · rw [hmanifest]
    exact h.start_le.trans hdurable
  · rw [hmanifest, hchain _ (h.start_le.trans h.durable_le)]
    exact h.manifest
  · rw [halloc]
    exact (h.holds kind).reserve
  · rw [halloc]
    exact (h.holds kind).next_le
  · rw [halloc]
    exact fun hlt => hmem _ ((h.holds kind).ranged hlt)
  · rw [halloc, hopened]
    refine (h.holds kind).bounded.trans ?_
    rw [← hchain _ (max_le h.durable_le h.opened_le)]
    exact hchained.mono (by omega) kind
  · rw [hhistory]
    intro kind id hid
    obtain ⟨ht, high, hhigh, hlt⟩ := h.allocated kind id hid
    exact ⟨htold ht, high, hmem _ hhigh, hlt⟩
  · rw [hhistory]
    exact fun kind id hid hstrict => htold (h.usable kind id hid hstrict)
  · rw [hhistory]
    exact h.apart

theorem append : Inv strict size base { s with log := s.log ++ [.other] } := by
  obtain ⟨hchained, hlength⟩ := h.chained.append_other
  refine h.frame [.other] rfl hchained le_rfl ?_ rfl rfl rfl rfl fun kind => ⟨?_, ?_⟩
  · exact h.durable_le.trans (sublist_append_left _ _).length_le
  · intro hnone hpoisoned
    rw [hlength]
    exact (h.ranges kind).1 hnone hpoisoned
  · intro position hpos
    obtain ⟨hentry, hhigh, hnext⟩ := (h.ranges kind).2 position hpos
    refine ⟨ReserveChain.getElem?_append_some hentry, ?_, hnext⟩
    show chain size base (s.log ++ [.other]) (s.log ++ [LogRecord.other]).length kind = _
    rw [hlength]
    exact hhigh

theorem sync {upTo : Nat} (hle : s.durable ≤ upTo) (hlen : upTo ≤ s.log.length) :
    Inv strict size base { s with durable := upTo } :=
  h.frame [] (append_nil _).symm h.chained hle hlen rfl rfl rfl rfl h.ranges

theorem poison : Inv strict size base { s with poisoned := true } := by
  refine h.frame [] (append_nil _).symm h.chained le_rfl h.durable_le rfl rfl rfl rfl fun kind => ⟨?_, ?_⟩
  · exact fun _ hpoisoned => nomatch hpoisoned
  · exact (h.ranges kind).2

theorem reserveFailed (hpoisoned : s.poisoned = true) :
    Inv strict size base { s with appending := update s.appending kind none } := by
  refine h.frame [] (append_nil _).symm h.chained le_rfl h.durable_le rfl rfl rfl rfl fun other => ⟨?_, ?_⟩
  · intro _ hfalse
    rw [show s.poisoned = false from hfalse] at hpoisoned
    cases hpoisoned
  · intro position hpos
    dsimp only at hpos
    have hne : other ≠ kind := by
      rintro rfl
      rw [update_self] at hpos
      cases hpos
    rw [update_of_ne hne] at hpos
    exact (h.ranges other).2 position hpos

/-- A reserve record goes into the log. -/
theorem reserveAppend (hfree : s.appending kind = none) (hopen : s.poisoned = false)
    (hempty : (s.allocators kind).next = (s.allocators kind).high) {high : Nat}
    (hnew : (s.allocators kind).newHigh = .ok high) :
    Inv strict size base { s with
      log := s.log ++ [.reserve kind high]
      appending := update s.appending kind (some s.log.length) } := by
  have hcurrent := (h.holds kind).idle hfree hopen
  have hbound : (s.allocators kind).high ≤ maxUint64 - size kind ∧ high = (s.allocators kind).high + size kind := by
    rw [Allocator.newHigh, (h.holds kind).reserve] at hnew
    split at hnew
    · cases hnew
    · rename_i hle
      cases hnew
      exact ⟨Nat.le_of_not_lt hle, rfl⟩
  obtain ⟨hchained, hlength⟩ := h.chained.append_reserve (hcurrent ▸ hbound.1) (hcurrent ▸ hbound.2)
  refine h.frame [.reserve kind high] rfl hchained le_rfl ?_ rfl rfl rfl rfl fun other => ?_
  · exact h.durable_le.trans (sublist_append_left _ _).length_le
  · simp only [Ranges, hlength]
    rcases eq_or_ne other kind with rfl | hne
    · simp only [update_self]
      refine ⟨fun hnone => (nomatch hnone), fun position hpos => ?_⟩
      cases hpos
      refine ⟨?_, hbound.2, hempty⟩
      rw [List.getElem?_concat_length, hbound.2]
    · simp only [update_of_ne hne]
      refine ⟨(h.ranges other).1, fun position hpos => ?_⟩
      obtain ⟨hentry, hrest⟩ := (h.ranges other).2 position hpos
      exact ⟨ReserveChain.getElem?_append_some hentry, hrest⟩

/-- An identifier of a range whose reserve record is durable. -/
theorem issue (hlt : (s.allocators kind).next < (s.allocators kind).high)
    (hfree : s.appending kind = none) : Inv strict size base (s.issue kind (s.allocators kind)) := by
  have hrecord := (h.holds kind).ranged hlt
  have hdurable : (s.allocators kind).next < chain size base s.log s.durable kind :=
    Nat.lt_of_lt_of_le hlt (h.chained.mem_le hrecord)
  have hnext : ∀ other, (s.allocators other).next ≤ ((s.issue kind (s.allocators kind)).allocators other).next := by
    intro other
    show _ ≤ (update s.allocators kind (s.allocators kind).take.2 other).next
    rcases eq_or_ne other kind with rfl | hne
    · rw [update_self]
      exact Nat.le_succ _
    · rw [update_of_ne hne]
  have htold : ∀ {other id}, Told size base s other id → Told size base (s.issue kind (s.allocators kind)) other id :=
    fun ht => ⟨Nat.lt_of_lt_of_le ht.1 (hnext _), ht.2⟩
  refine ⟨h.chained, h.durable_le, h.opened_le, h.start_le, h.manifest, fun other => ?_, ?_, ?_, ?_⟩
  · rcases eq_or_ne other kind with rfl | hne
    · obtain ⟨hreserve, -, -, hbounded, hidle, -⟩ := h.holds other
      refine ⟨?_, ?_, ?_, ?_, ?_, ?_⟩ <;> simp only [State.issue, Allocator.take, update_self]
      · exact hreserve
      · exact hlt
      · exact fun _ => hrecord
      · exact hbounded
      · exact hidle
      · rw [hfree]
        rintro position ⟨⟩
    · obtain ⟨hreserve, hle, hranged, hbounded, hidle, hflight⟩ := h.holds other
      refine ⟨?_, ?_, ?_, ?_, ?_, ?_⟩ <;> simp only [State.issue, update_of_ne hne] <;> assumption
  · intro other id hid
    rcases Lib.mem_snoc.mp hid with hold | hnew
    · obtain ⟨ht, hbelow⟩ := h.allocated other id hold
      exact ⟨htold ht, hbelow⟩
    · cases hnew
      refine ⟨⟨?_, hdurable⟩, _, hrecord, hlt⟩
      show _ < (update s.allocators kind (s.allocators kind).take.2 kind).next
      rw [update_self]
      exact Nat.lt_succ_self _
  · intro other id hid hstrict
    rcases Lib.mem_snoc.mp hid with hold | hnew
    · exact htold (h.usable other id hold hstrict)
    · cases hnew
  · refine pairwise_append.mpr ⟨h.apart, pairwise_singleton _ _, fun earlier hearlier later hlater => ?_⟩
    -- everything that was told of the kind lies below the identifier
    cases mem_singleton.mp hlater
    intro other id heq
    cases heq
    refine ⟨?_, fun hstrict => ?_⟩
    · rintro rfl
      exact absurd (h.allocated kind _ hearlier).1.1 (Nat.lt_irrefl _)
    · rintro rfl
      exact absurd (h.usable kind _ hearlier hstrict).1 (Nat.lt_irrefl _)

/-- The acknowledgement of a reserve record: the range is the one of the record. -/
theorem extend {position : Nat} (hpos : s.appending kind = some position) (hdur : position < s.durable) :
    Inv strict size base { s with
      appending := update s.appending kind none
      allocators := update s.allocators kind
        ((s.allocators kind).extend ((s.allocators kind).high + (s.allocators kind).reserve)) } := by
  obtain ⟨hreserve, -, -, -, -, hflight⟩ := h.holds kind
  obtain ⟨hentry, hhigh, hnext⟩ := hflight position hpos
  have hrecord : .reserve kind ((s.allocators kind).high + size kind) ∈ s.log.take s.durable := by
    refine mem_of_getElem? (i := position) ?_
    rw [List.getElem?_take_of_lt hdur, hentry]
  have htold : ∀ {other id}, Told size base s other id → Told size base { s with
      appending := update s.appending kind none
      allocators := update s.allocators kind
        ((s.allocators kind).extend ((s.allocators kind).high + (s.allocators kind).reserve)) } other id := by
    intro other id ht
    refine ⟨Nat.lt_of_lt_of_le ht.1 ?_, ht.2⟩
    dsimp only
    rcases eq_or_ne other kind with rfl | hne
    · rw [update_self]
      exact Nat.le_of_eq hnext
    · rw [update_of_ne hne]
  refine ⟨h.chained, h.durable_le, h.opened_le, h.start_le, h.manifest, fun other => ?_, ?_, ?_, h.apart⟩
  · rcases eq_or_ne other kind with rfl | hne
    · refine ⟨?_, ?_, ?_, ?_, ?_, ?_⟩ <;> simp only [update_self, Allocator.extend, hreserve]
      · exact Nat.le_add_right _ _
      · exact fun _ => hrecord
      · exact (h.chained.mem_le hrecord).trans (h.chained.mono (le_max_left _ _) other)
      · exact fun _ _ => hhigh
      · rintro position ⟨⟩
    · obtain ⟨hreserve, hle, hranged, hbounded, hidle, hflight⟩ := h.holds other
      refine ⟨?_, ?_, ?_, ?_, ?_, ?_⟩ <;> simp only [update_of_ne hne] <;> assumption
  · intro other id hid
    obtain ⟨ht, hbelow⟩ := h.allocated other id hid
    exact ⟨htold ht, hbelow⟩
  · exact fun other id hid hstrict => htold (h.usable other id hid hstrict)

/-- `CanUse` is told of an identifier below the high of a durable record. -/
theorem canUse {id : Nat} (hid : (s.allocators kind).canUse id = true)
    (hsettled : strict = true → s.opened ≤ s.durable) :
    Inv strict size base { s with history := s.history ++ [(kind, .usable id)] } := by
  have hlt : id < (s.allocators kind).next := by
    rw [Allocator.canUse, Bool.and_eq_true, decide_eq_true_eq, decide_eq_true_eq] at hid
    exact hid.2
  refine ⟨h.chained, h.durable_le, h.opened_le, h.start_le, h.manifest, fun other => ?_, ?_, ?_, ?_⟩
  · exact { h.holds other with }
  · intro other id' hid'
    rcases Lib.mem_snoc.mp hid' with hold | hnew
    · exact h.allocated other id' hold
    · cases hnew
  · intro other id' hid' hstrict
    rcases Lib.mem_snoc.mp hid' with hold | hnew
    · exact h.usable other id' hold hstrict
    · cases hnew
      have hbounded := (h.holds kind).bounded
      rw [max_eq_left (hsettled hstrict)] at hbounded
      exact ⟨hlt, Nat.lt_of_lt_of_le hlt ((h.holds kind).next_le.trans hbounded)⟩
  · refine pairwise_append.mpr ⟨h.apart, pairwise_singleton _ _, fun earlier _ later hlater => ?_⟩
    cases mem_singleton.mp hlater
    exact fun _ _ heq => nomatch heq

theorem checkpoint {replayStart : Nat} {highs : Kind → Nat}
    (hstep : s.checkpoint size replayStart highs = some s') : Inv strict size base s' := by
  obtain ⟨⟨hstart, hdurable⟩, hstep⟩ := ite_none_right_eq_some.mp hstep
  rw [h.chained.recover_eq hstart h.manifest] at hstep
  obtain ⟨⟨hids, hbatches⟩, rfl⟩ := Lib.when_eq_some hstep
  have hhighs : highs = chain size base s.log replayStart := by
    funext kind
    cases kind with
    | recordID => exact hids.symm
    | batchID => exact hbatches.symm
  exact ⟨h.chained, h.durable_le, h.opened_le, hdurable, hhighs, fun kind => { h.holds kind with }, h.allocated,
    h.usable, h.apart⟩

/-- **The next lifetime** starts at the chain of what has survived, which covers everything that was told. -/
theorem reopen {survivors : Nat} {torn : Bool}
    (hstep : s.reopen size survivors torn = some s') : Inv strict size base s' := by
  obtain ⟨⟨hle, hlen⟩, hstep⟩ := ite_none_right_eq_some.mp hstep
  have haligned := h.chained.aligned_chain survivors
  rw [h.chained.recover_eq (h.start_le.trans hle) h.manifest] at hstep
  simp only [IdAlloc.new_eq_ok (haligned _), Option.some.injEq] at hstep
  subst hstep
  have halloc : ∀ kind : Kind, (match kind with
      | .recordID => (⟨size .recordID, chain size base s.log survivors .recordID,
          chain size base s.log survivors .recordID⟩ : Allocator)
      | .batchID => ⟨size .batchID, chain size base s.log survivors .batchID,
          chain size base s.log survivors .batchID⟩) =
        ⟨size kind, chain size base s.log survivors kind, chain size base s.log survivors kind⟩ := by
    intro kind
    cases kind <;> rfl
  have hdurable : s.durable ≤ (if torn then survivors else s.durable) ∧
      (if torn then survivors else s.durable) ≤ survivors := by
    split <;> omega
  have hmem : ∀ record, record ∈ s.log.take s.durable →
      record ∈ (s.log.take survivors).take (if torn then survivors else s.durable) := by
    intro record hrecord
    rw [take_take, Nat.min_eq_left hdurable.2]
    exact (take_sublist_take_left hdurable.1).subset hrecord
  have hlength : (s.log.take survivors).length = survivors := by
    rw [length_take, Nat.min_eq_left hlen]
  have htold : ∀ {kind id}, Told size base s kind id → id < chain size base s.log survivors kind ∧
      id < chain size base (s.log.take survivors) (if torn then survivors else s.durable) kind := by
    intro kind id ht
    rw [chain_take hdurable.2]
    exact ⟨Nat.lt_of_lt_of_le ht.2 (h.chained.mono hle kind),
      Nat.lt_of_lt_of_le ht.2 (h.chained.mono hdurable.1 kind)⟩
  refine ⟨h.chained.take survivors, ?_, ?_, h.start_le.trans hdurable.1, ?_, fun kind => ?_, ?_, ?_, h.apart⟩
  · rw [hlength]
    exact hdurable.2
  · exact Nat.le_of_eq hlength.symm
  · rw [chain_take (h.start_le.trans hle)]
    exact h.manifest
  · refine ⟨?_, ?_, ?_, ?_, ?_, ?_⟩ <;> simp only [halloc]
    · exact le_rfl
    · exact fun hlt => absurd hlt (Nat.lt_irrefl _)
    · rw [max_eq_right hdurable.2, chain_take le_rfl]
    · intro _ _
      rw [hlength, chain_take le_rfl]
    · rintro position ⟨⟩
  · intro kind id hid
    obtain ⟨ht, high, hhigh, hlt⟩ := h.allocated kind id hid
    refine ⟨⟨?_, (htold ht).2⟩, high, hmem _ hhigh, hlt⟩
    simp only [halloc]
    exact (htold ht).1
  · intro kind id hid hstrict
    have ht := h.usable kind id hid hstrict
    refine ⟨?_, (htold ht).2⟩
    simp only [halloc]
    exact (htold ht).1

theorem reserveDone (hstep : s.reserveDone kind = some s') : Inv strict size base s' := by
  simp only [State.reserveDone] at hstep
  split at hstep
  next => cases hstep
  next position hpos =>
    obtain ⟨hdur, rfl⟩ := Lib.when_eq_some hstep
    have hextend := h.extend hpos hdur
    have hsize := (h.chained.aligned kind).size
    have hfree : update s.appending kind none kind = none := update_self ..
    have hissue := hextend.issue ?_ hfree
    · simpa only [State.issue, update_self, update_idem] using hissue
    · simp only [update_self, Allocator.extend, (h.holds kind).reserve]
      omega

theorem step {e : Event} (hsettled : ∀ kind id, e = .canUse kind id → strict = true → s.opened ≤ s.durable)
    (hstep : s.step size e = some s') : Inv strict size base s' := by
  cases e with
  | allocate kind =>
    obtain ⟨⟨hfree, hne⟩, rfl⟩ := Lib.when_eq_some hstep
    exact h.issue (Nat.lt_of_le_of_ne (h.holds kind).next_le hne) hfree
  | reserveAppend kind =>
    obtain ⟨⟨hfree, hempty, hopen⟩, hstep⟩ := ite_none_right_eq_some.mp hstep
    split at hstep
    next => cases hstep
    next high hnew =>
      cases hstep
      exact h.reserveAppend hfree hopen hempty hnew
  | reserveDone kind => exact h.reserveDone hstep
  | reserveFailed kind =>
    simp only [State.step, State.reserveFailed] at hstep
    split at hstep
    next => cases hstep
    next =>
      obtain ⟨⟨hpoisoned, -⟩, rfl⟩ := Lib.when_eq_some hstep
      exact h.reserveFailed hpoisoned
  | canUse kind id =>
    obtain ⟨⟨-, hid⟩, rfl⟩ := Lib.when_eq_some hstep
    exact h.canUse hid (hsettled kind id rfl)
  | append =>
    obtain ⟨-, heq⟩ := ite_none_left_eq_some.mp hstep
    cases heq
    exact h.append
  | sync upTo =>
    obtain ⟨⟨-, hle, hlen⟩, rfl⟩ := Lib.when_eq_some hstep
    exact h.sync hle hlen
  | poison =>
    cases hstep
    exact h.poison
  | checkpoint replayStart highs => exact h.checkpoint hstep
  | reopen survivors torn => exact h.reopen hstep

end

theorem initial (h : Fresh size s) : Inv strict size s.manifest.reservedHigh s := by
  obtain ⟨haligned, heq⟩ := h
  have hbase : ∀ n, chain size s.manifest.reservedHigh [] n = s.manifest.reservedHigh := by
    intro n
    rw [chain, take_nil]
    rfl
  rw [heq]
  refine ⟨⟨haligned, _, rfl⟩, le_rfl, le_rfl, le_rfl, (hbase _).symm, fun kind => ?_, ?_, ?_, List.Pairwise.nil⟩
  · refine ⟨rfl, le_rfl, fun hlt => absurd hlt (Nat.lt_irrefl _), ?_, fun _ _ => ?_, fun position hpos => by cases hpos⟩
    · exact Nat.le_of_eq (congrFun (hbase _) kind).symm
    · exact congrFun (hbase _) kind
  · rintro kind id ⟨⟩
  · exact fun kind id hid => absurd hid not_mem_nil

end Inv

/-! ## §3 — Every run -/

/-- **Identifiers are never issued again**: every allocated identifier is below the high of a durable reserve
record, and an identifier that was allocated or that `CanUse` was told of is not allocated later. -/
structure NeverReissued (s : State) : Prop where
  below : ∀ kind id, (kind, .allocated id) ∈ s.history →
    ∃ high, .reserve kind high ∈ s.log.take s.durable ∧ id < high
  apart : s.history.Pairwise fun earlier later => ∀ kind id, later = (kind, .allocated id) →
    earlier ≠ (kind, .allocated id) ∧ earlier ≠ (kind, .usable id)

/-- `CanUse` is asked only when the records the log was opened with are durable. -/
def Settled (s : State) : Event → Prop
  | .canUse _ _ => s.opened ≤ s.durable
  | .allocate _ | .reserveAppend _ | .reserveDone _ | .reserveFailed _ | .append | .sync _ | .poison
  | .checkpoint _ _ | .reopen _ _ => True

instance (s : State) (e : Event) : Decidable (Settled s e) := by
  cases e <;> unfold Settled <;> infer_instance

/-- **No identifier is issued again** in a run that asks `CanUse` only when the records its log was opened
with are durable. -/
theorem never_reissued_of_settled (h : (system size).Reach Settled s) : NeverReissued s := by
  have hinv : ∃ base, Inv true size base s := by
    refine Lib.Machine.Reach.invariant (M := system size) (fun s => ∃ base, Inv true size base s)
      (fun s hinit => ⟨_, Inv.initial hinit⟩) ?_ h
    rintro s e s' ⟨base, hs⟩ hsettled hstep
    refine ⟨base, hs.step (fun kind id heq _ => ?_) hstep⟩
    subst heq
    exact hsettled
  obtain ⟨base, hinv⟩ := hinv
  refine ⟨fun kind id hid => (hinv.allocated kind id hid).2, hinv.apart.imp ?_⟩
  exact fun hapart kind id heq => ⟨(hapart kind id heq).1, (hapart kind id heq).2 rfl⟩

/-! ## §4 — Runs -/

/-- A new store whose ranges have four identifiers. -/
def freshStore : State :=
  { log := [], durable := 0, opened := 0, poisoned := false, allocators := fun _ => ⟨4, 1, 1⟩
    appending := fun _ => none, manifest := ⟨0, fun _ => 1⟩, history := [] }

theorem freshStore_fresh : Fresh (fun _ => 4) freshStore :=
  ⟨fun _ => ⟨Nat.succ_ne_zero 3, Nat.one_ne_zero, rfl⟩, rfl⟩

/-- The process ends before the sync of its first reserve record, and the next one syncs a record of its own
before it is asked. -/
def settledRun : List Event :=
  [.reserveAppend .recordID, .reopen 1 false, .reserveAppend .recordID, .sync 2, .reserveDone .recordID,
    .canUse .recordID 3, .allocate .recordID, .reopen 2 false, .reserveAppend .recordID, .sync 3,
    .reserveDone .recordID]

theorem never_reissued_of_settled_demo :
    ∃ s, (system fun _ => 4).Reach Settled s ∧
      s.history = [(.recordID, .allocated 5), (.recordID, .usable 3), (.recordID, .allocated 6),
        (.recordID, .allocated 9)] ∧ NeverReissued s := by
  have hrun : ((system fun _ => 4).execOk Settled freshStore settledRun).map State.history =
      some [(.recordID, .allocated 5), (.recordID, .usable 3), (.recordID, .allocated 6),
        (.recordID, .allocated 9)] := by
    decide +kernel
  obtain ⟨s, hs, hhistory⟩ := map_eq_some_iff.mp hrun
  have hreach : (system fun _ => 4).Reach Settled s :=
    Lib.Machine.Reach.execOk (.start freshStore_fresh) settledRun hs
  exact ⟨s, hreach, hhistory, never_reissued_of_settled hreach⟩

/-- The process ends before the sync of its first reserve record; the next one finds the record and is asked;
the machine loses it; the third one allocates. -/
def lostReserve : List Event :=
  [.reserveAppend .recordID, .reopen 1 false, .canUse .recordID 1, .reopen 0 false, .reserveAppend .recordID,
    .sync 1, .reserveDone .recordID]

/-- **A record that survives a process and not the machine**: `CanUse` holds of an identifier that a later
lifetime allocates. -/
theorem usable_reissued :
    ∃ s, (system fun _ => 4).Reachable s ∧
      s.history = [(.recordID, .usable 1), (.recordID, .allocated 1)] ∧ ¬ NeverReissued s := by
  have hrun : ((system fun _ => 4).exec freshStore lostReserve).map State.history =
      some [(.recordID, .usable 1), (.recordID, .allocated 1)] := by
    decide +kernel
  obtain ⟨s, hs, hhistory⟩ := map_eq_some_iff.mp hrun
  have hreach : (system fun _ => 4).Reachable s :=
    Lib.Machine.Reach.exec (.start freshStore_fresh) lostReserve (fun _ _ _ => trivial) hs
  refine ⟨s, hreach, hhistory, fun hnever => ?_⟩
  have hapart := hnever.apart
  rw [hhistory] at hapart
  exact (rel_of_pairwise_cons hapart mem_cons_self .recordID 1 rfl).2 rfl

end Ridstore.Engine.Lifetimes
