import Ridstore.Commit.Generations

/-
# Ridstore.Commit.Redirects — the redirect tables and the batches they are for

A compaction copies the records of the pending puts, installs a table from the old addresses to the copies,
passes the open batches to `RewritePutRefs` and releases the table.  A batch that is committing meanwhile is
not rewritten: its request has been queued before the release can take the admission lock, and the coordinator
redirects it.  The machine here is the coordinator with its callers, with the addresses the log has given so
far and the batches that have still to be passed to `RewritePutRefs` for every table.
-/

namespace Ridstore.Commit

open Option

open RecordLog (VAddr RecordRef)
open Function
open Transaction (Batch Limits)

variable {config : Config} {limits : Limits} {s s' : System}

/-! ## §1 — Tables and batches -/

/-- The addresses that a request puts. -/
def Request.putAddrs (r : Request) : List VAddr :=
  match r.work with
  | .commit _ prepared => Batch.putAddrs prepared.mutations
  | .relocation _ => []

/-- A key of the table is a pending put address of the batch. -/
def Redirects.pendingIn (table : Redirects) (b : Batch) : Bool :=
  b.pendingPutRefs.any fun ref => (table.lookup ref.addr).isSome

/-- An accepted installation, and the batches with a key of its table that were not passed to
`RewritePutRefs`. -/
structure Session where
  ticket : Nat
  table : Redirects
  owes : List Nat
  deriving DecidableEq, Repr

/-- A batch was passed to `RewritePutRefs` for the table with the ticket; should it have got a key of another
table by that, it has to be passed for that one as well. -/
def Session.rewrote (ticket batch : Nat) (b : Batch) (σ : Session) : Session :=
  if σ.ticket = ticket then { σ with owes := σ.owes.filter fun i => i ≠ batch }
  else if σ.table.pendingIn b then { σ with owes := batch :: σ.owes }
  else σ

/-! ## §2 — The machine -/

/-- The system with the batches that were used, the addresses that are taken and the accepted tables. -/
structure Redirecting where
  system : System
  touched : List Nat
  used : List VAddr
  sessions : List Session

inductive Redirecting.Event
  | base (e : Commit.Event)
  | rewrite (batch ticket : Nat)

namespace Redirecting

variable (config : Config) (limits : Limits) (s : Redirecting)

/-- A call of a user; the log gives every record an address of its own. -/
def call (batch : Nat) (c : Batch.Call) : Option Redirecting :=
  match c with
  | .rewritePutRefs _ => none
  | c =>
    if c.appended.any fun ref => s.used.contains ref.addr then none
    else
      (s.system.act config limits (.call batch c)).map fun t =>
        { s with
          system := t
          touched := batch :: s.touched
          used := c.appended.toList.map RecordRef.addr ++ s.used }

def install (table : Redirects) : Option Redirecting :=
  (s.system.act config limits (.install table)).map fun t =>
    { s with
      system := t
      used := table.map (fun entry => entry.2.addr) ++ s.used
      sessions := s.sessions ++
        [⟨s.system.issued, table, s.touched.filter fun i => table.pendingIn (s.system.shared.batches i)⟩] }

/-- `InstallCommitRedirects` has returned a table for the ticket. -/
def returned (ticket : Nat) : Bool :=
  s.system.shared.answers.any fun p =>
    p.1 = ticket && match p.2 with
      | .redirected _ => true
      | .committed _ _ | .relocated _ _ _ _ | .cut _ _ | .failed _ => false

/-- A batch is passed to `RewritePutRefs` with a table that was returned. -/
def rewrite (batch ticket : Nat) : Option Redirecting :=
  match s.sessions.find? fun σ => σ.ticket = ticket with
  | none => none
  | some σ =>
    if s.returned ticket then
      (s.system.act config limits (.call batch (.rewritePutRefs σ.table.lookup))).map fun t =>
        { s with
          system := t
          sessions := s.sessions.map (Session.rewrote ticket batch (t.shared.batches batch)) }
    else none

def step : Event → Option Redirecting
  | .base (.act (.call batch c)) => s.call config limits batch c
  | .base (.act (.install table)) => s.install config limits table
  | .base e => (s.system.step config limits e).map fun t => { s with system := t }
  | .rewrite batch ticket => s.rewrite config limits batch ticket

/-- **The keys of a table are pending put addresses, and the batches that have them were all passed to
`RewritePutRefs` before the release.** -/
def Passed : Event → Prop
  | .base (.act (.install table)) => ∀ entry ∈ table, ∃ i ∈ s.touched,
      entry.1 ∈ (s.system.shared.batches i).pendingPutRefs.map RecordRef.addr
  | .base (.act (.release generation)) =>
    ∀ σ ∈ s.sessions, (σ.ticket, .redirected generation) ∈ s.system.shared.answers → σ.owes = []
  | .base _ | .rewrite _ _ => True

/-- **The replacements of a table are new records.** -/
def Fresh : Event → Prop
  | .base (.act (.install table)) => ∀ entry ∈ table, entry.2.addr ∉ s.used
  | .base _ | .rewrite _ _ => True

instance (e : Event) : Decidable (s.Passed e) := by
  unfold Passed
  split <;> infer_instance

instance (e : Event) : Decidable (s.Fresh e) := by
  unfold Fresh
  split <;> infer_instance

end Redirecting

/-- **The coordinator with its callers and the rewriting of their batches.** -/
def redirecting (config : Config) (limits : Limits) : Lib.Machine Redirecting Redirecting.Event :=
  ⟨fun s => (system config limits).init s.system ∧ s.touched = [] ∧ s.used = [] ∧ s.sessions = [],
    Redirecting.step config limits⟩

/-! ## §3 — What a step does to the batches and the commands -/

/-- The batch is as before, or it is not open and has no other mutations. -/
def Closes (b b' : Batch) : Prop :=
  b' = b ∨ b'.state ≠ .opened ∧ (b'.mutations = b.mutations ∨ b'.mutations = [])

/-- The open batches are as before and no redirect command is new. -/
structure Quiet (s s' : System) : Prop where
  batches : ∀ i, Closes (s.shared.batches i) (s'.shared.batches i)
  commands : ∀ u command, .command u (.redirect command) ∈ s'.accepted → .command u (.redirect command) ∈ s.accepted

theorem markTerminal_closes (b : Batch) {state : Transaction.State} (hstate : state ≠ .opened) :
    Closes b (b.markTerminal state).1 := by
  simp only [Batch.markTerminal]
  split
  · exact .inr ⟨hstate, .inr rfl⟩
  · exact .inl rfl

theorem markAborted_closes (b : Batch) : Closes b b.markAborted.1 := markTerminal_closes b nofun

theorem markCommitUnknown_closes (b : Batch) : Closes b b.markCommitUnknown.1 := markTerminal_closes b nofun

theorem markCommitted_closes (b : Batch) (seq : Nat) : Closes b (b.markCommitted seq).1 := by
  simp only [Batch.markCommitted]
  split
  · exact .inl rfl
  · split
    · exact .inr ⟨(fun hopen => by cases hopen), .inr rfl⟩
    · exact .inl rfl

/-- One batch was written. -/
theorem closes_update {batches : Nat → Batch} {batch : Nat} {b : Batch} (hb : Closes (batches batch) b) (i : Nat) :
    Closes (batches i) (update batches batch b i) := by
  by_cases hi : i = batch
  · subst hi
    rw [update_self]
    exact hb
  · rw [update_of_ne hi]
    exact .inl rfl

theorem Quiet.of_batches {s s' : System} (hbatches : s'.shared.batches = s.shared.batches)
    (hcommands : ∀ u command, .command u (.redirect command) ∈ s'.accepted →
      .command u (.redirect command) ∈ s.accepted) : Quiet s s' := by
  refine ⟨fun i => .inl ?_, hcommands⟩
  rw [hbatches]

theorem Quiet.enter {entries : Nat} {a : Admission} (h : s.enter entries a = some s') : Quiet s s' := by
  obtain ⟨-, h⟩ := ite_none_right_eq_some.mp h
  split at h
  next => cases h
  next =>
    cases h
    exact Quiet.of_batches rfl fun _ _ => id

theorem Quiet.prepare {ticket : Nat} (h : s.prepare ticket = some s') : Quiet s s' := by
  simp only [System.prepare] at h
  split at h
  next =>
    split at h
    next batch _ b prepared hprepare =>
      cases h
      obtain ⟨-, rfl, -⟩ := Batch.prepare_eq_ok hprepare
      refine ⟨closes_update (.inr ⟨?_, .inl rfl⟩), fun _ _ => id⟩
      rintro ⟨⟩
    next batch _ b err hprepare =>
      cases h
      refine ⟨closes_update ?_, fun _ _ => id⟩
      rcases Batch.prepare_eq_error hprepare with rfl | ⟨-, rfl⟩
      · exact .inl rfl
      · exact .inr ⟨(fun hopen => by cases hopen), .inl rfl⟩
  next => cases h

theorem Quiet.withdraw {ticket : Nat} (h : s.withdraw ticket = some s') : Quiet s s' := by
  simp only [System.withdraw] at h
  split at h
  next batch _ _ =>
    cases h
    exact ⟨closes_update (markAborted_closes _), fun _ _ => id⟩
  next =>
    cases h
    exact Quiet.of_batches rfl fun _ _ => id
  next => cases h

/-- The action is neither a call nor a redirect command. -/
def Action.plain : Action → Bool
  | .call _ _ | .install _ | .release _ => false
  | .submit _ _ | .prepare _ | .relocate _ _ | .withdraw _ | .enqueue _ | .barrier | .unfence | .close
  | .discharge _ => true

theorem act_quiet {a : Action} (h : s.act config limits a = some s') (hplain : a.plain = true) : Quiet s s' := by
  cases a with
  | submit batch entries =>
    simp only [System.act, System.submit] at h
    split at h
    next => cases h
    next =>
      split at h
      next => exact Quiet.enter h
      next => cases h
  | prepare ticket => exact Quiet.prepare h
  | relocate r entries =>
    obtain ⟨-, h⟩ := ite_none_right_eq_some.mp h
    exact Quiet.enter h
  | withdraw ticket => exact Quiet.withdraw h
  | enqueue ticket =>
    simp only [System.act, System.enqueue] at h
    split at h
    next r _ =>
      obtain ⟨-, rfl⟩ := Lib.when_eq_some h
      refine Quiet.of_batches rfl fun u command hmem => ?_
      rcases Lib.mem_snoc.mp hmem with hold | hnew
      · exact hold
      · cases hnew
    next => cases h
  | barrier =>
    obtain ⟨-, rfl⟩ := Lib.when_eq_some h
    refine Quiet.of_batches rfl fun u command hmem => ?_
    rcases Lib.mem_snoc.mp hmem with hold | hnew
    · exact hold
    · cases hnew
  | unfence =>
    have hunfence : s' = { s with fence := none } := by
      simp only [System.act, System.unfence] at h
      split at h
      · exact (Option.some.inj (ite_none_right_eq_some.mp h).2).symm
      · exact (Option.some.inj (ite_none_right_eq_some.mp h).2).symm
      · cases h
    rw [hunfence]
    exact Quiet.of_batches rfl fun _ _ => id
  | close =>
    obtain ⟨-, heq⟩ := ite_none_right_eq_some.mp h
    cases heq
    exact Quiet.of_batches rfl fun _ _ => id
  | discharge bytes =>
    cases h
    exact Quiet.of_batches rfl fun _ _ => id
  | _ => cases hplain

/-- The end of a request closes its batch. -/
theorem complete_closes (shared : Shared) (r : Request) (verdict : Verdict) (i : Nat) :
    Closes (shared.batches i) ((shared.complete r verdict).1.batches i) := by
  cases verdict with
  | success seq resolved =>
    simp only [Shared.complete, Shared.completeSuccess]
    split
    next => exact .inl rfl
    next batch prepared _ =>
      split
      next => exact closes_update (markCommitUnknown_closes _) i
      next b _ hmark =>
        have hcloses := markCommitted_closes (shared.batches batch) seq
        rw [hmark] at hcloses
        exact closes_update hcloses i
  | failure =>
    simp only [Shared.complete, Shared.completeFailure]
    split
    · exact .inl rfl
    · exact .inl rfl
    · exact closes_update (b := (shared.batches _).markCommitUnknown.1) (markCommitUnknown_closes _) i
    · exact closes_update (b := (shared.batches _).markAborted.1) (markAborted_closes _) i

theorem System.Turns.quiet (h : s.Turns config s') : Quiet s s' := by
  have haccepted := h.callers.1
  refine ⟨fun i => ?_, fun u command hmem => haccepted ▸ hmem⟩
  cases h with
  | complete r verdict => exact complete_closes s.shared r verdict i
  | _ => exact .inl rfl

end Ridstore.Commit
