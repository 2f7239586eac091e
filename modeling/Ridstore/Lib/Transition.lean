import Mathlib.Order.Basic

/-
# Ridstore.Lib.Transition — partial step functions, conditioned runs and invariants

A machine is a predicate on initial states and a partial step function on labelled events.  A run is
*conditioned* when every step of it meets a relation between the state before the step and the event.
The rules here are the ones the component models use: an invariant of the step is an invariant of
every conditioned run, and a list of events that executes yields a reached state.
-/

namespace Ridstore.Lib

open List Option

/-- A guarded step that is taken has passed its guard. -/
theorem when_eq_some {α : Type*} {p : Prop} [Decidable p] {a b : α} (h : (if p then some a else none) = some b) :
    p ∧ a = b := by
  obtain ⟨hp, heq⟩ := ite_none_right_eq_some.mp h
  exact ⟨hp, some.inj heq⟩

/-- The entries of a history that has grown by one. -/
theorem mem_snoc {α : Type*} {l : List α} {a x : α} : x ∈ l ++ [a] ↔ x ∈ l ∨ x = a := by
  rw [mem_append, mem_singleton]

theorem nodup_snoc {α : Type*} {l : List α} {a : α} (hl : l.Nodup) (ha : a ∉ l) : (l ++ [a]).Nodup := by
  refine nodup_append.mpr ⟨hl, pairwise_singleton _ _, fun x hx y hy heq => ha ?_⟩
  rw [← mem_singleton.mp hy, ← heq]
  exact hx

/-- A labelled machine: where runs start, and what one event does (`none`: the event cannot happen). -/
structure Machine (σ : Type*) (ε : Type*) where
  init : σ → Prop
  step : σ → ε → Option σ

namespace Machine

variable {σ ε : Type*} {M : Machine σ ε} {ok : σ → ε → Prop} {s s' : σ}

/-- The states reached by runs of `M` each of whose steps meets `ok` in the state it is taken from. -/
inductive Reach (M : Machine σ ε) (ok : σ → ε → Prop) : σ → Prop
  | start {s : σ} : M.init s → Reach M ok s
  | next {s s' : σ} {e : ε} : Reach M ok s → ok s e → M.step s e = some s' → Reach M ok s'

/-- The states reached by runs with no condition on their steps. -/
def Reachable (M : Machine σ ε) : σ → Prop := M.Reach fun _ _ => True

/-- **The invariant rule.**  What holds at the start and is kept by every step that meets the
condition holds in every state a conditioned run reaches. -/
theorem Reach.invariant (Inv : σ → Prop) (hinit : ∀ s, M.init s → Inv s)
    (hstep : ∀ s e s', Inv s → ok s e → M.step s e = some s' → Inv s') (h : M.Reach ok s) : Inv s := by
  induction h with
  | start h0 => exact hinit _ h0
  | next _ hok hs ih => exact hstep _ _ _ ih hok hs

/-- Executing a list of events in order. -/
def exec (M : Machine σ ε) : σ → List ε → Option σ
  | s, [] => some s
  | s, e :: es => (M.step s e).bind fun s' => M.exec s' es

theorem exec_cons {e : ε} {es : List ε} (h : M.step s e = some s') : M.exec s (e :: es) = M.exec s' es := by
  rw [exec, h, bind_some]

/-- An execution goes on from where its first part ended. -/
theorem exec_append {es rest : List ε} (h : M.exec s es = some s') : M.exec s (es ++ rest) = M.exec s' rest := by
  induction es generalizing s with
  | nil =>
    cases h
    rfl
  | cons e es ih =>
    obtain ⟨m, hm, hrest⟩ := bind_eq_some_iff.mp h
    simp only [cons_append, exec, hm, bind_some, ih hrest]

/-- An execution whose events meet the condition in whatever state they are taken ends in a reached
state. -/
theorem Reach.exec (h : M.Reach ok s) (es : List ε) (hok : ∀ e ∈ es, ∀ t, ok t e)
    (hrun : M.exec s es = some s') : M.Reach ok s' := by
  induction es generalizing s with
  | nil =>
    cases hrun
    exact h
  | cons e es ih =>
    obtain ⟨m, hm, hrest⟩ := bind_eq_some_iff.mp hrun
    refine ih (.next h (hok e mem_cons_self s) hm) (fun e' he' => hok e' ?_) hrest
    exact mem_cons_of_mem _ he'

/-- Executing a list of events each of which has to meet the condition in the state it is taken from. -/
def execOk (M : Machine σ ε) (ok : σ → ε → Prop) [∀ s e, Decidable (ok s e)] : σ → List ε → Option σ
  | s, [] => some s
  | s, e :: es => if ok s e then (M.step s e).bind fun s' => M.execOk ok s' es else none

theorem Reach.execOk [∀ s e, Decidable (ok s e)] (h : M.Reach ok s) (es : List ε)
    (hrun : M.execOk ok s es = some s') : M.Reach ok s' := by
  induction es generalizing s with
  | nil =>
    cases hrun
    exact h
  | cons e es ih =>
    obtain ⟨hok, hrun⟩ := ite_none_right_eq_some.mp hrun
    obtain ⟨m, hm, hrest⟩ := bind_eq_some_iff.mp hrun
    exact ih (.next h hok hm) hrest

end Machine

end Ridstore.Lib
