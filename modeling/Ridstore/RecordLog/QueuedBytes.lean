import Mathlib.Algebra.BigOperators.Group.List.Basic
import Ridstore.RecordLog.WriterSafety

/-
# Ridstore.RecordLog.QueuedBytes — the byte budget of the queue

`Append` takes the bytes of its record from a budget before it hands the request over.  They are given back by
`Append` itself when the request never reaches the queue, and by the goroutine when the request is staged or
rejected.  A release of more bytes than are in use is a panic.

The context of a call may be cancelled at any time, and the budget may be closed at any time; a call that waits
for bytes holds none.  The goroutine is the one of `Ridstore.RecordLog.Writer`.
-/

namespace Ridstore.RecordLog

open List Option

/-! ## §1 — The budget -/

/-- `byteBudget`. -/
structure ByteBudget where
  limit : Nat
  used : Nat
  closed : Bool
  deriving DecidableEq, Repr

namespace ByteBudget

variable (b : ByteBudget)

/-- **`acquire`**, when it returns without an error.  Otherwise it waits, or the payload is too big, the budget is
closed or the context is cancelled. -/
def acquire (bytes : Nat) : Option ByteBudget :=
  if bytes ≤ b.limit ∧ b.closed = false ∧ bytes ≤ b.limit - b.used then some { b with used := b.used + bytes }
  else none

/-- **`release`**; `none` is its panic. -/
def release (bytes : Nat) : Option ByteBudget :=
  if b.used < bytes then none else some { b with used := b.used - bytes }

/-- `release` for one request after the other. -/
def releaseAll (b : ByteBudget) : List Nat → Option ByteBudget
  | [] => some b
  | bytes :: rest => (b.release bytes).bind fun b' => b'.releaseAll rest

theorem releaseAll_of_le {b : ByteBudget} {sizes : List Nat} (h : sizes.sum ≤ b.used) :
    b.releaseAll sizes = some { b with used := b.used - sizes.sum } := by
  induction sizes generalizing b with
  | nil => rfl
  | cons bytes rest ih =>
    rw [sum_cons] at h
    rw [releaseAll, release, if_neg (by omega), bind_some, ih (Nat.le_sub_of_add_le' h), Nat.sub_sub, sum_cons]

end ByteBudget

/-! ## §2 — The log with its budget -/

variable {α : Type*} {config : WriterConfig}

/-- A call of `Append` that has its bytes and has not handed its request over. -/
structure AppendCall (α : Type*) where
  payload : α
  physical : Nat
  sync : Bool
  deriving DecidableEq, Repr

/-- The writer, the budget and the calls between them.  `released` is the history of the requests whose bytes the
goroutine gave back, and `panicked` says that a release was a panic. -/
structure QueuedLog (α : Type*) where
  writer : Writer α
  budget : ByteBudget
  calls : List (AppendCall α)
  released : List (AppendRequest α)
  panicked : Bool
  deriving DecidableEq, Repr

/-- The steps of the calls, of `Close` and of the goroutine. -/
inductive QueuedEvent (α : Type*)
  | refuse
  | acquire (call : AppendCall α)
  | submit (i : Nat)
  | giveUp (i : Nat)
  | closeBudget
  | close
  | writer (e : WriterEvent)

namespace QueuedLog

variable (s : QueuedLog α)

/-- The bytes of requests are given back. -/
def free (sizes : List Nat) : QueuedLog α :=
  match s.budget.releaseAll sizes with
  | some b => { s with budget := b }
  | none => { s with panicked := true }

/-- **A step of the log.** -/
def step (config : WriterConfig) : QueuedEvent α → Option (QueuedLog α)
  | .refuse => some { s with writer := s.writer.refuse }
  | .acquire call => (s.budget.acquire call.physical).map fun b => { s with budget := b, calls := call :: s.calls }
  | .submit i => s.calls[i]?.bind fun call =>
    (s.writer.accept config call.payload call.physical call.sync).map fun w =>
      { s with writer := w, calls := s.calls.eraseIdx i }
  | .giveUp i => s.calls[i]?.map fun call =>
    { s with writer := s.writer.refuse, calls := s.calls.eraseIdx i }.free [call.physical]
  | .closeBudget => some { s with budget := { s.budget with closed := true } }
  | .close => (s.writer.close config).map fun w => { s with writer := w }
  | .writer e => (s.writer.step config e).map fun w =>
    { s with writer := w, released := s.released ++ s.writer.freed e }.free
      ((s.writer.freed e).map AppendRequest.physical)

end QueuedLog

/-- The log with its budget, from the moment it is opened. -/
def queuedLog (config : WriterConfig) : Lib.Machine (QueuedLog α) (QueuedEvent α) where
  init s := ∃ remaining limit, s = ⟨Writer.fresh remaining, ⟨limit, 0, false⟩, [], [], false⟩
  step s e := s.step config e

/-! ## §3 — Every interleaving -/

namespace QueuedLog

/-- The bytes of the calls and of the requests that are not staged. -/
def held (s : QueuedLog α) : Nat :=
  (s.calls.map AppendCall.physical).sum + (s.writer.unstaged.map AppendRequest.physical).sum

/-- **The invariant**: the bytes in use are those that are held, and a request that was handed over is either not
staged or was released. -/
structure Charged (s : QueuedLog α) : Prop where
  writer : Writer.Inv s.writer
  used : s.budget.used = s.held
  limit : s.budget.used ≤ s.budget.limit
  released : s.writer.accepted.Perm (s.released ++ s.writer.unstaged)
  panicked : s.panicked = false

variable {s s' : QueuedLog α}

theorem free_eq {sizes : List Nat} (h : sizes.sum ≤ s.budget.used) :
    s.free sizes = { s with budget := { s.budget with used := s.budget.used - sizes.sum } } := by
  rw [free, ByteBudget.releaseAll_of_le h]

/-- A call takes its bytes along when it leaves. -/
theorem sum_calls {i : Nat} {call : AppendCall α} (hcall : s.calls[i]? = some call) :
    (s.calls.map AppendCall.physical).sum =
      call.physical + ((s.calls.eraseIdx i).map AppendCall.physical).sum := by
  obtain ⟨hi, rfl⟩ := List.getElem?_eq_some_iff.mp hcall
  rw [← ((getElem_cons_eraseIdx_perm hi).map _).sum_eq, map_cons, sum_cons]

namespace Charged

theorem submit (h : Charged s) {i : Nat} {call : AppendCall α} {w : Writer α} (hcall : s.calls[i]? = some call)
    (hw : s.writer.accept config call.payload call.physical call.sync = some w) :
    Charged { s with writer := w, calls := s.calls.eraseIdx i } := by
  obtain ⟨-, rfl⟩ := Lib.when_eq_some hw
  refine { h with writer := (h.writer.handOver rfl).1, used := ?_, released := ?_ }
  · have hused := h.used
    rw [held, sum_calls hcall] at hused
    rw [held, Writer.handOver_unstaged, map_append, sum_append, hused]
    simp only [map_cons, map_nil, sum_cons, sum_nil]
    omega
  · rw [Writer.handOver_unstaged, ← append_assoc]
    exact h.released.append_right _

theorem giveUp (h : Charged s) {i : Nat} {call : AppendCall α} (hcall : s.calls[i]? = some call) :
    Charged ({ s with writer := s.writer.refuse, calls := s.calls.eraseIdx i }.free [call.physical]) := by
  have hused := h.used
  rw [held, sum_calls hcall] at hused
  rw [free_eq (by rw [sum_singleton, hused]; omega), sum_singleton]
  refine ⟨h.writer.refuse, ?_, Nat.le_trans (Nat.sub_le _ _) h.limit, h.released, h.panicked⟩
  show s.budget.used - call.physical = ((s.calls.eraseIdx i).map AppendCall.physical).sum +
    (s.writer.unstaged.map AppendRequest.physical).sum
  omega

theorem goroutine (h : Charged s) {e : WriterEvent} {w : Writer α} (hw : s.writer.step config e = some w) :
    Charged ({ s with writer := w, released := s.released ++ s.writer.freed e }.free
      ((s.writer.freed e).map AppendRequest.physical)) := by
  have hfreed := h.writer.freed_step hw
  have hused := h.used
  rw [held, (hfreed.map _).sum_eq, map_append, sum_append] at hused
  rw [free_eq (by rw [hused]; omega)]
  obtain ⟨hinv, hadv⟩ := h.writer.step hw
  refine ⟨hinv, ?_, Nat.le_trans (Nat.sub_le _ _) h.limit, ?_, h.panicked⟩
  · show s.budget.used - _ = (s.calls.map AppendCall.physical).sum + (w.unstaged.map AppendRequest.physical).sum
    omega
  · rw [hadv.accepted, append_assoc]
    exact h.released.trans (hfreed.append_left _)

/-- **The step lemma.** -/
theorem step (h : Charged s) {e : QueuedEvent α} (hs : s.step config e = some s') : Charged s' := by
  cases e with
  | refuse =>
    cases hs
    exact { h with writer := h.writer.refuse }
  | acquire call =>
    obtain ⟨b, hb, rfl⟩ := map_eq_some_iff.mp hs
    obtain ⟨⟨-, -, hfits⟩, rfl⟩ := Lib.when_eq_some hb
    refine { h with used := ?_, limit := ?_ }
    · show s.budget.used + call.physical = ((call :: s.calls).map AppendCall.physical).sum +
        (s.writer.unstaged.map AppendRequest.physical).sum
      rw [map_cons, sum_cons, h.used, held]
      omega
    · exact Nat.add_le_of_le_sub' h.limit hfits
  | submit i =>
    obtain ⟨call, hcall, hs⟩ := bind_eq_some_iff.mp hs
    obtain ⟨w, hw, rfl⟩ := map_eq_some_iff.mp hs
    exact h.submit hcall hw
  | giveUp i =>
    obtain ⟨call, hcall, rfl⟩ := map_eq_some_iff.mp hs
    exact h.giveUp hcall
  | closeBudget =>
    cases hs
    exact { h with }
  | close =>
    obtain ⟨w, hw, rfl⟩ := map_eq_some_iff.mp hs
    have hun := Writer.close_unstaged hw
    obtain ⟨hinv, hadv⟩ := h.writer.close hw
    refine { h with writer := hinv, used := ?_, released := ?_ }
    · rw [held, hun]
      exact h.used
    · rw [hadv.accepted, hun]
      exact h.released
  | writer e =>
    obtain ⟨w, hw, rfl⟩ := map_eq_some_iff.mp hs
    exact h.goroutine hw

end Charged

theorem charged_of_reachable (h : (queuedLog config).Reachable s) : Charged s := by
  refine h.invariant Charged ?_ fun _ _ _ h _ hs => h.step hs
  rintro s ⟨remaining, limit, rfl⟩
  exact ⟨Writer.Inv.fresh remaining, rfl, Nat.zero_le _, Perm.nil, rfl⟩

/-- **The bytes of every request are released exactly once**, never more than are in use, and all of them are when
no call is left.  A call is left while it holds bytes or waits for the answer to its request. -/
theorem released_once (h : (queuedLog config).Reachable s) :
    s.panicked = false ∧ s.budget.used ≤ s.budget.limit ∧ s.budget.used = s.held ∧
    (s.released.map AppendRequest.ticket).Nodup ∧ (∀ r ∈ s.released, r ∈ s.writer.accepted) ∧
    (∀ r ∈ s.writer.accepted, r.ticket ∈ s.writer.responses.map Prod.fst → r ∈ s.released) ∧
    (s.calls = [] → (∀ r ∈ s.writer.accepted, r.ticket ∈ s.writer.responses.map Prod.fst) → s.budget.used = 0) := by
  have hcharged := charged_of_reachable h
  have hcore := hcharged.writer.core
  have hanswered : ∀ r ∈ s.writer.accepted, r.ticket ∈ s.writer.responses.map Prod.fst → r ∈ s.released := by
    intro r hr hticket
    refine (mem_append.mp (hcharged.released.mem_iff.mp hr)).resolve_right fun hin => ?_
    exact hcore.quiet r (mem_append_left _ hin) hticket
  refine ⟨hcharged.panicked, hcharged.limit, hcharged.used, ?_, ?_, hanswered, fun hcalls hall => ?_⟩
  · have hnodup := (hcharged.released.map AppendRequest.ticket).nodup_iff.mp hcore.accepted
    rw [map_append] at hnodup
    exact (nodup_append.mp hnodup).1
  · exact fun r hr => hcharged.released.mem_iff.mpr (mem_append_left _ hr)
  · -- what is not staged waits for its answer
    have hnone : s.writer.unstaged = [] := eq_nil_iff_forall_not_mem.mpr fun r hr =>
      hcore.quiet r (mem_append_left _ hr) (hall r (hcore.known r (mem_append_left _ hr)))
    rw [hcharged.used, held, hcalls, hnone]
    rfl

/-- One request is staged, and another call gives up. -/
theorem released_once_staged : ∃ s : QueuedLog Unit, (queuedLog ⟨4, 64, 4⟩).Reachable s ∧
    s.released.map AppendRequest.ticket = [0] ∧ s.budget.used = 0 := by
  have hstart : (queuedLog ⟨4, 64, 4⟩).Reachable (⟨Writer.fresh 64, ⟨32, 0, false⟩, [], [], false⟩ : QueuedLog Unit) :=
    .start ⟨64, 32, rfl⟩
  have hrun := hstart.exec [.acquire ⟨(), 16, false⟩, .acquire ⟨(), 16, false⟩, .submit 0, .giveUp 0, .writer .receive,
    .writer (.stage false none true)] (fun _ _ _ => trivial) rfl
  exact ⟨_, hrun, rfl, (released_once hrun).2.2.2.2.2.2 rfl (by decide)⟩

/-- **What an answer says about the files.**  A record that was acknowledged after its sync is among whatever a crash
leaves, and one that was refused is not in the files unless the log is poisoned. -/
theorem answers_recovered (h : (queuedLog config).Reachable s) :
    (∀ r ∈ s.writer.accepted, r.sync = true → (r.ticket, .appended) ∈ s.writer.responses →
      ∀ survivors, s.writer.durable ≤ survivors → r ∈ s.writer.written.take survivors) ∧
    (s.writer.fault = false → ∀ r ∈ s.writer.written, (r.ticket, .failed) ∉ s.writer.responses) := by
  have hcore := (charged_of_reachable h).writer.core
  refine ⟨fun r hr hsync hanswer survivors hle => ?_, fun hclean r hr hfailed => ?_⟩
  · exact take_subset_take_left _ hle (hcore.appended r hr hsync hanswer)
  · rcases hcore.failed r.ticket hfailed with hfault | hgone
    · rw [hclean] at hfault
      cases hfault
    · exact hgone r (Writer.mem_items_of_staged (mem_append_right _ hr)) rfl

/-- One record is written, synced and acknowledged. -/
theorem answers_recovered_synced : ∃ s : QueuedLog Unit, (queuedLog ⟨4, 64, 4⟩).Reachable s ∧
    ∀ survivors, 1 ≤ survivors → ⟨0, (), 16, true⟩ ∈ s.writer.written.take survivors := by
  have hrun := Lib.Machine.Reach.exec (M := queuedLog ⟨4, 64, 4⟩) (.start ⟨64, 32, rfl⟩) [.acquire ⟨(), 16, true⟩,
    .submit 0, .writer .receive, .writer (.stage false none true), .writer .flush, .writer (.write none),
    .writer (.sync true), .writer .answer] (fun _ _ _ => trivial) rfl
  exact ⟨_, hrun, (answers_recovered hrun).1 ⟨0, (), 16, true⟩ (.head _) rfl (.head _)⟩

end QueuedLog

end Ridstore.RecordLog
