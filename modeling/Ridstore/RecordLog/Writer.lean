import Mathlib.Algebra.Ring.Nat
import Mathlib.Data.List.Nodup
import Mathlib.Data.List.Perm.Basic

/-
# Ridstore.RecordLog.Writer — the goroutine that writes the log

`Append` hands a request to the writer and waits for its answer.  The writer stages requests into a buffer,
rotates the active segment when a record does not fit, writes the buffer with one call and syncs it when one
of its records asked for that.  Requests without a sync are answered when they are staged, the others after
the sync.  The first error after a record was staged, an error of a rotation or a panic poisons the log: the
waiting requests are answered with the error, the buffer is dropped and nothing is written any more.

The files are the list of their records over all segments, of which a part is known to be durable; a write
that fails may leave any of the first records of the buffer in the file.  A payload is any value; what
`Append` checks before it hands the request over is an immediate refusal.
-/

namespace Ridstore.RecordLog

variable {α : Type*}

/-! ## §1 — The state -/

/-- `BufferRecords`, `BufferBytes` and `QueueCapacity`. -/
structure WriterConfig where
  bufferRecords : Nat
  bufferBytes : Nat
  queueCapacity : Nat
  deriving DecidableEq, Repr

/-- `appendRequest`, with a ticket for its response channel. -/
structure AppendRequest (α : Type*) where
  ticket : Nat
  payload : α
  physical : Nat
  sync : Bool
  deriving DecidableEq, Repr

/-- An element of the queue of the writer. -/
inductive WriterRequest (α : Type*)
  | append (r : AppendRequest α)
  | stop
  deriving DecidableEq, Repr

/-- The response of `Append`. -/
inductive AppendResponse
  | appended
  | failed
  deriving DecidableEq, Repr

/-- Where the goroutine is: at the receive of `run`, inside of `stage`, in the collecting loop, in the parts of
`flush`, in `rejectOutstanding` after a panic, or at its end. -/
inductive WriterControl (α : Type*)
  | waiting
  | staging (r : AppendRequest α)
  | filling
  | writing
  | syncing
  | answering
  | draining
  | done
  deriving DecidableEq, Repr

/-- The writer with its queue and the files.  `issued` counts the calls of `Append`, and `accepted` is the
history of the requests that were handed over. -/
structure Writer (α : Type*) where
  requests : List (WriterRequest α)
  deferred : Option (WriterRequest α)
  pending : List (AppendRequest α)
  waiters : List (AppendRequest α)
  written : List (AppendRequest α)
  durable : Nat
  remaining : Nat
  fault : Bool
  closing : Bool
  control : WriterControl α
  issued : Nat
  accepted : List (AppendRequest α)
  responses : List (Nat × AppendResponse)
  deriving DecidableEq, Repr

/-- What the writer does next, with the outcomes of the file system. -/
inductive WriterEvent
  | receive
  | stage (cancelled : Bool) (rotation : Option Nat) (encoded : Bool)
  | collect
  | flush
  | write (failed : Option Nat)
  | sync (ok : Bool)
  | answer
  | panic (written : Nat)
  | drain
  | stop (ok : Bool)
  deriving DecidableEq, Repr

namespace Writer

variable (config : WriterConfig) (w : Writer α)

/-- The bytes of the buffer. -/
def bytes : Nat := (w.pending.map AppendRequest.physical).sum

def respond (ticket : Nat) (response : AppendResponse) : Writer α :=
  { w with responses := w.responses ++ [(ticket, response)] }

/-! ## §2 — The callers -/

/-- A request in the queue. -/
def handOver (r : AppendRequest α) : Writer α :=
  { w with requests := w.requests ++ [.append r], accepted := w.accepted ++ [r], issued := w.issued + 1 }

/-- `Append` hands its request over.  The terminal error it has looked at may have come up since. -/
def accept (payload : α) (physical : Nat) (sync : Bool) : Option (Writer α) :=
  if w.closing = false ∧ w.requests.length < config.queueCapacity then
    some (w.handOver ⟨w.issued, payload, physical, sync⟩)
  else none

/-- `Append` returns an error before it has handed its request over: a cancelled context, a payload that is
too large, a closed budget, the closing or the terminal error. -/
def refuse : Writer α := { w.respond w.issued .failed with issued := w.issued + 1 }

/-- `Close` sends the stop request. -/
def close : Option (Writer α) :=
  if w.closing = false ∧ w.requests.length < config.queueCapacity then
    some { w with closing := true, requests := w.requests ++ [.stop] }
  else none

/-! ## §3 — The goroutine -/

/-- The requests are answered with an error. -/
def rejectAll (rs : List (AppendRequest α)) : Writer α :=
  { w with responses := w.responses ++ rs.map fun r => (r.ticket, .failed) }

/-- **`poison`**: the first error stays; the waiting requests are answered with it and the buffer is dropped. -/
def poison : Writer α :=
  if w.fault then w else { w.rejectAll w.waiters with fault := true, pending := [], waiters := [] }

/-- `nextRequest`. -/
def nextRequest : Option (WriterRequest α × Writer α) :=
  match w.deferred, w.requests with
  | some request, _ => some (request, { w with deferred := none })
  | none, request :: rest => some (request, { w with requests := rest })
  | none, [] => none

/-- The head of `run`; after a fault everything is rejected.  A stop request is handled by `stop`. -/
def receive : Option (Writer α) :=
  match w.control, w.nextRequest with
  | .waiting, some (.append r, w') =>
    if w.fault then some (w'.rejectAll [r]) else some { w' with control := .staging r }
  | _, _ => none

/-- The end of `stage` when the request was rejected: the collecting loop goes on with what it has, and after a
fault the flush finds nothing. -/
def rejected (r : AppendRequest α) : Writer α :=
  { w.rejectAll [r] with control := if w.pending = [] then .waiting else .filling }

/-- The record goes into the buffer. -/
def reserve (r : AppendRequest α) : Writer α :=
  let w := { w with pending := w.pending ++ [r], control := .filling }
  if r.sync then { w with waiters := w.waiters ++ [r] } else w.respond r.ticket .appended

/-- **`stage`**: the context is cancelled; the record needs a rotation, which fails or gives another active
segment; its address or its encoding is an error; or it is staged. -/
def stage (cancelled : Bool) (rotation : Option Nat) (encoded : Bool) : Option (Writer α) :=
  match w.control with
  | .staging r =>
    if cancelled then some (w.rejected r)
    else if w.remaining < r.physical then
      match rotation with
      | none => some (w.poison.rejected r)
      | some remaining =>
        -- the footer of the old segment was synced
        let w := { w with durable := w.written.length, remaining := remaining }
        if encoded then some (w.reserve r) else some (w.poison.rejected r)
    else if encoded then some (w.reserve r) else some (w.poison.rejected r)
  | _ => none

/-- `canStage`. -/
def canStage (r : AppendRequest α) : Bool :=
  r.physical ≠ 0 && (w.pending = [] || (r.physical ≤ config.bufferBytes && w.bytes ≤ config.bufferBytes - r.physical))
    && (w.bytes ≤ w.remaining && r.physical ≤ w.remaining - w.bytes)

/-- The buffer takes more. -/
def collects : Prop := w.pending.length < config.bufferRecords ∧ w.bytes < config.bufferBytes

instance : Decidable (w.collects config) := inferInstanceAs (Decidable (_ ∧ _))

/-- A receive inside of the collecting loop. -/
def collect : Option (Writer α) :=
  match w.control, w.requests with
  | .filling, request :: rest =>
    if w.collects config then
      match request with
      | .stop => some { w with requests := rest, deferred := some .stop, control := .writing }
      | .append r =>
        if w.canStage config r then some { w with requests := rest, control := .staging r }
        else some { w with requests := rest, deferred := some (.append r), control := .writing }
    else none
  | _, _ => none

/-- The end of the collecting loop: the buffer is full, or there is nothing to receive. -/
def flush : Option (Writer α) :=
  match w.control with
  | .filling => if ¬ w.collects config ∨ w.requests = [] then some { w with control := .writing } else none
  | _ => none

/-- **The write of `flush`.**  A failure leaves some of the first records in the file and poisons the log. -/
def write (failed : Option Nat) : Option (Writer α) :=
  match w.control, failed with
  | .writing, some n => some { { w with written := w.written ++ w.pending.take n }.poison with control := .waiting }
  | .writing, none =>
    some { w with
      written := w.written ++ w.pending, pending := [], remaining := w.remaining - w.bytes
      control := if w.pending.any AppendRequest.sync then .syncing else .waiting }
  | _, _ => none

/-- **The sync of `flush`.** -/
def sync (ok : Bool) : Option (Writer α) :=
  match w.control with
  | .syncing =>
    if ok then some { w with durable := w.written.length, control := .answering }
    else some { w.poison with control := .waiting }
  | _ => none

/-- The next waiting request is answered after the sync. -/
def answer : Option (Writer α) :=
  match w.control, w.waiters with
  | .answering, r :: rest => some { w.respond r.ticket .appended with waiters := rest }
  | .answering, [] => some { w with control := .waiting }
  | _, _ => none

/-- The request that `stage` has in its hands. -/
def current : Option (AppendRequest α) :=
  match w.control with
  | .staging r => some r
  | _ => none

/-- `rejectOutstanding` up to its loop: the current and the deferred request are rejected; a deferred stop
request ends the goroutine. -/
def rejectOutstanding : Writer α :=
  let after := { w.rejectAll w.current.toList with deferred := none }
  match w.deferred with
  | none => { after with control := .draining }
  | some (.append r) => { after.rejectAll [r] with control := .draining }
  | some .stop => { after with control := .done }

/-- **A panic of the goroutine**; inside of the write some of the records may have reached the file. -/
def panic (written : Nat) : Option (Writer α) :=
  match w.control with
  | .draining | .done => none
  | .writing => some { w with written := w.written ++ w.pending.take written }.poison.rejectOutstanding
  | .waiting | .staging _ | .filling | .syncing | .answering => some w.poison.rejectOutstanding

/-- The loop of `rejectOutstanding`. -/
def drain : Option (Writer α) :=
  match w.control, w.requests with
  | .draining, .append r :: rest => some { w.rejectAll [r] with requests := rest }
  | .draining, .stop :: rest => some { w with requests := rest, control := .done }
  | _, _ => none

/-- **The stop request**: without a fault the segment is synced once more. -/
def stop (ok : Bool) : Option (Writer α) :=
  match w.control, w.nextRequest with
  | .waiting, some (.stop, w') =>
    if w.fault then some { w' with control := .done }
    else if ok then some { w' with durable := w'.written.length, control := .done }
    else some { w'.poison with control := .done }
  | _, _ => none

/-- **A step of the writer.** -/
def step : WriterEvent → Option (Writer α)
  | .receive => w.receive
  | .stage cancelled rotation encoded => w.stage cancelled rotation encoded
  | .collect => w.collect config
  | .flush => w.flush config
  | .write failed => w.write failed
  | .sync ok => w.sync ok
  | .answer => w.answer
  | .panic written => w.panic written
  | .drain => w.drain
  | .stop ok => w.stop ok

/-- The log is opened with the records that have survived; tickets go on. -/
def reopen (survivors remaining : Nat) : Writer α :=
  { requests := [], deferred := none, pending := [], waiters := []
    written := w.written.take survivors, durable := w.durable, remaining := remaining
    fault := false, closing := false, control := .waiting
    issued := w.issued, accepted := [], responses := [] }

/-- The log of a new store. -/
def fresh (remaining : Nat) : Writer α :=
  { requests := [], deferred := none, pending := [], waiters := [], written := [], durable := 0
    remaining := remaining, fault := false, closing := false, control := .waiting
    issued := 0, accepted := [], responses := [] }

end Writer

end Ridstore.RecordLog
