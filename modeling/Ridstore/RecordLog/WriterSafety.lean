import Ridstore.Lib.Transition
import Ridstore.RecordLog.Writer

/-
# Ridstore.RecordLog.WriterSafety — what the answers of `Append` mean

A request is in the queue, in the hands of the goroutine, in the buffer or in the files, and never in two of
these places; it only moves on.  A request with a sync that was answered with success is durable, and one
that was answered with an error either is nowhere any more or the log is poisoned.
-/

namespace Ridstore.RecordLog

open List Option

variable {α : Type*} {config : WriterConfig}

/-- The appends of an element of the queue. -/
def WriterRequest.appends : WriterRequest α → List (AppendRequest α)
  | .append r => [r]
  | .stop => []

/-- The control states in which the buffer is empty. -/
def WriterControl.settled : WriterControl α → Bool
  | .waiting | .draining | .done => true
  | .staging _ | .filling | .writing | .syncing | .answering => false

namespace Writer

variable {w w' : Writer α} {control : WriterControl α}

/-! ## §1 — The places of the requests -/

/-- The elements that the goroutine has not received. -/
def queued (w : Writer α) : List (WriterRequest α) := w.deferred.toList ++ w.requests

/-- The requests that are not staged. -/
def unstaged (w : Writer α) : List (AppendRequest α) :=
  w.current.toList ++ w.queued.flatMap WriterRequest.appends

/-- **What is in the files or may come there.** -/
def items (w : Writer α) : List (AppendRequest α) := w.unstaged ++ (w.pending ++ w.written)

/-- **The requests whose bytes the goroutine gives back**: a request that is rejected at the receive, the one that
`stage` stages or rejects, and after a panic the current, the deferred and the queued ones. -/
def freed (w : Writer α) : WriterEvent → List (AppendRequest α)
  | .receive =>
    match w.nextRequest with
    | some (.append r, _) => if w.fault then [r] else []
    | _ => []
  | .stage _ _ _ => w.current.toList
  | .panic _ => w.current.toList ++ w.deferred.toList.flatMap WriterRequest.appends
  | .drain => (w.requests.take 1).flatMap WriterRequest.appends
  | .collect | .flush | .write _ | .sync _ | .answer | .stop _ => []

/-- **A step of the writer**: the requests move on or are dropped, the files grow, and an answer is right. -/
structure Advances (w w' : Writer α) : Prop where
  items : ∃ dropped, w.items.Perm (w'.items ++ dropped)
  waiting : ∀ r ∈ w'.unstaged ++ w'.waiters, r ∈ w.unstaged ++ w.waiters
  written : w.written <+: w'.written
  durable : w.durable ≤ w'.durable ∧ w'.durable ≤ w'.written.length
  accepted : w'.accepted = w.accepted
  issued : w'.issued = w.issued
  fault : w.fault = true → w'.fault = true
  responses : ∃ new, w'.responses = w.responses ++ new ∧
    (∀ p ∈ new, ∃ r ∈ w.unstaged ++ w.waiters, r.ticket = p.1 ∧
      (p.2 = .appended → r.sync = true → r ∈ w'.written.take w'.durable) ∧
      (p.2 = .failed → w'.fault = true ∨ ∀ x ∈ w'.items, x.ticket ≠ p.1))

/-- **The requests and the answers.** -/
structure Core (w : Writer α) : Prop where
  nodup : (w.items.map AppendRequest.ticket).Nodup
  issued : ∀ r ∈ w.items, r.ticket < w.issued
  known : ∀ r ∈ w.unstaged ++ w.waiters, r ∈ w.accepted
  accepted : (w.accepted.map AppendRequest.ticket).Nodup
  acceptedIssued : ∀ r ∈ w.accepted, r.ticket < w.issued
  answeredIssued : ∀ p ∈ w.responses, p.1 < w.issued
  durable : w.durable ≤ w.written.length
  waiters : (w.waiters.map AppendRequest.ticket).Nodup ∧ ∀ r ∈ w.waiters, r.sync = true ∧ r ∈ w.pending ++ w.written
  faulted : w.fault = true → w.pending = [] ∧ w.waiters = []
  quiet : ∀ r ∈ w.unstaged ++ w.waiters, r.ticket ∉ w.responses.map Prod.fst
  appended : ∀ r ∈ w.accepted, r.sync = true → (r.ticket, .appended) ∈ w.responses → r ∈ w.written.take w.durable
  failed : ∀ t, (t, .failed) ∈ w.responses → w.fault = true ∨ ∀ r ∈ w.items, r.ticket ≠ t

/-- What the control state says about the buffer. -/
def Phased (w : Writer α) : Prop :=
  match w.control with
  | .waiting | .draining | .done => w.pending = [] ∧ w.waiters = []
  | .staging _ | .filling => w.fault = false ∧ w.deferred = none ∧ ∀ r ∈ w.waiters, r ∈ w.pending
  | .writing => w.fault = false ∧ ∀ r ∈ w.waiters, r ∈ w.pending
  | .syncing => w.pending = []
  | .answering => w.pending = [] ∧ ∀ r ∈ w.waiters, r ∈ w.written.take w.durable

variable {r : AppendRequest α}

theorem mem_items_of_unstaged (h : r ∈ w.unstaged) : r ∈ w.items := mem_append_left _ h

theorem mem_items_of_staged (h : r ∈ w.pending ++ w.written) : r ∈ w.items :=
  mem_append_right _ h

theorem mem_take_mono {l l' : List (AppendRequest α)} {n n' : Nat} (hl : l <+: l') (hn : n ≤ n')
    (hr : r ∈ l.take n) : r ∈ l'.take n' := by
  obtain ⟨more, rfl⟩ := hl
  refine take_subset_take_left _ hn ?_
  rcases Nat.le_total n l.length with hle | hle
  · rw [take_append_of_le_length hle]
    exact hr
  · rw [take_append, mem_append]
    exact .inl hr

namespace Advances

theorem subset (h : Advances w w') (hr : r ∈ w'.items) : r ∈ w.items := by
  obtain ⟨dropped, hperm⟩ := h.items
  exact hperm.mem_iff.mpr (mem_append_left _ hr)

theorem mem_durable (h : Advances w w') (hr : r ∈ w.written.take w.durable) : r ∈ w'.written.take w'.durable :=
  mem_take_mono h.written h.durable.1 hr

theorem trans {w'' : Writer α} (h : Advances w w') (h' : Advances w' w'') : Advances w w'' where
  items := by
    obtain ⟨dropped, hperm⟩ := h.items
    obtain ⟨dropped', hperm'⟩ := h'.items
    refine ⟨dropped' ++ dropped, hperm.trans ?_⟩
    rw [← append_assoc]
    exact hperm'.append_right _
  waiting := fun r hr => h.waiting r (h'.waiting r hr)
  written := h.written.trans h'.written
  durable := ⟨Nat.le_trans h.durable.1 h'.durable.1, h'.durable.2⟩
  accepted := h'.accepted.trans h.accepted
  issued := h'.issued.trans h.issued
  fault := fun hfault => h'.fault (h.fault hfault)
  responses := by
    obtain ⟨new, hnew, hright⟩ := h.responses
    obtain ⟨new', hnew', hright'⟩ := h'.responses
    refine ⟨new ++ new', by rw [hnew', hnew, append_assoc], fun p hp => ?_⟩
    rcases mem_append.mp hp with hfirst | hsecond
    · obtain ⟨r, hr, hticket, hdurable, hfailed⟩ := hright p hfirst
      refine ⟨r, hr, hticket, fun ha hs => h'.mem_durable (hdurable ha hs), fun hf => ?_⟩
      exact (hfailed hf).imp h'.fault fun hnowhere x hx => hnowhere x (h'.subset hx)
    · obtain ⟨r, hr, hticket, hrest⟩ := hright' p hsecond
      exact ⟨r, h.waiting r hr, hticket, hrest⟩

/-- A step without an answer. -/
theorem silent (h : w'.responses = w.responses) : ∃ new, w'.responses = w.responses ++ new ∧
    (∀ p ∈ new, ∃ r ∈ w.unstaged ++ w.waiters, r.ticket = p.1 ∧
      (p.2 = .appended → r.sync = true → r ∈ w'.written.take w'.durable) ∧
      (p.2 = .failed → w'.fault = true ∨ ∀ x ∈ w'.items, x.ticket ≠ p.1)) :=
  ⟨[], by rw [h, append_nil], nofun⟩

theorem refl (h : w.durable ≤ w.written.length) : Advances w w where
  items := ⟨[], by rw [append_nil]⟩
  waiting := fun _ => id
  written := prefix_refl _
  durable := ⟨Nat.le_refl _, h⟩
  accepted := rfl
  issued := rfl
  fault := id
  responses := silent rfl

end Advances

namespace Core

theorem mem_items (h : Core w) (hr : r ∈ w.unstaged ++ w.waiters) : r ∈ w.items := by
  rcases mem_append.mp hr with hun | hwait
  · exact mem_items_of_unstaged hun
  · exact mem_items_of_staged (h.waiters.2 r hwait).2

/-- **The step lemma**, with what has to be said about the requests that wait for an answer. -/
theorem advance (h : Core w) (hadv : Advances w w') (hwaiters : (w'.waiters.map AppendRequest.ticket).Nodup)
    (hplaced : ∀ r ∈ w'.waiters, r.sync = true ∧ r ∈ w'.pending ++ w'.written)
    (hfaulted : w'.fault = true → w'.pending = [] ∧ w'.waiters = [])
    (hquiet : ∀ r ∈ w'.unstaged ++ w'.waiters, r.ticket ∉ w'.responses.map Prod.fst) : Core w' := by
  obtain ⟨dropped, hperm⟩ := hadv.items
  obtain ⟨new, hresponses, hright⟩ := hadv.responses
  refine ⟨?_, ?_, ?_, ?_, ?_, ?_, hadv.durable.2, ⟨hwaiters, hplaced⟩, hfaulted, hquiet, ?_, ?_⟩
  · have hnodup := (hperm.map AppendRequest.ticket).nodup_iff.mp h.nodup
    rw [map_append] at hnodup
    exact (nodup_append.mp hnodup).1
  · intro r hr
    rw [hadv.issued]
    exact h.issued r (hadv.subset hr)
  · intro r hr
    rw [hadv.accepted]
    exact h.known r (hadv.waiting r hr)
  · rw [hadv.accepted]
    exact h.accepted
  · rw [hadv.accepted, hadv.issued]
    exact h.acceptedIssued
  · intro p hp
    rw [hadv.issued]
    rw [hresponses, mem_append] at hp
    rcases hp with hold | hnew
    · exact h.answeredIssued p hold
    · obtain ⟨r, hr, hticket, -⟩ := hright p hnew
      exact hticket ▸ h.issued r (h.mem_items hr)
  · intro r hr hsync hanswer
    rw [hadv.accepted] at hr
    rw [hresponses, mem_append] at hanswer
    rcases hanswer with hold | hin
    · exact hadv.mem_durable (h.appended r hr hsync hold)
    · obtain ⟨x, hx, hticket, hdurable, -⟩ := hright _ hin
      obtain rfl : x = r := inj_on_of_nodup_map h.accepted (h.known x hx) hr hticket
      exact hdurable rfl hsync
  · intro t ht
    rw [hresponses, mem_append] at ht
    rcases ht with hold | hin
    · rcases h.failed t hold with hfault | hnowhere
      · exact .inl (hadv.fault hfault)
      · exact .inr fun r hr => hnowhere r (hadv.subset hr)
    · obtain ⟨x, -, -, -, hfailed⟩ := hright _ hin
      exact hfailed rfl

/-- A request that is not staged is not in the buffer or the files. -/
theorem unstaged_ne (h : Core w) {r x : AppendRequest α} (hr : r ∈ w.unstaged) (hx : x ∈ w.pending ++ w.written) :
    r.ticket ≠ x.ticket := by
  have hnodup := h.nodup
  rw [items, map_append] at hnodup
  exact (nodup_append.mp hnodup).2.2 _ (mem_map_of_mem hr) _ (mem_map_of_mem hx)

/-- What waits for an answer has none, also when others get one. -/
theorem quiet_append (h : Core w) {new : List (Nat × AppendResponse)} (hr : r ∈ w.unstaged ++ w.waiters)
    (hnew : ∀ p ∈ new, p.1 ≠ r.ticket) : r.ticket ∉ (w.responses ++ new).map Prod.fst := by
  intro hin
  rw [map_append, mem_append] at hin
  rcases hin with hold | hlast
  · exact h.quiet r hr hold
  · obtain ⟨p, hp, heq⟩ := mem_map.mp hlast
    exact hnew p hp heq

end Core

/-! ## §2 — What leaves the queue -/

theorem nextRequest_eq_some {q : WriterRequest α} (h : w.nextRequest = some (q, w')) :
    ∃ requests, w' = { w with deferred := none, requests := requests } ∧ w.queued = q :: requests := by
  unfold nextRequest at h
  split at h
  next request hdeferred =>
    obtain ⟨rfl, rfl⟩ := Prod.mk.injEq .. ▸ Option.some.inj h
    exact ⟨w.requests, rfl, by rw [queued, hdeferred]; rfl⟩
  next request rest hdeferred hrequests =>
    obtain ⟨rfl, rfl⟩ := Prod.mk.injEq .. ▸ Option.some.inj h
    refine ⟨rest, by rw [← hdeferred], ?_⟩
    rw [queued, hdeferred, hrequests]
    rfl
  next => cases h

/-- The places of the requests in a known control state. -/
theorem unstaged_at (h : w.control = control) : w.unstaged = unstaged { w with control := control } := by
  subst h
  rfl

theorem current_at (h : w.control = control) (hnone : ∀ r, control ≠ .staging r) : w.current = none := by
  unfold Writer.current
  split
  next r hcontrol => exact absurd (h.symm.trans hcontrol) (hnone r)
  next => rfl

theorem handOver_unstaged (w : Writer α) (r : AppendRequest α) : (w.handOver r).unstaged = w.unstaged ++ [r] := by
  have hqueued : (w.handOver r).queued = w.queued ++ [.append r] := (append_assoc _ _ _).symm
  rw [unstaged, hqueued, flatMap_append, unstaged, append_assoc]
  rfl

theorem close_unstaged (hs : w.close config = some w') : w'.unstaged = w.unstaged := by
  obtain ⟨-, heq⟩ := ite_none_right_eq_some.mp hs
  cases heq
  show w.current.toList ++ (w.deferred.toList ++ (w.requests ++ [WriterRequest.stop])).flatMap WriterRequest.appends = _
  simp [unstaged, queued, WriterRequest.appends]

/-- What is not staged, when the goroutine has no request in its hands. -/
theorem unstaged_of_control {control : WriterControl α} (h : w.control = control) (hnone : ∀ r, control ≠ .staging r) :
    w.unstaged = w.queued.flatMap WriterRequest.appends := by
  rw [unstaged, current_at h hnone]
  rfl

theorem queued_poison (w : Writer α) : w.poison.queued = w.queued := by
  unfold poison
  split <;> rfl

theorem unstaged_poison_with (w : Writer α) (control : WriterControl α) (hnone : ∀ r, control ≠ .staging r) :
    unstaged { w.poison with control := control } = w.queued.flatMap WriterRequest.appends := by
  rw [← queued_poison, unstaged_of_control rfl hnone]
  rfl

theorem unstaged_rejected (w : Writer α) (r : AppendRequest α) :
    (w.rejected r).unstaged = w.queued.flatMap WriterRequest.appends := by
  unfold rejected
  split <;> rfl

theorem unstaged_reserve (w : Writer α) (r : AppendRequest α) :
    (w.reserve r).unstaged = w.queued.flatMap WriterRequest.appends := by
  unfold reserve
  split <;> rfl

theorem unstaged_stage {cancelled encoded : Bool} {rotation : Option Nat}
    (hs : w.stage cancelled rotation encoded = some w') :
    w'.unstaged = w.queued.flatMap WriterRequest.appends := by
  unfold stage at hs
  split at hs
  next r hcontrol =>
    have hpoisoned (v : Writer α) : (v.poison.rejected r).unstaged = v.queued.flatMap WriterRequest.appends := by
      rw [unstaged_rejected, queued_poison]
    split at hs
    · cases hs
      exact unstaged_rejected w r
    split at hs
    · split at hs
      · cases hs
        exact hpoisoned w
      · split at hs
        · cases hs
          exact unstaged_reserve _ r
        · cases hs
          exact hpoisoned _
    · split at hs
      · cases hs
        exact unstaged_reserve w r
      · cases hs
        exact hpoisoned w
  next => cases hs

theorem freed_receive (hs : w.receive = some w') : w.unstaged = w.freed .receive ++ w'.unstaged := by
  unfold receive at hs
  split at hs
  next r w₁ hcontrol hnext =>
    obtain ⟨requests, rfl, hqueued⟩ := nextRequest_eq_some hnext
    rw [unstaged, hqueued, current, hcontrol, freed, hnext]
    split at hs
    next hfault =>
      cases hs
      simp [unstaged, queued, current, rejectAll, hcontrol, hfault, WriterRequest.appends]
    next hfault =>
      cases hs
      simp [unstaged, queued, current, hfault, WriterRequest.appends]
  next => cases hs

theorem freed_collect (hfilling : w.control = .filling → w.deferred = none) (hs : w.collect config = some w') :
    w.unstaged = w'.unstaged := by
  unfold collect at hs
  split at hs
  next request rest hcontrol hrequests =>
    have hdeferred := hfilling hcontrol
    obtain ⟨-, hs⟩ := ite_none_right_eq_some.mp hs
    have hun : w.unstaged = (request :: rest).flatMap WriterRequest.appends := by
      rw [unstaged_at hcontrol, hdeferred, hrequests]
      rfl
    rw [hun]
    split at hs
    · cases hs
      rfl
    · split at hs
      · cases hs
        rw [hdeferred]
        rfl
      · cases hs
        rfl
  next => cases hs

/-- `rejectOutstanding` gives back the bytes of the current and of the deferred request. -/
theorem freed_rejectOutstanding (w : Writer α) (n : Nat) :
    w.unstaged = w.freed (.panic n) ++ w.rejectOutstanding.unstaged := by
  unfold rejectOutstanding
  split
  all_goals
    next hdeferred => simp [unstaged, queued, current, freed, rejectAll, hdeferred, WriterRequest.appends]

theorem freed_panic {n : Nat} (hs : w.panic n = some w') : w.unstaged = w.freed (.panic n) ++ w'.unstaged := by
  have hpoison (v : Writer α) : v.unstaged = v.freed (.panic n) ++ v.poison.rejectOutstanding.unstaged := by
    have hrejected := freed_rejectOutstanding v.poison n
    unfold poison at hrejected ⊢
    split at hrejected
    next hfault => rwa [if_pos hfault]
    next hfault => rwa [if_neg hfault]
  unfold panic at hs
  split at hs
  · cases hs
  · cases hs
  · cases hs
    exact hpoison { w with written := w.written ++ w.pending.take n }
  all_goals
    cases hs
    exact hpoison w

theorem freed_drain (hs : w.drain = some w') : w.unstaged.Perm (w.freed .drain ++ w'.unstaged) := by
  unfold drain at hs
  split at hs
  next r rest hcontrol hrequests =>
    cases hs
    simp [unstaged, queued, current, freed, rejectAll, hcontrol, hrequests, WriterRequest.appends]
  next rest hcontrol hrequests =>
    cases hs
    simp [unstaged, queued, current, freed, hcontrol, hrequests, WriterRequest.appends]
  next => cases hs

theorem freed_stop {ok : Bool} (hs : w.stop ok = some w') : w.unstaged = w'.unstaged := by
  unfold stop at hs
  split at hs
  next w₁ hcontrol hnext =>
    obtain ⟨requests, rfl, hqueued⟩ := nextRequest_eq_some hnext
    rw [unstaged_of_control hcontrol nofun, hqueued]
    split at hs
    · cases hs
      rfl
    split at hs
    · cases hs
      rfl
    · cases hs
      rw [unstaged_poison_with _ .done nofun]
      rfl
  next => cases hs

theorem freed_flush (hs : w.flush config = some w') : w.unstaged = w'.unstaged := by
  unfold flush at hs
  split at hs
  next hcontrol =>
    obtain ⟨-, heq⟩ := ite_none_right_eq_some.mp hs
    cases heq
    exact unstaged_of_control hcontrol nofun
  next => cases hs

theorem freed_write {failed : Option Nat} (hs : w.write failed = some w') : w.unstaged = w'.unstaged := by
  unfold write at hs
  split at hs
  next hcontrol =>
    cases hs
    rw [unstaged_of_control hcontrol nofun, unstaged_poison_with _ .waiting nofun]
    rfl
  next hcontrol =>
    cases hs
    rw [unstaged_of_control hcontrol nofun]
    split <;> rfl
  next => cases hs

theorem freed_sync {ok : Bool} (hs : w.sync ok = some w') : w.unstaged = w'.unstaged := by
  unfold sync at hs
  split at hs
  next hcontrol =>
    rw [unstaged_of_control hcontrol nofun]
    split at hs
    · cases hs
      rfl
    · cases hs
      rw [unstaged_poison_with _ .waiting nofun]
  next => cases hs

theorem freed_answer (hs : w.answer = some w') : w.unstaged = w'.unstaged := by
  unfold answer at hs
  split at hs
  next hcontrol _ =>
    cases hs
    rfl
  next hcontrol _ =>
    cases hs
    exact unstaged_of_control hcontrol nofun
  next => cases hs

/-! ## §3 — The steps on the requests -/

/-- The requests and the answers are kept right by a step. -/
def Keeps (w w' : Writer α) : Prop := Core w' ∧ Advances w w'

variable {w'' : Writer α}

theorem Keeps.trans (h : Keeps w w') (h' : Keeps w' w'') : Keeps w w'' :=
  ⟨h'.1, h.2.trans h'.2⟩

namespace Core

variable {requests : List (WriterRequest α)} {deferred : Option (WriterRequest α)} {remaining : Nat} {closing : Bool}

/-- The requests that are not staged change their place only. -/
theorem moves (h : Core w)
    (hun : w.unstaged.Perm (unstaged { w with requests := requests, deferred := deferred, control := control })) :
    Keeps w { w with
      requests := requests, deferred := deferred, control := control, remaining := remaining, closing := closing } := by
  have hwaiting : ∀ r ∈ unstaged { w with requests := requests, deferred := deferred, control := control } ++ w.waiters,
      r ∈ w.unstaged ++ w.waiters := fun r hr =>
    mem_append.mpr ((mem_append.mp hr).imp_left hun.mem_iff.mpr)
  have hadv : Advances w { w with
      requests := requests, deferred := deferred, control := control, remaining := remaining, closing := closing } :=
    { Advances.refl h.durable with
      items := ⟨[], by rw [append_nil]; exact hun.append_right _⟩
      waiting := hwaiting
      responses := Advances.silent rfl }
  exact ⟨h.advance hadv h.waiters.1 h.waiters.2 h.faulted fun r hr => h.quiet r (hwaiting r hr), hadv⟩

/-- Requests that are not staged are rejected. -/
theorem rejects (h : Core w) {rs : List (AppendRequest α)}
    (hun : w.unstaged.Perm
      (rs ++ unstaged { w with requests := requests, deferred := deferred, control := control })) :
    Keeps w { w.rejectAll rs with requests := requests, deferred := deferred, control := control } := by
  have hperm : w.items.Perm
      (rs ++ items { w with requests := requests, deferred := deferred, control := control }) := by
    rw [items, items, ← append_assoc rs]
    exact hun.append_right _
  have hgone : ∀ r ∈ rs, ∀ x ∈ items { w with requests := requests, deferred := deferred, control := control },
      r.ticket ≠ x.ticket := by
    have hnodup := (hperm.map AppendRequest.ticket).nodup_iff.mp h.nodup
    rw [map_append] at hnodup
    exact fun r hr x hx => (nodup_append.mp hnodup).2.2 _ (mem_map_of_mem hr) _ (mem_map_of_mem hx)
  have hwaiting : ∀ x ∈ unstaged { w with requests := requests, deferred := deferred, control := control } ++ w.waiters,
      x ∈ w.unstaged ++ w.waiters := fun x hx =>
    mem_append.mpr ((mem_append.mp hx).imp_left fun hin => hun.mem_iff.mpr (mem_append_right _ hin))
  have hadv : Advances w { w.rejectAll rs with requests := requests, deferred := deferred, control := control } :=
    { Advances.refl h.durable with
      items := ⟨rs, hperm.trans perm_append_comm⟩
      waiting := hwaiting
      responses := by
        refine ⟨_, rfl, fun p hp => ?_⟩
        obtain ⟨r, hr, rfl⟩ := mem_map.mp hp
        exact ⟨r, mem_append_left _ (hun.mem_iff.mpr (mem_append_left _ hr)), rfl, nofun,
          fun _ => .inr fun x hx => (hgone r hr x hx).symm⟩ }
  refine ⟨h.advance hadv h.waiters.1 h.waiters.2 h.faulted fun x hx => ?_, hadv⟩
  refine h.quiet_append (hwaiting x hx) fun p hp => ?_
  obtain ⟨r, hr, rfl⟩ := mem_map.mp hp
  rcases mem_append.mp hx with hin | hin
  · exact hgone r hr x (mem_items_of_unstaged hin)
  · exact hgone r hr x (mem_items_of_staged (h.waiters.2 x hin).2)

/-- **`poison`** answers what waits and drops the buffer. -/
theorem poison (h : Core w) : Keeps w w.poison := by
  unfold Writer.poison
  split
  next => exact ⟨h, .refl h.durable⟩
  next =>
    have hwaiting : ∀ r ∈ w.unstaged ++ [], r ∈ w.unstaged := fun r hr => append_nil w.unstaged ▸ hr
    have hadv : Advances w { w.rejectAll w.waiters with fault := true, pending := [], waiters := [] } :=
      { Advances.refl h.durable with
        items := by
          refine ⟨w.pending, ?_⟩
          show (w.unstaged ++ (w.pending ++ w.written)).Perm ((w.unstaged ++ ([] ++ w.written)) ++ w.pending)
          rw [nil_append, append_assoc]
          exact (perm_append_comm).append_left _
        waiting := fun r hr => mem_append_left _ (hwaiting r hr)
        fault := fun _ => rfl
        responses := by
          refine ⟨w.waiters.map fun r => (r.ticket, .failed), rfl, fun p hp => ?_⟩
          obtain ⟨r, hr, rfl⟩ := mem_map.mp hp
          exact ⟨r, mem_append_right _ hr, rfl, nofun, fun _ => .inl rfl⟩ }
    refine ⟨h.advance hadv nodup_nil nofun (fun _ => ⟨rfl, rfl⟩) ?_, hadv⟩
    intro r hr
    have hun := hwaiting r hr
    refine h.quiet_append (mem_append_left _ hun) fun p hp => ?_
    obtain ⟨x, hx, rfl⟩ := mem_map.mp hp
    exact (h.unstaged_ne hun (h.waiters.2 x hx).2).symm

/-- Everything that was written is durable. -/
theorem synced (h : Core w) (control : WriterControl α) (hcurrent : { w with control := control }.unstaged = w.unstaged)
    (remaining : Nat) :
    Keeps w { w with durable := w.written.length, remaining := remaining, control := control } := by
  obtain ⟨hcore, hmoved⟩ : Keeps w { w with remaining := remaining, control := control } :=
    h.moves (hcurrent ▸ List.Perm.refl _)
  have hadv : Advances { w with remaining := remaining, control := control }
      { w with durable := w.written.length, remaining := remaining, control := control } :=
    { Advances.refl hcore.durable with durable := ⟨h.durable, Nat.le_refl _⟩, responses := Advances.silent rfl }
  exact ⟨hcore.advance hadv hcore.waiters.1 hcore.waiters.2 hcore.faulted hcore.quiet, hmoved.trans hadv⟩

/-- The first records of the buffer are in the files. -/
theorem writes (h : Core w) (n : Nat) :
    Keeps w { w with written := w.written ++ w.pending.take n, pending := w.pending.drop n } := by
  have hperm : (w.pending ++ w.written).Perm (w.pending.drop n ++ (w.written ++ w.pending.take n)) := by
    conv_lhs => rw [← take_append_drop n w.pending, append_assoc]
    refine perm_append_comm.trans ?_
    rw [append_assoc]
  have hadv : Advances w { w with written := w.written ++ w.pending.take n, pending := w.pending.drop n } :=
    { Advances.refl h.durable with
      items := ⟨[], by rw [append_nil]; exact hperm.append_left _⟩
      written := prefix_append _ _
      durable := by
        refine ⟨Nat.le_refl _, ?_⟩
        rw [length_append]
        exact Nat.le_add_right_of_le h.durable
      responses := Advances.silent rfl }
  refine ⟨h.advance hadv h.waiters.1 (fun r hr => ?_) (fun hfault => ?_) h.quiet, hadv⟩
  · exact (h.waiters.2 r hr).imp_right hperm.mem_iff.mp
  · obtain ⟨hpending, hwaiters⟩ := h.faulted hfault
    refine ⟨?_, hwaiters⟩
    rw [hpending, drop_nil]

/-- **A waiting request that is durable is answered.** -/
theorem answers (h : Core w) {rest : List (AppendRequest α)} (hwaiters : w.waiters = r :: rest)
    (hdurable : r ∈ w.written.take w.durable) : Keeps w { w.respond r.ticket .appended with waiters := rest } := by
  have hnodup := h.waiters.1
  rw [hwaiters, map_cons, nodup_cons] at hnodup
  have hrest : ∀ x ∈ rest, x ∈ w.waiters := fun x hx => hwaiters ▸ mem_cons_of_mem _ hx
  have hr : r ∈ w.waiters := hwaiters ▸ mem_cons_self
  have hwaiting : ∀ x ∈ w.unstaged ++ rest, x ∈ w.unstaged ++ w.waiters := fun x hx =>
    mem_append.mpr ((mem_append.mp hx).imp_right (hrest x))
  have hadv : Advances w { w.respond r.ticket .appended with waiters := rest } :=
    { Advances.refl h.durable with
      waiting := hwaiting
      responses := by
        refine ⟨[(r.ticket, .appended)], rfl, fun p hp => ?_⟩
        obtain rfl := mem_singleton.mp hp
        exact ⟨r, mem_append_right _ hr, rfl, fun _ _ => hdurable, nofun⟩ }
  refine ⟨h.advance hadv hnodup.2 (fun x hx => h.waiters.2 x (hrest x hx)) ?_ fun x hx => ?_, hadv⟩
  · intro hfault
    have hnone := (h.faulted hfault).2
    rw [hwaiters] at hnone
    exact absurd hnone (cons_ne_nil _ _)
  · refine h.quiet_append (hwaiting x hx) fun p hp heq => ?_
    rw [mem_singleton.mp hp] at heq
    rcases mem_append.mp hx with hin | hin
    · exact h.unstaged_ne hin (h.waiters.2 r hr).2 heq.symm
    · exact hnodup.1 (mem_map.mpr ⟨x, hin, heq.symm⟩)

/-- **The current request is staged**: with a sync it waits, without one it is answered. -/
theorem reserves (h : Core w) (hcontrol : w.control = .staging r) (hfault : w.fault = false) :
    Keeps w (w.reserve r) := by
  have hun : w.unstaged = r :: w.queued.flatMap WriterRequest.appends := by
    rw [unstaged, current, hcontrol]
    rfl
  have hmem : r ∈ w.unstaged := by rw [hun]; exact mem_cons_self
  have hperm : w.items.Perm (items { w with pending := w.pending ++ [r], control := .filling }) := by
    show (w.unstaged ++ (w.pending ++ w.written)).Perm
      (w.queued.flatMap WriterRequest.appends ++ ((w.pending ++ [r]) ++ w.written))
    rw [hun, cons_append, append_assoc w.pending]
    refine perm_middle.symm.trans ?_
    exact (perm_middle.symm).append_left _
  have hother : ∀ x ∈ w.queued.flatMap WriterRequest.appends ++ w.waiters, x ∈ w.unstaged ++ w.waiters ∧
      r.ticket ≠ x.ticket := by
    intro x hx
    rcases mem_append.mp hx with hin | hin
    · have hnodup := h.nodup
      rw [items, hun, cons_append, map_cons, nodup_cons, map_append] at hnodup
      refine ⟨mem_append_left _ (hun ▸ mem_cons_of_mem _ hin), fun heq => ?_⟩
      exact hnodup.1 (heq ▸ mem_append_left _ (mem_map_of_mem hin))
    · exact ⟨mem_append_right _ hin, h.unstaged_ne hmem (h.waiters.2 x hin).2⟩
  have hplaced : ∀ x ∈ w.waiters, x.sync = true ∧ x ∈ (w.pending ++ [r]) ++ w.written := fun x hx =>
    (h.waiters.2 x hx).imp_right fun hin =>
      mem_append.mpr ((mem_append.mp hin).imp_left (mem_append_left _))
  have hclean : w.fault ≠ true := by
    rw [hfault]
    exact nofun
  unfold Writer.reserve
  by_cases hsync : r.sync = true
  · rw [if_pos hsync]
    have hwaiting : ∀ x ∈ w.queued.flatMap WriterRequest.appends ++ (w.waiters ++ [r]), x ∈ w.unstaged ++ w.waiters := by
      intro x hx
      rw [← append_assoc, mem_append, mem_singleton] at hx
      rcases hx with hin | rfl
      · exact (hother x hin).1
      · exact mem_append_left _ hmem
    have hadv : Advances w { w with
        pending := w.pending ++ [r], control := .filling, waiters := w.waiters ++ [r] } :=
      { Advances.refl h.durable with
        items := ⟨[], by rw [append_nil]; exact hperm⟩
        waiting := hwaiting
        responses := Advances.silent rfl }
    refine ⟨h.advance hadv ?_ ?_ (fun hf => absurd hf hclean) fun x hx => h.quiet x (hwaiting x hx), hadv⟩
    · rw [map_append]
      refine Lib.nodup_snoc h.waiters.1 fun hin => ?_
      obtain ⟨x, hx, hsame⟩ := mem_map.mp hin
      exact h.unstaged_ne hmem (h.waiters.2 x hx).2 hsame.symm
    · intro x hx
      rcases Lib.mem_snoc.mp hx with hold | rfl
      · exact hplaced x hold
      · exact ⟨hsync, mem_append_left _ (mem_append_right _ mem_cons_self)⟩
  · rw [if_neg hsync]
    have hadv : Advances w { w.respond r.ticket .appended with pending := w.pending ++ [r], control := .filling } :=
      { Advances.refl h.durable with
        items := ⟨[], by rw [append_nil]; exact hperm⟩
        waiting := fun x hx => (hother x hx).1
        responses := by
          refine ⟨[(r.ticket, .appended)], rfl, fun p hp => ?_⟩
          obtain rfl := mem_singleton.mp hp
          exact ⟨r, mem_append_left _ hmem, rfl, fun _ hs => absurd hs hsync, nofun⟩ }
    refine ⟨h.advance hadv h.waiters.1 hplaced (fun hf => absurd hf hclean) fun x hx => ?_, hadv⟩
    refine h.quiet_append (hother x hx).1 fun p hp => ?_
    rw [mem_singleton.mp hp]
    exact (hother x hx).2

end Core

/-! ## §4 — The steps of the goroutine -/

/-- **The invariant of the writer.** -/
structure Inv (w : Writer α) : Prop where
  core : Core w
  phased : Phased w

theorem poison_control (w : Writer α) : w.poison.control = w.control := by
  unfold poison
  split <;> rfl

theorem poison_fault (w : Writer α) : w.poison.fault = true := by
  unfold poison
  split
  next h => exact h
  next => rfl

/-- After the poisoning the buffer is empty. -/
theorem Keeps.poisoned (h : Keeps w w.poison) : w.poison.pending = [] ∧ w.poison.waiters = [] :=
  h.1.faulted w.poison_fault

theorem Keeps.inv (h : Keeps w w') (hphased : Phased w') : Inv w' ∧ Advances w w' := ⟨⟨h.1, hphased⟩, h.2⟩

theorem Keeps.andThen (h : Keeps w w') (h' : Inv w'' ∧ Advances w' w'') : Inv w'' ∧ Advances w w'' :=
  ⟨h'.1, h.2.trans h'.2⟩

namespace Inv

/-- What the buffer is like in a known control state. -/
theorem phased_at (h : Inv w) (hcontrol : w.control = control) : Phased { w with control := control } := by
  subst hcontrol
  exact h.phased

/-- The current request is rejected. -/
theorem rejected (h : Core w) (hcontrol : w.control = .staging r)
    (hphase : w.pending = [] ∧ w.waiters = [] ∨ w.fault = false ∧ w.deferred = none ∧ ∀ x ∈ w.waiters, x ∈ w.pending) :
    Inv (w.rejected r) ∧ Advances w (w.rejected r) := by
  have hun : w.unstaged = [r] ++ (w.rejected r).unstaged := by
    rw [unstaged_rejected, unstaged_at hcontrol]
    rfl
  refine Keeps.inv (h.rejects (.of_eq hun)) ?_
  unfold Writer.rejected
  by_cases hempty : w.pending = []
  · have hwaiters : w.waiters = [] := by
      rcases hphase with ⟨-, hwaiters⟩ | ⟨-, -, hsub⟩
      · exact hwaiters
      · exact eq_nil_iff_forall_not_mem.mpr fun x hx => absurd (hempty ▸ hsub x hx) not_mem_nil
    rw [if_pos hempty]
    exact ⟨hempty, hwaiters⟩
  · rw [if_neg hempty]
    exact hphase.resolve_left fun hboth => hempty hboth.1

theorem receive (h : Inv w) (hs : w.receive = some w') : Inv w' ∧ Advances w w' := by
  have hun := freed_receive hs
  unfold Writer.receive at hs
  split at hs
  next r w₁ hcontrol hnext =>
    obtain ⟨hpending, hwaiters⟩ := h.phased_at hcontrol
    obtain ⟨requests, rfl, -⟩ := nextRequest_eq_some hnext
    rw [freed, hnext] at hun
    split at hs
    next hfault =>
      cases hs
      rw [hfault] at hun
      refine Keeps.inv (h.core.rejects (.of_eq hun)) ?_
      rw [hcontrol]
      exact ⟨hpending, hwaiters⟩
    next hfault =>
      cases hs
      rw [Bool.eq_false_iff.mpr hfault] at hun
      refine Keeps.inv (h.core.moves (.of_eq hun)) ⟨Bool.eq_false_iff.mpr hfault, rfl, fun x hx => ?_⟩
      have hx' : x ∈ w.waiters := hx
      rw [hwaiters] at hx'
      exact absurd hx' not_mem_nil
  next => cases hs

theorem reserve (h : Core w) (hcontrol : w.control = .staging r) (hfault : w.fault = false)
    (hdeferred : w.deferred = none) (hwaiters : ∀ x ∈ w.waiters, x ∈ w.pending) :
    Inv (w.reserve r) ∧ Advances w (w.reserve r) := by
  refine (h.reserves hcontrol hfault).inv ?_
  unfold Writer.reserve Phased
  by_cases hsync : r.sync = true
  · rw [if_pos hsync]
    refine ⟨hfault, hdeferred, fun x hx => ?_⟩
    rcases mem_append.mp hx with hold | hlast
    · exact mem_append_left _ (hwaiters x hold)
    · exact mem_append_right _ hlast
  · rw [if_neg hsync]
    exact ⟨hfault, hdeferred, fun x hx => mem_append_left _ (hwaiters x hx)⟩

theorem rejectPoisoned (h : Core w) (hcontrol : w.control = .staging r) :
    Inv (w.poison.rejected r) ∧ Advances w (w.poison.rejected r) :=
  h.poison.andThen (rejected h.poison.1 (w.poison_control.trans hcontrol) (.inl h.poison.poisoned))

theorem stage (h : Inv w) {cancelled encoded : Bool} {rotation : Option Nat}
    (hs : w.stage cancelled rotation encoded = some w') : Inv w' ∧ Advances w w' := by
  unfold Writer.stage at hs
  split at hs
  next r hcontrol =>
    obtain ⟨hfault, hdeferred, hwaiters⟩ := h.phased_at hcontrol
    split at hs
    next =>
      cases hs
      exact rejected h.core hcontrol (.inr ⟨hfault, hdeferred, hwaiters⟩)
    next =>
      split at hs
      next =>
        split at hs
        next =>
          cases hs
          exact rejectPoisoned h.core hcontrol
        next remaining =>
          have hsynced : Keeps w { w with durable := w.written.length, remaining := remaining } :=
            h.core.synced w.control rfl remaining
          split at hs
          next =>
            cases hs
            exact hsynced.andThen (reserve hsynced.1 hcontrol hfault hdeferred hwaiters)
          next =>
            cases hs
            exact hsynced.andThen (rejectPoisoned hsynced.1 hcontrol)
      next =>
        split at hs
        next =>
          cases hs
          exact reserve h.core hcontrol hfault hdeferred hwaiters
        next =>
          cases hs
          exact rejectPoisoned h.core hcontrol
  next => cases hs

theorem collect (h : Inv w) (hs : w.collect config = some w') : Inv w' ∧ Advances w w' := by
  have hun := freed_collect (fun hcontrol => (h.phased_at hcontrol).2.1) hs
  unfold Writer.collect at hs
  split at hs
  next request rest hcontrol hrequests =>
    obtain ⟨hfault, hdeferred, hwaiters⟩ := h.phased_at hcontrol
    obtain ⟨-, hs⟩ := ite_none_right_eq_some.mp hs
    split at hs
    · cases hs
      exact Keeps.inv (h.core.moves (.of_eq hun)) ⟨hfault, hwaiters⟩
    · split at hs
      · cases hs
        exact Keeps.inv (h.core.moves (.of_eq hun)) ⟨hfault, hdeferred, hwaiters⟩
      · cases hs
        exact Keeps.inv (h.core.moves (.of_eq hun)) ⟨hfault, hwaiters⟩
  next => cases hs

theorem flush (h : Inv w) (hs : w.flush config = some w') : Inv w' ∧ Advances w w' := by
  have hun := freed_flush hs
  unfold Writer.flush at hs
  split at hs
  next hcontrol =>
    obtain ⟨hfault, -, hwaiters⟩ := h.phased_at hcontrol
    obtain ⟨-, heq⟩ := ite_none_right_eq_some.mp hs
    cases heq
    exact Keeps.inv (h.core.moves (.of_eq hun)) ⟨hfault, hwaiters⟩
  next => cases hs

/-- With an empty buffer the goroutine may be at any of its receives. -/
theorem settle (h : Core w) (hempty : w.pending = [] ∧ w.waiters = []) (hcurrent : w.current = none)
    (control : WriterControl α) (hsettled : control.settled = true) :
    Inv { w with control := control } ∧ Advances w { w with control := control } := by
  have hkeeps : Keeps w { w with control := control } := by
    refine h.moves ?_
    rw [unstaged, hcurrent]
    cases control with
    | staging => cases hsettled
    | _ => exact List.Perm.refl _
  refine hkeeps.inv ?_
  unfold Phased
  dsimp only
  split
  all_goals first | exact hempty | cases hsettled

/-- The poisoning outside of `stage`. -/
theorem settlePoisoned (h : Core w) (hcurrent : w.current = none) (control : WriterControl α)
    (hsettled : control.settled = true) :
    Inv { w.poison with control := control } ∧ Advances w { w.poison with control := control } := by
  have hnone : w.poison.current = none := by
    unfold Writer.current at hcurrent ⊢
    rw [poison_control]
    exact hcurrent
  exact h.poison.andThen (settle h.poison.1 h.poison.poisoned hnone control hsettled)

/-- A write that fails. -/
theorem write_poison (hfault : w.fault = false) (n : Nat) :
    { w with written := w.written ++ w.pending.take n }.poison =
      { w with written := w.written ++ w.pending.take n, pending := w.pending.drop n }.poison := by
  rw [hfault]
  rfl

theorem write (h : Inv w) {failed : Option Nat} (hs : w.write failed = some w') : Inv w' ∧ Advances w w' := by
  have hun := freed_write hs
  unfold Writer.write at hs
  split at hs
  next n hcontrol =>
    have hfault : w.fault = false := (h.phased_at hcontrol).1
    cases hs
    rw [write_poison hfault]
    have hwrites := h.core.writes n
    exact hwrites.andThen (settlePoisoned hwrites.1 (current_at hcontrol nofun) .waiting rfl)
  next hcontrol =>
    obtain ⟨-, hsub⟩ := h.phased_at hcontrol
    cases hs
    have hwrites := h.core.writes w.pending.length
    rw [take_length, drop_length] at hwrites
    refine Keeps.inv (hwrites.trans (hwrites.1.moves (.of_eq hun))) ?_
    unfold Phased
    by_cases hsync : w.pending.any AppendRequest.sync = true
    · rw [if_pos hsync]
    · rw [if_neg hsync]
      -- a waiting request would have asked for the sync
      refine ⟨rfl, eq_nil_iff_forall_not_mem.mpr fun r hr => ?_⟩
      exact hsync (any_eq_true.mpr ⟨r, hsub r hr, (h.core.waiters.2 r hr).1⟩)
  next => cases hs

theorem sync (h : Inv w) {ok : Bool} (hs : w.sync ok = some w') : Inv w' ∧ Advances w w' := by
  unfold Writer.sync at hs
  split at hs
  next hcontrol =>
    have hpending : w.pending = [] := h.phased_at hcontrol
    split at hs
    next =>
      cases hs
      refine (h.core.synced .answering (unstaged_of_control hcontrol nofun).symm w.remaining).inv ⟨hpending, fun r hr => ?_⟩
      rw [take_length]
      have hplaced := (h.core.waiters.2 r hr).2
      rw [hpending] at hplaced
      exact hplaced
    next =>
      cases hs
      exact settlePoisoned h.core (current_at hcontrol nofun) .waiting rfl
  next => cases hs

theorem answer (h : Inv w) (hs : w.answer = some w') : Inv w' ∧ Advances w w' := by
  unfold Writer.answer at hs
  split at hs
  next r rest hcontrol hwaiters =>
    obtain ⟨hpending, hdurable⟩ := h.phased_at hcontrol
    cases hs
    refine (h.core.answers hwaiters (hdurable r (hwaiters ▸ mem_cons_self))).inv ?_
    dsimp only [respond]
    rw [hcontrol]
    exact ⟨hpending, fun x hx => hdurable x (hwaiters ▸ mem_cons_of_mem _ hx)⟩
  next hcontrol hwaiters =>
    obtain ⟨hpending, -⟩ := h.phased_at hcontrol
    cases hs
    exact settle h.core ⟨hpending, hwaiters⟩ (current_at hcontrol nofun) .waiting rfl
  next => cases hs

/-- What is outstanding after the poisoning is rejected. -/
theorem rejectOutstanding (h : Core w) (hempty : w.pending = [] ∧ w.waiters = []) :
    Inv w.rejectOutstanding ∧ Advances w w.rejectOutstanding := by
  have hun := freed_rejectOutstanding w 0
  unfold freed at hun
  unfold Writer.rejectOutstanding at hun ⊢
  split
  next hdeferred =>
    rw [hdeferred, toList_none, flatMap_nil, append_nil] at hun
    exact Keeps.inv (h.rejects (.of_eq hun)) hempty
  next r hdeferred =>
    rw [hdeferred] at hun
    have hkeeps : Keeps w { w.rejectAll (w.current.toList ++ [r]) with deferred := none, control := .draining } :=
      h.rejects (.of_eq hun)
    rw [rejectAll, map_append, ← append_assoc] at hkeeps
    exact hkeeps.inv hempty
  next hdeferred =>
    rw [hdeferred, toList_some, flatMap_singleton, WriterRequest.appends, append_nil] at hun
    exact Keeps.inv (h.rejects (.of_eq hun)) hempty

theorem panic (h : Inv w) {n : Nat} (hs : w.panic n = some w') : Inv w' ∧ Advances w w' := by
  have hpoisoned {v : Writer α} (hv : Core v) : Inv v.poison.rejectOutstanding ∧ Advances v v.poison.rejectOutstanding :=
    hv.poison.andThen (rejectOutstanding hv.poison.1 hv.poison.poisoned)
  unfold Writer.panic at hs
  split at hs
  · cases hs
  · cases hs
  next hcontrol =>
    have hfault : w.fault = false := (h.phased_at hcontrol).1
    cases hs
    rw [write_poison hfault]
    have hwrites := h.core.writes n
    exact hwrites.andThen (hpoisoned hwrites.1)
  all_goals
    cases hs
    exact hpoisoned h.core

theorem drain (h : Inv w) (hs : w.drain = some w') : Inv w' ∧ Advances w w' := by
  have hun := freed_drain hs
  unfold Writer.drain at hs
  split at hs
  next r rest hcontrol hrequests =>
    cases hs
    rw [freed, hrequests] at hun
    refine Keeps.inv (h.core.rejects hun) ?_
    dsimp only [rejectAll]
    rw [hcontrol]
    exact h.phased_at hcontrol
  next rest hcontrol hrequests =>
    cases hs
    rw [freed, hrequests] at hun
    exact Keeps.inv (h.core.moves hun) (h.phased_at hcontrol)
  next => cases hs

theorem stop (h : Inv w) {ok : Bool} (hs : w.stop ok = some w') : Inv w' ∧ Advances w w' := by
  unfold Writer.stop at hs
  split at hs
  next w₁ hcontrol hnext =>
    have hempty := h.phased_at hcontrol
    obtain ⟨requests, rfl, hqueued⟩ := nextRequest_eq_some hnext
    have htaken : Keeps w { w with deferred := none, requests := requests } := by
      refine h.core.moves (.of_eq ?_)
      rw [unstaged_at hcontrol, hcontrol]
      exact (congrArg (flatMap WriterRequest.appends) hqueued).trans rfl
    have hnone : current { w with deferred := none, requests := requests } = none := current_at hcontrol nofun
    split at hs
    next =>
      cases hs
      exact htaken.andThen (settle htaken.1 hempty hnone .done rfl)
    next =>
      split at hs
      next =>
        cases hs
        have hsynced := htaken.1.synced .done (by rw [unstaged, unstaged, hnone]; rfl) w.remaining
        exact htaken.andThen (hsynced.inv hempty)
      next =>
        cases hs
        exact htaken.andThen (settlePoisoned htaken.1 hnone .done rfl)
  next => cases hs

/-- **The step lemma of the writer.** -/
theorem step (h : Inv w) {e : WriterEvent} (hs : w.step config e = some w') : Inv w' ∧ Advances w w' := by
  cases e with
  | receive => exact h.receive hs
  | stage => exact h.stage hs
  | collect => exact h.collect hs
  | flush => exact h.flush hs
  | write failed => exact h.write hs
  | sync ok => exact h.sync hs
  | answer => exact h.answer hs
  | panic n => exact h.panic hs
  | drain => exact h.drain hs
  | stop ok => exact h.stop hs

/-- **Every request leaves the places before the buffer once**, when its bytes are given back. -/
theorem freed_step (h : Inv w) {e : WriterEvent} (hs : w.step config e = some w') :
    w.unstaged.Perm (w.freed e ++ w'.unstaged) := by
  cases e with
  | receive => exact .of_eq (freed_receive hs)
  | stage =>
    rw [freed, unstaged_stage hs]
    exact Perm.refl _
  | collect => exact .of_eq (freed_collect (fun hcontrol => (h.phased_at hcontrol).2.1) hs)
  | flush => exact .of_eq (freed_flush hs)
  | write failed => exact .of_eq (freed_write hs)
  | sync ok => exact .of_eq (freed_sync hs)
  | answer => exact .of_eq (freed_answer hs)
  | panic n => exact .of_eq (freed_panic hs)
  | drain => exact freed_drain hs
  | stop ok => exact .of_eq (freed_stop hs)

/-! ## §5 — The callers and the crash -/

/-- **A request is handed over** under a new ticket. -/
theorem handOver (h : Inv w) (hticket : r.ticket = w.issued) :
    Inv (w.handOver r) ∧ (w.handOver r).items.Perm (r :: w.items) := by
  have hun := w.handOver_unstaged r
  have hperm : (w.handOver r).items.Perm (r :: w.items) := by
    rw [items, hun]
    rw [append_assoc]
    exact perm_middle
  have hwaiting : ∀ x ∈ (w.unstaged ++ [r]) ++ w.waiters, x = r ∨ x ∈ w.unstaged ++ w.waiters := by
    intro x hx
    simp only [mem_append, mem_singleton] at hx ⊢
    tauto
  refine ⟨⟨⟨?_, ?_, ?_, ?_, ?_, ?_, h.core.durable, h.core.waiters, h.core.faulted, ?_, ?_, ?_⟩, ?_⟩, hperm⟩
  · rw [(hperm.map AppendRequest.ticket).nodup_iff, map_cons, nodup_cons]
    refine ⟨fun hin => ?_, h.core.nodup⟩
    obtain ⟨x, hx, heq⟩ := mem_map.mp hin
    exact absurd (h.core.issued x hx) (by rw [heq, hticket]; exact Nat.lt_irrefl _)
  · intro x hx
    rcases mem_cons.mp (hperm.mem_iff.mp hx) with rfl | hin
    · rw [hticket]
      exact Nat.lt_succ_self _
    · exact Nat.lt_succ_of_lt (h.core.issued x hin)
  · intro x hx
    rw [hun] at hx
    rcases hwaiting x hx with rfl | hin
    · exact mem_append_right _ mem_cons_self
    · exact mem_append_left _ (h.core.known x hin)
  · show ((w.accepted ++ [r]).map AppendRequest.ticket).Nodup
    rw [map_append]
    refine Lib.nodup_snoc h.core.accepted fun hin => ?_
    obtain ⟨x, hx, hsame⟩ := mem_map.mp hin
    exact Nat.ne_of_lt (h.core.acceptedIssued x hx) (hsame.trans hticket)
  · intro x hx
    rcases Lib.mem_snoc.mp hx with hold | rfl
    · exact Nat.lt_succ_of_lt (h.core.acceptedIssued x hold)
    · rw [hticket]
      exact Nat.lt_succ_self _
  · exact fun p hp => Nat.lt_succ_of_lt (h.core.answeredIssued p hp)
  · intro x hx hmem
    rw [hun] at hx
    rcases hwaiting x hx with rfl | hin
    · obtain ⟨p, hp, heq⟩ := mem_map.mp hmem
      exact absurd (h.core.answeredIssued p hp) (by rw [heq, hticket]; exact Nat.lt_irrefl _)
    · exact h.core.quiet x hin hmem
  · intro x hx hsync hmem
    rcases Lib.mem_snoc.mp hx with hold | hlast
    · exact h.core.appended x hold hsync hmem
    · rw [hlast, hticket] at hmem
      exact absurd (h.core.answeredIssued _ hmem) (Nat.lt_irrefl _)
  · intro t ht
    refine (h.core.failed t ht).imp_right fun hnowhere x hx => ?_
    rcases mem_cons.mp (hperm.mem_iff.mp hx) with rfl | hin
    · rw [hticket]
      exact Nat.ne_of_gt (h.core.answeredIssued _ ht)
    · exact hnowhere x hin
  · exact h.phased

/-- A call that is refused. -/
theorem refuse (h : Inv w) : Inv w.refuse := by
  have hmem : ∀ p ∈ w.refuse.responses, p ∈ w.responses ∨ p = (w.issued, .failed) :=
    fun p hp => Lib.mem_snoc.mp hp
  have hfresh : ∀ r ∈ w.items, r.ticket ≠ w.issued := fun r hr => Nat.ne_of_lt (h.core.issued r hr)
  refine ⟨{ h.core with
    issued := fun r hr => Nat.lt_succ_of_lt (h.core.issued r hr)
    acceptedIssued := fun r hr => Nat.lt_succ_of_lt (h.core.acceptedIssued r hr)
    answeredIssued := ?_, quiet := ?_, appended := ?_, failed := ?_ }, h.phased⟩
  · intro p hp
    rcases hmem p hp with hold | rfl
    · exact Nat.lt_succ_of_lt (h.core.answeredIssued p hold)
    · exact Nat.lt_succ_self _
  · intro r hr hin
    obtain ⟨p, hp, heq⟩ := mem_map.mp hin
    rcases hmem p hp with hold | rfl
    · exact h.core.quiet r hr (heq ▸ mem_map_of_mem hold)
    · exact hfresh r (h.core.mem_items hr) heq.symm
  · intro r hr hsync hin
    rcases hmem _ hin with hold | heq
    · exact h.core.appended r hr hsync hold
    · exact absurd (congrArg Prod.snd heq) nofun
  · intro t ht
    rcases hmem _ ht with hold | heq
    · exact h.core.failed t hold
    · obtain ⟨rfl, -⟩ := Prod.mk.injEq .. ▸ heq
      exact .inr hfresh

theorem close (h : Inv w) (hs : w.close config = some w') : Inv w' ∧ Advances w w' := by
  have hun := close_unstaged hs
  obtain ⟨-, heq⟩ := ite_none_right_eq_some.mp hs
  cases heq
  exact Keeps.inv (h.core.moves (.of_eq hun.symm)) h.phased

/-- **The log after a crash** that kept the durable records. -/
theorem reopen (h : Inv w) {survivors : Nat} (hdurable : w.durable ≤ survivors) (remaining : Nat) :
    Inv (w.reopen survivors remaining) := by
  have hsub : List.Sublist (w.written.take survivors) w.items :=
    (take_sublist _ _).trans ((sublist_append_right _ _).trans (sublist_append_right _ _))
  refine ⟨⟨?_, ?_, nofun, nodup_nil, nofun,
    nofun, ?_, ⟨nodup_nil, nofun⟩, nofun,
    nofun, nofun,
    nofun⟩, rfl, rfl⟩
  · exact h.core.nodup.sublist (hsub.map _)
  · intro r hr
    exact h.core.issued r (hsub.subset hr)
  · show w.durable ≤ (w.written.take survivors).length
    rw [length_take]
    exact Nat.le_min.mpr ⟨hdurable, h.core.durable⟩

theorem fresh (remaining : Nat) : Inv (Writer.fresh remaining : Writer α) :=
  ⟨⟨nodup_nil, nofun, nofun, nodup_nil,
    nofun, nofun, Nat.le_refl _,
    ⟨nodup_nil, nofun⟩, nofun, nofun,
    nofun, nofun⟩, rfl, rfl⟩

end Inv

end Writer

end Ridstore.RecordLog
