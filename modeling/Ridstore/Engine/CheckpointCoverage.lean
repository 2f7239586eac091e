import Mathlib.Data.List.Infix
import Ridstore.Engine.CheckpointCycle
import Ridstore.Engine.CheckpointFreshness

/-
# Ridstore.Engine.CheckpointCoverage — a forced checkpoint covers what was published before it

The cut of a run lies between the commit sequence at its start and the one now, and the manifest only moves
forward.  With the freshness of the run that completes a request, the manifest covers every commit that was
published before the request was accepted.
-/

namespace Ridstore.Engine

open SchedulerState List Function Option

variable {s t : CheckpointState} {id : Nat} {run new : CheckpointRun} {e : CheckpointEvent}
  {es : List CheckpointEvent}

/-! ## §1 — The cuts of the running workers -/

/-- The stages in which the run owns the mapping's checkpoint. -/
def CycleStage.busy : CycleStage → Bool
  | .frozen .. | .installed .. => true
  | _ => false

/-- What a stage says about the cut: not older than the start of the run, not older than the manifest, and
in the manifest once it is installed. -/
def StageOk (s : CheckpointState) (run : CheckpointRun) : Prop :=
  match run.stage with
  | .frozen _ _ _ cut => run.floor ≤ cut ∧ cut ≤ s.covered ∧ s.manifest ≤ cut
  | .installed .. => run.floor ≤ s.manifest
  | .returned none => run.request.force = true → run.floor ≤ s.manifest
  | _ => True

/-- The run belongs to the active worker of its job, which was launched before the run began. -/
structure RunOk (s : CheckpointState) (id : Nat) (run : CheckpointRun) : Prop where
  active : s.sched.active id = some (.built run.serial run.request)
  kind : run.request.kind = .checkpoint
  launched : ∃ later, s.sched.trace = later ++ run.begun ∧ ∀ worker phase, Observation.ran id worker phase ∉ later
  floor : run.floor ≤ s.covered

/-- **The cuts are in order.** -/
structure Cuts (s : CheckpointState) : Prop where
  reach : scheduler.Reachable s.sched
  runs : ∀ id run, s.runs id = some run → RunOk s id run
  stages : ∀ id run, s.runs id = some run → StageOk s run
  manifest : s.manifest ≤ s.covered
  busy : ∀ id run, s.runs id = some run → run.stage.busy = true → s.inCheckpoint = true
  alone : ∀ id other run run', s.runs id = some run → s.runs other = some run' →
    run.stage.busy = true → run'.stage.busy = true → id = other

/-- What an idle stage says holds on while the manifest advances. -/
theorem StageOk.mono (h : StageOk s run) (hbusy : run.stage.busy = false) (hle : s.manifest ≤ t.manifest) :
    StageOk t run := by
  unfold StageOk at h ⊢
  cases hstage : run.stage with
  | entered | executing => trivial
  | returned err =>
    cases err with
    | none =>
      simp only [hstage] at h
      exact fun hf => Nat.le_trans (h hf) hle
    | some cause => trivial
  | _ => simp [hstage, CycleStage.busy] at hbusy

/-- After a failed execution nothing is said about the cut. -/
theorem stageOk_failed (s : CheckpointState) (run : CheckpointRun) (pressure gcAdmission : Bool)
    (admissionErr : Option CycleError) (cause : CycleError) :
    StageOk s (run.executed pressure gcAdmission admissionErr (some cause)) := by
  unfold StageOk CheckpointRun.executed
  cases gcAdmission with
  | true =>
    cases pressure || run.request.periodic <;> simp
  | false => cases admissionErr <;> simp [cycleResult]

/-- After a successful one the manifest has the cut. -/
theorem stageOk_executed (h : run.floor ≤ s.manifest) (pressure gcAdmission : Bool)
    (admissionErr : Option CycleError) : StageOk s (run.executed pressure gcAdmission admissionErr none) := by
  cases admissionErr with
  | none => exact fun _ => h
  | some cause => trivial

theorem executed_idle (run : CheckpointRun) (pressure gcAdmission : Bool) (admissionErr err : Option CycleError) :
    (run.executed pressure gcAdmission admissionErr err).stage.busy = false := by
  unfold CheckpointRun.executed
  cases err with
  | none => rfl
  | some cause =>
    dsimp only
    split
    · split <;> rfl
    · rfl

namespace Cuts

/-- A run takes its next stage.  What it writes besides its record it may write because it owns the
mapping's checkpoint or nobody does. -/
theorem advance (h : Cuts s) (hrun : s.runs id = some run) (hsched : t.sched = s.sched)
    (hruns : t.runs = update s.runs id (some new)) (hcovered : t.covered = s.covered)
    (hsame : new.serial = run.serial ∧ new.request = run.request ∧ new.floor = run.floor ∧ new.begun = run.begun)
    (hmono : s.manifest ≤ t.manifest) (hbound : t.manifest ≤ t.covered)
    (hfree : run.stage.busy = true ∨ s.inCheckpoint = false ∨
      (t.manifest = s.manifest ∧ t.inCheckpoint = s.inCheckpoint ∧ new.stage.busy = false))
    (hstage : StageOk t new) (hbusy : new.stage.busy = true → t.inCheckpoint = true) : Cuts t := by
  have hcases : ∀ {other found}, t.runs other = some found →
      (other = id ∧ found = new) ∨ (other ≠ id ∧ s.runs other = some found) := by
    intro other found hfound
    rw [hruns, update_apply] at hfound
    split at hfound
    · exact .inl ⟨‹_›, (Option.some.inj hfound).symm⟩
    · exact .inr ⟨‹_›, hfound⟩
  -- another run that owns the checkpoint sees nothing of this step
  have hother : ∀ {other found}, other ≠ id → s.runs other = some found → found.stage.busy = true →
      t.manifest = s.manifest ∧ t.inCheckpoint = s.inCheckpoint ∧ new.stage.busy = false := by
    intro other found hne hfound hb
    rcases hfree with hown | hnone | hquiet
    · exact absurd (h.alone other id found run hfound hrun hb hown) hne
    · rw [h.busy other found hfound hb] at hnone
      cases hnone
    · exact hquiet
  refine ⟨hsched ▸ h.reach, ?_, ?_, hbound, ?_, ?_⟩
  · intro other found hfound
    rcases hcases hfound with ⟨rfl, rfl⟩ | ⟨-, hfound⟩
    · obtain ⟨hactive, hkind, hlaunched, hfloor⟩ := h.runs other run hrun
      obtain ⟨hserial, hrequest, hfl, hbegun⟩ := hsame
      refine ⟨?_, hrequest ▸ hkind, ?_, ?_⟩
      · rw [hsched, hserial, hrequest]
        exact hactive
      · rw [hsched, hbegun]
        exact hlaunched
      · rw [hfl, hcovered]
        exact hfloor
    · obtain ⟨hactive, hkind, hlaunched, hfloor⟩ := h.runs other found hfound
      exact ⟨hsched ▸ hactive, hkind, hsched ▸ hlaunched, hcovered ▸ hfloor⟩
  · intro other found hfound
    rcases hcases hfound with ⟨rfl, rfl⟩ | ⟨hne, hfound⟩
    · exact hstage
    · have hok := h.stages other found hfound
      cases hb : found.stage.busy with
      | false => exact hok.mono hb hmono
      | true =>
        obtain ⟨hm, -, -⟩ := hother hne hfound hb
        unfold StageOk at hok ⊢
        rwa [hm, hcovered]
  · intro other found hfound hb
    rcases hcases hfound with ⟨rfl, rfl⟩ | ⟨hne, hfound⟩
    · exact hbusy hb
    · rw [(hother hne hfound hb).2.1]
      exact h.busy other found hfound hb
  · intro other other' found found' hfound hfound' hb hb'
    rcases hcases hfound with ⟨rfl, rfl⟩ | ⟨hne, hfound⟩ <;>
      rcases hcases hfound' with ⟨rfl, rfl⟩ | ⟨hne', hfound'⟩
    · rfl
    · rw [(hother hne' hfound' hb').2.2] at hb
      cases hb
    · rw [(hother hne hfound hb).2.2] at hb'
      cases hb'
    · exact h.alone other other' found found' hfound hfound' hb hb'

/-- The scheduler takes an event; the run it ends, if any, is gone. -/
theorem scheduled (h : Cuts s) {event : SchedulerEvent} (hstep : scheduler.step s.sched event = some t.sched)
    (hcovered : t.covered = s.covered) (hmanifest : t.manifest = s.manifest) (hin : t.inCheckpoint = s.inCheckpoint)
    (hruns : ∀ id run, t.runs id = some run → s.runs id = some run ∧ ∀ chosen order, event ≠ .done id chosen order) :
    Cuts t := by
  have hwf := (reachable_keyed h.reach).1
  refine ⟨.next h.reach trivial hstep, ?_, ?_, ?_, ?_, ?_⟩
  · intro id run hrun
    obtain ⟨hold, he⟩ := hruns id run hrun
    obtain ⟨hactive, hkind, ⟨later, htrace, hnone⟩, hfloor⟩ := h.runs id run hold
    obtain ⟨hstill, added, hadded, hquiet⟩ := step_undisturbed hwf hactive he hstep
    refine ⟨hstill, hkind, ⟨added ++ later, by rw [hadded, htrace, append_assoc], ?_⟩, hcovered ▸ hfloor⟩
    intro worker phase hmem
    rcases mem_append.mp hmem with hmem | hmem
    · exact hquiet worker phase hmem
    · exact hnone worker phase hmem
  · intro id run hrun
    have hok := h.stages id run (hruns id run hrun).1
    unfold StageOk at hok ⊢
    rwa [hmanifest, hcovered]
  · rw [hmanifest, hcovered]
    exact h.manifest
  · intro id run hrun hb
    rw [hin]
    exact h.busy id run (hruns id run hrun).1 hb
  · intro id other run run' hrun hrun'
    exact h.alone id other run run' (hruns id run hrun).1 (hruns other run' hrun').1

/-- A scheduler event that ends no checkpoint run. -/
theorem schedule (h : Cuts s) {event : SchedulerEvent} (hends : s.endsCheckpoint event = false)
    (hstep : s.schedule event = some t) : Cuts t := by
  obtain ⟨sched, hsched, rfl⟩ := map_eq_some_iff.mp hstep
  refine h.scheduled hsched rfl rfl rfl fun id run hrun => ⟨hrun, ?_⟩
  rintro chosen order rfl
  obtain ⟨hactive, hkind, -, -⟩ := h.runs id run hrun
  simp [CheckpointState.endsCheckpoint, hactive, hkind] at hends

theorem finish {order : List Nat} (h : Cuts s) (hstep : s.finish id order = some t) : Cuts t := by
  unfold CheckpointState.finish at hstep
  split at hstep
  · split at hstep
    · obtain ⟨sched, hsched, rfl⟩ := map_eq_some_iff.mp hstep
      refine h.scheduled hsched rfl rfl rfl fun other found hfound => ?_
      have hfound : update s.runs id none other = some found := hfound
      rw [update_apply] at hfound
      split at hfound
      · cases hfound
      · rename_i hne
        refine ⟨hfound, ?_⟩
        rintro chosen order' ⟨⟩
        exact hne rfl
    · cases hstep
  · cases hstep

theorem enter (h : Cuts s) (hstep : s.enter id = some t) : Cuts t := by
  unfold CheckpointState.enter at hstep
  split at hstep
  · rename_i serial request hactive hnone
    split at hstep
    · rename_i hkind
      cases hstep
      have hcases : ∀ {other found}, (s.setRun id
          { serial, request, floor := s.covered, begun := s.sched.trace }).runs other = some found →
          (other = id ∧ found = { serial, request, floor := s.covered, begun := s.sched.trace }) ∨
            s.runs other = some found := by
        intro other found hfound
        simp only [CheckpointState.setRun, update_apply] at hfound
        split at hfound
        · exact .inl ⟨‹_›, (Option.some.inj hfound).symm⟩
        · exact .inr hfound
      refine ⟨h.reach, ?_, ?_, h.manifest, ?_, ?_⟩
      · intro other found hfound
        rcases hcases hfound with ⟨rfl, rfl⟩ | hfound
        · exact ⟨hactive, hkind, ⟨[], rfl, fun _ _ hmem => by cases hmem⟩, Nat.le_refl _⟩
        · exact { h.runs other found hfound with }
      · intro other found hfound
        rcases hcases hfound with ⟨rfl, rfl⟩ | hfound
        · trivial
        · exact h.stages other found hfound
      · intro other found hfound hb
        rcases hcases hfound with ⟨rfl, rfl⟩ | hfound
        · cases hb
        · exact h.busy other found hfound hb
      · intro other other' found found' hfound hfound' hb hb'
        rcases hcases hfound with ⟨rfl, rfl⟩ | hfound
        · cases hb
        · rcases hcases hfound' with ⟨rfl, rfl⟩ | hfound'
          · cases hb'
          · exact h.alone other other' found found' hfound hfound' hb hb'
    · cases hstep
  · cases hstep

/-- A commit moves the sequence on; the cuts stay where they are. -/
theorem commit (h : Cuts s) : Cuts { s with covered := s.covered + 1 } := by
  refine ⟨h.reach, ?_, ?_, Nat.le_succ_of_le h.manifest, h.busy, h.alone⟩
  · intro id run hrun
    exact { h.runs id run hrun with floor := Nat.le_succ_of_le (h.runs id run hrun).floor }
  · intro id run hrun
    have hok := h.stages id run hrun
    unfold StageOk at hok ⊢
    split at hok
    · exact ⟨hok.1, Nat.le_succ_of_le hok.2.1, hok.2.2⟩
    · exact hok
    · exact hok
    · trivial

theorem decide (h : Cuts s) {pressure charged : Bool} (hstep : s.decide id pressure charged = some t) : Cuts t := by
  unfold CheckpointState.decide at hstep
  split at hstep
  · rename_i run hrun
    split at hstep
    · split at hstep
      · cases hstep
        exact h.advance hrun rfl rfl rfl ⟨rfl, rfl, rfl, rfl⟩ (Nat.le_refl _) h.manifest (.inr (.inr ⟨rfl, rfl, rfl⟩))
          trivial (fun hb => by cases hb)
      · rename_i hnot
        cases hstep
        refine h.advance hrun rfl rfl rfl ⟨rfl, rfl, rfl, rfl⟩ (Nat.le_refl _) h.manifest (.inr (.inr ⟨rfl, rfl, rfl⟩))
          ?_ (fun hb => by cases hb)
        -- a forced request always needs a checkpoint
        show run.request.force = true → _
        intro hforce
        simp [hforce] at hnot
    · cases hstep
  · cases hstep

variable {failure : Option CycleError}

theorem capture (h : Cuts s) (hstep : s.capture id failure = some t) : Cuts t := by
  unfold CheckpointState.capture at hstep
  split at hstep
  · rename_i run hrun
    split at hstep
    · split at hstep
      · cases hstep
        exact h.advance hrun rfl rfl rfl ⟨rfl, rfl, rfl, rfl⟩ (Nat.le_refl _) h.manifest
          (.inr (.inr ⟨rfl, rfl, executed_idle ..⟩)) (stageOk_failed ..)
          (fun hb => by rw [executed_idle] at hb; cases hb)
      · split at hstep
        · cases hstep
        · rename_i hfree
          cases hstep
          exact h.advance hrun rfl rfl rfl ⟨rfl, rfl, rfl, rfl⟩ (Nat.le_refl _) h.manifest
            (.inr (.inl (by simpa using hfree))) ⟨(h.runs id run hrun).floor, Nat.le_refl _, h.manifest⟩
            (fun _ => rfl)
    · cases hstep
  · cases hstep

theorem install (h : Cuts s) (hstep : s.install id failure = some t) : Cuts t := by
  unfold CheckpointState.install at hstep
  split at hstep
  · rename_i run hrun
    split at hstep
    · rename_i pressure gcAdmission admissionErr cut hstage
      have hown : run.stage.busy = true := by rw [hstage]; rfl
      have hok := h.stages id run hrun
      simp only [StageOk, hstage] at hok
      split at hstep
      · cases hstep
        exact h.advance hrun rfl rfl rfl ⟨rfl, rfl, rfl, rfl⟩ (Nat.le_refl _) h.manifest (.inl hown)
          (stageOk_failed ..) (fun hb => by rw [executed_idle] at hb; cases hb)
      · cases hstep
        exact h.advance hrun rfl rfl rfl ⟨rfl, rfl, rfl, rfl⟩ hok.2.2 hok.2.1 (.inl hown) hok.1
          (fun _ => h.busy id run hrun hown)
    · cases hstep
  · cases hstep

theorem adopt (h : Cuts s) (hstep : s.adopt id failure = some t) : Cuts t := by
  unfold CheckpointState.adopt at hstep
  split at hstep
  · rename_i run hrun
    split at hstep
    · rename_i pressure gcAdmission admissionErr hstage
      have hown : run.stage.busy = true := by rw [hstage]; rfl
      have hok := h.stages id run hrun
      simp only [StageOk, hstage] at hok
      split at hstep
      · cases hstep
        exact h.advance hrun rfl rfl rfl ⟨rfl, rfl, rfl, rfl⟩ (Nat.le_refl _) h.manifest (.inl hown)
          (stageOk_failed ..) (fun hb => by rw [executed_idle] at hb; cases hb)
      · cases hstep
        exact h.advance hrun rfl rfl rfl ⟨rfl, rfl, rfl, rfl⟩ (Nat.le_refl _) h.manifest (.inl hown)
          (stageOk_executed hok ..) (fun hb => by rw [executed_idle] at hb; cases hb)
    · cases hstep
  · cases hstep

theorem step (h : Cuts s) (hstep : checkpoints.step s e = some t) : Cuts t := by
  cases e with
  | sched event =>
    simp only [checkpoints, CheckpointState.step] at hstep
    split at hstep
    · cases hstep
    · rename_i hends
      exact h.schedule (by simpa using hends) hstep
  | commit =>
    cases hstep
    exact h.commit
  | enter job => exact h.enter hstep
  | decide => exact h.decide hstep
  | capture job failure => exact h.capture hstep
  | install job failure => exact h.install hstep
  | adopt job failure => exact h.adopt hstep
  | finish job order => exact h.finish hstep

theorem initial {covered manifest : Nat} (hle : manifest ≤ covered) : Cuts { covered, manifest } where
  reach := .start rfl
  runs _ _ h := by cases h
  stages _ _ h := by cases h
  manifest := hle
  busy _ _ h := by cases h
  alone _ _ _ _ h := by cases h

end Cuts

/-- The cuts are in order in every reachable state. -/
theorem reachable_cuts (h : checkpoints.Reachable s) : Cuts s := by
  refine Lib.Machine.Reach.invariant (M := checkpoints) Cuts ?_ (fun _ _ _ hs _ => hs.step) h
  rintro _ ⟨covered, manifest, hle, rfl⟩
  exact Cuts.initial hle

/-! ## §2 — The scheduler inside the store -/

/-- The scheduler event a step of the store performs. -/
def CheckpointState.event (s : CheckpointState) : CheckpointEvent → Option SchedulerEvent
  | .sched event => some event
  | .finish job order =>
    match s.runs job with
    | some ⟨serial, _, .returned err, _, _, _⟩ =>
      some (.done job (checkpointTransition (s.attempts serial) err) order)
    | _ => none
  | _ => none

/-- The events within one run of `runCheckpointCycle`. -/
def CheckpointEvent.within : CheckpointEvent → Bool
  | .decide .. | .capture .. | .install .. | .adopt .. => true
  | _ => false

/-- The arguments of the call of `executeCheckpoint` that the run is in. -/
def CycleStage.call : CycleStage → Option (Bool × Bool × Option CycleError)
  | .executing pressure gcAdmission admissionErr => some (pressure, gcAdmission, admissionErr)
  | .frozen pressure gcAdmission admissionErr _ => some (pressure, gcAdmission, admissionErr)
  | .installed pressure gcAdmission admissionErr => some (pressure, gcAdmission, admissionErr)
  | _ => none

/-- **How a run goes on**: it decides whether a checkpoint is needed, goes on within a call of
`executeCheckpoint`, or the call returns. -/
inductive Continues (run next : CheckpointRun) : Prop
  | needed (pressure : Bool) (hstage : run.stage = .entered)
      (h : next = { run with stage := .executing pressure run.request.gcAdmission none })
  | unneeded (hstage : run.stage = .entered) (h : next = { run with stage := .returned none })
  | proceeds (stage : CycleStage) (hcall : run.stage.call ≠ none) (hsame : stage.call = run.stage.call)
      (h : next = { run with stage })
  | executed (pressure gcAdmission : Bool) (admissionErr err : Option CycleError)
      (hcall : run.stage.call = some (pressure, gcAdmission, admissionErr))
      (h : next = run.executed pressure gcAdmission admissionErr err)

theorem Continues.same (h : Continues run new) :
    new.serial = run.serial ∧ new.request = run.request ∧ new.floor = run.floor ∧ new.begun = run.begun := by
  cases h with
  | needed pressure hstage h | unneeded hstage h | proceeds stage hcall hsame h
  | executed pressure gcAdmission admissionErr err hcall h => subst h; exact ⟨rfl, rfl, rfl, rfl⟩

/-- A run that goes on keeps its worker and its start; the scheduler and the commits are not concerned. -/
theorem within_step (he : e.within = true) (hstep : checkpoints.step s e = some t) :
    t.sched = s.sched ∧ t.covered = s.covered ∧ ∃ job run next, s.runs job = some run ∧
      t.runs = update s.runs job (some next) ∧ Continues run next := by
  cases e with
  | decide job pressure charged =>
    simp only [checkpoints, CheckpointState.step, CheckpointState.decide] at hstep
    split at hstep
    · rename_i run hrun
      split at hstep
      · rename_i hstage
        split at hstep <;> cases hstep
        · exact ⟨rfl, rfl, job, run, _, hrun, rfl, .needed pressure hstage rfl⟩
        · exact ⟨rfl, rfl, job, run, _, hrun, rfl, .unneeded hstage rfl⟩
      · cases hstep
    · cases hstep
  | capture job failure =>
    simp only [checkpoints, CheckpointState.step, CheckpointState.capture] at hstep
    split at hstep
    · rename_i run hrun
      split at hstep
      · rename_i pressure gcAdmission admissionErr hstage
        have hcall : run.stage.call = some (pressure, gcAdmission, admissionErr) := by rw [hstage]; rfl
        split at hstep
        · cases hstep
          exact ⟨rfl, rfl, job, run, _, hrun, rfl, .executed _ _ _ _ hcall rfl⟩
        · split at hstep <;> cases hstep
          exact ⟨rfl, rfl, job, run, _, hrun, rfl, .proceeds _ (by simp [hcall]) (by rw [hcall]; rfl) rfl⟩
      · cases hstep
    · cases hstep
  | install job failure =>
    simp only [checkpoints, CheckpointState.step, CheckpointState.install] at hstep
    split at hstep
    · rename_i run hrun
      split at hstep
      · rename_i pressure gcAdmission admissionErr cut hstage
        have hcall : run.stage.call = some (pressure, gcAdmission, admissionErr) := by rw [hstage]; rfl
        split at hstep <;> cases hstep
        · exact ⟨rfl, rfl, job, run, _, hrun, rfl, .executed _ _ _ _ hcall rfl⟩
        · exact ⟨rfl, rfl, job, run, _, hrun, rfl, .proceeds _ (by simp [hcall]) (by rw [hcall]; rfl) rfl⟩
      · cases hstep
    · cases hstep
  | adopt job failure =>
    simp only [checkpoints, CheckpointState.step, CheckpointState.adopt] at hstep
    split at hstep
    · rename_i run hrun
      split at hstep
      · rename_i pressure gcAdmission admissionErr hstage
        have hcall : run.stage.call = some (pressure, gcAdmission, admissionErr) := by rw [hstage]; rfl
        split at hstep <;> cases hstep
        · exact ⟨rfl, rfl, job, run, _, hrun, rfl, .executed _ _ _ _ hcall rfl⟩
        · exact ⟨rfl, rfl, job, run, _, hrun, rfl, .executed _ _ _ _ hcall rfl⟩
      · cases hstep
    · cases hstep
  | _ => cases he

/-- The end of a run. -/
theorem finish_step {order : List Nat} {job : Nat} (hstep : checkpoints.step s (.finish job order) = some t) :
    ∃ run err, s.runs job = some run ∧ run.stage = .returned err ∧
      s.event (.finish job order) = some (.done job (checkpointTransition (s.attempts run.serial) err) order) ∧
      scheduler.step s.sched (.done job (checkpointTransition (s.attempts run.serial) err) order) = some t.sched ∧
      t.runs = update s.runs job none ∧ t.covered = s.covered ∧ t.manifest = s.manifest := by
  simp only [checkpoints, CheckpointState.step, CheckpointState.finish] at hstep
  split at hstep
  · rename_i run hrun
    split at hstep
    · rename_i err hstage
      obtain ⟨sched, hsched, rfl⟩ := map_eq_some_iff.mp hstep
      obtain ⟨serial, request, stage, executions, floor, begun⟩ := run
      cases hstage
      refine ⟨_, err, hrun, rfl, ?_, hsched, rfl, rfl, rfl⟩
      simp only [CheckpointState.event, hrun]
    · cases hstep
  · cases hstep

/-- A scheduler event passed on. -/
theorem sched_step {event : SchedulerEvent} (hstep : checkpoints.step s (.sched event) = some t) :
    s.endsCheckpoint event = false ∧ scheduler.step s.sched event = some t.sched ∧ t = { s with sched := t.sched } := by
  simp only [checkpoints, CheckpointState.step] at hstep
  split at hstep
  · cases hstep
  · rename_i hends
    obtain ⟨sched, hsched, rfl⟩ := map_eq_some_iff.mp hstep
    exact ⟨by simpa using hends, hsched, rfl⟩

/-- A worker that enters `Run`. -/
theorem enter_step {job : Nat} (hstep : checkpoints.step s (.enter job) = some t) :
    ∃ run, run.stage = .entered ∧ run.floor = s.covered ∧ t = s.setRun job run := by
  simp only [checkpoints, CheckpointState.step, CheckpointState.enter] at hstep
  split at hstep
  · split at hstep <;> cases hstep
    exact ⟨_, rfl, rfl, rfl⟩
  · cases hstep

/-- What the scheduler sees of a step. -/
theorem step_event (hstep : checkpoints.step s e = some t) :
    (s.event e = none ∧ t.sched = s.sched) ∨
      ∃ event, s.event e = some event ∧ scheduler.step s.sched event = some t.sched := by
  cases e with
  | sched event => exact .inr ⟨event, rfl, (sched_step hstep).2.1⟩
  | commit =>
    cases hstep
    exact .inl ⟨rfl, rfl⟩
  | enter job =>
    obtain ⟨run, -, -, rfl⟩ := enter_step hstep
    exact .inl ⟨rfl, rfl⟩
  | finish job order =>
    obtain ⟨run, err, -, -, hevent, hsched, -⟩ := finish_step hstep
    exact .inr ⟨_, hevent, hsched⟩
  | _ => exact .inl ⟨rfl, (within_step rfl hstep).1⟩

/-- **The runs after a step.**  A run is the one that was there, or goes on from it, or is entered with the
current sequence. -/
theorem step_runs (hstep : checkpoints.step s e = some t) :
    s.covered ≤ t.covered ∧ ∀ id new, t.runs id = some new →
      (∃ run, s.runs id = some run ∧ (new = run ∨ Continues run new)) ∨
        (new.stage = .entered ∧ new.floor = s.covered) := by
  have hwithin : e.within = true → s.covered ≤ t.covered ∧ ∀ id new, t.runs id = some new →
      (∃ run, s.runs id = some run ∧ (new = run ∨ Continues run new)) ∨
        (new.stage = .entered ∧ new.floor = s.covered) := by
    intro he
    obtain ⟨-, hcovered, job, run, next, hrun, hruns, hcontinues⟩ := within_step he hstep
    refine ⟨Nat.le_of_eq hcovered.symm, fun id new hnew => .inl ?_⟩
    rw [hruns, update_apply] at hnew
    split at hnew
    · rename_i hid
      cases hnew
      exact ⟨run, hid ▸ hrun, .inr hcontinues⟩
    · exact ⟨new, hnew, .inl rfl⟩
  cases e with
  | sched event =>
    obtain ⟨-, -, heq⟩ := sched_step hstep
    rw [heq]
    exact ⟨Nat.le_refl _, fun id new hnew => .inl ⟨new, hnew, .inl rfl⟩⟩
  | commit =>
    cases hstep
    exact ⟨Nat.le_succ _, fun id new hnew => .inl ⟨new, hnew, .inl rfl⟩⟩
  | enter job =>
    obtain ⟨run, hstage, hfloor, rfl⟩ := enter_step hstep
    refine ⟨Nat.le_refl _, fun id new hnew => ?_⟩
    simp only [CheckpointState.setRun, update_apply] at hnew
    split at hnew
    · cases hnew
      exact .inr ⟨hstage, hfloor⟩
    · exact .inl ⟨new, hnew, .inl rfl⟩
  | finish job order =>
    obtain ⟨run, err, -, -, -, -, hruns, hcovered, -⟩ := finish_step hstep
    refine ⟨Nat.le_of_eq hcovered.symm, fun id new hnew => .inl ?_⟩
    rw [hruns, update_apply] at hnew
    split at hnew
    · cases hnew
    · exact ⟨new, hnew, .inl rfl⟩
  | _ => exact hwithin rfl

/-! ## §3 — Forced requests -/

/-- Relative to a moment with observations `past` and commit sequence `published`: every run that began
later began at least there. -/
structure Since (past : List Observation) (published : Nat) (s : CheckpointState) : Prop where
  covered : published ≤ s.covered
  runs : ∀ id run, s.runs id = some run → published ≤ run.floor ∨ run.begun.length ≤ past.length

variable {past : List Observation} {published : Nat}

theorem Since.step (h : Since past published s) (hstep : checkpoints.step s e = some t) : Since past published t := by
  obtain ⟨hcovered, hruns⟩ := step_runs hstep
  refine ⟨Nat.le_trans h.covered hcovered, fun id new hnew => ?_⟩
  rcases hruns id new hnew with ⟨run, hrun, rfl | hcontinues⟩ | ⟨-, hfloor⟩
  · exact h.runs id new hrun
  · obtain ⟨-, -, hfloor, hbegun⟩ := hcontinues.same
    rw [hfloor, hbegun]
    exact h.runs id run hrun
  · exact .inl (hfloor ▸ h.covered)

theorem Cuts.since (h : Cuts s) : Since s.sched.trace s.covered s := by
  refine ⟨Nat.le_refl _, fun id run hrun => .inr ?_⟩
  obtain ⟨later, htrace, -⟩ := (h.runs id run hrun).launched
  simp [htrace]

/-- A run that was launched after the moment began after it. -/
theorem Since.floor {worker : MaintenanceWorker} (h : Since past published s) (hok : RunOk s id run)
    (hrun : s.runs id = some run) (hstarted : StartedSince past id worker s.sched.trace) : published ≤ run.floor := by
  refine (h.runs id run hrun).resolve_right fun hle => ?_
  obtain ⟨later, htrace, hnone⟩ := hok.launched
  obtain ⟨since, phase, hsince, hmem⟩ := hstarted
  -- both splits are of one list, so the launch would be among the observations made during the run
  have heq : since ++ past = later ++ run.begun := hsince.symm.trans htrace
  obtain ⟨rest, hlater, -⟩ | ⟨rest, hsincelater, hbegun⟩ := append_eq_append_iff.mp heq
  · exact hnone worker phase (hlater ▸ mem_append_left _ hmem)
  · have hlen := congrArg List.length hbegun
    simp only [length_append] at hlen
    obtain rfl : rest = [] := length_eq_zero_iff.mp (by omega)
    rw [append_nil] at hsincelater
    exact hnone worker phase (hsincelater ▸ hmem)

/-- A run of the store through which the client waits. -/
theorem rests_exec {forced : Bool} {c : Client}
    (hreach : checkpoints.Reachable s) (h : Rests past forced c s.sched) (hknown : c.known s.sched)
    (hsince : Since past published s) (hrun : checkpoints.exec s es = some t)
    (hunserved : ∀ before after u, es = before ++ after → checkpoints.exec s before = some u →
      c.unserved u.sched) : checkpoints.Reachable t ∧ Rests past forced c t.sched ∧ Since past published t := by
  induction es generalizing s with
  | nil =>
    cases hrun
    exact ⟨hreach, h, hsince⟩
  | cons e es ih =>
    obtain ⟨u, hstep, hrest⟩ := bind_eq_some_iff.mp hrun
    have hahead : ∀ before v, checkpoints.exec u before = some v → checkpoints.exec s (e :: before) = some v :=
      fun before v hv => bind_eq_some_iff.mpr ⟨u, hstep, hv⟩
    have hu : c.unserved u.sched := hunserved [e] es u rfl (hahead [] u rfl)
    have hsched := (reachable_cuts hreach).reach
    have hnext : Rests past forced c u.sched ∧ c.known u.sched := by
      rcases step_event hstep with ⟨-, hsame⟩ | ⟨event, -, hevent⟩
      · rw [hsame]
        exact ⟨h, hknown⟩
      · exact ⟨h.step hsched hknown hevent, known_step hsched hknown hu hevent⟩
    refine ih (.next hreach trivial hstep) hnext.1 hnext.2 (hsince.step hstep) hrest ?_
    intro before after v hes hv
    exact hunserved (e :: before) after v (by rw [hes]; rfl) (hahead before v hv)

/-- The scheduler accepts what a checkpoint worker returns. -/
theorem checkpointTransition_accepted (job : MaintenanceJob) (attempts : Nat) (err : Option CycleError) :
    accepted job (checkpointTransition attempts err) = checkpointTransition attempts err := by
  have hvalid : validateMaintenanceTransition (checkpointTransition attempts err)
      (job.held ||| job.runningResources) = none := by
    unfold checkpointTransition
    split <;> simp [validateMaintenanceTransition, andNot]
  simp only [accepted, hvalid]

/-- A checkpoint run serves its clients only if it does not try again, and then with the error that
`runCheckpointCycle` returned. -/
theorem checkpointTransition_completes {sched : SchedulerState} {job : MaintenanceJob} {serial attempts : Nat}
    {asked : MaintenanceRequest} {err : Option CycleError}
    (hc : completes sched job (.built serial asked) (checkpointTransition attempts err) = true) :
    (accepted job (MaintenanceWorker.run (.built serial asked) (checkpointTransition attempts err))).err =
      err.map (·.err) := by
  simp only [completes, MaintenanceWorker.run, checkpointTransition_accepted, Bool.and_eq_true] at hc ⊢
  rcases err with - | ⟨cause, retry⟩
  · rfl
  · cases retry with
    | false => rfl
    | true => cases hc.1

/-- **Checkpoint freshness.**  From any reachable state, a client whose checkpoint request is accepted is
served without an error only by a checkpoint worker that was launched after that moment, whatever events
and worker results come between; and when a forced request is served, the manifest covers every commit
that was published when it was accepted. -/
theorem checkpoint_requests_fresh {request : MaintenanceRequest} (hkind : request.kind = .checkpoint) (c : Client) :
    (∀ s e s' es t e' t' owner, scheduler.Reachable s → Accepts request c s e s' →
      scheduler.exec s' es = some t →
      (∀ before after u, es = before ++ after → scheduler.exec s' before = some u → c.unserved u) →
      scheduler.step t e' = some t' → c.served t e' t' owner →
      ∃ chosen order serial asked, e' = .done owner chosen order ∧ t.active owner = some (.built serial asked) ∧
        asked.kind = .checkpoint ∧ StartedSince s.trace owner (.built serial asked) t.trace) ∧
    (request.force = true → ∀ s e s' es t e' event t' owner, checkpoints.Reachable s →
      checkpoints.step s (.sched e) = some s' → Accepts request c s.sched e s'.sched →
      checkpoints.exec s' es = some t →
      (∀ before after u, es = before ++ after → checkpoints.exec s' before = some u → c.unserved u.sched) →
      checkpoints.step t e' = some t' → t.event e' = some event → c.served t.sched event t'.sched owner →
      s.covered ≤ t'.manifest) := by
  refine ⟨?_, ?_⟩
  · intro s e s' es t e' t' owner hreach haccepts hrun hunserved hstep hserved
    have hreach' : scheduler.Reachable s' := .next hreach trivial haccepts.step
    have hrests := (haccepts.fresh hreach hkind).step hreach haccepts.step
    have ht := hrests.exec hreach' haccepts.known hrun hunserved
    have hreacht : scheduler.Reachable t := hreach'.exec es (fun _ _ _ => trivial) hrun
    have hlast := hunserved es [] t (append_nil es).symm hrun
    obtain ⟨chosen, order, serial, asked, he, ha, hasks, hstarted⟩ := ht.served hreacht hstep hlast hserved
    exact ⟨chosen, order, serial, asked, he, ha, hasks.1, hstarted⟩
  · intro hforce s e s' es t e' event t' owner hreach hstep haccepts hrun hunserved hlast hevent hserved
    have hcuts := reachable_cuts hreach
    have hrests := (haccepts.fresh hcuts.reach hkind).step hcuts.reach haccepts.step
    have hreach' : checkpoints.Reachable s' := .next hreach trivial hstep
    obtain ⟨hreacht, ht, hsince⟩ := rests_exec hreach' hrests haccepts.known (hcuts.since.step hstep) hrun hunserved
    have hcutst := reachable_cuts hreacht
    have hunt := hunserved es [] t (append_nil es).symm hrun
    obtain ⟨event', hevent', hsched⟩ : ∃ event', t.event e' = some event' ∧
        scheduler.step t.sched event' = some t'.sched := by
      rcases step_event hlast with ⟨hnone, -⟩ | hsome
      · rw [hevent] at hnone
        cases hnone
      · exact hsome
    obtain rfl := mem_unique hevent hevent'
    have hwf := (reachable_keyed hcutst.reach).1
    obtain ⟨chosen, order, serial, asked, rfl, ha, hasks, hstarted⟩ := ht.served hcutst.reach hsched hunt hserved
    obtain ⟨worker, job, chosen', order', heq, ha', hjob, hc, -, herr⟩ := hserved.done hwf hsched hunt
    cases heq
    obtain rfl : MaintenanceWorker.built serial asked = worker := Option.some.inj (ha.symm.trans ha')
    -- only the return of the run itself ends it
    cases e' with
    | sched event =>
      cases hevent
      have hends := (sched_step hlast).1
      simp [CheckpointState.endsCheckpoint, ha, hasks.1] at hends
    | finish job order =>
      obtain ⟨run, err, hfound, hstage, hfin, -, -, -, hmanifest⟩ := finish_step hlast
      rw [hfin] at hevent
      cases hevent
      have hok := hcutst.runs owner run hfound
      obtain ⟨rfl, rfl⟩ : run.serial = serial ∧ run.request = asked := by
        have := Option.some.inj (hok.active.symm.trans ha)
        simpa using this
      obtain rfl : err = none := by
        rw [checkpointTransition_completes hc, map_eq_none_iff] at herr
        exact herr
      have hstageok := hcutst.stages owner run hfound
      simp only [StageOk, hstage] at hstageok
      calc s.covered ≤ run.floor := hsince.floor hok hfound hstarted
        _ ≤ t.manifest := hstageok (hasks.2 hforce)
        _ = t'.manifest := hmanifest.symm
    | _ => cases hevent

namespace Demo

/-- A store that replay has opened. -/
def opened : CheckpointState := { covered := 5, manifest := 3 }

def forced : MaintenanceRequest := { kind := .checkpoint, force := true }

/-- A checkpoint has frozen the mapping when one more commit is published. -/
def running : List CheckpointEvent :=
  [.sched (.submit forced true), .enter 1, .decide 1 false false, .capture 1 none, .commit]

/-- It completes, and the scheduler starts the next one. -/
def following : List CheckpointEvent :=
  [.install 1 none, .adopt 1 none, .finish 1 [], .enter 1, .decide 1 false false, .capture 1 none, .install 1 none,
    .adopt 1 none]

end Demo

open Demo in
/-- **A forced checkpoint that is requested while another one runs** waits for the next run, whose manifest has the
commit that the first one does not have. -/
theorem checkpoint_requests_fresh_run : ∃ s s' t t', checkpoints.exec opened running = some s ∧ s.covered = 6 ∧
    checkpoints.step s (.sched (.submit forced true)) = some s' ∧ checkpoints.exec s' following = some t ∧
    checkpoints.step t (.finish 1 []) = some t' ∧ s.covered ≤ t'.manifest := by
  obtain ⟨s, hbefore⟩ : ∃ s, checkpoints.exec opened running = some s := ⟨_, rfl⟩
  have hreach : checkpoints.Reachable s :=
    Lib.Machine.Reach.exec (.start ⟨5, 3, by decide, rfl⟩) running (fun _ _ _ => trivial) hbefore
  obtain ⟨s', hstep⟩ : ∃ s', checkpoints.step s (.sched (.submit forced true)) = some s' := by
    cases hbefore
    exact ⟨_, rfl⟩
  have hfrom : ∀ es, checkpoints.exec opened (running ++ .sched (.submit forced true) :: es) = checkpoints.exec s' es := by
    intro es
    rw [Lib.Machine.exec_append hbefore, Lib.Machine.exec_cons hstep]
  obtain ⟨t, hrun⟩ : ∃ t, checkpoints.exec s' following = some t := hfrom following ▸ ⟨_, rfl⟩
  obtain ⟨t', hlast⟩ : ∃ t', checkpoints.step t (.finish 1 []) = some t' := by
    cases (hfrom following).trans hrun
    exact ⟨_, rfl⟩
  have hnumber : s.sched.nextWaiterID = 1 := by
    cases hbefore
    rfl
  have haccepts : Accepts forced (.waiter 2) s.sched (.submit forced true) s'.sched := by
    have hwaiter := Accepts.waiter (sched_step hstep).2.1 (by cases hbefore; cases hstep; rfl)
    rwa [hnumber] at hwaiter
  have hcovered : s.covered = 6 := by
    cases hbefore
    rfl
  refine ⟨s, s', t, t', hbefore, hcovered, hstep, hrun, hlast, ?_⟩
  refine (checkpoint_requests_fresh rfl (.waiter 2)).2 rfl s _ s' following t (.finish 1 [])
    (.done 1 { done := true } []) t' 1 hreach hstep haccepts hrun ?_ hlast ?_ ?_
  · -- the second waiter is not answered before the last event
    have hall : (following.inits.all fun before =>
        (checkpoints.exec opened (running ++ .sched (.submit forced true) :: before)).all fun u =>
          2 ∉ u.sched.completions.map (·.2.1)) = true := by decide +kernel
    intro before after u hes hu
    have hbefore := all_eq_true.mp hall before ((mem_inits _ _).mpr ⟨after, hes.symm⟩)
    rw [hfrom, hu] at hbefore
    have hunserved : 2 ∉ u.sched.completions.map (·.2.1) := of_decide_eq_true hbefore
    exact hunserved
  · cases (hfrom following).trans hrun
    rfl
  · cases (hfrom following).trans hrun
    cases hlast
    exact mem_cons_of_mem _ mem_cons_self

end Ridstore.Engine
