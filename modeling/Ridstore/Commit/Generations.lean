import Ridstore.Commit.ExactlyOnce

/-
# Ridstore.Commit.Generations — the generations of the redirect tables

A table that is installed gets the next generation, and the next table is installed only after the release of
this one.  The tickets of the commands go up along the queue, so that the generations of the installations
that succeeded follow their tickets.  A group that is written has the requests it was collected from, with
the puts redirected through the table that is installed.
-/

namespace Ridstore.Commit

open Transaction (Limits)
open List

variable {config : Config} {limits : Limits} {s s' : System}

/-! ## §1 — Commands in the queue -/

/-- The ticket of a command. -/
def Queued.commandTicket : Queued → Option Nat
  | .command ticket _ => some ticket
  | .request _ => none

/-- The installation of a table was accepted under the ticket. -/
def System.Installs (s : System) (ticket : Nat) (table : Redirects) : Prop :=
  .command ticket (.redirect ⟨table, 0⟩) ∈ s.accepted ∧ table ≠ []

/-- The release of a generation was accepted under the ticket. -/
def System.Releases (s : System) (ticket generation : Nat) : Prop :=
  .command ticket (.redirect ⟨[], generation⟩) ∈ s.accepted

/-- The ticket was answered with the generation. -/
def System.Grants (s : System) (ticket generation : Nat) : Prop :=
  (ticket, .redirected generation) ∈ s.shared.answers

/-- What a redirect command may be. -/
def RedirectRequest.Proper (command : RedirectRequest) : Prop := command.install = [] ∨ command.release = 0

/-- **The commands are accepted in the order of their tickets.** -/
structure Numbered (s : System) : Prop where
  sorted : (s.accepted.filterMap Queued.commandTicket).Pairwise (· < ·)
  proper : ∀ ticket command, .command ticket (.redirect command) ∈ s.accepted → command.Proper

variable {ticket : Nat}

theorem mem_commandTicket {l : List Queued} :
    ticket ∈ l.filterMap Queued.commandTicket ↔ ∃ c, .command ticket c ∈ l := by
  rw [mem_filterMap]
  constructor
  · rintro ⟨q, hq, hticket⟩
    cases q with
    | request r => cases hticket
    | command t c =>
      cases hticket
      exact ⟨c, hq⟩
  · rintro ⟨c, hc⟩
    exact ⟨_, hc, rfl⟩

variable {c : Command}

theorem Numbered.push (h : Numbered s) (ht : s.Ticketed) (hproper : ∀ command, c = .redirect command → command.Proper)
    (haccepted : s'.accepted = s.accepted ++ [.command s.issued c]) : Numbered s' := by
  refine ⟨?_, fun ticket command hmem => ?_⟩
  · rw [haccepted, filterMap_append, pairwise_append]
    refine ⟨h.sorted, pairwise_singleton _ _, fun a ha b hb => ?_⟩
    rw [mem_singleton.mp hb]
    obtain ⟨c', hc'⟩ := mem_commandTicket.mp ha
    exact ht.issued a (mem_append_right _ (mem_map_of_mem (f := Queued.ticket) hc'))
  · rw [haccepted, Lib.mem_snoc] at hmem
    rcases hmem with hold | hnew
    · exact h.proper ticket command hold
    · cases hnew
      exact hproper command rfl

theorem Numbered.keep (h : Numbered s) (haccepted : s'.accepted = s.accepted) : Numbered s' := by
  refine ⟨?_, ?_⟩ <;> rw [haccepted]
  · exact h.sorted
  · exact h.proper

theorem Numbered.act (h : Numbered s) (ht : s.Ticketed) (hact : s.Acts config limits s') : Numbered s' := by
  cases hact with
  | enqueue r hmem hadmits =>
    refine ⟨?_, fun ticket command hmem' => ?_⟩
    · show ((s.accepted ++ [Queued.request r]).filterMap Queued.commandTicket).Pairwise (· < ·)
      rw [filterMap_append]
      simpa only [filterMap_cons, Queued.commandTicket, filterMap_nil, append_nil] using h.sorted
    · have hpush : .command ticket (.redirect command) ∈ s.accepted ++ [Queued.request r] := hmem'
      rcases Lib.mem_snoc.mp hpush with hold | hnew
      · exact h.proper ticket command hold
      · cases hnew
  | barrier hfree hadmits => exact h.push (c := .barrier) ht (fun command hc => nomatch hc) rfl
  | install table hvalid hadmits =>
    refine h.push (c := .redirect ⟨table, 0⟩) ht (fun command hc => ?_) rfl
    cases hc
    exact .inr rfl
  | release generation =>
    refine h.push (c := .redirect ⟨[], generation⟩) ht (fun command hc => ?_) rfl
    cases hc
    exact .inl rfl
  | _ => exact h.keep rfl

variable {taken : List Queued}

/-- A command that was answered before the last one taken has a smaller ticket. -/
theorem Numbered.ticket_lt (h : Numbered s) (ht : s.Ticketed) (hflow : Flow s taken)
    {ticket ticket' : Nat} {c c' : Command} (hcontrol : s.coordinator.control = .serving ticket c)
    (haccepted : .command ticket' c' ∈ s.accepted) (hanswered : ticket' ∈ s.shared.answers.map Prod.fst) :
    ticket' < ticket := by
  obtain ⟨before, htaken⟩ := hflow.command ticket c (by rw [hcontrol]; rfl)
  obtain ⟨q, hq, hqticket⟩ := mem_map.mp (hflow.answered_subset hanswered)
  have hqeq : q = .command ticket' c' := by
    refine inj_on_of_nodup_map ht.accepted ?_ haccepted hqticket
    rw [hflow.accepted]
    exact mem_append_left _ hq
  subst hqeq
  rw [htaken, mem_append] at hq
  rcases hq with hbefore | hlast
  · have hsorted := h.sorted
    rw [hflow.accepted, htaken, append_assoc, filterMap_append, pairwise_append] at hsorted
    refine hsorted.2.2 ticket' (mem_commandTicket.mpr ⟨c', hbefore⟩) ticket ?_
    exact mem_commandTicket.mpr ⟨c, mem_append_left _ mem_cons_self⟩
  · cases mem_singleton.mp hlast
    refine absurd hanswered (hflow.not_answered (x := ⟨ticket, .command⟩) ht ?_)
    refine mem_append_right _ ?_
    rw [hcontrol]
    exact mem_cons_self

/-! ## §2 — Generations -/

/-- **The generations.** -/
structure Generational (s : System) : Prop where
  bound : ∀ t g, s.Grants t g → g ≤ s.coordinator.redirectGen
  released : ∀ u g, s.Releases u g → g ≤ s.coordinator.redirectGen
  order : ∀ t t' R R' g g', s.Installs t R → s.Installs t' R' → s.Grants t g → s.Grants t' g' → t < t' → g < g'
  current : s.coordinator.redirects ≠ [] →
    ∃ t, s.Installs t s.coordinator.redirects ∧ s.Grants t s.coordinator.redirectGen
  done : ∀ t R g, s.Installs t R → s.Grants t g →
    s.coordinator.redirects = [] ∨ g ≠ s.coordinator.redirectGen → ∃ u, s.Releases u g
  closed : ∀ u g, s.Releases u g → s.Grants u g →
    s.coordinator.redirects = [] ∨ g < s.coordinator.redirectGen

/-- A command that a caller has queued has a new ticket, and a release has its grant. -/
theorem System.Acts.command_mem (h : s.Acts config limits s') {t : Nat} (hmem : .command t c ∈ s'.accepted) :
    .command t c ∈ s.accepted ∨ t = s.issued ∧ ∀ g, c = .redirect ⟨[], g⟩ → s.granted g := by
  have hpush : ∀ c' : Command, (∀ g, c' = .redirect ⟨[], g⟩ → s.granted g) →
      .command t c ∈ s.accepted ++ [.command s.issued c'] →
      .command t c ∈ s.accepted ∨ t = s.issued ∧ ∀ g, c = .redirect ⟨[], g⟩ → s.granted g := by
    intro c' hc' hin
    rcases Lib.mem_snoc.mp hin with hold | hnew
    · exact .inl hold
    · cases hnew
      exact .inr ⟨rfl, hc'⟩
  cases h with
  | enqueue r hmem' hadmits =>
    have hin : .command t c ∈ s.accepted ++ [Queued.request r] := hmem
    rcases Lib.mem_snoc.mp hin with hold | hnew
    · exact .inl hold
    · cases hnew
  | barrier hfree hadmits => exact hpush .barrier (fun g hc => nomatch hc) hmem
  | install table hvalid hadmits =>
    refine hpush _ (fun g hc => ?_) hmem
    cases hc
    exact absurd rfl hvalid.1
  | release generation hgranted hfree hadmits =>
    refine hpush _ (fun g hc => ?_) hmem
    cases hc
    exact hgranted
  | _ => exact .inl hmem

/-- A ticket that was granted a generation has been issued. -/
theorem Grants.lt (ht : s.Ticketed) (hflow : Flow s taken) {t g : Nat} (h : s.Grants t g) : t < s.issued := by
  refine Settled.ticket_lt ht hflow (mem_append_left _ ?_)
  exact mem_map_of_mem (f := Prod.fst) h

theorem Generational.act (h : Generational s) (ht : s.Ticketed) (hflow : Flow s taken)
    (hact : s.Acts config limits s') : Generational s' := by
  obtain ⟨new, hf⟩ := hact.framed
  obtain ⟨-, -, hredirects, hgen⟩ := hact.coordinator
  have hgrants : ∀ {t g}, s'.Grants t g → s.Grants t g := by
    intro t g hg
    rw [System.Grants, hf.answers] at hg
    exact hg
  -- a command that was answered is not the new one
  have hold : ∀ {t g c}, s'.Grants t g → .command t c ∈ s'.accepted → .command t c ∈ s.accepted := by
    intro t g c hg hmem
    rcases hact.command_mem hmem with hmem | ⟨rfl, -⟩
    · exact hmem
    · exact absurd (Grants.lt ht hflow (hgrants hg)) (Nat.lt_irrefl _)
  have hkeep : ∀ {q}, q ∈ s.accepted → q ∈ s'.accepted := by
    intro q hq
    rw [hf.accepted]
    exact mem_append_left _ hq
  refine ⟨?_, ?_, ?_, ?_, ?_, ?_⟩
  · rw [hgen]
    exact fun t g hg => h.bound t g (hgrants hg)
  · rw [hgen]
    intro u g hrel
    rcases hact.command_mem hrel with hmem | ⟨-, hgranted⟩
    · exact h.released u g hmem
    · obtain ⟨p, hp, hpg⟩ := mem_map.mp (hgranted g rfl)
      refine h.bound p.1 g ?_
      rw [System.Grants, ← hpg]
      exact hp
  · intro t t' R R' g g' hi hi' hg hg' hlt
    exact h.order t t' R R' g g' ⟨hold hg hi.1, hi.2⟩ ⟨hold hg' hi'.1, hi'.2⟩ (hgrants hg) (hgrants hg') hlt
  · rw [hredirects, hgen]
    intro hne
    obtain ⟨t, hi, hg⟩ := h.current hne
    refine ⟨t, ⟨hkeep hi.1, hi.2⟩, ?_⟩
    rw [System.Grants, hf.answers]
    exact hg
  · rw [hredirects, hgen]
    intro t R g hi hg hor
    obtain ⟨u, hu⟩ := h.done t R g ⟨hold hg hi.1, hi.2⟩ (hgrants hg) hor
    exact ⟨u, hkeep hu⟩
  · rw [hredirects, hgen]
    exact fun u g hrel hg => h.closed u g (hold hg hrel) (hgrants hg)

/-- A turn that grants nothing and keeps the table. -/
theorem Generational.keep (h : Generational s) (haccepted : s'.accepted = s.accepted)
    (hredirects : s'.coordinator.redirects = s.coordinator.redirects)
    (hgen : s'.coordinator.redirectGen = s.coordinator.redirectGen)
    (hgrants : ∀ t g, s'.Grants t g ↔ s.Grants t g) : Generational s' := by
  refine ⟨?_, ?_, ?_, ?_, ?_, ?_⟩ <;>
    simp only [hgrants, System.Installs, System.Releases, haccepted, hredirects, hgen]
  · exact h.bound
  · exact h.released
  · exact h.order
  · exact h.current
  · exact h.done
  · exact h.closed

/-- An answer that grants nothing. -/
theorem grants_concat {t g t' : Nat} {a : Answer} (ha : ∀ g, a ≠ .redirected g) (answers : List (Nat × Answer)) :
    (t, .redirected g) ∈ answers ++ [(t', a)] ↔ (t, .redirected g) ∈ answers := by
  rw [mem_append, mem_singleton, or_iff_left_iff_imp]
  intro heq
  cases heq
  exact absurd rfl (ha g)

/-- The end of a request grants no generation. -/
theorem complete_grants (shared : Shared) (r : Request) (verdict : Verdict) :
    ∃ a, (shared.complete r verdict).1.answers = shared.answers ++ [(r.ticket, a)] ∧
      ∀ g, a ≠ .redirected g := by
  obtain ⟨a, ha, hreply⟩ := complete_answers shared r verdict
  refine ⟨a, ha, fun g => ?_⟩
  rcases hreply with ⟨cause, rfl⟩ | ⟨seq, resolved, -, rfl⟩
  · rintro ⟨⟩
  · unfold Entry.reply
    split <;> rintro ⟨⟩

theorem processCheckpoint_grants (c : Coordinator) (covered : Nat) (outcome : Except Cause RecordLog.LogPos) :
    (∀ g, (c.processCheckpoint covered outcome).2 ≠ .redirected g) ∧
      (c.processCheckpoint covered outcome).1.redirects = c.redirects ∧
      (c.processCheckpoint covered outcome).1.redirectGen = c.redirectGen := by
  simp only [Coordinator.processCheckpoint]
  split
  · exact ⟨(fun _ heq => by cases heq), rfl, rfl⟩
  · split
    · exact ⟨(fun _ heq => by cases heq), rfl, rfl⟩
    · split <;> exact ⟨(fun _ heq => by cases heq), rfl, rfl⟩

/-- What `processRedirect` does: nothing, an installation or a release. -/
theorem processRedirect_cases (c : Coordinator) (command : RedirectRequest) :
    (∃ cause, c.processRedirect command = (c, .failed cause)) ∨
      (command.install ≠ [] ∧ c.redirects = [] ∧ c.processRedirect command =
        ({ c with redirectGen := c.redirectGen + 1, redirects := command.install }, .redirected (c.redirectGen + 1))) ∨
      (command.install = [] ∧ command.release = c.redirectGen ∧ c.redirects ≠ [] ∧
        c.processRedirect command = ({ c with redirects := [] }, .redirected c.redirectGen)) := by
  simp only [Coordinator.processRedirect]
  split
  next => exact .inl ⟨_, rfl⟩
  next =>
    split
    next hinstall =>
      split
      next => exact .inl ⟨_, rfl⟩
      next hfree =>
        simp only [ne_eq, not_or, not_not] at hfree
        exact .inr (.inl ⟨hinstall, hfree.1, rfl⟩)
    next hinstall =>
      split
      next => exact .inl ⟨_, rfl⟩
      next hfree =>
        simp only [not_or, ne_eq, not_not] at hfree hinstall
        refine .inr (.inr ⟨hinstall, hfree.2.1, hfree.2.2, ?_⟩)
        rw [hfree.2.1]

/-- The installation of a table is answered with the next generation. -/
theorem Generational.install (h : Generational s) (hnum : Numbered s) (ht : s.Ticketed) (hflow : Flow s taken)
    {table : Redirects} (hcontrol : s.coordinator.control = .serving ticket c) (hinstalls : s.Installs ticket table)
    (hfree : s.coordinator.redirects = []) :
    Generational (s.answer ticket
      ({ s.coordinator with redirectGen := s.coordinator.redirectGen + 1, redirects := table },
        .redirected (s.coordinator.redirectGen + 1))) := by
  have hgrants : ∀ {t g}, (t, .redirected g) ∈ s.shared.answers ++
      [(ticket, .redirected (s.coordinator.redirectGen + 1))] →
      s.Grants t g ∨ t = ticket ∧ g = s.coordinator.redirectGen + 1 := by
    intro t g hg
    refine (Lib.mem_snoc.mp hg).imp_right fun heq => ?_
    cases heq
    exact ⟨rfl, rfl⟩
  have hbefore : ∀ {t g R}, s.Grants t g → s.Installs t R → t < ticket := by
    intro t g R hg hi
    exact hnum.ticket_lt ht hflow hcontrol hi.1 (mem_map_of_mem (f := Prod.fst) hg)
  refine ⟨fun t g hg => ?_, fun u g hrel => Nat.le_succ_of_le (h.released u g hrel),
    fun t t' R R' g g' hi hi' hg hg' hlt => ?_, fun _ => ⟨ticket, hinstalls, mem_append_right _ mem_cons_self⟩,
    fun t R g hi hg hor => ?_, fun u g hrel hg => ?_⟩
  · rcases hgrants hg with hold | ⟨-, rfl⟩
    · exact Nat.le_succ_of_le (h.bound t g hold)
    · exact Nat.le_refl _
  · rcases hgrants hg with hold | ⟨rfl, rfl⟩ <;> rcases hgrants hg' with hold' | ⟨rfl, rfl⟩
    · exact h.order t t' R R' g g' hi hi' hold hold' hlt
    · exact Nat.lt_succ_of_le (h.bound t g hold)
    · exact absurd (hbefore hold' hi') (Nat.not_lt_of_lt hlt)
    · exact absurd hlt (Nat.lt_irrefl _)
  · rcases hgrants hg with hold | ⟨rfl, rfl⟩
    · exact h.done t R g hi hold (.inl hfree)
    · rcases hor with hempty | hne
      · exact absurd hempty hinstalls.2
      · exact absurd rfl hne
  · rcases hgrants hg with hold | ⟨rfl, rfl⟩
    · exact .inr (Nat.lt_succ_of_le (h.bound u g hold))
    · exact absurd (h.released _ _ hrel) (Nat.not_succ_le_self _)

/-- The release of the table is answered. -/
theorem Generational.release (h : Generational s) (hreleases : s.Releases ticket s.coordinator.redirectGen)
    (hnot : ∀ R, ¬ s.Installs ticket R) :
    Generational (s.answer ticket
      ({ s.coordinator with redirects := [] }, .redirected s.coordinator.redirectGen)) := by
  have hgrants : ∀ {t g}, (t, .redirected g) ∈ s.shared.answers ++ [(ticket, .redirected s.coordinator.redirectGen)] →
      s.Grants t g ∨ t = ticket ∧ g = s.coordinator.redirectGen := by
    intro t g hg
    refine (Lib.mem_snoc.mp hg).imp_right fun heq => ?_
    cases heq
    exact ⟨rfl, rfl⟩
  have hold : ∀ {t g R}, (t, .redirected g) ∈ s.shared.answers ++
      [(ticket, .redirected s.coordinator.redirectGen)] → s.Installs t R → s.Grants t g := by
    intro t g R hg hi
    rcases hgrants hg with hg | ⟨rfl, -⟩
    · exact hg
    · exact absurd hi (hnot R)
  refine ⟨fun t g hg => ?_, h.released,
    fun t t' R R' g g' hi hi' hg hg' hlt => h.order t t' R R' g g' hi hi' (hold hg hi) (hold hg' hi') hlt,
    fun hne => absurd rfl hne, fun t R g hi hg _ => ?_, fun _ _ _ _ => .inl rfl⟩
  · rcases hgrants hg with hg | ⟨-, rfl⟩
    · exact h.bound t g hg
    · exact Nat.le_refl _
  · by_cases heq : g = s.coordinator.redirectGen
    · rw [heq]
      exact ⟨ticket, hreleases⟩
    · exact h.done t R g hi (hold hg hi) (.inr heq)

theorem Generational.turn (h : Generational s) (hnum : Numbered s) (ht : s.Ticketed)
    (hflow : Flow s taken) (hturn : s.Turns config s') : Generational s' := by
  cases hturn with
  | complete r verdict =>
    obtain ⟨a, ha, hne⟩ := complete_grants s.shared r verdict
    refine h.keep rfl rfl rfl fun t g => ?_
    rw [System.Grants, ha]
    exact grants_concat hne _
  | checkpoint ticket covered outcome hcontrol =>
    obtain ⟨hne, hredirects, hgen⟩ := processCheckpoint_grants s.coordinator covered outcome
    exact h.keep rfl hredirects hgen fun t g => grants_concat hne _
  | redirect ticket command hcontrol =>
    have hmem := hflow.serving hcontrol
    obtain ⟨install, release⟩ := command
    rcases processRedirect_cases s.coordinator ⟨install, release⟩ with
      ⟨cause, heq⟩ | ⟨hinstall, hfree, heq⟩ | ⟨hinstall, hrelease, hne, heq⟩
    · rw [heq]
      have hne : ∀ g, Answer.failed cause ≠ .redirected g := nofun
      exact h.keep rfl rfl rfl fun t g => grants_concat hne _
    · rw [heq]
      have hzero : release = 0 := (hnum.proper ticket _ hmem).resolve_left hinstall
      subst hzero
      exact h.install hnum ht hflow hcontrol ⟨hmem, hinstall⟩ hfree
    · rw [heq]
      have hnil : install = [] := hinstall
      have hrel : release = s.coordinator.redirectGen := hrelease
      subst hnil
      rw [hrel] at hmem
      refine h.release hmem fun R hi => ?_
      have hsame := inj_on_of_nodup_map ht.accepted hmem hi.1 rfl
      injection hsame with _ hcommand
      injection hcommand with hrequest
      injection hrequest with htable _
      exact hi.2 htable.symm
  | _ => exact h.keep rfl rfl rfl fun _ _ => Iff.rfl

/-- An installation that is answered in a turn gets a generation that nobody can have released. -/
theorem Generational.grants_of_turn (h : Generational s) (ht : s.Ticketed) (hflow : Flow s taken)
    (hturn : s.Turns config s') {t u g : Nat} {R : Redirects} (hinstalls : s.Installs t R) (hgrants : s'.Grants t g)
    (hreleases : s.Releases u g) : s.Grants t g := by
  cases hturn with
  | complete r verdict =>
    obtain ⟨a, ha, hne⟩ := complete_grants s.shared r verdict
    rw [System.Grants, ha] at hgrants
    exact (grants_concat hne _).mp hgrants
  | checkpoint ticket covered outcome hcontrol =>
    obtain ⟨hne, -, -⟩ := processCheckpoint_grants s.coordinator covered outcome
    exact (grants_concat hne _).mp hgrants
  | redirect ticket command hcontrol =>
    have hin : (t, .redirected g) ∈ s.shared.answers ++ [(ticket, (s.coordinator.processRedirect command).2)] :=
      hgrants
    rcases mem_append.mp hin with hold | hnew
    · exact hold
    have heq := mem_singleton.mp hnew
    rw [Prod.mk.injEq] at heq
    rcases processRedirect_cases s.coordinator command with
      ⟨cause, hanswer⟩ | ⟨-, -, hanswer⟩ | ⟨hinstall, -, -, -⟩
    · rw [hanswer] at heq
      cases heq.2
    · rw [hanswer] at heq
      have hgen : g = s.coordinator.redirectGen + 1 := by injection heq.2
      exact absurd (h.released u g hreleases) (by omega)
    · have hsame := inj_on_of_nodup_map ht.accepted hinstalls.1 (hflow.serving hcontrol) heq.1
      injection hsame with _ hcommand
      injection hcommand with hrequest
      rw [← hrequest] at hinstall
      exact absurd hinstall hinstalls.2
  | _ => exact hgrants

/-! ## §3 — The requests of a group -/

/-- **A group that is written has accepted requests, redirected through the installed table.** -/
def Redirected (s : System) : Prop :=
  ∀ job, s.coordinator.control.job = some job → ∀ e ∈ job.entries, ∃ r, .request r ∈ s.accepted ∧
    e.request = r.applyCommitRedirects s.coordinator.redirects

theorem Redirected.act (h : Redirected s) (hact : s.Acts config limits s') : Redirected s' := by
  obtain ⟨new, hf⟩ := hact.framed
  obtain ⟨-, -, hredirects, -⟩ := hact.coordinator
  intro job hjob e he
  rw [hf.control] at hjob
  obtain ⟨r, hr, heq⟩ := h job hjob e he
  refine ⟨r, ?_, by rw [heq, hredirects]⟩
  rw [hf.accepted]
  exact mem_append_left _ hr

theorem Redirected.keep (h : Redirected s) (haccepted : s'.accepted = s.accepted)
    (hredirects : s'.coordinator.redirects = s.coordinator.redirects)
    (hjob : s'.coordinator.control.job = s.coordinator.control.job ∨ s'.coordinator.control.job = none) :
    Redirected s' := by
  intro job hsome
  rw [haccepted, hredirects]
  rcases hjob with hsame | hnone
  · exact h job (hsame ▸ hsome)
  · rw [hnone] at hsome
    cases hsome

theorem Redirected.turn (h : Redirected s) (hlined : Lined s taken) (hturn : s.Turns config s') : Redirected s' := by
  cases hturn with
  | assign group after plan entries next hcontrol hfault hplan hassign hencode =>
    intro job hjob e he
    have hentries : entries = job.entries := by
      have heq : some (⟨plan, entries, next⟩ : Job) = some job := hjob
      cases heq
      rfl
    have hmem : e.request ∈ s.coordinator.active group := by
      rw [← (assignSequences_requests hplan hassign).1]
      exact mem_map_of_mem (hentries ▸ he)
    obtain ⟨r, hr, hredirected⟩ := mem_map.mp hmem
    refine ⟨r, ?_, by rw [← hredirected]; rfl⟩
    have hgroup : r ∈ group :=
      (filter_append_perm Request.isUser group).mem_iff.mp hr
    show Queued.request r ∈ s.accepted
    rw [hlined.accepted]
    refine mem_append_left _ (hlined.sublist.subset (mem_map_of_mem ?_))
    rw [System.collected, hcontrol]
    exact mem_append_right _ (mem_append_left _ hgroup)
  | append job after hcontrol => exact h.keep rfl rfl (.inl (by rw [hcontrol]; rfl))
  | checkpoint ticket covered outcome hcontrol =>
    exact h.keep rfl (processCheckpoint_grants s.coordinator covered outcome).2.1 (.inr rfl)
  | redirect => rintro job ⟨⟩
  | resume after hcontrol => exact h.keep rfl rfl (.inr after.job_control)
  | _ => exact h.keep rfl rfl (.inr rfl)

/-- **A group that is written has the plan of its requests as they are written.** -/
def Planned (s : System) : Prop :=
  ∀ job, s.coordinator.control.job = some job → job.entries.map Entry.resolved = job.plan.proposals ∧
    ∃ view : Mapping.View, view.resolveGroup (job.entries.map fun e => e.request.proposal) = .ok job.plan

theorem Planned.act (h : Planned s) (hact : s.Acts config limits s') : Planned s' := by
  obtain ⟨new, hf⟩ := hact.framed
  unfold Planned
  rw [hf.control]
  exact h

theorem Planned.turn (h : Planned s) (hturn : s.Turns config s') : Planned s' := by
  have hplain : ∀ t : System, t.coordinator.control.job = none → Planned t := by
    intro t hnone job hsome
    rw [hnone] at hsome
    cases hsome
  cases hturn with
  | assign group after plan entries next hcontrol hfault hplan hassign hencode hresolve =>
    rintro job ⟨⟩
    obtain ⟨hrequests, hresolved⟩ := assignSequences_requests hplan hassign
    obtain ⟨view, hview⟩ := hresolve
    rw [← hrequests, map_map] at hview
    exact ⟨hresolved, view, hview⟩
  | append job after hcontrol =>
    intro job' hsome
    refine h job' ?_
    rw [hcontrol]
    exact hsome
  | resume after => exact hplain _ after.job_control
  | _ => exact hplain _ rfl

/-- **What is known of the redirect tables in every run.** -/
structure Tabled (config : Config) (s : System) : Prop extends Inv config s where
  numbered : Numbered s
  generational : Generational s
  redirected : Redirected s
  planned : Planned s

theorem Tabled.initial (hvalid : config.Valid) (h : s.Initial limits) : Tabled config s := by
  obtain ⟨covered, -, hcoordinator⟩ := h.coordinator
  have hgrants : ∀ t g, ¬ s.Grants t g := by
    intro t g
    rw [System.Grants, h.answers]
    exact not_mem_nil
  have hcommand : ∀ t c, .command t c ∉ s.accepted := by
    intro t c
    rw [h.accepted]
    exact not_mem_nil
  refine ⟨Inv.initial hvalid h, ⟨?_, fun t c hmem => absurd hmem (hcommand t _)⟩, ⟨?_, ?_, ?_, ?_, ?_, ?_⟩, ?_, ?_⟩
  · rw [h.accepted]
    exact List.Pairwise.nil
  · exact fun t g hg => absurd hg (hgrants t g)
  · exact fun u g hrel => absurd hrel (hcommand u _)
  · exact fun t t' R R' g g' _ _ hg => absurd hg (hgrants t g)
  · rw [hcoordinator]
    exact fun hne => absurd rfl hne
  · exact fun t R g _ hg => absurd hg (hgrants t g)
  · exact fun u g _ hg => absurd hg (hgrants u g)
  · intro job hjob
    rw [hcoordinator] at hjob
    cases hjob
  · intro job hjob
    rw [hcoordinator] at hjob
    cases hjob

theorem Tabled.act (h : Tabled config s) (hact : s.Acts config limits s') : Tabled config s' := by
  obtain ⟨taken, hflow⟩ := h.flow
  exact ⟨h.toInv.act hact, h.numbered.act h.ticketed hact, h.generational.act h.ticketed hflow hact,
    h.redirected.act hact, h.planned.act hact⟩

theorem Tabled.turn (h : Tabled config s) (hturn : s.Turns config s') : Tabled config s' := by
  obtain ⟨taken, hflow⟩ := h.flow
  obtain ⟨lined, hlined⟩ := h.lined
  exact ⟨h.toInv.turn hturn, h.numbered.keep hturn.callers.1,
    h.generational.turn h.numbered h.ticketed hflow hturn, h.redirected.turn hlined hturn,
    h.planned.turn hturn⟩

end Ridstore.Commit
