import Ridstore.Commit.Redirects

/-
# Ridstore.Commit.RedirectSafety — no commit brings a redirected address back

While a table is installed the coordinator replaces its keys, and an open batch that was passed to
`RewritePutRefs` has none of them.  When the release is queued nobody is inside of the admission lock, so that
every request with a key stands before it in the queue; after the release no batch and no request has a key.
All of this needs that a replacement is a new record: a table may replace an address by one of its own keys,
and such an address would come back.
-/

namespace Ridstore.Commit

open RecordLog (VAddr RecordRef)
open Function List
open Transaction (Batch Limits Prepared)

variable {config : Config} {limits : Limits} {table : Redirects} {b : Batch}

/-! ## §1 — Tables -/

/-- None of the addresses is a key of the table. -/
def Redirects.Avoids (table : Redirects) (addrs : List VAddr) : Prop := ∀ addr ∈ addrs, table.lookup addr = none

namespace Redirects

variable {addr : VAddr}

theorem mem_of_lookup {ref : RecordRef} (h : table.lookup addr = some ref) : (addr, ref) ∈ table := by
  obtain ⟨entry, hfind, rfl⟩ := Option.map_eq_some_iff.mp h
  have hfound := List.find?_some hfind
  have hkey : entry.1 = addr := of_decide_eq_true hfound
  rw [← hkey]
  exact mem_of_find?_eq_some hfind

theorem lookup_eq_none (h : ∀ entry ∈ table, entry.1 ≠ addr) : table.lookup addr = none := by
  cases hlookup : table.lookup addr with
  | none => rfl
  | some ref => exact absurd rfl (h _ (mem_of_lookup hlookup))

/-- Redirected puts have none of the keys when the replacements have none. -/
theorem avoids_redirect {other : Redirects} {mutations : List Transaction.Mutation}
    (hkeep : ∀ addr ∈ Batch.putAddrs mutations, table.lookup addr = none → other.lookup addr = none)
    (hnew : ∀ addr ∈ Batch.putAddrs mutations, ∀ ref, table.lookup addr = some ref → other.lookup ref.addr = none) :
    other.Avoids (Batch.putAddrs (mutations.map (Batch.redirect table.lookup))) := by
  intro addr haddr
  obtain ⟨old, hold, hcases⟩ := Batch.mem_putAddrs_redirect haddr
  rcases hcases with ⟨hnone, rfl⟩ | ⟨ref, hsome, rfl⟩
  · exact hkeep _ hold hnone
  · exact hnew old hold ref hsome

end Redirects

/-- A table that no pending put of an open batch meets. -/
theorem avoids_of_not_pending (hopen : b.state = .opened)
    (h : table.pendingIn b = false) : table.Avoids (Batch.putAddrs b.mutations) := by
  intro addr haddr
  obtain ⟨m, hm, hput, rfl⟩ := Batch.mem_putAddrs.mp haddr
  have hnone := any_eq_false.mp h m.ref ?_
  · simpa only [Bool.not_eq_true, Option.isSome_eq_false_iff, Option.isNone_iff_eq_none] using hnone
  · rw [Batch.pendingPutRefs, if_pos (.inl hopen)]
    exact mem_map_of_mem (mem_filter.mpr ⟨hm, decide_eq_true hput⟩)

/-! ## §2 — The steps -/

namespace Redirecting

variable {s s' : Redirecting}

/-- The system after a batch was written. -/
def withBatch (s : System) (batch : Nat) (b : Batch) : System := { s with shared := s.shared.setBatch batch b }

theorem batches_withBatch (s : System) (batch : Nat) (b : Batch) : (withBatch s batch b).shared.batches batch = b := by
  show update s.shared.batches batch b batch = b
  rw [update_self]

/-- **The steps of the machine.** -/
inductive Steps (config : Config) (limits : Limits) (s : Redirecting) : Redirecting.Event → Redirecting → Prop
  | call (batch : Nat) (c : Batch.Call) (hc : ∀ redirects, c ≠ .rewritePutRefs redirects)
      (hfresh : ∀ ref, c.appended = some ref → ref.addr ∉ s.used) :
      Steps config limits s (.base (.act (.call batch c)))
        { s with
          system := withBatch s.system batch ((s.system.shared.batches batch).call limits c)
          touched := batch :: s.touched
          used := c.appended.toList.map RecordRef.addr ++ s.used }
  | install (table : Redirects) (hvalid : table.Valid) (hadmits : s.system.admits config) :
      Steps config limits s (.base (.act (.install table)))
        { s with
          system := s.system.pushCommand (.redirect ⟨table, 0⟩)
          used := table.map (fun entry => entry.2.addr) ++ s.used
          sessions := s.sessions ++
            [⟨s.system.issued, table, s.touched.filter fun i => table.pendingIn (s.system.shared.batches i)⟩] }
  | release (generation : Nat) (hgranted : s.system.granted generation) (hfree : s.system.unlocked)
      (hadmits : s.system.admits config) :
      Steps config limits s (.base (.act (.release generation)))
        { s with system := s.system.pushCommand (.redirect ⟨[], generation⟩) }
  | rewrite (batch : Nat) (τ : Session) (generation : Nat) (hτ : τ ∈ s.sessions)
      (hgrants : s.system.Grants τ.ticket generation) :
      Steps config limits s (.rewrite batch τ.ticket)
        { s with
          system := withBatch s.system batch ((s.system.shared.batches batch).rewritePutRefs τ.table.lookup).1
          sessions := s.sessions.map (Session.rewrote τ.ticket batch
            ((s.system.shared.batches batch).rewritePutRefs τ.table.lookup).1) }
  | act (a : Action) (t : System) (hact : s.system.Acts config limits t) (hquiet : Quiet s.system t) :
      Steps config limits s (.base (.act a)) { s with system := t }
  | turn (a : Turn) (t : System) (hturn : s.system.Turns config t) :
      Steps config limits s (.base (.turn a)) { s with system := t }

theorem call_cases {batch : Nat} {c : Batch.Call} (h : s.call config limits batch c = some s') :
    s.Steps config limits (.base (.act (.call batch c))) s' := by
  have hc : ∀ redirects, c ≠ .rewritePutRefs redirects := by
    rintro redirects rfl
    cases h
  have hcall : s.call config limits batch c =
      if c.appended.any fun ref => s.used.contains ref.addr then none
      else
        (s.system.act config limits (.call batch c)).map fun t =>
          { s with
            system := t
            touched := batch :: s.touched
            used := c.appended.toList.map RecordRef.addr ++ s.used } := by
    cases c with
    | rewritePutRefs redirects => exact absurd rfl (hc redirects)
    | _ => rfl
  rw [hcall] at h
  split at h
  next => cases h
  next hfresh =>
    cases h
    refine .call batch c hc fun ref href hmem => hfresh ?_
    rw [href, Option.any_some]
    exact contains_iff_mem.mpr hmem

theorem returned_grants {ticket : Nat} (h : s.returned ticket = true) : ∃ g, s.system.Grants ticket g := by
  obtain ⟨p, hp, hreturned⟩ := any_eq_true.mp h
  obtain ⟨t, a⟩ := p
  simp only [Bool.and_eq_true, decide_eq_true_eq] at hreturned
  obtain ⟨rfl, hanswer⟩ := hreturned
  cases a with
  | redirected g => exact ⟨g, hp⟩
  | _ => cases hanswer

/-- **Every step has one of the forms.** -/
theorem step_cases {e : Redirecting.Event} (h : s.step config limits e = some s') : s.Steps config limits e s' := by
  cases e with
  | rewrite batch ticket =>
    have hrewrite : s.rewrite config limits batch ticket = some s' := h
    simp only [rewrite] at hrewrite
    split at hrewrite
    next => cases hrewrite
    next τ hfind =>
      obtain ⟨hreturned, hmap⟩ := Option.ite_none_right_eq_some.mp hrewrite
      obtain ⟨t, ht, rfl⟩ := Option.map_eq_some_iff.mp hmap
      cases ht
      have hfound := List.find?_some hfind
      have hticket : τ.ticket = ticket := of_decide_eq_true hfound
      subst hticket
      obtain ⟨g, hg⟩ := returned_grants hreturned
      show s.Steps config limits (.rewrite batch τ.ticket)
        { s with
          system := withBatch s.system batch ((s.system.shared.batches batch).rewritePutRefs τ.table.lookup).1
          sessions := s.sessions.map (Session.rewrote τ.ticket batch ((withBatch s.system batch
            ((s.system.shared.batches batch).rewritePutRefs τ.table.lookup).1).shared.batches batch)) }
      rw [batches_withBatch]
      exact .rewrite batch τ g (mem_of_find?_eq_some hfind) hg
  | base e =>
    cases e with
    | turn a =>
      obtain ⟨t, ht, rfl⟩ := Option.map_eq_some_iff.mp h
      exact .turn a t (System.turn_cases ht)
    | act a =>
      have hquiet : a.plain = true →
          (s.system.act config limits a).map (fun t => { s with system := t }) = some s' →
          s.Steps config limits (.base (.act a)) s' := by
        intro hplain hmap
        obtain ⟨t, ht, rfl⟩ := Option.map_eq_some_iff.mp hmap
        exact .act a t (System.act_cases ht) (act_quiet ht hplain)
      cases a with
      | call batch c => exact call_cases h
      | install table =>
        obtain ⟨t, ht, rfl⟩ := Option.map_eq_some_iff.mp h
        obtain ⟨⟨hvalid, hadmits⟩, rfl⟩ := Lib.when_eq_some ht
        exact .install table hvalid hadmits
      | release generation =>
        obtain ⟨t, ht, rfl⟩ := Option.map_eq_some_iff.mp h
        obtain ⟨⟨hgranted, hfree, hadmits⟩, rfl⟩ := Lib.when_eq_some ht
        exact .release generation hgranted hfree hadmits
      | _ => exact hquiet rfl h

end Redirecting

/-! ## §3 — After the release -/

/-- **Nothing brings a key of the table back**: the open batches, the callers on their way to the queue and
the requests behind the release under the ticket have none of its keys. -/
structure Clean (table : Redirects) (u : Nat) (s : System) : Prop where
  opened : ∀ i, (s.shared.batches i).state = .opened →
    table.Avoids (Batch.putAddrs (s.shared.batches i).mutations)
  ready : ∀ r, .ready r ∈ s.admitting → table.Avoids r.putAddrs
  later : ∃ before c after, s.accepted = before ++ .command u c :: after ∧
    ∀ r, .request r ∈ after → table.Avoids r.putAddrs

section Clean

variable {s s' : System}

/-- A caller that has prepared its batch has the puts of an open batch. -/
theorem System.Acts.ready_cases (h : s.Acts config limits s') {r : Request} (hr : .ready r ∈ s'.admitting) :
    .ready r ∈ s.admitting ∨ r.putAddrs = [] ∨
      ∃ i, (s.shared.batches i).state = .opened ∧ r.putAddrs = Batch.putAddrs (s.shared.batches i).mutations := by
  cases h with
  | enter a entries ledger hfence henters hreserve =>
    have hin : .ready r ∈ s.admitting ++ [a] := hr
    rcases Lib.mem_snoc.mp hin with hold | hnew
    · exact .inl hold
    · cases hnew
      obtain ⟨-, relocation, hwork⟩ := henters
      refine .inr (.inl ?_)
      rw [Request.putAddrs, hwork]
  | prepare ticket batch b prepared hmem hprepare =>
    obtain ⟨hopen, -, rfl⟩ := Batch.prepare_eq_ok hprepare
    rcases Lib.mem_snoc.mp hr with hold | hnew
    · exact .inl (mem_of_mem_filter hold)
    · cases hnew
      exact .inr (.inr ⟨batch, hopen, rfl⟩)
  | call | barrier | install | release | unfence | close | discharge => exact .inl hr
  | _ => exact .inl (mem_of_mem_filter hr)

/-- A request that is queued was ready. -/
theorem System.Acts.queued (h : s.Acts config limits s') :
    ∃ new, s'.accepted = s.accepted ++ new ∧ ∀ r, .request r ∈ new → .ready r ∈ s.admitting := by
  have hkeep : ∀ t : System, t.accepted = s.accepted →
      ∃ new, t.accepted = s.accepted ++ new ∧ ∀ r, .request r ∈ new → .ready r ∈ s.admitting := by
    intro t ht
    exact ⟨[], by rw [ht, append_nil], nofun⟩
  have hcommand : ∀ (t : System) (c : Command), t.accepted = s.accepted ++ [.command s.issued c] →
      ∃ new, t.accepted = s.accepted ++ new ∧ ∀ r, .request r ∈ new → .ready r ∈ s.admitting := by
    intro t c ht
    exact ⟨_, ht, fun r hr => nomatch mem_singleton.mp hr⟩
  cases h with
  | enqueue r hmem hadmits =>
    refine ⟨[.request r], rfl, fun r' hr' => ?_⟩
    cases mem_singleton.mp hr'
    exact hmem
  | barrier hfree hadmits => exact hcommand _ .barrier rfl
  | install | release => exact hcommand _ _ rfl
  | _ => exact hkeep _ rfl

/-- A step of the callers that brings no key into an open batch. -/
theorem Clean.act {u : Nat} (h : Clean table u s) (hact : s.Acts config limits s')
    (hopened : ∀ i, (s'.shared.batches i).state = .opened →
      table.Avoids (Batch.putAddrs (s'.shared.batches i).mutations)) : Clean table u s' := by
  refine ⟨hopened, fun r hr => ?_, ?_⟩
  · rcases hact.ready_cases hr with hold | hnil | ⟨i, hopen, heq⟩
    · exact h.ready r hold
    · rw [hnil]
      exact nofun
    · rw [heq]
      exact h.opened i hopen
  · obtain ⟨before, c, after, haccepted, hafter⟩ := h.later
    obtain ⟨new, haccepted', hnew⟩ := hact.queued
    refine ⟨before, c, after ++ new, by rw [haccepted', haccepted, append_assoc, cons_append], ?_⟩
    intro r hr
    rcases mem_append.mp hr with hold | hin
    · exact hafter r hold
    · exact h.ready r (hnew r hin)

variable {i : Nat}

/-- An open batch is as it was before a quiet step. -/
theorem Quiet.opened (h : Quiet s s') (hopen : (s'.shared.batches i).state = .opened) :
    s'.shared.batches i = s.shared.batches i := by
  rcases h.batches i with heq | ⟨hne, -⟩
  · exact heq
  · exact absurd hopen hne

theorem Quiet.avoids (h : Quiet s s')
    (hold : (s.shared.batches i).state = .opened → table.Avoids (Batch.putAddrs (s.shared.batches i).mutations))
    (hopen : (s'.shared.batches i).state = .opened) :
    table.Avoids (Batch.putAddrs (s'.shared.batches i).mutations) := by
  have heq := h.opened hopen
  rw [heq] at hopen ⊢
  exact hold hopen

theorem Quiet.putAddrs (h : Quiet s s') {addr : VAddr}
    (haddr : addr ∈ Batch.putAddrs (s'.shared.batches i).mutations) :
    addr ∈ Batch.putAddrs (s.shared.batches i).mutations := by
  rcases h.batches i with heq | ⟨-, heq | hnil⟩
  · rwa [heq] at haddr
  · rwa [heq] at haddr
  · rw [hnil] at haddr
    exact absurd haddr not_mem_nil

theorem Clean.turn {u : Nat} (h : Clean table u s) (hturn : s.Turns config s') : Clean table u s' := by
  obtain ⟨haccepted, hadmitting, -, -⟩ := hturn.callers
  refine ⟨fun i => hturn.quiet.avoids (h.opened i), ?_, ?_⟩
  · rw [hadmitting]
    exact h.ready
  · rw [haccepted]
    exact h.later

end Clean

/-! ## §4 — The invariant -/

/-- **What is known of the tables, the batches and the addresses.** -/
structure Tidy (config : Config) (s : Redirecting) : Prop where
  tabled : Tabled config s.system
  untouched : ∀ i, i ∉ s.touched → (s.system.shared.batches i).mutations = []
  pending : ∀ i, ∀ addr ∈ Batch.putAddrs (s.system.shared.batches i).mutations, addr ∈ s.used
  tables : ∀ σ ∈ s.sessions, ∀ entry ∈ σ.table, entry.1 ∈ s.used ∧ entry.2.addr ∈ s.used
  installs : ∀ t table, s.system.Installs t table ↔ ∃ owes, ⟨t, table, owes⟩ ∈ s.sessions
  fresh : ∀ σ ∈ s.sessions, ∀ τ ∈ s.sessions, σ.ticket ≤ τ.ticket →
    ∀ entry ∈ τ.table, σ.table.lookup entry.2.addr = none
  owes : ∀ σ ∈ s.sessions, ∀ i, (s.system.shared.batches i).state = .opened → i ∉ σ.owes →
    σ.table.Avoids (Batch.putAddrs (s.system.shared.batches i).mutations)
  closing : ∀ σ ∈ s.sessions, ∀ g u, s.system.Grants σ.ticket g → s.system.Releases u g →
    Clean σ.table u s.system

namespace Tidy

variable {s s' : Redirecting}

section

variable {σ τ : Session} (h : Tidy config s) (hσ : σ ∈ s.sessions)

include h hσ

theorem session_installs :
    s.system.Installs σ.ticket σ.table := (h.installs σ.ticket σ.table).mpr ⟨σ.owes, hσ⟩

/-- A ticket has one table. -/
theorem table_eq (hτ : τ ∈ s.sessions) (hticket : σ.ticket = τ.ticket) : σ.table = τ.table := by
  have hsame := inj_on_of_nodup_map h.tabled.ticketed.accepted (h.session_installs hσ).1
    (h.session_installs hτ).1 hticket
  injection hsame with _ hcommand
  injection hcommand with hrequest
  injection hrequest

/-- An address that is not taken is no key. -/
theorem lookup_unused {addr : VAddr} (haddr : addr ∉ s.used) : σ.table.lookup addr = none := by
  refine Redirects.lookup_eq_none fun entry hentry heq => haddr ?_
  rw [← heq]
  exact (h.tables σ hσ entry hentry).1

theorem ticket_lt : σ.ticket < s.system.issued := by
  refine h.tabled.ticketed.issued _ (mem_append_right _ ?_)
  exact mem_map_of_mem (f := Queued.ticket) (h.session_installs hσ).1

/-- A table that was granted before another one has been released. -/
theorem released_of_lt (hτ : τ ∈ s.sessions)
    (hlt : τ.ticket < σ.ticket) {g g' : Nat} (hgrants : s.system.Grants σ.ticket g)
    (hgrants' : s.system.Grants τ.ticket g') : ∃ u, s.system.Releases u g' := by
  have hgen := h.tabled.generational
  have horder := hgen.order _ _ _ _ _ _ (h.session_installs hτ) (h.session_installs hσ) hgrants' hgrants hlt
  have hbound := hgen.bound _ _ hgrants
  exact hgen.done _ _ _ (h.session_installs hτ) hgrants' (.inr (by omega))

end

variable {t : System}

/-- A step that keeps the batches, the addresses and the tables. -/
theorem quiet (h : Tidy config s) (htabled : Tabled config t) (hquiet : Quiet s.system t)
    (hinstalls : ∀ u table, t.Installs u table ↔ s.system.Installs u table)
    (hclosing : ∀ σ ∈ s.sessions, ∀ g u, t.Grants σ.ticket g → t.Releases u g → Clean σ.table u t) :
    Tidy config { s with system := t } where
  tabled := htabled
  untouched := by
    intro i hi
    rcases hquiet.batches i with heq | ⟨-, heq | hnil⟩
    · exact heq ▸ h.untouched i hi
    · exact heq.trans (h.untouched i hi)
    · exact hnil
  pending := fun i addr haddr => h.pending i addr (hquiet.putAddrs haddr)
  tables := h.tables
  installs := fun u table => (hinstalls u table).trans (h.installs u table)
  fresh := h.fresh
  owes := fun σ hσ i hopen hi => hquiet.avoids (fun hopen => h.owes σ hσ i hopen hi) hopen
  closing := hclosing

theorem act (h : Tidy config s) (hact : s.system.Acts config limits t)
    (hquiet : Quiet s.system t) : Tidy config { s with system := t } := by
  obtain ⟨new, hf⟩ := hact.framed
  have hkeep : ∀ q, q ∈ s.system.accepted → q ∈ t.accepted := by
    intro q hq
    rw [hf.accepted]
    exact mem_append_left _ hq
  refine h.quiet (h.tabled.act hact) hquiet (fun u table => ⟨?_, ?_⟩) fun σ hσ g u hgrants hreleases => ?_
  · exact fun hi => ⟨hquiet.commands _ _ hi.1, hi.2⟩
  · exact fun hi => ⟨hkeep _ hi.1, hi.2⟩
  · rw [System.Grants, hf.answers] at hgrants
    have hclean := h.closing σ hσ g u hgrants (hquiet.commands _ _ hreleases)
    exact hclean.act hact fun i => hquiet.avoids (hclean.opened i)

theorem turn (h : Tidy config s) (hturn : s.system.Turns config t) : Tidy config { s with system := t } := by
  have haccepted := hturn.callers.1
  obtain ⟨taken, hflow⟩ := h.tabled.flow
  refine h.quiet (h.tabled.turn hturn) hturn.quiet (fun u table => ?_) fun σ hσ g u hgrants hreleases => ?_
  · rw [System.Installs, System.Installs, haccepted]
  · rw [System.Releases, haccepted] at hreleases
    have hbefore := h.tabled.generational.grants_of_turn h.tabled.ticketed hflow hturn (h.session_installs hσ)
      hgrants hreleases
    exact (h.closing σ hσ g u hbefore hreleases).turn hturn

/-- Writing one batch, seen from any batch. -/
theorem batches_cases (t : System) (batch : Nat) (b : Batch) (P : Nat → Batch → Prop) (hself : P batch b)
    (hothers : ∀ i, i ≠ batch → P i (t.shared.batches i)) (i : Nat) :
    P i ((Redirecting.withBatch t batch b).shared.batches i) := by
  show P i (update t.shared.batches batch b i)
  by_cases hi : i = batch
  · subst hi
    rw [update_self]
    exact hself
  · rw [update_of_ne hi]
    exact hothers i hi

variable {c : Batch.Call} {σ : Session} {batch : Nat}

/-- What a call leaves in an open batch is no key, if nothing there was one. -/
theorem avoids_call (h : Tidy config s)
    (hc : ∀ redirects, c ≠ .rewritePutRefs redirects)
    (hfresh : ∀ ref, c.appended = some ref → ref.addr ∉ s.used) (hσ : σ ∈ s.sessions)
    (hold : (s.system.shared.batches batch).state = .opened →
      σ.table.Avoids (Batch.putAddrs (s.system.shared.batches batch).mutations))
    (hopen : ((s.system.shared.batches batch).call limits c).state = .opened) :
    σ.table.Avoids (Batch.putAddrs ((s.system.shared.batches batch).call limits c).mutations) := by
  intro addr haddr
  rcases Batch.extends_call _ c hc addr haddr with hin | ⟨ref, href, rfl⟩
  · exact hold (Batch.opened_of_call c hopen) addr hin
  · exact h.lookup_unused hσ (hfresh ref href)

theorem call (h : Tidy config s) (hc : ∀ redirects, c ≠ .rewritePutRefs redirects)
    (hfresh : ∀ ref, c.appended = some ref → ref.addr ∉ s.used) :
    Tidy config
      { s with
        system := Redirecting.withBatch s.system batch ((s.system.shared.batches batch).call limits c)
        touched := batch :: s.touched
        used := c.appended.toList.map RecordRef.addr ++ s.used } where
  tabled := h.tabled.act (.call batch c)
  untouched := by
    refine batches_cases s.system batch _ (fun i b => i ∉ batch :: s.touched → b.mutations = []) ?_ fun i hne hi => ?_
    · exact fun hi => absurd mem_cons_self hi
    · exact h.untouched i fun hmem => hi (mem_cons_of_mem _ hmem)
  pending := by
    refine batches_cases s.system batch _ (fun _ b => ∀ addr ∈ Batch.putAddrs b.mutations,
      addr ∈ c.appended.toList.map RecordRef.addr ++ s.used) ?_ fun i _ addr haddr => ?_
    · intro addr haddr
      rcases Batch.extends_call _ c hc addr haddr with hold | ⟨ref, href, rfl⟩
      · exact mem_append_right _ (h.pending batch addr hold)
      · refine mem_append_left _ (mem_map_of_mem ?_)
        rw [href]
        exact mem_cons_self
    · exact mem_append_right _ (h.pending i addr haddr)
  tables := by
    intro σ hσ entry hentry
    obtain ⟨hkey, hnew⟩ := h.tables σ hσ entry hentry
    exact ⟨mem_append_right _ hkey, mem_append_right _ hnew⟩
  installs := h.installs
  fresh := h.fresh
  owes := by
    intro σ hσ
    refine batches_cases s.system batch _ (fun i b => b.state = .opened → i ∉ σ.owes →
      σ.table.Avoids (Batch.putAddrs b.mutations)) ?_ fun i _ => h.owes σ hσ i
    exact fun hopen hi => h.avoids_call hc hfresh hσ (fun hopen => h.owes σ hσ batch hopen hi) hopen
  closing := by
    intro σ hσ g u hgrants hreleases
    have hclean := h.closing σ hσ g u hgrants hreleases
    have hact : s.system.Acts config limits
        (Redirecting.withBatch s.system batch ((s.system.shared.batches batch).call limits c)) := .call batch c
    refine hclean.act hact (batches_cases s.system batch _ (fun _ b => b.state = .opened →
      σ.table.Avoids (Batch.putAddrs b.mutations)) ?_ fun i _ => hclean.opened i)
    exact h.avoids_call hc hfresh hσ (hclean.opened batch)

/-- A release is queued when no batch owes anything for its table. -/
theorem release (h : Tidy config s) {generation : Nat} (hfree : s.system.unlocked)
    (hact : s.system.Acts config limits (s.system.pushCommand (.redirect ⟨[], generation⟩)))
    (hpassed : s.Passed (.base (.act (.release generation)))) :
    Tidy config { s with system := s.system.pushCommand (.redirect ⟨[], generation⟩) } where
  tabled := h.tabled.act hact
  untouched := h.untouched
  pending := h.pending
  tables := h.tables
  installs := by
    intro t table
    refine Iff.trans ⟨fun hi => ⟨?_, hi.2⟩, fun hi => ⟨mem_append_left _ hi.1, hi.2⟩⟩ (h.installs t table)
    rcases Lib.mem_snoc.mp hi.1 with hold | hnew
    · exact hold
    · injection hnew with _ hcommand
      injection hcommand with hrequest
      injection hrequest with htable
      exact absurd htable hi.2
  fresh := h.fresh
  owes := h.owes
  closing := by
    intro σ hσ g u hgrants hreleases
    rcases Lib.mem_snoc.mp hreleases with hold | hnew
    · have hclean := h.closing σ hσ g u hgrants hold
      exact hclean.act hact hclean.opened
    · injection hnew with hu hcommand
      injection hcommand with hrequest
      injection hrequest with _ hg
      subst hg hu
      have howes : σ.owes = [] := hpassed σ hσ hgrants
      refine ⟨fun i hopen => h.owes σ hσ i hopen ?_, fun r hr => ?_, s.system.accepted, _, [], rfl, ?_⟩
      · rw [howes]
        exact not_mem_nil
      · have hin : .ready r ∈ s.system.admitting := hr
        rw [hfree.2] at hin
        exact absurd hin not_mem_nil
      · exact nofun

/-- A table is queued whose replacements are new. -/
theorem install (h : Tidy config s) (hne : table ≠ [])
    (hact : s.system.Acts config limits (s.system.pushCommand (.redirect ⟨table, 0⟩)))
    (hpassed : s.Passed (.base (.act (.install table)))) (hfresh : s.Fresh (.base (.act (.install table)))) :
    Tidy config
      { s with
        system := s.system.pushCommand (.redirect ⟨table, 0⟩)
        used := table.map (fun entry => entry.2.addr) ++ s.used
        sessions := s.sessions ++
          [⟨s.system.issued, table, s.touched.filter fun i => table.pendingIn (s.system.shared.batches i)⟩] } := by
  obtain ⟨taken, hflow⟩ := h.tabled.flow
  have hkeys : ∀ entry ∈ table, entry.1 ∈ s.used := by
    intro entry hentry
    obtain ⟨i, -, hpending⟩ := hpassed entry hentry
    obtain ⟨ref, href, heq⟩ := mem_map.mp hpending
    rw [Batch.pendingPutRefs] at href
    split at href
    · obtain ⟨m, hm, rfl⟩ := mem_map.mp href
      obtain ⟨hmem, hput⟩ := mem_filter.mp hm
      exact h.pending i _ (Batch.mem_putAddrs.mpr ⟨m, hmem, of_decide_eq_true hput, heq⟩)
    · exact absurd href not_mem_nil
  refine ⟨h.tabled.act hact, h.untouched, ?_, ?_, ?_, ?_, ?_, ?_⟩
  · exact fun i addr haddr => mem_append_right _ (h.pending i addr haddr)
  · intro σ hσ entry hentry
    rcases Lib.mem_snoc.mp hσ with hold | hnew
    · obtain ⟨hkey, hreplaced⟩ := h.tables σ hold entry hentry
      exact ⟨mem_append_right _ hkey, mem_append_right _ hreplaced⟩
    · cases hnew
      exact ⟨mem_append_right _ (hkeys entry hentry),
        mem_append_left _ (mem_map_of_mem (f := fun e : VAddr × RecordRef => e.2.addr) hentry)⟩
  · intro t R
    constructor
    · rintro ⟨hmem, hR⟩
      rcases Lib.mem_snoc.mp hmem with hold | hnew
      · obtain ⟨owes, howes⟩ := (h.installs t R).mp ⟨hold, hR⟩
        exact ⟨owes, mem_append_left _ howes⟩
      · cases hnew
        exact ⟨_, mem_append_right _ mem_cons_self⟩
    · rintro ⟨owes, howes⟩
      rcases Lib.mem_snoc.mp howes with hold | hnew
      · obtain ⟨hmem, hR⟩ := (h.installs t R).mpr ⟨owes, hold⟩
        exact ⟨mem_append_left _ hmem, hR⟩
      · cases hnew
        exact ⟨mem_append_right _ mem_cons_self, hne⟩
  · intro σ hσ τ hτ hle entry hentry
    rcases Lib.mem_snoc.mp hτ with hold | rfl
    · rcases Lib.mem_snoc.mp hσ with hold' | rfl
      · exact h.fresh σ hold' τ hold hle entry hentry
      · exact absurd (h.ticket_lt hold) (Nat.not_lt_of_le hle)
    · have hunused := hfresh entry hentry
      rcases Lib.mem_snoc.mp hσ with hold' | rfl
      · exact h.lookup_unused hold' hunused
      · exact Redirects.lookup_eq_none fun key hkey heq => hunused (heq ▸ hkeys key hkey)
  · intro σ hσ i hopen hi
    rcases Lib.mem_snoc.mp hσ with hold | hnew
    · exact h.owes σ hold i hopen hi
    · cases hnew
      -- a batch that owes nothing has no put at all or none with a key
      by_cases htouched : i ∈ s.touched
      · refine avoids_of_not_pending hopen (Bool.eq_false_iff.mpr fun hpending => hi ?_)
        exact mem_filter.mpr ⟨htouched, hpending⟩
      · intro addr haddr
        have hnil : (s.system.shared.batches i).mutations = [] := h.untouched i htouched
        have hin : addr ∈ Batch.putAddrs (s.system.shared.batches i).mutations := haddr
        rw [hnil] at hin
        exact absurd hin not_mem_nil
  · intro σ hσ g u hgrants hreleases
    have hrel : s.system.Releases u g := by
      rcases Lib.mem_snoc.mp hreleases with hold | hnew
      · exact hold
      · injection hnew with _ hcommand
        injection hcommand with hrequest
        injection hrequest with htable
        exact absurd htable.symm hne
    rcases Lib.mem_snoc.mp hσ with hold | hnew
    · have hclean := h.closing σ hold g u hgrants hrel
      exact hclean.act hact hclean.opened
    · cases hnew
      exact absurd (Grants.lt h.tabled.ticketed hflow hgrants) (Nat.lt_irrefl _)

/-- The puts of an open batch after `RewritePutRefs`. -/
theorem rewritePutRefs_opened {redirects : VAddr → Option RecordRef}
    (hopen : (b.rewritePutRefs redirects).1.state = .opened) :
    b.state = .opened ∧ (b.rewritePutRefs redirects).1.mutations = b.mutations.map (Batch.redirect redirects) := by
  by_cases h : b.state = .opened
  · rw [Batch.rewritePutRefs, if_pos h]
    exact ⟨h, rfl⟩
  · rw [Batch.rewritePutRefs, if_neg h] at hopen
    exact absurd hopen h

/-- Only what a session owes changes. -/
theorem rewrote_eq (ticket batch : Nat) (b : Batch) (σ : Session) :
    σ.rewrote ticket batch b = ⟨σ.ticket, σ.table, (σ.rewrote ticket batch b).owes⟩ := by
  unfold Session.rewrote
  split
  · rfl
  · split <;> rfl

theorem mem_rewrote {ticket batch : Nat} {σ' : Session} (h : σ' ∈ s.sessions.map (Session.rewrote ticket batch b)) :
    ∃ σ ∈ s.sessions, σ'.ticket = σ.ticket ∧ σ'.table = σ.table ∧ σ' = σ.rewrote ticket batch b := by
  obtain ⟨σ, hσ, rfl⟩ := mem_map.mp h
  refine ⟨σ, hσ, ?_, ?_, rfl⟩ <;> rw [rewrote_eq]

variable {τ : Session}

/-- After the rewriting for one table an open batch has none of the keys of an earlier one. -/
theorem avoids_rewrite (h : Tidy config s) (hσ : σ ∈ s.sessions) (hτ : τ ∈ s.sessions)
    (hle : σ.ticket ≤ τ.ticket)
    (hold : ∀ addr ∈ Batch.putAddrs (s.system.shared.batches batch).mutations,
      τ.table.lookup addr = none → σ.table.lookup addr = none)
    (hopen : ((s.system.shared.batches batch).rewritePutRefs τ.table.lookup).1.state = .opened) :
    σ.table.Avoids
      (Batch.putAddrs ((s.system.shared.batches batch).rewritePutRefs τ.table.lookup).1.mutations) := by
  rw [(rewritePutRefs_opened hopen).2]
  refine Redirects.avoids_redirect hold fun addr haddr ref hlookup => ?_
  exact h.fresh σ hσ τ hτ hle (addr, ref) (Redirects.mem_of_lookup hlookup)

/-- The rewriting for a table brings no key of a released table back. -/
theorem rewrite_clean (h : Tidy config s) (hσ : σ ∈ s.sessions) (hτ : τ ∈ s.sessions)
    {g g' u : Nat} (hgrants : s.system.Grants σ.ticket g) (hgrants' : s.system.Grants τ.ticket g')
    (hreleases : s.system.Releases u g)
    (hopen : ((s.system.shared.batches batch).rewritePutRefs τ.table.lookup).1.state = .opened) :
    σ.table.Avoids
      (Batch.putAddrs ((s.system.shared.batches batch).rewritePutRefs τ.table.lookup).1.mutations) := by
  obtain ⟨hopened, hmutations⟩ := rewritePutRefs_opened hopen
  have hclean := (h.closing σ hσ g u hgrants hreleases).opened batch hopened
  rcases Nat.lt_or_ge τ.ticket σ.ticket with hlt | hle
  · -- the earlier table has been released as well, and the batch has none of its keys
    obtain ⟨u', hreleases'⟩ := h.released_of_lt hσ hτ hlt hgrants hgrants'
    have hnone := (h.closing τ hτ g' u' hgrants' hreleases').opened batch hopened
    rw [hmutations]
    refine Redirects.avoids_redirect (fun addr haddr _ => hclean addr haddr) fun addr haddr ref hlookup => ?_
    rw [hnone addr haddr] at hlookup
    cases hlookup
  · exact h.avoids_rewrite hσ hτ hle (fun addr haddr _ => hclean addr haddr) hopen

theorem rewrite (h : Tidy config s) {τ : Session} {g : Nat} (hτ : τ ∈ s.sessions)
    (hgrants : s.system.Grants τ.ticket g)
    (hact : s.system.Acts config limits
      (Redirecting.withBatch s.system batch ((s.system.shared.batches batch).rewritePutRefs τ.table.lookup).1)) :
    Tidy config
      { s with
        system :=
          Redirecting.withBatch s.system batch ((s.system.shared.batches batch).rewritePutRefs τ.table.lookup).1
        sessions := s.sessions.map (Session.rewrote τ.ticket batch
          ((s.system.shared.batches batch).rewritePutRefs τ.table.lookup).1) } := by
  refine ⟨h.tabled.act hact, ?_, ?_, ?_, ?_, ?_, ?_, ?_⟩
  · refine batches_cases s.system batch _ (fun i b => i ∉ s.touched → b.mutations = []) ?_ fun i _ => h.untouched i
    intro hi
    rw [Batch.rewritePutRefs]
    split
    · rw [h.untouched batch hi, map_nil]
    · exact h.untouched batch hi
  · refine batches_cases s.system batch _ (fun _ b => ∀ addr ∈ Batch.putAddrs b.mutations, addr ∈ s.used) ?_
      fun i _ => h.pending i
    intro addr haddr
    rw [Batch.rewritePutRefs] at haddr
    split at haddr
    · obtain ⟨old, hold, ⟨-, rfl⟩ | ⟨ref, hlookup, rfl⟩⟩ := Batch.mem_putAddrs_redirect haddr
      · exact h.pending batch _ hold
      · exact (h.tables τ hτ _ (Redirects.mem_of_lookup hlookup)).2
    · exact h.pending batch addr haddr
  · intro σ' hσ'
    obtain ⟨σ, hσ, -, htable, -⟩ := mem_rewrote hσ'
    rw [htable]
    exact h.tables σ hσ
  · intro t R
    refine (h.installs t R).trans ⟨?_, ?_⟩
    · rintro ⟨owes, howes⟩
      exact ⟨_, mem_map.mpr ⟨_, howes, rewrote_eq τ.ticket batch _ ⟨t, R, owes⟩⟩⟩
    · rintro ⟨owes, howes⟩
      obtain ⟨⟨t', R', owes'⟩, hσ, hticket, htable, -⟩ := mem_rewrote howes
      cases hticket
      cases htable
      exact ⟨owes', hσ⟩
  · intro σ' hσ' ρ' hρ' hle
    obtain ⟨σ, hσ, hticket, htable, -⟩ := mem_rewrote hσ'
    obtain ⟨ρ, hρ, hticket', htable', -⟩ := mem_rewrote hρ'
    rw [hticket, hticket'] at hle
    rw [htable, htable']
    exact h.fresh σ hσ ρ hρ hle
  · intro σ' hσ'
    obtain ⟨σ, hσ, -, htable, hrewrote⟩ := mem_rewrote hσ'
    rw [htable]
    refine batches_cases s.system batch _ (fun i b => b.state = .opened → i ∉ σ'.owes →
      σ.table.Avoids (Batch.putAddrs b.mutations)) ?_ fun i hne hopen hi => h.owes σ hσ i hopen fun hmem => hi ?_
    · intro hopen hi
      by_cases hticket : σ.ticket = τ.ticket
      · refine h.avoids_rewrite hσ hτ (Nat.le_of_eq hticket) (fun addr _ hnone => ?_) hopen
        rw [h.table_eq hσ hτ hticket]
        exact hnone
      · refine avoids_of_not_pending hopen (Bool.eq_false_iff.mpr fun hpending => hi ?_)
        rw [hrewrote, Session.rewrote, if_neg hticket, if_pos hpending]
        exact mem_cons_self
    · rw [hrewrote, Session.rewrote]
      split
      · exact mem_filter.mpr ⟨hmem, decide_eq_true hne⟩
      · split
        · exact mem_cons_of_mem _ hmem
        · exact hmem
  · intro σ' hσ' g' u hgrants' hreleases
    obtain ⟨σ, hσ, hticket, htable, -⟩ := mem_rewrote hσ'
    rw [hticket] at hgrants'
    rw [htable]
    have hclean := h.closing σ hσ g' u hgrants' hreleases
    refine hclean.act hact (batches_cases s.system batch _ (fun _ b => b.state = .opened →
      σ.table.Avoids (Batch.putAddrs b.mutations)) ?_ fun i _ => hclean.opened i)
    exact h.rewrite_clean hσ hτ hgrants' hgrants hreleases

/-- **Every step that respects the tables keeps the invariant.** -/
theorem step {e : Redirecting.Event} (h : Tidy config s) (hpassed : s.Passed e) (hfresh : s.Fresh e)
    (hstep : s.step config limits e = some s') : Tidy config s' := by
  cases Redirecting.step_cases hstep with
  | call batch c hc hnew => exact h.call hc hnew
  | install table hvalid hadmits =>
    have hact : s.system.Acts config limits _ := .install table hvalid hadmits
    exact h.install hvalid.1 hact hpassed hfresh
  | release generation hgranted hfree hadmits =>
    have hact : s.system.Acts config limits _ := .release generation hgranted hfree hadmits
    exact h.release hfree hact hpassed
  | rewrite batch τ generation hτ hgrants =>
    have hact : s.system.Acts config limits _ := .call batch (.rewritePutRefs τ.table.lookup)
    exact h.rewrite hτ hgrants hact
  | act a t hact hquiet => exact h.act hact hquiet
  | turn a t hturn => exact h.turn hturn

theorem initial (h : (redirecting config limits).init s) : Tidy config s := by
  obtain ⟨⟨hvalid, hinit⟩, htouched, hused, hsessions⟩ := h
  have hmutations : ∀ i, (s.system.shared.batches i).mutations = [] := by
    intro i
    obtain ⟨id, hid⟩ := hinit.batches i
    rw [Batch.new] at hid
    split at hid
    · cases hid
    · rw [← Except.ok.inj hid]
  have hnone : ∀ σ, σ ∉ s.sessions := by
    intro σ
    rw [hsessions]
    exact not_mem_nil
  refine ⟨Tabled.initial hvalid hinit, fun i _ => hmutations i, fun i addr haddr => ?_, ?_, fun t R => ?_, ?_, ?_, ?_⟩
  · rw [hmutations i] at haddr
    exact absurd haddr not_mem_nil
  · exact fun σ hσ => absurd hσ (hnone σ)
  · constructor
    · rintro ⟨hmem, -⟩
      rw [hinit.accepted] at hmem
      exact absurd hmem not_mem_nil
    · rintro ⟨owes, howes⟩
      exact absurd howes (hnone _)
  · exact fun σ hσ => absurd hσ (hnone σ)
  · exact fun σ hσ => absurd hσ (hnone σ)
  · exact fun σ hσ => absurd hσ (hnone σ)

end Tidy

/-! ## §5 — The commits -/

/-- The addresses that the user commits of a plan put into the mapping. -/
def planAddrs (plan : Mapping.GroupPlan) : List VAddr :=
  (plan.proposals.filter fun p => p.kind = .userCommit).flatMap fun p =>
    p.changes.filterMap fun r => r.change.result.map RecordRef.addr

/-- **The redirects of a group that is written or published.** -/
structure RedirectsApplied (s : Redirecting) (job : Job) : Prop where
  /-- Every request is an accepted one with the puts replaced through the installed table; its conditions are
  the accepted ones. -/
  replaced : ∀ e ∈ job.entries, ∃ r, .request r ∈ s.system.accepted ∧
    e.request = r.applyCommitRedirects s.system.coordinator.redirects ∧
    e.request.proposal.conditions = r.proposal.conditions
  /-- Nothing is changed while no table is installed. -/
  unchanged : s.system.coordinator.redirects = [] → ∀ e ∈ job.entries, .request e.request ∈ s.system.accepted
  /-- What is published is the resolution of these requests, one for one. -/
  planned : job.entries.map Entry.resolved = job.plan.proposals ∧
    ∃ view : Mapping.View, view.resolveGroup (job.entries.map fun e => e.request.proposal) = .ok job.plan
  /-- While a table is installed no request has one of its keys, and no user commit puts one into the mapping. -/
  installed : (∀ e ∈ job.entries, s.system.coordinator.redirects.Avoids e.request.putAddrs) ∧
    s.system.coordinator.redirects.Avoids (planAddrs job.plan)
  /-- After the release of a table has returned no request has one of its keys, and no user commit puts one into the
  mapping. -/
  released : ∀ σ ∈ s.sessions, ∀ g u, s.system.Grants σ.ticket g → s.system.Releases u g → s.system.Grants u g →
    (∀ e ∈ job.entries, σ.table.Avoids e.request.putAddrs) ∧ σ.table.Avoids (planAddrs job.plan)

theorem applyCommitRedirects_conditions (r : Request) (table : Redirects) :
    (r.applyCommitRedirects table).proposal.conditions = r.proposal.conditions := by
  simp only [Request.applyCommitRedirects]
  split
  next batch prepared hwork => simp only [Request.proposal, hwork, Prepared.proposal]
  next => rfl

theorem applyCommitRedirects_nil (r : Request) : r.applyCommitRedirects [] = r := by
  have hid : Batch.redirect (Redirects.lookup []) = id := by
    funext m
    rw [Batch.redirect]
    split <;> rfl
  obtain ⟨ticket, work⟩ := r
  cases work with
  | commit batch prepared =>
    simp only [Request.applyCommitRedirects, hid, map_id]
  | relocation relocation => rfl

/-- The puts of a redirected request. -/
theorem avoids_applyCommitRedirects {table other : Redirects} {r : Request}
    (hkeep : ∀ addr ∈ r.putAddrs, table.lookup addr = none → other.lookup addr = none)
    (hnew : ∀ addr ref, table.lookup addr = some ref → other.lookup ref.addr = none) :
    other.Avoids (r.applyCommitRedirects table).putAddrs := by
  obtain ⟨ticket, work⟩ := r
  cases work with
  | commit batch prepared => exact Redirects.avoids_redirect hkeep fun addr _ => hnew addr
  | relocation relocation => exact nofun

/-- A user commit of the plan puts what its request puts. -/
theorem putAddrs_of_resolves {r : Request} {p : Mapping.ResolvedProposal} (h : p.Resolves r.proposal)
    (hvalid : r.proposal.Valid) (hkind : p.kind = .userCommit) {change : Mapping.ResolvedChange}
    (hchange : change ∈ p.changes) {ref : RecordRef} (hresult : change.change.result = some ref) :
    ref.addr ∈ r.putAddrs := by
  obtain ⟨ticket, work⟩ := r
  cases work with
  | relocation relocation =>
    have hrelocation : p.kind = .relocation := h.1
    rw [hkind] at hrelocation
    cases hrelocation
  | commit batch prepared =>
    have hmem : change.change ∈ prepared.proposal.changes := by
      have hchanges := mem_map_of_mem (f := Mapping.ResolvedChange.change) hchange
      rw [h.2] at hchanges
      split at hchanges
      · exact hchanges
      · cases hchanges
    -- a user commit has puts and deletes only, and a delete leaves no reference
    obtain ⟨-, ⟨hput, -⟩ | ⟨hdelete, -⟩⟩ := hvalid.changes _ hmem
    · simp only [Mapping.Change.result, hput, Option.some.injEq] at hresult
      obtain ⟨m, hm, heq⟩ := mem_map.mp hmem
      rw [← heq] at hput hresult
      exact Batch.mem_putAddrs.mpr ⟨m, hm, hput, congrArg RecordRef.addr hresult⟩
    · simp only [Mapping.Change.result, hdelete, reduceCtorEq] at hresult

/-- A table whose keys no request puts is avoided by the plan of the requests. -/
theorem avoids_planAddrs {table : Redirects} {job : Job}
    (hplanned : job.entries.map Entry.resolved = job.plan.proposals ∧
      ∃ view : Mapping.View, view.resolveGroup (job.entries.map fun e => e.request.proposal) = .ok job.plan)
    (h : ∀ e ∈ job.entries, table.Avoids e.request.putAddrs) : table.Avoids (planAddrs job.plan) := by
  obtain ⟨hproposals, view, hview⟩ := hplanned
  obtain ⟨hresolves, hvalid⟩ := Mapping.View.resolveGroup_resolves hview
  rw [← hproposals, forall₂_map_left_iff, forall₂_map_right_iff, forall₂_same] at hresolves
  intro addr haddr
  obtain ⟨p, hp, haddr⟩ := mem_flatMap.mp haddr
  obtain ⟨hp, hkind⟩ := mem_filter.mp hp
  obtain ⟨change, hchange, haddr⟩ := mem_filterMap.mp haddr
  obtain ⟨ref, hresult, rfl⟩ := Option.map_eq_some_iff.mp haddr
  rw [← hproposals] at hp
  obtain ⟨e, he, rfl⟩ := mem_map.mp hp
  refine h e he _ ?_
  exact putAddrs_of_resolves (hresolves e he) (hvalid _ (mem_map_of_mem he)) (of_decide_eq_true hkind) hchange hresult

variable {s : Redirecting}

/-- The installed table belongs to a session. -/
theorem Tidy.installed (h : Tidy config s) (hne : s.system.coordinator.redirects ≠ []) :
    ∃ σ ∈ s.sessions, σ.table = s.system.coordinator.redirects ∧
      s.system.Grants σ.ticket s.system.coordinator.redirectGen := by
  obtain ⟨t, hinstalls, hgrants⟩ := h.tabled.generational.current hne
  obtain ⟨owes, hmem⟩ := (h.installs _ _).mp hinstalls
  exact ⟨_, hmem, rfl, hgrants⟩

/-- A request at hand stands behind a release that was answered. -/
theorem Tidy.request_avoids {σ : Session} (h : Tidy config s) {job : Job} (hjob : s.system.coordinator.control.job = some job)
    {e : Entry} (he : e ∈ job.entries) {r : Request} (hr : .request r ∈ s.system.accepted)
    (hticket : e.request.ticket = r.ticket) (hσ : σ ∈ s.sessions) {g u : Nat} (hgrants : s.system.Grants σ.ticket g)
    (hreleases : s.system.Releases u g) (hanswer : s.system.Grants u g) : σ.table.Avoids r.putAddrs := by
  obtain ⟨taken, hflow⟩ := h.tabled.flow
  obtain ⟨before, c, after, haccepted, hafter⟩ := (h.closing σ hσ g u hgrants hreleases).later
  rw [haccepted] at hr
  rcases mem_append.mp hr with hbefore | hrest
  · -- what stands before the release has been answered, and this request has not
    have hanswered : u ∈ s.system.shared.answers.map Prod.fst := mem_map_of_mem (f := Prod.fst) hanswer
    obtain ⟨first, last, hsplit⟩ := append_of_mem hanswered
    have hperm := hflow.ordered before u c after haccepted first last hsplit
    have hmem : r.ticket ∈ s.system.shared.answers.map Prod.fst := by
      rw [hsplit]
      exact mem_append_left _ (hperm.mem_iff.mpr (mem_map_of_mem (f := Queued.ticket) hbefore))
    have hheld : e.request.slot ∈ s.system.coordinator.control.held := by
      cases hcontrol : s.system.coordinator.control with
      | appending | publishing =>
        rw [hcontrol] at hjob
        cases hjob
        exact mem_append_left _ (mem_map_of_mem (f := fun e : Entry => e.request.slot) he)
      | _ => rw [hcontrol] at hjob; cases hjob
    refine absurd ?_ (hflow.not_answered h.tabled.ticketed (x := e.request.slot) (mem_append_right _ hheld))
    rw [Request.slot_ticket, hticket]
    exact hmem
  · rcases mem_cons.mp hrest with heq | hin
    · cases heq
    · exact hafter r hin

/-- **The commit redirects.**  In every run whose tables redirect pending puts to new records and are released
after all batches with a key were passed to `RewritePutRefs`, a group that is written or published has its
puts replaced through the installed table, has no key of that table and none of a table whose release has
returned; what it publishes is the resolution of these puts, and its conditions are never changed. -/
theorem commit_redirects_applied {s : Redirecting}
    (h : (redirecting config limits).Reach (fun s e => s.Passed e ∧ s.Fresh e) s) {job : Job}
    (hjob : s.system.coordinator.control.job = some job) : RedirectsApplied s job := by
  have htidy : Tidy config s := by
    refine Lib.Machine.Reach.invariant (Tidy config) (fun s hinit => Tidy.initial hinit) ?_ h
    exact fun s e s' hs hok hstep => hs.step hok.1 hok.2 hstep
  have hreplaced : ∀ e ∈ job.entries, ∃ r, .request r ∈ s.system.accepted ∧
      e.request = r.applyCommitRedirects s.system.coordinator.redirects ∧
      e.request.proposal.conditions = r.proposal.conditions := by
    intro e he
    obtain ⟨r, hr, heq⟩ := htidy.tabled.redirected job hjob e he
    exact ⟨r, hr, heq, by rw [heq, applyCommitRedirects_conditions]⟩
  -- a replacement has no key of the installed table and of the tables before it
  have hnew : ∀ σ ∈ s.sessions, ∀ g, s.system.Grants σ.ticket g → g ≤ s.system.coordinator.redirectGen →
      ∀ addr ref, s.system.coordinator.redirects.lookup addr = some ref → σ.table.lookup ref.addr = none := by
    intro σ hσ g hgrants hle addr ref hlookup
    obtain ⟨τ, hτ, htable, hgrants'⟩ := htidy.installed (by rintro hnil; rw [hnil] at hlookup; cases hlookup)
    rw [← htable] at hlookup
    refine htidy.fresh σ hσ τ hτ ?_ (addr, ref) (Redirects.mem_of_lookup hlookup)
    by_contra hlt
    have horder := htidy.tabled.generational.order _ _ _ _ _ _ (htidy.session_installs hτ)
      (htidy.session_installs hσ) hgrants' hgrants (Nat.lt_of_not_le hlt)
    omega
  have hplanned := htidy.tabled.planned job hjob
  have hinstalled : ∀ e ∈ job.entries, s.system.coordinator.redirects.Avoids e.request.putAddrs := by
    intro e he
    obtain ⟨r, hr, heq, -⟩ := hreplaced e he
    by_cases hnil : s.system.coordinator.redirects = []
    · rw [hnil]
      exact fun addr _ => rfl
    · obtain ⟨τ, hτ, htable, hgrants⟩ := htidy.installed hnil
      rw [heq]
      refine avoids_applyCommitRedirects (fun _ _ => id) ?_
      rw [← htable] at hnew ⊢
      exact hnew τ hτ _ hgrants (Nat.le_refl _)
  have hreleased : ∀ σ ∈ s.sessions, ∀ g u, s.system.Grants σ.ticket g → s.system.Releases u g →
      s.system.Grants u g → ∀ e ∈ job.entries, σ.table.Avoids e.request.putAddrs := by
    intro σ hσ g u hgrants hreleases hanswer e he
    obtain ⟨r, hr, heq, -⟩ := hreplaced e he
    have hticket : e.request.ticket = r.ticket := by
      have hslot := r.slot_applyCommitRedirects s.system.coordinator.redirects
      rw [← heq] at hslot
      rw [← Request.slot_ticket, hslot, Request.slot_ticket]
    have havoids := htidy.request_avoids hjob he hr hticket hσ hgrants hreleases hanswer
    rw [heq]
    refine avoids_applyCommitRedirects (fun addr haddr _ => havoids addr haddr) ?_
    exact hnew σ hσ g hgrants (htidy.tabled.generational.bound _ _ hgrants)
  refine ⟨hreplaced, fun hnil e he => ?_, hplanned, ⟨hinstalled, avoids_planAddrs hplanned hinstalled⟩, ?_⟩
  · obtain ⟨r, hr, heq, -⟩ := hreplaced e he
    rw [hnil, applyCommitRedirects_nil] at heq
    rw [heq]
    exact hr
  · intro σ hσ g u hgrants hreleases hanswer
    have hkeys := hreleased σ hσ g u hgrants hreleases hanswer
    exact ⟨hkeys, avoids_planAddrs hplanned hkeys⟩

/-! ## §6 — Runs -/

namespace Demo

def redirectingStart : Redirecting := ⟨start, [], [], []⟩

/-- A record of 64 bytes. -/
def record (segment offset : Nat) : RecordRef := ⟨⟨segment * 2 ^ 32 + offset⟩, 64⟩

def first : RecordRef := record 1 64

def second : RecordRef := record 1 128

def copy : RecordRef := record RecordLog.compactionSegmentBase 64

def copy' : RecordRef := record RecordLog.compactionSegmentBase 128

def base (a : Action) : Redirecting.Event := .base (.act a)

def serve : List Redirecting.Event := [.base (.turn .receive), .base (.turn .redirect)]

def commit (ticket batch : Nat) : List Redirecting.Event :=
  [base (.submit batch 1), base (.prepare ticket), base (.enqueue ticket)]

def write (covered : Nat) : List Redirecting.Event :=
  [.base (.turn .receive), .base (.turn .stopCollecting), .base (.turn (.process (.ok (empty covered))))]

def publish : List Redirecting.Event :=
  [.base (.turn (.appended (.ok ()) false)), .base (.turn (.published none (.ok ⟨1, 1, 0⟩))),
    .base (.turn .complete), .base (.turn .complete)]

/-- Two batches with pending puts; the second one commits while the table is installed and the first one after
its release. -/
def redirects : List Redirecting.Event :=
  [base (.call 0 (.put 1 8 true (.ok first))), base (.call 1 (.put 2 8 true (.ok second)))] ++
    [base (.install [(first.addr, copy), (second.addr, copy')])] ++ serve ++ commit 1 1 ++
    [.rewrite 0 0, .rewrite 1 0] ++ write 0 ++ publish ++ [base (.release 1)] ++ serve ++
    commit 3 0 ++ write 1

/-- The address that replaces another one is itself replaced by the second table. -/
def chained : List Redirecting.Event :=
  [base (.call 0 (.put 1 8 true (.ok first))), base (.call 1 (.put 2 8 true (.ok second))),
    base (.install [(second.addr, copy)])] ++ serve ++ [.rewrite 1 0, base (.release 1)] ++ serve ++
    [base (.install [(first.addr, copy), (copy.addr, copy')])] ++ serve ++
    [.rewrite 0 2, .rewrite 1 2, base (.release 2)] ++ serve ++ commit 4 0 ++ write 0

end Demo

/-- A commit of the first batch after the release has the copy and no key of the table. -/
theorem commit_redirects_applied_demo :
    ∃ s job, (redirecting Demo.settings Demo.bounds).Reach (fun s e => s.Passed e ∧ s.Fresh e) s ∧
      s.system.coordinator.control.job = some job ∧
      job.entries.map (fun e => e.request.putAddrs) = [[Demo.copy.addr]] ∧
      planAddrs job.plan = [Demo.copy.addr] ∧ (2, .redirected 1) ∈ s.system.shared.answers ∧ RedirectsApplied s job := by
  have hrun : ((redirecting Demo.settings Demo.bounds).execOk (fun s e => s.Passed e ∧ s.Fresh e)
      Demo.redirectingStart Demo.redirects).map (fun s => (s.system.coordinator.control.job.map fun job =>
        (job.entries.map fun e => e.request.putAddrs, planAddrs job.plan),
          decide ((2, .redirected 1) ∈ s.system.shared.answers))) =
      some (some ([[Demo.copy.addr]], [Demo.copy.addr]), true) := by
    decide +kernel
  obtain ⟨s, hs, hmap⟩ := Option.map_eq_some_iff.mp hrun
  obtain ⟨hjob, hanswer⟩ := Prod.mk.inj hmap
  obtain ⟨job, hjob, haddrs⟩ := Option.map_eq_some_iff.mp hjob
  obtain ⟨haddrs, hplan⟩ := Prod.mk.inj haddrs
  have hreach : (redirecting Demo.settings Demo.bounds).Reach (fun s e => s.Passed e ∧ s.Fresh e) s :=
    Lib.Machine.Reach.execOk (.start ⟨Demo.start_initial, rfl, rfl, rfl⟩) Demo.redirects hs
  exact ⟨s, job, hreach, hjob, haddrs, hplan, of_decide_eq_true hanswer, commit_redirects_applied hreach hjob⟩

/-- **A chained table.**  The second table replaces an address by one of its own keys; after its release has
returned a commit has that key. -/
theorem chained_redirects_resurface :
    ∃ s job e σ addr, (redirecting Demo.settings Demo.bounds).Reach Redirecting.Passed s ∧
      s.system.coordinator.control.job = some job ∧ e ∈ job.entries ∧ σ ∈ s.sessions ∧
      s.system.Grants σ.ticket 2 ∧ s.system.Releases 3 2 ∧ s.system.Grants 3 2 ∧
      addr ∈ e.request.putAddrs ∧ (σ.table.lookup addr).isSome := by
  have hrun : ((redirecting Demo.settings Demo.bounds).execOk Redirecting.Passed Demo.redirectingStart
      Demo.chained).map (fun s => (s.system.coordinator.control.job.map fun job =>
        job.entries.map fun e => decide (Demo.copy.addr ∈ e.request.putAddrs), s.sessions.map fun σ =>
          decide (σ.ticket = 2 ∧ (σ.table.lookup Demo.copy.addr).isSome), decide ((2, .redirected 2) ∈
            s.system.shared.answers ∧ (3, .redirected 2) ∈ s.system.shared.answers ∧
              .command 3 (.redirect ⟨[], 2⟩) ∈ s.system.accepted))) =
      some (some [true], [false, true], true) := by
    decide +kernel
  obtain ⟨s, hs, hmap⟩ := Option.map_eq_some_iff.mp hrun
  obtain ⟨hjob, hrest⟩ := Prod.mk.inj hmap
  obtain ⟨hsessions, hanswers⟩ := Prod.mk.inj hrest
  obtain ⟨job, hjob, haddrs⟩ := Option.map_eq_some_iff.mp hjob
  obtain ⟨e, he, haddr⟩ : ∃ e ∈ job.entries, decide (Demo.copy.addr ∈ e.request.putAddrs) = true :=
    mem_map.mp (haddrs ▸ mem_cons_self)
  obtain ⟨σ, hσ, hkey⟩ : ∃ σ ∈ s.sessions, decide (σ.ticket = 2 ∧ (σ.table.lookup Demo.copy.addr).isSome) = true :=
    mem_map.mp (hsessions ▸ mem_cons_of_mem _ mem_cons_self)
  obtain ⟨hticket, hlookup⟩ := of_decide_eq_true hkey
  obtain ⟨hgrants, hgrants', hreleases⟩ := of_decide_eq_true hanswers
  refine ⟨s, job, e, σ, Demo.copy.addr, ?_, hjob, he, hσ, ?_, hreleases, hgrants', of_decide_eq_true haddr, hlookup⟩
  · exact Lib.Machine.Reach.execOk (.start ⟨Demo.start_initial, rfl, rfl, rfl⟩) Demo.chained hs
  · rw [hticket]
    exact hgrants

end Ridstore.Commit
