import HighVolumeBooking.Guarantees.Activation
import HighVolumeBooking.Guarantees.Entries
import HighVolumeBooking.Guarantees.Fifo
import HighVolumeBooking.Guarantees.Position
import Mathlib.Algebra.Order.Floor.Div
import Mathlib.GroupTheory.GroupAction.Ring

namespace HighVolumeBooking

open Interleaving (CallId Pool Running solo_done)
open WaitingTokenQueueRepository (WAITING_TOKENS_KEY)
open TokenQueueService (QUEUE_THROUGHPUT)
open TokenCall (admitting signs store)

namespace TokenServer

/-- A step with which the queue goes on for a user who waits: activations one at
a time, whose commands and signatures do not fail, and users who enqueue behind
him. While a run serves him, his key does not expire. -/
structure Continues (u : Int) (s : TokenServer) (a : TokenAct) : Prop where
  calls : ∀ i label, a = .start i label → label = .activate ∨ ∃ v, label = .enqueue v
  apart : s.Apart a
  writes : ∀ i, a ≠ .flush i .failed
  signs : ∀ i, a ≠ .answer i .failed
  behind : ∀ i r now (v : Int) k, a = .answer i .quiet → s.calls i = some r →
    r.next = some ⟨.redis (.zaddNX WAITING_TOKENS_KEY now (toString v)), k⟩ →
    toString v ∉ s.waiting → ∀ x ∈ s.waiting.entries, x.member = toString u →
    ¬ (⟨now, toString v⟩ : Redis.Scored Int String).le x
  lasting : ∀ t i batch, a = .env (.tick t) → Serving s i batch → toString u ∈ batch →
    ∀ v, s.active (toString u) = some v → t < v.expiresAt

/-- The step ends an activation. -/
def endsRun (s : TokenServer) (a : TokenAct) : Bool :=
  (serveTokens s a).any fun s' => a.owner.any fun i => (s'.calls i).any fun r =>
    r.label == .activate && r.ended

end TokenServer

section Runs

variable {s s' : TokenServer} {a : TokenAct} {i : CallId} {r : TokenRun} {batch : List String}

theorem endsRun_iff (h : serveTokens s a = some s') : s.endsRun a = true ↔
    ∃ i r, a.owner = some i ∧ s'.calls i = some r ∧ r.label = .activate ∧ r.ended = true := by
  simp only [TokenServer.endsRun, h, Option.any_some, Option.any_eq_true, Bool.and_eq_true,
    beq_iff_eq]
  constructor
  · intro hends
    obtain ⟨i, hi, r, hr, hlabel, hend⟩ := hends
    exact ⟨i, r, hi, hr, hlabel, hend⟩
  · intro hends
    obtain ⟨i, r, hi, hr, hlabel, hend⟩ := hends
    exact ⟨i, hi, r, hr, hlabel, hend⟩

/-- An activation in progress has read nothing yet, or serves a batch. -/
theorem activation_cases (hst : Staged s) (hr : s.calls i = some r) (hlabel : r.label = .activate)
    (hend : r.ended = false) : r.answers = [] ∨ ∃ batch, Serving s i batch := by
  have hstage := hst.stage i r hr
  rw [hlabel] at hstage
  generalize hscript : r.script = script, hqueue : r.queue = queue, hanswers : r.answers = answers
    at hstage
  cases hstage with
  | activating => exact Or.inl rfl
  | idle | cleared => simp [Running.ended, hscript, hqueue, Interleaving.Script.finished] at hend
  | admitting served todo queue _ _ =>
    refine Or.inr ⟨_, r, _, hr, hlabel, ?_, hanswers⟩
    rw [hscript]
    exact TokenCall.admitting_unfinished _ _
  | storing served member token todo queue _ =>
    refine Or.inr ⟨_, r, _, hr, hlabel, ?_, hanswers⟩
    rw [hscript]
    rfl

/-- An activation ends by finding nobody or by the removal of its batch. -/
theorem ends_cases (hst : Staged s) (h : serveTokens s a = some s') (hends : s.endsRun a = true) :
    (s.front = [] ∧ s'.waiting = s.waiting) ∨ ∃ i batch, Serving s i batch ∧ a = .answer i .quiet ∧
      (∀ b, ¬ Serving s' i b) ∧
      s'.state = (s.state.exec (.zrem WAITING_TOKENS_KEY batch)).2 := by
  obtain ⟨i, r', hi, hr', hlabel', hend'⟩ := (endsRun_iff h).mp hends
  obtain ⟨hcrash, hpool⟩ := serve_step h
  cases hold : s.calls i with
  | none =>
    obtain ⟨label, _, hstart⟩ := Pool.first_step hpool hi hold
    obtain rfl := Option.some.inj (hr'.symm.trans hstart)
    obtain rfl : label = .activate := hlabel'
    simp [Running.ended, Running.start, TokenCall.handle_activate, TokenCall.activating,
      Interleaving.Script.finished] at hend'
  | some r =>
    obtain ⟨q, hq, hsame⟩ := Pool.label_step hpool hold
    obtain rfl := Option.some.inj (hr'.symm.trans hq)
    have hlabel := hsame.symm.trans hlabel'
    have hend : r.ended = false := by
      by_contra hended
      simp only [Bool.not_eq_false, Running.ended, hst.uncrashed i r hold, Bool.false_or,
        Bool.and_eq_true, List.isEmpty_iff] at hended
      exact Pool.ended_step hpool hcrash hold hended.1 hended.2 hi
    rcases activation_cases hst hold hlabel hend with hanswers | ⟨batch, hserving⟩
    · obtain ⟨hfront, rfl⟩ := read_of_fresh hst hold hlabel hanswers hi h
      obtain ⟨hstate, _, q, hq, _, _, hqueue', hscript⟩ := front_read hst hfront h
      obtain rfl := Option.some.inj (hr'.symm.trans hq)
      refine Or.inl ⟨?_, congrArg (fun st => st.zsets WAITING_TOKENS_KEY) hstate⟩
      by_contra hne
      rw [if_neg fun hlen => hne (List.length_eq_zero_iff.mp hlen)] at hscript
      have huncrashed := (staged_step hst h).uncrashed i _ hr'
      simp [Running.ended, hscript, huncrashed] at hend'
    · have hover : ∀ b, ¬ Serving s' i b := by
        intro b hgoes
        obtain ⟨q, _, hq, _, hf, _⟩ := hgoes
        obtain rfl := Option.some.inj (hr'.symm.trans hq)
        have huncrashed := (staged_step hst h).uncrashed i _ hr'
        simp [Running.ended, hf, huncrashed] at hend'
      rcases serving_step hst h hserving with hgoes | ⟨ha, hstate, _⟩
      · exact absurd hgoes (hover batch)
      · exact Or.inr ⟨i, batch, hserving, ha, hover, hstate⟩

/-- The removal ends the run. -/
theorem ends_of_clear (h : serveTokens s (.answer i .quiet) = some s')
    (hserving : Serving s i batch) (hdone : ∃ r, s'.calls i = some r ∧ r.script = .done .none ∧
      r.queue = []) : s.endsRun (.answer i .quiet) = true := by
  obtain ⟨r', hr', hscript, hqueue⟩ := hdone
  obtain ⟨r, _, hr, hlabel, _⟩ := hserving
  obtain ⟨q, hq, hsame⟩ := Pool.label_step (serve_step h).2 hr
  obtain rfl := Option.some.inj (hr'.symm.trans hq)
  refine (endsRun_iff h).mpr ⟨i, _, rfl, hr', hsame.trans hlabel, ?_⟩
  simp [Running.ended, hscript, hqueue, Interleaving.Script.finished]

end Runs

/-- These users wait before the member, and the run in progress has read the
first of them, and him too if he is among the first. -/
structure Ahead (s : TokenServer) (member : String) (before : List String) : Prop where
  waiting : ∃ after, s.waiting.members = before ++ member :: after
  reached : ∀ i batch, Serving s i batch → before.length < QUEUE_THROUGHPUT → member ∈ batch
  short : ∀ i batch, Serving s i batch → QUEUE_THROUGHPUT ≤ before.length →
    batch = before.take QUEUE_THROUGHPUT

section Ahead

variable {s s' : TokenServer} {a : TokenAct} {u : Int} {before : List String}

theorem Ahead.mem {member : String} (h : Ahead s member before) : member ∈ s.waiting := by
  obtain ⟨after, hafter⟩ := h.waiting
  rw [Redis.SortedSet.mem_def, hafter]
  exact List.mem_append_right _ List.mem_cons_self

theorem front_eq (s : TokenServer) : s.front = s.waiting.members.take QUEUE_THROUGHPUT :=
  Redis.SortedSet.range_first _ (by decide)

theorem Ahead.front_reached {member : String} (h : Ahead s member before)
    (hlen : before.length < QUEUE_THROUGHPUT) : member ∈ s.front := by
  obtain ⟨after, hafter⟩ := h.waiting
  rw [front_eq, hafter, List.take_append, List.mem_append]
  obtain ⟨n, hn⟩ := Nat.exists_eq_succ_of_ne_zero (Nat.sub_ne_zero_of_lt hlen)
  rw [hn]
  exact Or.inr List.mem_cons_self

theorem Ahead.front_short {member : String} (h : Ahead s member before)
    (hlen : QUEUE_THROUGHPUT ≤ before.length) : s.front = before.take QUEUE_THROUGHPUT := by
  obtain ⟨after, hafter⟩ := h.waiting
  rw [front_eq, hafter, List.take_append_of_le_length hlen]

/-- As long as no run ends, the same users wait before him. -/
theorem ahead_kept (hst : Staged s) (hahead : Ahead s (toString u) before)
    (hc : s.Continues u a) (h : serveTokens s a = some s') (hends : s.endsRun a = false) :
    Ahead s' (toString u) before := by
  have hserving : ∀ i batch, Serving s' i batch → Serving s i batch ∨ batch = s.front := by
    intro i batch hserving
    rcases serving_before h hserving with hold | ⟨_, _, _, hbatch⟩
    · exact Or.inl hold
    · exact Or.inr hbatch
  refine ⟨?_, ?_, ?_⟩
  · obtain ⟨after, hafter⟩ := hahead.waiting
    cases waiting_moved hst h with
    | same h => exact ⟨after, h ▸ hafter⟩
    | join i r v now ha hr _ hn h =>
      rw [h]
      by_cases hold : toString v ∈ s.waiting
      · exact ⟨after, by rw [Redis.SortedSet.addNX_of_mem hold, hafter]⟩
      · obtain ⟨k, hn⟩ := hn
        exact Redis.SortedSet.members_addNX_behind hold hafter (hc.behind i r now v k ha hr hn hold)
    | clear i batch ha hserving hdone _ =>
      subst ha
      rw [ends_of_clear h hserving hdone] at hends
      contradiction
  · intro i batch hbatch hlen
    rcases hserving i batch hbatch with hold | rfl
    · exact hahead.reached i batch hold hlen
    · exact hahead.front_reached hlen
  · intro i batch hbatch hlen
    rcases hserving i batch hbatch with hold | rfl
    · exact hahead.short i batch hold hlen
    · exact hahead.front_short hlen

/-- The end of a run takes him out, or the first of those before him. -/
theorem ahead_ends (hst : Staged s) (hsingle : s.Single) (hahead : Ahead s (toString u) before)
    (h : serveTokens s a = some s') (hends : s.endsRun a = true) :
    (before.length < QUEUE_THROUGHPUT ∧ toString u ∉ s'.waiting ∧ ∃ i batch, Serving s i batch ∧
      toString u ∈ batch ∧ a = .answer i .quiet) ∨
      (QUEUE_THROUGHPUT ≤ before.length ∧
        Ahead s' (toString u) (before.drop QUEUE_THROUGHPUT)) := by
  rcases ends_cases hst h hends with ⟨hempty, _⟩ | ⟨i, batch, hserving, rfl, hover, hstate⟩
  · rw [front_eq, List.take_eq_nil_iff] at hempty
    have hmem := hahead.mem
    rw [Redis.SortedSet.mem_def, hempty.resolve_left (by decide)] at hmem
    contradiction
  · have hremoved : s'.waiting = s.waiting.remove batch := by
      rw [TokenServer.waiting, hstate, Redis.Store.zsets_exec_zrem, if_pos rfl]
      rfl
    by_cases hlen : before.length < QUEUE_THROUGHPUT
    · have hbatch := hahead.reached i batch hserving hlen
      refine Or.inl ⟨hlen, ?_, i, batch, hserving, hbatch, rfl⟩
      rw [hremoved, Redis.SortedSet.mem_remove]
      exact fun hmem => hmem.2 hbatch
    · have hle := Nat.le_of_not_lt hlen
      have hidle : ∀ j batch', ¬ Serving s' j batch' := by
        intro j batch' hserving'
        rcases serving_before h hserving' with hold | ⟨hj, hnone, _⟩
        · obtain ⟨rfl, _⟩ := TokenServer.Single.serving hst hsingle hserving hold
          exact hover batch' hserving'
        · cases hj
          exact hnone batch hserving
      refine Or.inr ⟨hle, ?_, ?_, ?_⟩
      · obtain ⟨after, hafter⟩ := hahead.waiting
        rw [hremoved, hahead.short i batch hserving hle]
        exact ⟨after, Redis.SortedSet.members_remove_first QUEUE_THROUGHPUT hafter⟩
      · intro j batch' hserving'
        exact absurd hserving' (hidle j batch')
      · intro j batch' hserving'
        exact absurd hserving' (hidle j batch')

end Ahead

/-- The run that serves the member has written his key, or has yet to. -/
def Provided (s : TokenServer) (member : String) : Prop :=
  ∀ i batch, Serving s i batch → member ∈ batch → s.active member ≠ none ∨ s.Due i member

section Written

variable {s s' : TokenServer} {a : TokenAct} {u : Int} {i : CallId} {batch : List String}

/-- His key stays while he is served. -/
theorem active_kept (hst : Staged s) (hcalls : ∀ i r, s.calls i = some r →
      r.label = .activate ∨ ∃ v, r.label = .enqueue v)
    (hc : s.Continues u a) (h : serveTokens s a = some s') (hserving : Serving s i batch)
    (hmem : toString u ∈ batch) (hactive : s.active (toString u) ≠ none) :
    s'.active (toString u) ≠ none := by
  cases strings_moved hst h with
  | same h => rwa [TokenServer.active, h]
  | tick t ha _ h =>
    rw [TokenServer.active, h, Redis.Store.strings_tick (hc.lasting t i batch ha hserving hmem)]
    exact hactive
  | expire j r id _ hr hlabel _ _ =>
    rcases hcalls j r hr with hl | ⟨v, hl⟩ <;> rw [hl] at hlabel <;> contradiction
  | store j batch' m token _ _ _ _ h _ =>
    rw [TokenServer.active, h]
    split
    · simp
    · exact hactive

section Due

variable {r : TokenRun} {e : TokenEvent} {token : Jwt}

theorem due_of_owes (token : Jwt) (hserving : Serving s i batch) (hmem : toString u ∈ batch)
    (hr : s.calls i = some r) (howes : r.Owes (store (toString u) token)) :
    s.Due i (toString u) :=
  ⟨batch, r, token, hserving, hmem, hr, howes⟩

/-- The signature does not fail, so the write for its member comes next. -/
theorem due_answer (hst : Staged s) (hc : s.Continues u (.answer i e))
    (hpool : Pool.step TokenCall.handle s (.answer i e) = some s')
    (hserving : ∃ batch', Serving s i batch') (hserving' : Serving s' i batch)
    (hmem : toString u ∈ batch) (hr : s.calls i = some r)
    (howes : r.Owes (store (toString u) token)) : s'.Due i (toString u) := by
  obtain ⟨batch', q, rest, hrun, hlabel, hf, hanswers⟩ := hserving
  obtain rfl := Option.some.inj (hr.symm.trans hrun)
  have hstage := hst.stage i r hr
  rw [hlabel, hanswers] at hstage
  obtain ⟨served, todo, _, _, hscript⟩ := TokenCall.stage_serving hstage hf
  obtain ⟨q, o, k, reply, st, hq, hn, hx, rfl⟩ := Pool.step_answer hpool
  obtain rfl := Option.some.inj (hr.symm.trans hq)
  have hnext := (Running.next_eq_some.mp hn).2
  rcases hscript with ⟨hscript, _⟩ | ⟨sent, member, sign, _, hscript, _⟩
  · rw [hscript] at hnext
    cases todo with
    | nil =>
      simp only [admitting, TokenCall.clear, reduceCtorEq, false_or] at hnext
      obtain ⟨hcall, _⟩ := hnext
      cases hcall
      obtain ⟨q, _, hrun', _, hunfinished, _⟩ := hserving'
      rcases Pool.calls_update hrun' with ⟨_, rfl⟩ | ⟨hne, _⟩
      · contradiction
      · exact absurd rfl hne
    | cons member todo =>
      simp only [admitting, reduceCtorEq, false_and, or_false] at hnext
      cases hnext
      have hsigned : ∃ sign, reply = some sign := by
        cases e with
        | read t => exact ⟨_, (congrArg Prod.fst (Option.some.inj hx)).symm⟩
        | failed => exact absurd rfl (hc.signs i)
        | quiet | tick => contradiction
      obtain ⟨sign, rfl⟩ := hsigned
      rcases howes with hqueue | hsend
      · exact due_of_owes token hserving' hmem (Function.update_self ..) (Or.inl hqueue)
      · rw [hscript] at hsend
        rcases List.mem_cons.mp (maySend_admitting hsend) with rfl | htodo
        · exact due_of_owes sign hserving' hmem (Function.update_self ..)
            (Or.inr (Or.inl rfl))
        · exact due_of_owes token hserving' hmem (Function.update_self ..)
            (Or.inr (Or.inr (maySend_of_mem token htodo)))
  · simp [hscript] at hnext

theorem due_issue (hpool : Pool.step TokenCall.handle s (.issue i) = some s')
    (hserving' : Serving s' i batch) (hmem : toString u ∈ batch) (hr : s.calls i = some r)
    (howes : r.Owes (store (toString u) token)) : s'.Due i (toString u) := by
  obtain ⟨q, o, k, hq, _, hsend, rfl⟩ := Pool.step_issue hpool
  obtain rfl := Option.some.inj (hr.symm.trans hq)
  refine due_of_owes token hserving' hmem (Function.update_self ..) ?_
  rcases howes with hqueue | hmay
  · exact Or.inl (List.mem_append_left _ hqueue)
  · rw [hsend] at hmay
    rcases hmay with rfl | hmay
    · exact Or.inl (List.mem_append_right _ (List.mem_singleton_self _))
    · exact Or.inr hmay

/-- The write that arrives sets the key, unless it is set already. -/
theorem due_flush (hc : s.Continues u (.flush i e))
    (hpool : Pool.step TokenCall.handle s (.flush i e) = some s') (hserving' : Serving s' i batch)
    (hmem : toString u ∈ batch) (hr : s.calls i = some r)
    (howes : r.Owes (store (toString u) token)) :
    s'.active (toString u) ≠ none ∨ s'.Due i (toString u) := by
  obtain ⟨q, o, queue, reply, st, hq, hqueue, hx, rfl⟩ := Pool.step_flush hpool
  obtain rfl := Option.some.inj (hr.symm.trans hq)
  rcases howes with hmember | hmay
  · rw [hqueue] at hmember
    rcases List.mem_cons.mp hmember with rfl | hlater
    · left
      cases e with
      | quiet =>
        obtain ⟨_, rfl⟩ := Prod.mk.inj (Option.some.inj hx)
        rw [TokenServer.active, Redis.Store.strings_exec_setNX (by decide)]
        split
        · simp
        · rename_i hset
          exact fun hnone => hset ⟨rfl, hnone⟩
      | failed => exact absurd rfl (hc.writes i)
      | read | tick => contradiction
    · exact Or.inr (due_of_owes token hserving' hmem (Function.update_self ..) (Or.inl hlater))
  · exact Or.inr (due_of_owes token hserving' hmem (Function.update_self ..) (Or.inr hmay))

end Due

/-- A write that is due arrives or stays due. -/
theorem due_kept (hst : Staged s) (hc : s.Continues u a) (h : serveTokens s a = some s')
    (hserving' : Serving s' i batch) (hmem : toString u ∈ batch)
    (hdue : s.Due i (toString u)) :
    s'.active (toString u) ≠ none ∨ s'.Due i (toString u) := by
  obtain ⟨batch', r, token, hserving, _, hr, howes⟩ := hdue
  obtain ⟨hcrash, hpool⟩ := serve_step h
  by_cases howner : a.owner = some i
  · cases a with
    | start j call =>
      obtain ⟨hnone, _⟩ := Pool.step_start hpool
      obtain rfl := Option.some.inj howner
      rw [hr] at hnone
      contradiction
    | answer j e =>
      obtain rfl := Option.some.inj howner
      exact Or.inr (due_answer hst hc hpool ⟨batch', hserving⟩ hserving' hmem hr howes)
    | issue j =>
      obtain rfl := Option.some.inj howner
      exact Or.inr (due_issue hpool hserving' hmem hr howes)
    | flush j e =>
      obtain rfl := Option.some.inj howner
      exact due_flush hc hpool hserving' hmem hr howes
    | env e => contradiction
    | crash j => contradiction
  · exact Or.inr (due_of_owes token hserving' hmem ((Pool.calls_step hpool howner).trans hr) howes)

/-- A run whose next command succeeds at once has nothing more to write. -/
theorem not_due_of_quiet {member : String} (hst : Staged s)
    (h : serveTokens s (.answer i .quiet) = some s') (hserving : Serving s i batch) :
    ¬ s.Due i member := by
  intro hdue
  obtain ⟨_, r, token, _, _, hr, howes⟩ := hdue
  obtain ⟨q, rest, hrun, hlabel, hf, hanswers⟩ := hserving
  obtain rfl := Option.some.inj (hr.symm.trans hrun)
  have hstage := hst.stage i r hr
  rw [hlabel, hanswers] at hstage
  obtain ⟨served, todo, _, _, hscript⟩ := TokenCall.stage_serving hstage hf
  obtain ⟨q, o, k, reply, st, hq, hn, hx, rfl⟩ := Pool.step_answer (serve_step h).2
  obtain rfl := Option.some.inj (hr.symm.trans hq)
  have hnext := (Running.next_eq_some.mp hn).2
  rcases hscript with ⟨hscript, _⟩ | ⟨sent, m, sign, _, hscript, _⟩
  · rw [hscript] at hnext
    cases todo with
    | nil =>
      simp only [admitting, TokenCall.clear, reduceCtorEq, false_or] at hnext
      rcases howes with hqueue | hsend
      · rw [hnext.2] at hqueue
        contradiction
      · rw [hscript] at hsend
        exact absurd (maySend_admitting hsend) List.not_mem_nil
    | cons m todo =>
      simp only [admitting, reduceCtorEq, false_and, or_false] at hnext
      cases hnext
      contradiction
  · simp [hscript] at hnext

/-- A run that has just read the member is to write his key. -/
theorem due_of_read {member : String} (hst : Staged s) (hfront : s.AtFront i)
    (h : serveTokens s (.answer i .quiet) = some s') (hserving' : Serving s' i batch)
    (hmem : member ∈ batch) (hbatch : batch = s.front) : s'.Due i member := by
  obtain ⟨_, _, r, hr, _, _, _, hscript⟩ := front_read hst hfront h
  have hne : s.front.length ≠ 0 := by
    intro hlen
    rw [hbatch, List.length_eq_zero_iff.mp hlen] at hmem
    contradiction
  rw [if_neg hne] at hscript
  refine ⟨batch, r, Jwt.sign none 0, hserving', hmem, hr, Or.inr ?_⟩
  rw [hscript]
  exact maySend_of_mem _ (hbatch ▸ hmem)

theorem provided_step (hst : Staged s) (hcalls : ∀ i r, s.calls i = some r →
      r.label = .activate ∨ ∃ v, r.label = .enqueue v)
    (hprovided : Provided s (toString u)) (hc : s.Continues u a) (h : serveTokens s a = some s') :
    Provided s' (toString u) := by
  intro i batch hserving' hmem
  rcases serving_before h hserving' with hserving | ⟨rfl, _, hfront, hbatch⟩
  · rcases hprovided i batch hserving hmem with hactive | hdue
    · exact Or.inl (active_kept hst hcalls hc h hserving hmem hactive)
    · exact due_kept hst hc h hserving' hmem hdue
  · exact Or.inr (due_of_read hst hfront h hserving' hmem hbatch)

end Written

/-- What holds of the queue of a user whose order was k after j runs. -/
structure Positioned (u : Int) (k j : Nat) (s : TokenServer) : Prop where
  staged : Staged s
  single : s.Single
  calls : ∀ i r, s.calls i = some r → r.label = .activate ∨ ∃ v, r.label = .enqueue v
  provided : Provided s (toString u)
  place : QUEUE_THROUGHPUT * j < k → ∃ before, Ahead s (toString u) before ∧
    before.length + 1 + QUEUE_THROUGHPUT * j = k

section Positioned

variable {s s' : TokenServer} {a : TokenAct} {u : Int} {k j : Nat}

theorem calls_continued (hcalls : ∀ i r, s.calls i = some r →
      r.label = .activate ∨ ∃ v, r.label = .enqueue v)
    (hc : s.Continues u a) (h : serveTokens s a = some s') :
    ∀ i r, s'.calls i = some r → r.label = .activate ∨ ∃ v, r.label = .enqueue v := by
  intro i r' hr'
  have hpool := (serve_step h).2
  cases hold : s.calls i with
  | some r =>
    obtain ⟨q, hq, hlabel⟩ := Pool.label_step hpool hold
    obtain rfl := Option.some.inj (hr'.symm.trans hq)
    rw [hlabel]
    exact hcalls i r hold
  | none =>
    by_cases howner : a.owner = some i
    · obtain ⟨label, rfl, hstart⟩ := Pool.first_step hpool howner hold
      obtain rfl := Option.some.inj (hr'.symm.trans hstart)
      exact hc.calls i label rfl
    · rw [Pool.calls_step hpool howner, hold] at hr'
      contradiction

theorem positioned_step (ha : Positioned u k j s) (hc : s.Continues u a)
    (h : serveTokens s a = some s') :
    Positioned u k (j + if s.endsRun a then 1 else 0) s' := by
  refine ⟨staged_step ha.staged h, TokenServer.Single.step ha.staged ha.single hc.apart h,
    calls_continued ha.calls hc h, provided_step ha.staged ha.calls ha.provided hc h, ?_⟩
  intro hlt
  cases hends : s.endsRun a with
  | false =>
    rw [hends] at hlt
    obtain ⟨before, hahead, hlen⟩ := ha.place hlt
    exact ⟨before, ahead_kept ha.staged hahead hc h hends, hlen⟩
  | true =>
    rw [hends, if_pos rfl, Nat.mul_add, Nat.mul_one] at hlt
    obtain ⟨before, hahead, hlen⟩ := ha.place (by omega)
    rcases ahead_ends ha.staged ha.single hahead h hends with ⟨hshort, _⟩ | ⟨hle, hahead'⟩
    · omega
    · refine ⟨_, hahead', ?_⟩
      rw [List.length_drop, if_pos rfl, Nat.mul_add, Nat.mul_one]
      omega

/-- The run that reaches the user takes him out and leaves him with his key. -/
theorem positioned_end (ha : Positioned u k j s) (hc : s.Continues u a)
    (h : serveTokens s a = some s') (hends : s.endsRun a = true)
    (hlt : QUEUE_THROUGHPUT * j < k) (hlast : k ≤ QUEUE_THROUGHPUT * (j + 1)) :
    toString u ∉ s'.waiting ∧ s'.active (toString u) ≠ none := by
  rw [Nat.mul_add, Nat.mul_one] at hlast
  obtain ⟨before, hahead, hlen⟩ := ha.place hlt
  rcases ahead_ends ha.staged ha.single hahead h hends with
    ⟨_, hgone, i, batch, hserving, hmem, rfl⟩ | ⟨hle, _⟩
  · refine ⟨hgone, ?_⟩
    rcases ha.provided i batch hserving hmem with hactive | hdue
    · exact active_kept ha.staged ha.calls hc h hserving hmem hactive
    · exact absurd hdue (not_due_of_quiet ha.staged h hserving)
  · omega

theorem positioned_init {st : Redis.Store Jwt} {n : Nat}
    (h : (waitingSet st).rank (toString u) = some n) : Positioned u (n + 1) 0 (Pool.init st) := by
  have hnone : ∀ i batch, ¬ Serving (Pool.init st) i batch := by
    intro i batch hserving
    obtain ⟨r, _, hr, _⟩ := hserving
    contradiction
  obtain ⟨before, after, hmembers, hlen⟩ := Redis.SortedSet.members_of_rank h
  refine ⟨⟨?_, ?_⟩, ?_, ?_, ?_, fun _ => ⟨before, ⟨⟨after, hmembers⟩, ?_, ?_⟩, by omega⟩⟩
  · intro i r hr
    contradiction
  · intro i r hr
    contradiction
  · intro i j r q hr
    contradiction
  · intro i r hr
    contradiction
  · exact fun i batch hserving => absurd hserving (hnone i batch)
  · exact fun i batch hserving => absurd hserving (hnone i batch)
  · exact fun i batch hserving => absurd hserving (hnone i batch)

theorem positioned_run {st : Redis.Store Jwt} {acts : List TokenAct} {n : Nat}
    (hrank : (waitingSet st).rank (toString u) = some n)
    (h : Machine.run serveTokens (Pool.init st) acts = some s)
    (hc : Machine.Along serveTokens (TokenServer.Continues u) (Pool.init st) acts) :
    Positioned u (n + 1) (Machine.count serveTokens TokenServer.endsRun (Pool.init st) acts) s := by
  refine Machine.run_induction (fun acts s =>
    Machine.Along serveTokens (TokenServer.Continues u) (Pool.init st) acts →
      Positioned u (n + 1) (Machine.count serveTokens TokenServer.endsRun (Pool.init st) acts) s)
    (fun _ => positioned_init hrank) ?_ h hc
  intro acts m a t hm ih hs hall
  obtain ⟨hacts, hlast⟩ := (Machine.along_append hm).mp hall
  rw [Machine.count_concat hm]
  exact positioned_step (ih hacts) hlast.1 hs

/-- What a user is told whose place is known. -/
theorem getWaitingToken_gives {st st' : Redis.Store Jwt} {n : Nat}
    {result : Except TokenError TokenQueue} (h : (waitingSet st).rank (toString u) = some n) :
    (TokenQueueService.getWaitingToken u).Gives st result st' ↔
      result = .ok (.createWaiting u (n + 1)) ∧ st' = st := by
  constructor
  · intro hgives
    obtain ⟨es, w, hw, rfl, rfl⟩ := hgives
    obtain ⟨_, rfl⟩ := (TokenQueueService.getWaitingToken_solo h).mp hw
    exact ⟨rfl, rfl⟩
  · intro hgives
    obtain ⟨rfl, rfl⟩ := hgives
    exact ⟨_, _, (TokenQueueService.getWaitingToken_solo h).mpr ⟨rfl, rfl⟩, rfl, rfl⟩

theorem rank_of_getOrder {st st' : Redis.Store Jwt}
    (h : (WaitingTokenQueueRepository.getOrder (toString u)).Gives st (.ok (some k)) st') :
    ∃ n, k = n + 1 ∧ (waitingSet st).rank (toString u) = some n := by
  obtain ⟨es, w, hw, hresult, _⟩ := h
  obtain ⟨es', w', _, hmatch, rfl⟩ := solo_redis.mp hw
  rw [TokenQueueService.exec_zrank] at hmatch
  cases hrank : (waitingSet st).rank (toString u) with
  | none =>
    rw [hrank] at hmatch
    obtain ⟨_, rfl⟩ := solo_done.mp hmatch
    cases hresult
  | some n =>
    rw [hrank] at hmatch
    obtain ⟨_, rfl⟩ := solo_done.mp hmatch
    cases hresult
    exact ⟨n, rfl, rfl⟩

theorem getOrder_of_rank {st : Redis.Store Jwt} {n : Nat}
    (h : (waitingSet st).rank (toString u) = some n) :
    (WaitingTokenQueueRepository.getOrder (toString u)).Gives st (.ok (some (n + 1))) st := by
  have hdone : (Interleaving.Script.done (some (n + 1)) : TokenScript (Option Nat)).solo st [] =
      some ⟨[], .ok (some (n + 1)), st⟩ := solo_done.mpr ⟨rfl, rfl⟩
  refine ⟨[.quiet], _, solo_redis.mpr ⟨[], ⟨[], .ok (some (n + 1)), st⟩, rfl, ?_, rfl⟩, rfl, rfl⟩
  rw [TokenQueueService.exec_zrank, h]
  exact hdone

end Positioned

/-- After j runs the order of a user has gone down by 2000 j and his waiting time
by 10 j seconds, and the run announced for him takes him out of the queue and
leaves him with an active key. -/
theorem announced_wait_exact {st : Redis.Store Jwt} {u : Int} {k : Nat} {acts : List TokenAct}
    {s : TokenServer}
    (hk : (WaitingTokenQueueRepository.getOrder (toString u)).Gives st (.ok (some k)) st)
    (h : Machine.run serveTokens (Pool.init st) acts = some s)
    (hc : Machine.Along serveTokens (TokenServer.Continues u) (Pool.init st) acts) {j : Nat}
    (hj : Machine.count serveTokens TokenServer.endsRun (Pool.init st) acts = j)
    (hlt : j < k ⌈/⌉ 2000) :
    toString u ∈ s.waiting ∧
      (∀ result st', (TokenQueueService.getWaitingToken u).Gives s.state result st' ↔
        result = .ok ⟨some u, none, k - 2000 * j, 10 * (k ⌈/⌉ 2000 - j)⟩ ∧ st' = s.state) ∧
      ∀ a s', serveTokens s a = some s' → s.Continues u a → s.endsRun a = true →
        j + 1 = k ⌈/⌉ 2000 → toString u ∉ s'.waiting ∧ s'.active (toString u) ≠ none := by
  obtain ⟨n, rfl, hrank⟩ := rank_of_getOrder hk
  have ha := positioned_run hrank h hc
  rw [hj] at ha
  rw [Nat.ceilDiv_eq_add_pred_div] at hlt ⊢
  have hplace : QUEUE_THROUGHPUT * j < n + 1 := by
    rw [QUEUE_THROUGHPUT]
    omega
  obtain ⟨before, hahead, hlen⟩ := ha.place hplace
  refine ⟨hahead.mem, ?_, ?_⟩
  · intro result st'
    obtain ⟨after, hafter⟩ := hahead.waiting
    rw [getWaitingToken_gives (Redis.SortedSet.rank_of_members hafter), TokenQueue.createWaiting]
    rw [QUEUE_THROUGHPUT] at hlen
    have horder : before.length + 1 = n + 1 - 2000 * j := by omega
    have hestimate : (before.length + 1 + (TokenQueue.THROUGHPUT_PER_10_SEC - 1)) /
        TokenQueue.THROUGHPUT_PER_10_SEC * 10 = 10 * ((n + 1 + 2000 - 1) / 2000 - j) := by
      rw [TokenQueue.THROUGHPUT_PER_10_SEC]
      omega
    rw [hestimate, horder]
  · intro a s' hs hcontinues hends hlast
    refine positioned_end ha hcontinues hs hends hplace ?_
    rw [QUEUE_THROUGHPUT]
    omega

/-! An activation that is left alone can be carried through. -/

/-- A run in progress can be ended with the queue going on for the user. -/
def TokenServer.CanEnd (u : Int) (s : TokenServer) : Prop :=
  ∃ acts s', Machine.run serveTokens s acts = some s' ∧
    Machine.Along serveTokens (TokenServer.Continues u) s acts ∧
    Machine.count serveTokens TokenServer.endsRun s acts = 1

section Completion

variable {s m : TokenServer} {a : TokenAct} {u : Int} {i : CallId} {r : TokenRun}

theorem serve_of_step (hcrash : a.isCrash = false) (h : Pool.step TokenCall.handle s a = some m) :
    serveTokens s a = some m := by
  rw [serveTokens, if_neg (by simp [hcrash]), h]

namespace TokenServer.Continues

theorem answer {e : TokenEvent} {o : TokenOp} {k : o.Reply → Rest} (hr : s.calls i = some r)
    (hn : r.next = some ⟨o, k⟩) (he : e ≠ .failed)
    (hadd : ∀ key now member, o ≠ .redis (.zaddNX key now member)) :
    s.Continues u (.answer i e) := by
  refine ⟨?_, ?_, ?_, ?_, ?_, ?_⟩
  · intro j label ha
    contradiction
  · intro j ha
    contradiction
  · intro j ha
    contradiction
  · intro j ha
    cases ha
    exact he rfl
  · intro j q now v k' ha hq hnext
    cases ha
    obtain rfl := Option.some.inj (hr.symm.trans hq)
    obtain ⟨ho, _⟩ := Sigma.mk.inj (Option.some.inj (hn.symm.trans hnext))
    exact absurd ho (hadd _ _ _)
  · intro t j batch ha
    contradiction

/-- What neither starts nor answers a call and lets no time pass. -/
theorem sends (hstart : ∀ j label, a ≠ .start j label) (hanswer : ∀ j e, a ≠ .answer j e)
    (henv : ∀ e, a ≠ .env e) (hwrites : ∀ j, a ≠ .flush j .failed) : s.Continues u a where
  calls := fun j label ha => absurd ha (hstart j label)
  apart := fun j ha => absurd ha (hstart j .activate)
  writes := hwrites
  signs := fun j ha => absurd ha (hanswer j .failed)
  behind := fun j _ _ _ _ ha => absurd ha (hanswer j .quiet)
  lasting := fun t _ _ ha => absurd ha (henv (.tick t))

theorem start (h : ¬ s.Activating) : s.Continues u (.start i .activate) := by
  refine ⟨?_, fun _ _ => h, ?_, ?_, ?_, ?_⟩
  · intro j label ha
    cases ha
    exact Or.inl rfl
  · intro j ha
    contradiction
  · intro j ha
    contradiction
  · intro j q now v k ha
    contradiction
  · intro t j batch ha
    contradiction

end TokenServer.Continues

theorem endsRun_of_open (h : serveTokens s a = some m) (howner : a.owner = some i)
    (hr : m.calls i = some r) (hend : r.ended = false) : s.endsRun a = false := by
  refine Bool.eq_false_iff.mpr fun hends => ?_
  obtain ⟨j, q, hj, hq, _, hended⟩ := (endsRun_iff h).mp hends
  obtain rfl := Option.some.inj (howner.symm.trans hj)
  obtain rfl := Option.some.inj (hr.symm.trans hq)
  rw [hend] at hended
  contradiction

namespace TokenServer.CanEnd

theorem step (h : serveTokens s a = some m) (hc : s.Continues u a) (hopen : s.endsRun a = false)
    (hm : m.CanEnd u) : s.CanEnd u := by
  obtain ⟨acts, s', hrun, halong, hcount⟩ := hm
  refine ⟨a :: acts, s', Machine.run_cons.mpr ⟨m, h, hrun⟩, ⟨hc, ?_⟩, ?_⟩
  · intro t ht
    obtain rfl := Option.some.inj (h.symm.trans ht)
    exact halong
  · simp [Machine.count, h, hopen, hcount]

theorem last (h : serveTokens s a = some m) (hc : s.Continues u a) (hends : s.endsRun a = true) :
    s.CanEnd u := by
  refine ⟨[a], m, Machine.run_cons.mpr ⟨m, h, rfl⟩, ⟨hc, fun _ _ => trivial⟩, ?_⟩
  simp [Machine.count, h, hends]

/-- Each user that is left takes a signature and a write, and the removal is the
last step. -/
theorem of_serving {batch todo : List String} (hr : s.calls i = some r)
    (hlabel : r.label = .activate) (hcrash : r.crashed = false) (hqueue : r.queue = [])
    (hscript : r.script = admitting batch todo) : s.CanEnd u := by
  induction todo generalizing s r with
  | nil =>
    have hn := Running.next_eq_some.mpr ⟨hcrash, Or.inr ⟨hscript, hqueue⟩⟩
    have hx : tokenServer.exec s.state (TokenOp.redis (.zrem WAITING_TOKENS_KEY batch))
      TokenEvent.quiet = some (_, _) := rfl
    have hstep := serve_of_step rfl (Pool.answer_step hr hn hx)
    refine last hstep (.answer hr hn (by simp) (by simp)) ((endsRun_iff hstep).mpr
      ⟨i, _, rfl, Function.update_self .., hlabel, ?_⟩)
    simp [Running.ended, Running.answered, hqueue, Interleaving.Script.finished]
  | cons member todo ih =>
    let token := Jwt.sign (parseInt member) 0
    have hn := Running.next_eq_some.mpr ⟨hcrash, Or.inl hscript⟩
    have hx : tokenServer.exec s.state (TokenOp.sign (parseInt member)) (TokenEvent.read 0) =
      some (some token, s.state) := rfl
    obtain ⟨m, q, hsign, hq, hlabel, hcrash, hqueue, hscript⟩ : ∃ m, ∃ q : TokenRun,
        serveTokens s (.answer i (.read 0)) = some m ∧ m.calls i = some q ∧ q.label = .activate ∧
        q.crashed = false ∧ q.queue = [] ∧
        q.script = .send (store member token) (admitting batch todo) :=
      ⟨_, _, serve_of_step rfl (Pool.answer_step hr hn hx), Function.update_self .., hlabel, hcrash,
        hqueue, rfl⟩
    refine step hsign (.answer hr hn (by simp) (by simp)) (endsRun_of_open hsign rfl hq ?_) ?_
    · simp [Running.ended, hcrash, hscript, Interleaving.Script.finished]
    obtain ⟨n, r, hissue, hr, hlabel, hcrash, hqueue, hscript⟩ : ∃ n, ∃ r : TokenRun,
        serveTokens m (.issue i) = some n ∧ n.calls i = some r ∧ r.label = .activate ∧
        r.crashed = false ∧ r.queue = [store member token] ∧ r.script = admitting batch todo :=
      ⟨_, _, serve_of_step rfl (Pool.issue_step hq hcrash hscript), Function.update_self .., hlabel,
        hcrash, by rw [hqueue]; rfl, rfl⟩
    refine step hissue (.sends (by simp) (by simp) (by simp) (by simp))
      (endsRun_of_open hissue rfl hr ?_) ?_
    · simp [Running.ended, hcrash, hscript]
    have hx : tokenServer.exec n.state (store member token) TokenEvent.quiet = some (_, _) := rfl
    have hflush := serve_of_step rfl (Pool.flush_step hr hqueue hx)
    refine step hflush (.sends (by simp) (by simp) (by simp) (by simp))
      (endsRun_of_open hflush rfl (Function.update_self ..) ?_) ?_
    · simp [Running.ended, hcrash, hscript]
    exact ih (Function.update_self ..) hlabel hcrash rfl hscript

/-- Whoever waits, one more activation can be run. -/
theorem of_idle (hfree : s.calls i = none) (hidle : ¬ s.Activating) : s.CanEnd u := by
  obtain ⟨m, q, hstart, hq, hlabel, hcrash, hqueue, hscript⟩ : ∃ m, ∃ q : TokenRun,
      serveTokens s (.start i .activate) = some m ∧ m.calls i = some q ∧ q.label = .activate ∧
      q.crashed = false ∧ q.queue = [] ∧ q.script = TokenCall.activating :=
    ⟨_, _, serve_of_step rfl (Pool.start_step hfree), Function.update_self .., rfl, rfl, rfl,
      TokenCall.handle_activate⟩
  refine step hstart (.start hidle) (endsRun_of_open hstart rfl hq ?_) ?_
  · simp [Running.ended, hcrash, hscript, TokenCall.activating, Interleaving.Script.finished]
  have hn := Running.next_eq_some.mpr ⟨hcrash, Or.inr ⟨hscript, hqueue⟩⟩
  have hx : tokenServer.exec m.state (TokenOp.redis (.zrange WAITING_TOKENS_KEY 0
    (QUEUE_THROUGHPUT - 1))) TokenEvent.quiet = some (m.front, m.state) := rfl
  have hread := serve_of_step rfl (Pool.answer_step hq hn hx)
  have hc : m.Continues u (.answer i .quiet) := .answer hq hn (by simp) (by simp)
  by_cases hfront : m.front.length = 0
  · refine last hread hc ((endsRun_iff hread).mpr ⟨i, _, rfl, Function.update_self .., hlabel, ?_⟩)
    simp [Running.ended, Running.answered, hqueue, hfront, Interleaving.Script.finished]
  · refine step hread hc (endsRun_of_open hread rfl (Function.update_self ..) ?_) ?_
    · simp [Running.ended, Running.answered, hcrash, hfront]
    · exact of_serving (Function.update_self ..) hlabel hcrash hqueue (if_neg hfront)

end TokenServer.CanEnd

end Completion

/-- A user of the crowd stands behind those who came before him. -/
theorem rank_crowded {st : Redis.Store Jwt} {n : Nat}
    (h : (waitingSet st).entries = crowded (n + 1)) :
    (waitingSet st).rank (toString (100 + n : Int)) = some n := by
  have hmembers : (waitingSet st).members =
      (crowded n).map Redis.Scored.member ++ [toString (100 + n : Int)] := by
    rw [Redis.SortedSet.members, h, crowded, crowded, List.range_succ, List.map_append,
      List.map_append]
    rfl
  rw [Redis.SortedSet.rank_of_members hmembers]
  simp [crowded]

/-- The user with the place 2001, after one run. The next one is his. -/
theorem announced_wait_exact_crowd : ∃ t acts s,
    Machine.run serveTokens (.init 0) (crowd 2001) = some t ∧
    (WaitingTokenQueueRepository.getOrder (toString (2100 : Int))).Gives t.state (.ok (some 2001))
      t.state ∧
    Machine.run serveTokens (Pool.init t.state) acts = some s ∧
    Machine.Along serveTokens (TokenServer.Continues 2100) (Pool.init t.state) acts ∧
    Machine.count serveTokens TokenServer.endsRun (Pool.init t.state) acts = 1 ∧
    toString (2100 : Int) ∈ s.waiting ∧
      (∀ result st', (TokenQueueService.getWaitingToken 2100).Gives s.state result st' ↔
        result = .ok ⟨some 2100, none, 2001 - 2000 * 1, 10 * (2001 ⌈/⌉ 2000 - 1)⟩ ∧
          st' = s.state) ∧
      ∀ a s', serveTokens s a = some s' → s.Continues 2100 a → s.endsRun a = true →
        1 + 1 = 2001 ⌈/⌉ 2000 →
          toString (2100 : Int) ∉ s'.waiting ∧ s'.active (toString (2100 : Int)) ≠ none := by
  obtain ⟨t, ht, _, _, hwaited⟩ := crowd_run 2001
  have hk : (WaitingTokenQueueRepository.getOrder (toString (2100 : Int))).Gives t.state
      (.ok (some 2001)) t.state := by
    have hid : (100 + ((2000 : Nat) : Int)) = 2100 := rfl
    have hrank := rank_crowded hwaited.entries
    rw [hid] at hrank
    exact getOrder_of_rank hrank
  let start : TokenServer := Pool.init t.state
  have hidle : ¬ start.Activating := by
    rintro ⟨i, r, hr, _⟩
    have hnone : none = some r := hr
    cases hnone
  have hfree : start.calls 0 = none := rfl
  obtain ⟨acts, s, hs, hc, hcount⟩ := TokenServer.CanEnd.of_idle (u := 2100) hfree hidle
  have hlt : 1 < 2001 ⌈/⌉ 2000 := by decide
  exact ⟨t, acts, s, ht, hk, hs, hc, hcount, announced_wait_exact hk hs hc hcount hlt⟩

end HighVolumeBooking
