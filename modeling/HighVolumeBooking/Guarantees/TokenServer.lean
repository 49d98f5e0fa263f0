import HighVolumeBooking.Guarantees.TokenQueue

namespace HighVolumeBooking

open Interleaving (CallId Pool Running)
open WaitingTokenQueueRepository (WAITING_TOKENS_KEY)
open ActiveTokenQueueRepository (EXPIRE_SEC)
open TokenCall (oldest signs)

namespace TokenServer

/-- The waiting queue. -/
def waiting (s : TokenServer) : Redis.SortedSet Int String := s.state.zsets WAITING_TOKENS_KEY

/-- The live active key of a member. -/
def active (s : TokenServer) (member : String) : Option (Redis.Volatile Jwt) :=
  s.state.strings (ActiveTokenQueueRepository.key member)

/-- The users that the next activation would read. -/
def front (s : TokenServer) : List String :=
  s.waiting.range 0 (TokenQueueService.QUEUE_THROUGHPUT - 1)

/-- The call is about to read them. -/
def AtFront (s : TokenServer) (i : CallId) : Prop :=
  ∃ r k, s.calls i = some r ∧ r.next = some
    ⟨.redis (.zrange WAITING_TOKENS_KEY 0 (TokenQueueService.QUEUE_THROUGHPUT - 1)), k⟩

end TokenServer

/-- Each call is in one of its stages. -/
structure Staged (s : TokenServer) : Prop where
  stage : ∀ i r, s.calls i = some r → TokenCall.Stage r.label r.script r.queue r.answers
  uncrashed : ∀ i r, s.calls i = some r → r.crashed = false

/-- The run has read its batch and not removed it yet. -/
structure Serving (s : TokenServer) (i : CallId) (batch : List String) : Prop where
  running : ∃ r rest, s.calls i = some r ∧ r.label = .activate ∧ r.script.finished = false ∧
    r.answers = oldest batch :: rest

/-- What a step does to Redis, and what of it is logged. -/
inductive Moved (s : TokenServer) (a : TokenAct) (s' : TokenServer) : Prop where
  | quiet (hstate : s'.state = s.state) (hlog : s'.log = s.log)
  | tick (t : Int) (ha : a = .env (.tick t)) (ht : s.state.now ≤ t)
      (hs : s' = { s with state := s.state.tick t })
  | read (i : CallId) (e : TokenEvent) (r : TokenRun) (o : TokenOp) (reply : o.Reply)
      (ha : a = .answer i e) (hr : s.calls i = some r) (hread : o.isRead = true)
      (hx : TokenOp.exec s.state o e = some (reply, s.state)) (hstate : s'.state = s.state)
      (hlog : s'.log = s.log ++ [⟨r.label, ⟨o, reply⟩, s.state⟩])
  | join (i : CallId) (r : TokenRun) (userId now : Int) (ha : a = .answer i .quiet)
      (hr : s.calls i = some r) (hlabel : r.label = .enqueue userId)
      (hn : ∃ k, r.next = some ⟨.redis (.zaddNX WAITING_TOKENS_KEY now (toString userId)), k⟩)
      (hstate : s'.state = (s.state.exec (.zaddNX WAITING_TOKENS_KEY now (toString userId))).2)
      (hlog : s'.log = s.log ++ [⟨.enqueue userId,
        ⟨.redis (.zaddNX WAITING_TOKENS_KEY now (toString userId)),
          (s.state.exec (.zaddNX WAITING_TOKENS_KEY now (toString userId))).1⟩, s.state⟩])
  | clear (i : CallId) (batch : List String) (ha : a = .answer i .quiet)
      (hserving : Serving s i batch)
      (hdone : ∃ r, s'.calls i = some r ∧ r.script = .done .none ∧ r.queue = [])
      (hstate : s'.state = (s.state.exec (.zrem WAITING_TOKENS_KEY batch)).2)
      (hlog : s'.log = s.log ++ [⟨.activate, ⟨.redis (.zrem WAITING_TOKENS_KEY batch),
        (s.state.exec (.zrem WAITING_TOKENS_KEY batch)).1⟩, s.state⟩])
  | expire (i : CallId) (r : TokenRun) (id : Int) (ha : a = .answer i .quiet)
      (hr : s.calls i = some r) (hlabel : r.label = .expire id)
      (hn : ∃ k, r.next = some ⟨.redis (.del (TokenCall.key id)), k⟩)
      (hstate : s'.state = (s.state.exec (.del (TokenCall.key id))).2)
      (hlog : s'.log = s.log ++ [⟨.expire id, ⟨.redis (.del (TokenCall.key id)),
        (s.state.exec (.del (TokenCall.key id))).1⟩, s.state⟩])
  | store (i : CallId) (batch : List String) (member : String) (token : Jwt)
      (ha : a = .flush i .quiet) (hserving : Serving s i batch) (hmem : member ∈ batch)
      (hq : ∃ r queue, s.calls i = some r ∧ r.queue = TokenCall.store member token :: queue)
      (hstate : s'.state = (s.state.exec
        (.setNX (ActiveTokenQueueRepository.key member) token EXPIRE_SEC)).2)
      (hlog : s'.log = s.log ++ [⟨.activate, ⟨TokenCall.store member token, some (s.state.exec
        (.setNX (ActiveTokenQueueRepository.key member) token EXPIRE_SEC)).1⟩, s.state⟩])
  | lose (i : CallId) (member : String) (token : Jwt) (ha : a = .flush i .failed)
      (hstate : s'.state = s.state)
      (hlog : s'.log = s.log ++ [⟨.activate, ⟨TokenCall.store member token, none⟩, s.state⟩])

section Steps

variable {s s' : TokenServer} {a : TokenAct}

theorem serve_step (h : serveTokens s a = some s') :
    a.isCrash = false ∧ Pool.step TokenCall.handle s a = some s' := by
  unfold serveTokens at h
  split at h
  · contradiction
  · rename_i hc
    exact ⟨Bool.eq_false_iff.mpr hc, h⟩

theorem staged_step (hst : Staged s) (h : serveTokens s a = some s') : Staged s' := by
  obtain ⟨hcrash, h⟩ := serve_step h
  refine ⟨TokenCall.staged.step hst.stage h, ?_⟩
  have hkeep : ∀ {calls : CallId → Option TokenRun} {i : CallId} {r' : TokenRun},
      calls = Function.update s.calls i (some r') → r'.crashed = false →
      ∀ j q, calls j = some q → q.crashed = false := by
    rintro calls i r' rfl hr' j q hq
    rcases Pool.calls_update hq with ⟨_, rfl⟩ | ⟨_, hold⟩
    · exact hr'
    · exact hst.uncrashed j q hold
  cases a with
  | start i call =>
    obtain ⟨_, rfl⟩ := Pool.step_start h
    exact hkeep rfl rfl
  | answer i e =>
    obtain ⟨r, o, k, reply, st, hr, _, _, rfl⟩ := Pool.step_answer h
    exact hkeep rfl (hst.uncrashed i r hr)
  | issue i =>
    obtain ⟨r, o, k, hr, _, _, rfl⟩ := Pool.step_issue h
    exact hkeep rfl (hst.uncrashed i r hr)
  | flush i e =>
    obtain ⟨r, o, queue, reply, st, hr, _, _, rfl⟩ := Pool.step_flush h
    exact hkeep rfl (hst.uncrashed i r hr)
  | env e =>
    obtain ⟨st, _, rfl⟩ := Pool.step_env h
    exact hst.uncrashed
  | crash i => contradiction

theorem staged_reachable {now : Int} (h : Machine.Reachable serveTokens (.init now) s) :
    Staged s := by
  refine h.invariant Staged ⟨?_, ?_⟩ fun m a t _ hm hs => staged_step hm hs
  · intro i r hr
    simp [TokenServer.init, Pool.init] at hr
  · intro i r hr
    simp [TokenServer.init, Pool.init] at hr

theorem moved (hst : Staged s) (h : serveTokens s a = some s') : Moved s a s' := by
  obtain ⟨hcrash, h⟩ := serve_step h
  cases a with
  | start i call =>
    obtain ⟨_, rfl⟩ := Pool.step_start h
    exact .quiet rfl rfl
  | answer i e =>
    obtain ⟨r, o, k, reply, st, hr, hn, hx, rfl⟩ := Pool.step_answer h
    obtain ⟨_, hscript⟩ := Running.next_eq_some.mp hn
    have hstage := hst.stage i r hr
    rcases TokenCall.stage_command hstage hscript with hread | ⟨hwrites, hqueue, hs⟩
    · obtain rfl := TokenOp.exec_read hread hx
      exact .read i e r o reply rfl hr hread hx rfl rfl
    · generalize hlabel : r.label = call at hwrites
      generalize hanswers : r.answers = answers at hwrites
      cases hwrites with
      | join userId now =>
        cases e <;> simp only [TokenOp.exec, Option.some.injEq, reduceCtorEq] at hx
        cases hx
        exact .join i r userId now rfl hr hlabel ⟨k, hn⟩ rfl rfl
      | clear served hne =>
        cases e <;> simp only [TokenOp.exec, Option.some.injEq, reduceCtorEq] at hx
        cases hx
        have hserving : Serving s i (served.map Prod.fst) := by
          refine ⟨r, signs served, hr, hlabel, ?_, hanswers⟩
          rw [hs]
          rfl
        rw [hlabel] at hstage
        refine .clear i _ rfl hserving ⟨_, Function.update_self .., ?_, hqueue⟩ rfl rfl
        rw [TokenCall.stage_clear hstage hs]
        rfl
      | expire id =>
        cases e <;> simp only [TokenOp.exec, Option.some.injEq, reduceCtorEq] at hx
        cases hx
        exact .expire i r id rfl hr hlabel ⟨k, hn⟩ rfl rfl
  | issue i =>
    obtain ⟨r, o, k, _, _, _, rfl⟩ := Pool.step_issue h
    exact .quiet rfl rfl
  | flush i e =>
    obtain ⟨r, o, queue, reply, st, hr, hq, hx, rfl⟩ := Pool.step_flush h
    have hstage := hst.stage i r hr
    rw [hq] at hstage
    obtain ⟨batch, member, token, rest, hlabel, hanswers, hscript, hmem, rfl, _⟩ :=
      TokenCall.stage_queue hstage
    cases e <;> simp only [TokenCall.store, TokenOp.exec, Option.some.injEq, reduceCtorEq] at hx
    · cases hx
      exact .store i batch member token rfl ⟨r, rest, hr, hlabel, hscript, hanswers⟩ hmem
        ⟨r, queue, hr, hq⟩ rfl
        (by rw [hlabel])
    · cases hx
      exact .lose i member token rfl rfl (by rw [hlabel])
  | env e =>
    obtain ⟨st, hst', rfl⟩ := Pool.step_env h
    cases e with
    | tick t =>
      simp only [Option.ite_none_right_eq_some, Option.some.injEq] at hst'
      obtain ⟨ht, rfl⟩ := hst'
      exact .tick t rfl ht rfl
    | quiet => contradiction
    | failed => contradiction
    | read t => contradiction
  | crash i => contradiction

/-- What a step does to the waiting queue. -/
inductive WaitingMoved (s : TokenServer) (a : TokenAct) (s' : TokenServer) : Prop where
  | same (h : s'.waiting = s.waiting)
  | join (i : CallId) (r : TokenRun) (userId now : Int) (ha : a = .answer i .quiet)
      (hr : s.calls i = some r) (hlabel : r.label = .enqueue userId)
      (hn : ∃ k, r.next = some ⟨.redis (.zaddNX WAITING_TOKENS_KEY now (toString userId)), k⟩)
      (h : s'.waiting = s.waiting.addNX ⟨now, toString userId⟩)
  | clear (i : CallId) (batch : List String) (ha : a = .answer i .quiet)
      (hserving : Serving s i batch)
      (hdone : ∃ r, s'.calls i = some r ∧ r.script = .done .none ∧ r.queue = [])
      (h : s'.waiting = s.waiting.remove batch)

theorem waiting_moved (hst : Staged s) (h : serveTokens s a = some s') : WaitingMoved s a s' := by
  cases moved hst h with
  | quiet hstate _ => exact .same (by rw [TokenServer.waiting, hstate]; rfl)
  | tick t _ _ hs =>
    subst hs
    exact .same rfl
  | read i e r o reply _ _ _ _ hstate _ => exact .same (by rw [TokenServer.waiting, hstate]; rfl)
  | join i r userId now ha hr hlabel hn hstate _ =>
    refine .join i r userId now ha hr hlabel hn ?_
    rw [TokenServer.waiting, hstate, Redis.Store.zsets_exec_zaddNX, if_pos rfl]
    rfl
  | clear i batch ha hserving hdone hstate _ =>
    refine .clear i batch ha hserving hdone ?_
    rw [TokenServer.waiting, hstate, Redis.Store.zsets_exec_zrem, if_pos rfl]
    rfl
  | expire i r id _ _ _ _ hstate _ =>
    refine .same ?_
    rw [TokenServer.waiting, hstate, Redis.Store.zsets_exec_other (by simp) (by simp)]
    rfl
  | store i batch member token _ _ _ _ hstate _ =>
    refine .same ?_
    rw [TokenServer.waiting, hstate, Redis.Store.zsets_exec_other (by simp) (by simp)]
    rfl
  | lose i member token _ hstate _ => exact .same (by rw [TokenServer.waiting, hstate]; rfl)

/-- What a step does to the string keys. -/
inductive StringsMoved (s : TokenServer) (a : TokenAct) (s' : TokenServer) : Prop where
  | same (h : s'.state.strings = s.state.strings)
  | tick (t : Int) (ha : a = .env (.tick t)) (ht : s.state.now ≤ t)
      (h : s'.state.strings = (s.state.tick t).strings)
  | expire (i : CallId) (r : TokenRun) (id : Int) (ha : a = .answer i .quiet)
      (hr : s.calls i = some r) (hlabel : r.label = .expire id)
      (hn : ∃ k, r.next = some ⟨.redis (.del (TokenCall.key id)), k⟩)
      (h : ∀ key, s'.state.strings key =
        if key = TokenCall.key id then none else s.state.strings key)
      (hlog : s'.log = s.log ++ [⟨.expire id, ⟨.redis (.del (TokenCall.key id)),
        (s.state.exec (.del (TokenCall.key id))).1⟩, s.state⟩])
  | store (i : CallId) (batch : List String) (member : String) (token : Jwt)
      (ha : a = .flush i .quiet) (hserving : Serving s i batch) (hmem : member ∈ batch)
      (hq : ∃ r queue, s.calls i = some r ∧ r.queue = TokenCall.store member token :: queue)
      (h : ∀ key, s'.state.strings key =
        if key = ActiveTokenQueueRepository.key member ∧ s.active member = none
        then some ⟨token, s.state.now + 1000 * EXPIRE_SEC⟩ else s.state.strings key)
      (hlog : s'.log = s.log ++ [⟨.activate, ⟨TokenCall.store member token, some (s.state.exec
        (.setNX (ActiveTokenQueueRepository.key member) token EXPIRE_SEC)).1⟩, s.state⟩])

theorem strings_moved (hst : Staged s) (h : serveTokens s a = some s') : StringsMoved s a s' := by
  cases moved hst h with
  | quiet hstate _ => exact .same (by rw [hstate])
  | tick t ha ht hs =>
    subst hs
    exact .tick t ha ht rfl
  | read i e r o reply _ _ _ _ hstate _ => exact .same (by rw [hstate])
  | join i r userId now _ _ _ _ hstate _ =>
    exact .same (by rw [hstate, Redis.Store.strings_exec_other (by simp) (by simp)])
  | clear i batch _ _ _ hstate _ =>
    exact .same (by rw [hstate, Redis.Store.strings_exec_other (by simp) (by simp)])
  | expire i r id ha hr hlabel hn hstate hlog =>
    refine .expire i r id ha hr hlabel hn (fun key => ?_) hlog
    rw [hstate, Redis.Store.strings_exec_del]
  | store i batch member token ha hserving hmem hq hstate hlog =>
    refine .store i batch member token ha hserving hmem hq (fun key => ?_) hlog
    rw [hstate, Redis.Store.strings_exec_setNX (by decide)]
    rfl
  | lose i member token _ hstate _ => exact .same (by rw [hstate])

/-- A run goes on serving its batch until it removes it. -/
theorem serving_step {i : CallId} {batch : List String} (hst : Staged s)
    (h : serveTokens s a = some s') (hserving : Serving s i batch) :
    Serving s' i batch ∨ (a = .answer i .quiet ∧
      s'.state = (s.state.exec (.zrem WAITING_TOKENS_KEY batch)).2 ∧
      (∃ r, s'.calls i = some r ∧ r.script = .done .none ∧ r.queue = []) ∧
      s'.log = s.log ++ [⟨.activate, ⟨.redis (.zrem WAITING_TOKENS_KEY batch),
        (s.state.exec (.zrem WAITING_TOKENS_KEY batch)).1⟩, s.state⟩]) := by
  obtain ⟨hcrash, h⟩ := serve_step h
  obtain ⟨r, rest, hr, hlabel, hf, hanswers⟩ := hserving
  by_cases howner : a.owner = some i
  · have hstage := hst.stage i r hr
    rw [hlabel, hanswers] at hstage
    obtain ⟨served, todo, hbatch, hrest, hscript⟩ := TokenCall.stage_serving hstage hf
    cases a with
    | start j call =>
      obtain ⟨hnone, _⟩ := Pool.step_start h
      obtain rfl := Option.some.inj howner
      rw [hr] at hnone
      contradiction
    | answer j e =>
      obtain ⟨q, o, k, reply, st, hq, hn, hx, rfl⟩ := Pool.step_answer h
      obtain rfl := Option.some.inj howner
      obtain rfl := Option.some.inj (hr.symm.trans hq)
      obtain ⟨_, hnext⟩ := Running.next_eq_some.mp hn
      rcases hscript with ⟨hscript, _⟩ | ⟨sent, member, token, _, hscript, _⟩
      · rw [hscript] at hnext
        cases todo with
        | nil =>
          simp only [TokenCall.admitting, TokenCall.clear, reduceCtorEq, false_or] at hnext
          obtain ⟨hcall, hqueue⟩ := hnext
          cases hcall
          cases e <;> simp only [TokenOp.exec, Option.some.injEq, reduceCtorEq] at hx
          cases hx
          refine Or.inr ⟨rfl, rfl, ⟨_, Function.update_self .., rfl, hqueue⟩, ?_⟩
          rw [hlabel]
          rfl
        | cons member todo =>
          simp only [TokenCall.admitting, reduceCtorEq, false_and, or_false] at hnext
          cases hnext
          refine Or.inl ⟨_, rest ++ [⟨_, reply⟩], Function.update_self .., hlabel, ?_, ?_⟩
          · cases reply with
            | none => exact TokenCall.admitting_unfinished _ _
            | some token => rfl
          · simp [Running.answered, hanswers]
      · simp [hscript] at hnext
    | issue j =>
      obtain ⟨q, o, k, hq, _, hsend, rfl⟩ := Pool.step_issue h
      obtain rfl := Option.some.inj howner
      obtain rfl := Option.some.inj (hr.symm.trans hq)
      refine Or.inl ⟨_, rest, Function.update_self .., hlabel, ?_, hanswers⟩
      rcases hscript with ⟨hscript, _⟩ | ⟨sent, member, token, _, hscript, _⟩
      · rw [hscript] at hsend
        cases todo <;> cases hsend
      · rw [hscript] at hsend
        cases hsend
        exact TokenCall.admitting_unfinished _ _
    | flush j e =>
      obtain ⟨q, o, queue, reply, st, hq, _, _, rfl⟩ := Pool.step_flush h
      obtain rfl := Option.some.inj howner
      obtain rfl := Option.some.inj (hr.symm.trans hq)
      exact Or.inl ⟨_, rest, Function.update_self .., hlabel, hf, hanswers⟩
    | env e => contradiction
    | crash j => contradiction
  · exact Or.inl ⟨r, rest, (Pool.calls_step h howner).trans hr, hlabel, hf, hanswers⟩

/-- A run that serves a batch after a step served it before or has just read it. -/
theorem serving_before {i : CallId} {batch : List String} (h : serveTokens s a = some s')
    (hserving : Serving s' i batch) : Serving s i batch ∨ (a = .answer i .quiet ∧
      (∀ b, ¬ Serving s i b) ∧ s.AtFront i ∧ batch = s.front) := by
  obtain ⟨hcrash, h⟩ := serve_step h
  obtain ⟨r', rest, hr', hlabel', hf', hanswers'⟩ := hserving
  by_cases howner : a.owner = some i
  · cases a with
    | start j call =>
      obtain ⟨_, rfl⟩ := Pool.step_start h
      obtain rfl := Option.some.inj howner
      rcases Pool.calls_update hr' with ⟨_, rfl⟩ | ⟨hne, _⟩
      · contradiction
      · exact absurd rfl hne
    | answer j e =>
      obtain ⟨q, o, k, reply, st, hq, hn, hx, rfl⟩ := Pool.step_answer h
      obtain rfl := Option.some.inj howner
      rcases Pool.calls_update hr' with ⟨_, rfl⟩ | ⟨hne, _⟩
      · have hscript := (Running.next_eq_some.mp hn).2
        have hf : q.script.finished = false := by
          rcases hscript with hs | ⟨hs, _⟩ <;> rw [hs] <;> rfl
        simp only [Running.answered] at hanswers' hlabel'
        cases hans : q.answers with
        | cons b bs =>
          rw [hans, List.cons_append, List.cons.injEq] at hanswers'
          exact Or.inl ⟨q, bs, hq, hlabel', hf, by rw [hans, hanswers'.1]⟩
        | nil =>
          rw [hans, List.nil_append, List.cons.injEq] at hanswers'
          obtain ⟨ho, _⟩ := hanswers'
          cases ho
          cases e <;> simp only [TokenOp.exec, Option.some.injEq, reduceCtorEq] at hx
          refine Or.inr ⟨rfl, ?_, ⟨q, k, hq, hn⟩, (congrArg Prod.fst hx).symm⟩
          rintro b ⟨q', rest', hq', _, _, hans'⟩
          obtain rfl := Option.some.inj (hq.symm.trans hq')
          rw [hans] at hans'
          contradiction
      · exact absurd rfl hne
    | issue j =>
      obtain ⟨q, o, k, hq, _, hs, rfl⟩ := Pool.step_issue h
      obtain rfl := Option.some.inj howner
      rcases Pool.calls_update hr' with ⟨_, rfl⟩ | ⟨hne, _⟩
      · exact Or.inl ⟨q, rest, hq, hlabel', by rw [hs]; rfl, hanswers'⟩
      · exact absurd rfl hne
    | flush j e =>
      obtain ⟨q, o, queue, reply, st, hq, _, _, rfl⟩ := Pool.step_flush h
      obtain rfl := Option.some.inj howner
      rcases Pool.calls_update hr' with ⟨_, rfl⟩ | ⟨hne, _⟩
      · exact Or.inl ⟨q, rest, hq, hlabel', hf', hanswers'⟩
      · exact absurd rfl hne
    | env e => contradiction
    | crash j => contradiction
  · rw [Pool.calls_step h howner] at hr'
    exact Or.inl ⟨r', rest, hr', hlabel', hf', hanswers'⟩

/-- Who is about to read the first users is an activation that has read nothing. -/
theorem TokenServer.AtFront.reading (hst : Staged s) (h : s.AtFront i) :
    ∃ r, s.calls i = some r ∧ r.label = .activate ∧ r.ended = false ∧ r.answers = [] ∧
      r.queue = [] ∧ r.next = some ⟨.redis (.zrange WAITING_TOKENS_KEY 0
        (TokenQueueService.QUEUE_THROUGHPUT - 1)), fun batch =>
          if batch.length = 0 then .done .none else TokenCall.admitting batch batch⟩ := by
  obtain ⟨r, k, hr, hn⟩ := h
  obtain ⟨hc, hscript⟩ := Running.next_eq_some.mp hn
  obtain ⟨hlabel, hidle, hanswers⟩ :=
    TokenCall.stage_reading (hst.stage i r hr) (hscript.imp_right And.left)
  rw [hidle] at hscript
  simp only [TokenCall.activating, reduceCtorEq, false_or] at hscript
  obtain ⟨hcall, hqueue⟩ := hscript
  cases hcall
  refine ⟨r, hr, hlabel, ?_, hanswers, hqueue, hn⟩
  simp [Running.ended, hc, hidle, TokenCall.activating, Interleaving.Script.finished]

/-- What the run reads is the front of the queue. -/
theorem front_read (hst : Staged s) (hfront : s.AtFront i)
    (h : serveTokens s (.answer i .quiet) = some s') :
    s'.state = s.state ∧ s'.log = s.log ++ [⟨.activate, oldest s.front, s.state⟩] ∧
      ∃ r, s'.calls i = some r ∧ r.label = .activate ∧ r.answers = [oldest s.front] ∧
        r.queue = [] ∧ r.script = if s.front.length = 0 then .done .none
          else TokenCall.admitting s.front s.front := by
  obtain ⟨r, hr, hlabel, _, hanswers, hqueue, hn⟩ := hfront.reading hst
  obtain ⟨q, o, k, reply, st, hq, hn', hx, rfl⟩ := Pool.step_answer (serve_step h).2
  obtain rfl := Option.some.inj (hr.symm.trans hq)
  obtain ⟨rfl, hk⟩ := Sigma.mk.inj (Option.some.inj (hn.symm.trans hn'))
  obtain rfl := eq_of_heq hk
  simp only [TokenOp.exec, Option.some.injEq] at hx
  obtain rfl : s.front = reply := congrArg Prod.fst hx
  obtain rfl : s.state = st := congrArg Prod.snd hx
  refine ⟨rfl, ?_, _, Function.update_self .., hlabel, ?_, hqueue, rfl⟩
  · rw [hlabel]
    rfl
  · simp [Running.answered, hanswers, oldest]

end Steps

theorem serve_run {s s' : TokenServer} {acts : List TokenAct}
    (h : Machine.run (Pool.step TokenCall.handle) s acts = some s')
    (hc : ∀ a ∈ acts, a.isCrash = false) : Machine.run serveTokens s acts = some s' := by
  induction acts generalizing s with
  | nil => exact h
  | cons a acts ih =>
    obtain ⟨m, hm, hrest⟩ := Machine.run_cons.mp h
    have hstep : serveTokens s a = some m := by
      rw [serveTokens, if_neg (by simp [hc a List.mem_cons_self])]
      exact hm
    exact Machine.run_cons.mpr ⟨m, hstep, ih hrest fun b hb => hc b (List.mem_cons_of_mem a hb)⟩

theorem reachable_pool {s : TokenServer} {now : Int}
    (h : Machine.Reachable serveTokens (.init now) s) :
    Machine.Reachable (Pool.step TokenCall.handle) (Pool.init (.init now)) s := by
  obtain ⟨acts, hacts⟩ := h
  exact ⟨acts, Machine.run_mono (fun _ _ _ hs => (serve_step hs).2) hacts⟩

/-- The run has read the batch, and may be done with it. -/
def HasRead (s : TokenServer) (i : CallId) (batch : List String) : Prop :=
  ∃ r rest, s.calls i = some r ∧ r.answers = oldest batch :: rest

theorem Serving.hasRead {s : TokenServer} {i : CallId} {batch : List String}
    (h : Serving s i batch) : HasRead s i batch := by
  obtain ⟨r, rest, hr, _, _, hanswers⟩ := h
  exact ⟨r, rest, hr, hanswers⟩

/-- A batch is what the queue began with when it was read. -/
theorem HasRead.front {s : TokenServer} {now : Int} {i : CallId} {batch : List String}
    (h : Machine.Reachable serveTokens (.init now) s) (hread : HasRead s i batch) :
    ∃ x ∈ s.log, batch = (x.before.zsets WAITING_TOKENS_KEY).range 0
      (TokenQueueService.QUEUE_THROUGHPUT - 1) := by
  obtain ⟨r, rest, hr, hanswers⟩ := hread
  have hpool := reachable_pool h
  obtain ⟨x, hx, _, hxa⟩ := Pool.answers_logged.reachable hpool i r hr (oldest batch) (by
    rw [hanswers]
    exact List.mem_cons_self)
  obtain ⟨e, st', hexec⟩ := Pool.logged_exec hpool x hx
  refine ⟨x, hx, ?_⟩
  rw [hxa] at hexec
  cases e <;> simp only [oldest, TokenOp.exec, Option.some.injEq, reduceCtorEq] at hexec
  exact (congrArg Prod.fst hexec).symm

theorem batch_read {s : TokenServer} {now : Int} {i : CallId} {batch : List String}
    (h : Machine.Reachable serveTokens (.init now) s) (hserving : Serving s i batch) :
    ∃ x ∈ s.log, batch = (x.before.zsets WAITING_TOKENS_KEY).range 0
      (TokenQueueService.QUEUE_THROUGHPUT - 1) :=
  HasRead.front h hserving.hasRead

theorem batch_nodup {s : TokenServer} {now : Int} {i : CallId} {batch : List String}
    (h : Machine.Reachable serveTokens (.init now) s) (hserving : Serving s i batch) :
    batch.Nodup := by
  obtain ⟨x, _, hbatch⟩ := batch_read h hserving
  rw [hbatch]
  exact Redis.SortedSet.range_nodup _ _ _

/-! Undisturbed calls, step by step. -/

def enqueued (i : CallId) (userId now : Int) : List TokenAct :=
  [.start i (.enqueue userId), .answer i .quiet, .answer i .quiet, .answer i (.read now),
    .answer i .quiet, .answer i .quiet]

/-- A run that finds a single user. -/
def activated (i : CallId) (now : Int) : List TokenAct :=
  [.start i .activate, .answer i .quiet, .answer i (.read now), .issue i, .flush i .quiet,
    .answer i .quiet]

def expired (i : CallId) (id : Int) : List TokenAct := [.start i (.expire id), .answer i .quiet]

/-- Calls that are never started are not there. -/
theorem unused_calls {s : TokenServer} {st : Redis.Store Jwt} {acts : List TokenAct} {n : Nat}
    (h : Machine.run serveTokens (Pool.init st) acts = some s)
    (hn : (acts.all fun a => a.owner.all (· < n)) = true) : ∀ i, n ≤ i → s.calls i = none :=
  Pool.unused_calls (Machine.run_mono (fun _ _ _ hs => (serve_step hs).2) h) hn

end HighVolumeBooking
