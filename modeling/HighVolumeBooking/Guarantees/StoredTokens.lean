import HighVolumeBooking.Guarantees.TokenServer

namespace HighVolumeBooking

open Interleaving (CallId Pool)
open TokenCall (store)

namespace ActiveTokenQueueRepository

theorem key_inj {k k' : String} (h : key k = key k') : k = k' := by
  simpa [key, String.append_right_inj] using h

end ActiveTokenQueueRepository

theorem TokenCall.key_inj {u u' : Int} (h : TokenCall.key u = TokenCall.key u') : u = u' :=
  toString_injective (ActiveTokenQueueRepository.key_inj h)

section Members

variable {s : TokenServer} {now : Int}

/-- What is logged was found in a state the run came through. -/
theorem before_reachable (h : Machine.Reachable serveTokens (.init now) s) :
    ∀ x ∈ s.log, ∃ m, Machine.Reachable serveTokens (.init now) m ∧ m.state = x.before := by
  refine h.invariant (fun s => ∀ x ∈ s.log,
    ∃ m, Machine.Reachable serveTokens (.init now) m ∧ m.state = x.before) ?_ ?_
  · intro x hx
    simp [TokenServer.init, Pool.init] at hx
  · intro m a t hm ih hs x hx
    rcases Pool.log_cases (serve_step hs).2 with ⟨hlog, _⟩ | ⟨i, r, o, e, reply, _, _, hlog, _⟩
    · exact ih x (hlog ▸ hx)
    · rw [hlog] at hx
      rcases List.mem_append.mp hx with hx | hx
      · exact ih x hx
      · rw [List.mem_singleton.mp hx]
        exact ⟨m, hm, rfl⟩

/-- Who waits is a user. -/
theorem waiting_user (h : Machine.Reachable serveTokens (.init now) s) :
    ∀ member ∈ s.waiting, ∃ userId : Int, member = toString userId := by
  refine h.invariant (fun s => ∀ member ∈ s.waiting, ∃ userId : Int, member = toString userId) ?_ ?_
  · intro member hmem
    exact absurd hmem Redis.SortedSet.not_mem_empty
  · intro m a t hm ih hs member hmem
    cases waiting_moved (staged_reachable hm) hs with
    | same h => exact ih member (h ▸ hmem)
    | join i r userId now _ _ _ _ h =>
      rw [h, Redis.SortedSet.mem_addNX] at hmem
      rcases hmem with hmem | rfl
      · exact ih member hmem
      · exact ⟨userId, rfl⟩
    | clear i batch _ _ _ h =>
      rw [h, Redis.SortedSet.mem_remove] at hmem
      exact ih member hmem.1

theorem batch_user {i : CallId} {batch : List String}
    (h : Machine.Reachable serveTokens (.init now) s) (hserving : Serving s i batch) :
    ∀ member ∈ batch, ∃ userId : Int, member = toString userId := by
  intro member hmem
  obtain ⟨x, hx, rfl⟩ := batch_read h hserving
  obtain ⟨m, hm, hstate⟩ := before_reachable h x hx
  rw [← hstate] at hmem
  exact waiting_user hm member (Redis.SortedSet.mem_of_mem_range hmem)

/-- A token that is about to be written was signed for its user. -/
theorem pending_signed {i : CallId} {r : TokenRun} {userId : Int} {token : Jwt}
    {queue : List TokenOp} (h : Machine.Reachable serveTokens (.init now) s)
    (hr : s.calls i = some r) (hq : r.queue = store (toString userId) token :: queue) :
    ∃ t, token = Jwt.sign (some userId) t ∧
      ∃ x ∈ s.log, x.answer = ⟨.sign (some userId), some token⟩ := by
  have hstage := (staged_reachable h).stage i r hr
  rw [hq] at hstage
  obtain ⟨batch, member, token', rest, _, hanswers, _, _, hstore, hsign⟩ :=
    TokenCall.stage_queue hstage
  simp only [store, TokenOp.attempt.injEq, Redis.Command.setNX.injEq] at hstore
  obtain ⟨hkey, rfl, _⟩ := hstore
  obtain rfl := ActiveTokenQueueRepository.key_inj hkey
  rw [parseInt_toString] at hsign
  have hpool := reachable_pool h
  obtain ⟨x, hx, _, hxa⟩ := Pool.answers_logged.reachable hpool i r hr _
    (hanswers ▸ List.mem_cons_of_mem _ hsign)
  obtain ⟨e, st', hexec⟩ := Pool.logged_exec hpool x hx
  rw [hxa] at hexec
  cases e <;> simp only [TokenOp.exec, Option.some.injEq, Prod.mk.injEq, reduceCtorEq,
    false_and] at hexec
  rename_i t
  exact ⟨t, hexec.1.symm, x, hx, hxa⟩

/-- The active key of a user holds a token that was signed for him. -/
theorem stored_signed (h : Machine.Reachable serveTokens (.init now) s) :
    ∀ key v, s.state.strings key = some v →
      ∃ userId t, key = TokenCall.key userId ∧ v.value = Jwt.sign (some userId) t := by
  refine h.invariant (fun s => ∀ key v, s.state.strings key = some v →
    ∃ userId t, key = TokenCall.key userId ∧ v.value = Jwt.sign (some userId) t) ?_ ?_
  · intro key v hv
    simp [TokenServer.init, Pool.init, Redis.Store.init] at hv
  · intro m a t hm ih hs key v hv
    cases strings_moved (staged_reachable hm) hs with
    | same h => exact ih key v (h ▸ hv)
    | tick u _ _ h =>
      rw [h] at hv
      exact ih key v (Option.filter_eq_some_iff.mp hv).1
    | expire i r id _ _ _ _ h =>
      rw [h] at hv
      split at hv
      · contradiction
      · exact ih key v hv
    | store i batch member token _ hserving hmem hq h =>
      rw [h] at hv
      split at hv
      · rename_i hk
        obtain rfl := Option.some.inj hv
        obtain ⟨userId, rfl⟩ := batch_user hm hserving member hmem
        obtain ⟨r, queue, hr, hq⟩ := hq
        obtain ⟨t, htoken, _⟩ := pending_signed hm hr hq
        exact ⟨userId, t, hk.1, htoken⟩
      · exact ih key v hv

/-- A token is stored under one key only. -/
theorem stored_once (h : Machine.Reachable serveTokens (.init now) s) {key key' : String}
    {v v' : Redis.Volatile Jwt} (hv : s.state.strings key = some v)
    (hv' : s.state.strings key' = some v') (heq : v.value = v'.value) : key = key' := by
  obtain ⟨userId, t, rfl, hsign⟩ := stored_signed h key v hv
  obtain ⟨userId', t', rfl, hsign'⟩ := stored_signed h key' v' hv'
  have huser := congrArg Jwt.userId (hsign.symm.trans (heq.trans hsign'))
  obtain rfl := Option.some.inj huser
  rfl

end Members

/-- Who reads a clock reads the time of Redis. -/
def OneClock (s : TokenServer) (a : TokenAct) : Prop :=
  ∀ i t, a = .answer i (.read t) → t = s.state.now

/-- The log keeps what was read at which instant. -/
structure Clocked (s : TokenServer) : Prop where
  past : ∀ x ∈ s.log, x.before.now ≤ s.state.now
  read : ∀ x ∈ s.log, ∀ t, x.answer = ⟨.now, t⟩ → t = x.before.now
  signed : ∀ x ∈ s.log, ∀ userId token, x.answer = ⟨.sign userId, some token⟩ →
    token = Jwt.sign userId x.before.now

def oneClock? (s : TokenServer) : TokenAct → Bool
  | .answer _ (.read t) => t == s.state.now
  | _ => true

theorem oneClock_of_check (s : TokenServer) (a : TokenAct) (_ : True)
    (h : oneClock? s a = true) : OneClock s a := by
  rintro i t rfl
  simpa [oneClock?] using h

section Clock

variable {s s' : TokenServer} {a : TokenAct} {now : Int}

theorem now_step (hst : Staged s) (h : serveTokens s a = some s') : s.state.now ≤ s'.state.now := by
  cases moved hst h with
  | quiet hstate _ => rw [hstate]
  | tick t _ ht hs =>
    subst hs
    exact ht
  | read i e r o reply _ _ _ _ hstate _ => rw [hstate]
  | join i r userId now _ _ _ _ hstate _ => rw [hstate, Redis.Store.now_exec]
  | clear i batch _ _ _ hstate _ => rw [hstate, Redis.Store.now_exec]
  | expire i r id _ _ _ _ hstate _ => rw [hstate, Redis.Store.now_exec]
  | store i batch member token _ _ _ _ hstate _ => rw [hstate, Redis.Store.now_exec]
  | lose i member token _ hstate _ => rw [hstate]

theorem exec_now {o : TokenOp} {st st' : Redis.Store Jwt} {e : TokenEvent} {reply : o.Reply}
    (hx : TokenOp.exec st o e = some (reply, st')) : st'.now = st.now := by
  cases o with
  | redis c =>
    cases e <;> simp only [TokenOp.exec, Option.some.injEq, reduceCtorEq] at hx
    obtain rfl : (st.exec c).2 = st' := congrArg Prod.snd hx
    exact Redis.Store.now_exec st c
  | attempt c =>
    cases e <;> simp only [TokenOp.exec, Option.some.injEq, Prod.mk.injEq, reduceCtorEq] at hx
    · rw [← hx.2, Redis.Store.now_exec]
    · rw [hx.2]
  | now =>
    cases e <;> simp only [TokenOp.exec, Option.some.injEq, Prod.mk.injEq, reduceCtorEq] at hx
    rw [hx.2]
  | sign userId =>
    cases e <;> simp only [TokenOp.exec, Option.some.injEq, Prod.mk.injEq, reduceCtorEq] at hx
    · rw [hx.2]
    · rw [hx.2]

/-- Between two ticks everybody reads the same time. -/
theorem oneClock_between {acts : List TokenAct} (henv : ∀ a ∈ acts, ∀ e, a ≠ .env e)
    (hread : ∀ a ∈ acts, ∀ i t, a = .answer i (.read t) → t = s.state.now) :
    Machine.Along serveTokens OneClock s acts := by
  induction acts generalizing s with
  | nil => trivial
  | cons a acts ih =>
    refine ⟨hread a List.mem_cons_self, ?_⟩
    intro m hm
    have hnow : m.state.now = s.state.now := by
      rcases Pool.log_cases (serve_step hm).2 with
        ⟨_, hsame | ⟨e, ha, _⟩⟩ | ⟨i, r, o, e, reply, _, hx, _⟩
      · rw [hsame]
      · exact absurd ha (henv a List.mem_cons_self e)
      · exact exec_now hx
    refine ih (fun b hb => henv b (List.mem_cons_of_mem a hb)) ?_
    intro b hb i t ht
    rw [hnow]
    exact hread b (List.mem_cons_of_mem a hb) i t ht

theorem clocked_step (hst : Staged s) (hc : Clocked s) (hclock : OneClock s a)
    (h : serveTokens s a = some s') : Clocked s' := by
  have hnow := now_step hst h
  rcases Pool.log_cases (serve_step h).2 with ⟨hlog, _⟩ | ⟨i, r, o, e, reply, hr, hx, hlog, hby⟩
  · refine { past := ?_, read := ?_, signed := ?_ }
    · rw [hlog]
      exact fun x hx => (hc.past x hx).trans hnow
    · rw [hlog]
      exact hc.read
    · rw [hlog]
      exact hc.signed
  · have hread : ∀ t, e = .read t → t = s.state.now := by
      rintro t rfl
      rcases hby with ⟨ha, _⟩ | ⟨_, queue, hq⟩
      · exact hclock i t ha
      · have hstage := hst.stage i r hr
        rw [hq] at hstage
        obtain ⟨_, member, token, _, _, _, _, _, rfl, _⟩ := TokenCall.stage_queue hstage
        contradiction
    refine { past := ?_, read := ?_, signed := ?_ }
    · intro x hmem
      rw [hlog] at hmem
      rcases List.mem_append.mp hmem with hmem | hmem
      · exact (hc.past x hmem).trans hnow
      · rw [List.mem_singleton.mp hmem]
        exact hnow
    · intro x hmem t ht
      rw [hlog] at hmem
      rcases List.mem_append.mp hmem with hmem | hmem
      · exact hc.read x hmem t ht
      · rw [List.mem_singleton.mp hmem] at ht ⊢
        cases ht
        cases e <;> simp only [TokenOp.exec, Option.some.injEq, Prod.mk.injEq, reduceCtorEq] at hx
        rename_i u
        exact hx.1.symm.trans (hread u rfl)
    · intro x hmem userId token ht
      rw [hlog] at hmem
      rcases List.mem_append.mp hmem with hmem | hmem
      · exact hc.signed x hmem userId token ht
      · rw [List.mem_singleton.mp hmem] at ht ⊢
        cases ht
        cases e <;> simp only [TokenOp.exec, Option.some.injEq, Prod.mk.injEq, reduceCtorEq,
          false_and] at hx
        rename_i u
        rw [← hread u rfl]
        exact hx.1.symm

theorem clocked_init : Clocked (.init now) := by
  refine { past := ?_, read := ?_, signed := ?_ } <;> intro x hx <;>
    simp [TokenServer.init, Pool.init] at hx

theorem clocked {acts : List TokenAct} (h : Machine.run serveTokens (.init now) acts = some s)
    (hclock : Machine.Along serveTokens OneClock (.init now) acts) : Clocked s := by
  refine Machine.along_induction Clocked clocked_init ?_ h hclock
  intro m a t hm hc ha hs
  exact clocked_step (staged_reachable hm) hc ha hs

end Clock

end HighVolumeBooking
