import HighVolumeBooking.Guarantees.Entries
import HighVolumeBooking.Guarantees.PaymentWindow
import HighVolumeBooking.Guarantees.Revocation
import HighVolumeBooking.Interface.Request
import HighVolumeBooking.Machine.Coupled

namespace HighVolumeBooking

open ReadCommitted
open Interleaving (CallId Executed Pool)
open WaitingTokenQueueRepository (WAITING_TOKENS_KEY)
open ActiveTokenQueueRepository (EXPIRE_SEC)

/-! Where an admission comes from, as the log of the token server has it. -/

/-- The log entry of a GET that found an active key of the user. -/
def finds (userId : Int) (x : Executed tokenServer TokenCall) : Bool :=
  match x.answer with
  | ⟨.redis (.get key), stored⟩ => key == TokenCall.key userId && stored.isSome
  | _ => false

/-- The user asked for a place in the queue, and got one. -/
structure Enters (userId : Int) (x : Executed tokenServer TokenCall) : Prop where
  label : x.label = .enqueue userId
  adds : adds (toString userId) x = true

/-- An activation gave the user an active key. -/
structure Admits (userId : Int) (x : Executed tokenServer TokenCall) : Prop where
  label : x.label = .activate
  creates : creates (toString userId) x = true

section Log

variable {s s' : TokenServer} {label : TokenCall} {userId : Int}

/-- A write that meets no key leaves the entry of a key that was created. -/
theorem created_entry {member : String} {token : Jwt} {log : List (Executed tokenServer TokenCall)}
    (hlog : log = s.log ++ [⟨.activate, ⟨TokenCall.store member token, some (s.state.exec
      (.setNX (ActiveTokenQueueRepository.key member) token EXPIRE_SEC)).1⟩, s.state⟩])
    (hfree : s.active member = none) :
    ∃ y, log = s.log ++ [y] ∧ y.label = .activate ∧ creates member y = true := by
  refine ⟨_, hlog, rfl, ?_⟩
  have hstored : (s.state.exec
      (.setNX (ActiveTokenQueueRepository.key member) token EXPIRE_SEC)).1 = true := by
    simp only [TokenServer.active] at hfree
    simp only [Redis.Store.exec, dif_pos (show 0 < EXPIRE_SEC by decide), hfree]
  simp only [creates, TokenCall.store, hstored, beq_self_eq_true, Bool.and_self]

/-- What a GET finds is an active key. -/
theorem active_of_finds {o : TokenOp} {e : TokenEvent} {reply : o.Reply} {st : Redis.Store Jwt}
    (hexec : TokenOp.exec s.state o e = some (reply, st))
    (h : finds userId ⟨label, ⟨o, reply⟩, s.state⟩ = true) :
    s.active (toString userId) ≠ none := by
  cases o with
  | redis c =>
    cases c with
    | get key =>
      simp only [finds, Bool.and_eq_true, beq_iff_eq] at h
      obtain ⟨rfl, hsome⟩ := h
      cases e <;> simp only [TokenOp.exec, Option.some.injEq, reduceCtorEq] at hexec
      obtain rfl := congrArg Prod.fst hexec
      intro hnone
      rw [TokenServer.active] at hnone
      simp only [Redis.Store.exec, TokenCall.key, hnone] at hsome
      contradiction
    | _ => contradiction
  | _ => contradiction

end Log

/-- The active key of the user was removed. -/
structure Removes (userId : Int) (x : Executed tokenServer TokenCall) : Prop where
  label : x.label = .expire userId
  answer : ∃ removed, x.answer = ⟨.redis (.del (TokenCall.key userId)), removed⟩

/-- Whoever is waiting, served or active came in by the queue. -/
structure Traced (s : TokenServer) : Prop where
  waiting : ∀ userId : Int, toString userId ∈ s.waiting → ∃ x ∈ s.log, Enters userId x
  served : ∀ i batch, Serving s i batch → ∀ userId : Int, toString userId ∈ batch →
    ∃ x ∈ s.log, Enters userId x
  active : ∀ userId : Int, s.active (toString userId) ≠ none →
    ∃ x y, [x, y].Sublist s.log ∧ Enters userId x ∧ Admits userId y
  found : ∀ z ∈ s.log, ∀ userId, finds userId z = true →
    ∃ x y, [x, y, z].Sublist s.log ∧ Enters userId x ∧ Admits userId y

namespace Traced

variable {s s' : TokenServer} {a : TokenAct} {now : Int}

theorem init (now : Int) : Traced (.init now) where
  waiting := fun _ hmem => absurd hmem Redis.SortedSet.not_mem_empty
  served := by
    rintro i batch ⟨r, rest, hr, _⟩
    simp [TokenServer.init, Pool.init] at hr
  active := by simp [TokenServer.active, TokenServer.init, Pool.init, Redis.Store.init]
  found := by simp [TokenServer.init, Pool.init]

theorem log_grows (h : serveTokens s a = some s') : s.log <+: s'.log := by
  rcases Pool.log_cases (serve_step h).2 with ⟨hlog, _⟩ | ⟨_, _, _, _, _, _, _, hlog, _⟩
  · exact hlog ▸ List.prefix_rfl
  · exact hlog ▸ List.prefix_append _ _

theorem waiting_step (hst : Staged s) (h : Traced s) (hs : serveTokens s a = some s')
    (userId : Int) (hmem : toString userId ∈ s'.waiting) : ∃ x ∈ s'.log, Enters userId x := by
  have hold : toString userId ∈ s.waiting → ∃ x ∈ s'.log, Enters userId x := by
    intro hmem
    obtain ⟨x, hx, hentry⟩ := h.waiting userId hmem
    exact ⟨x, (log_grows hs).subset hx, hentry⟩
  have hsame : s'.state = s.state → ∃ x ∈ s'.log, Enters userId x := by
    intro hstate
    rw [TokenServer.waiting, hstate] at hmem
    exact hold hmem
  cases moved hst hs with
  | quiet hstate _ => exact hsame hstate
  | tick t _ _ hs' =>
    subst hs'
    exact hold hmem
  | read i e r o reply _ _ _ _ hstate _ => exact hsame hstate
  | join i r user t _ _ _ _ hstate hlog =>
    rw [TokenServer.waiting, hstate, Redis.Store.zsets_exec_zaddNX, if_pos rfl,
      Redis.SortedSet.mem_addNX] at hmem
    by_cases hwait : toString userId ∈ s.waiting
    · exact hold hwait
    · obtain rfl : userId = user := by
        rcases hmem with hmem | hmem
        · exact absurd hmem hwait
        · exact toString_injective hmem
      refine ⟨_, hlog ▸ List.mem_append_right _ (List.mem_singleton_self _), rfl, ?_⟩
      have hnew : toString userId ∉ s.state.zsets WAITING_TOKENS_KEY := hwait
      have hadded : (s.state.exec
          (.zaddNX WAITING_TOKENS_KEY t (toString userId))).1 = (1 : Nat) := if_neg hnew
      simp only [adds, hadded, beq_self_eq_true, Bool.and_self]
  | clear i batch _ _ _ hstate _ =>
    rw [TokenServer.waiting, hstate, Redis.Store.zsets_exec_zrem, if_pos rfl,
      Redis.SortedSet.mem_remove] at hmem
    exact hold hmem.1
  | expire i r id _ _ _ _ hstate _ =>
    rw [TokenServer.waiting, hstate, Redis.Store.zsets_exec_other (by simp) (by simp)] at hmem
    exact hold hmem
  | store i batch member token _ _ _ _ hstate _ =>
    rw [TokenServer.waiting, hstate, Redis.Store.zsets_exec_other (by simp) (by simp)] at hmem
    exact hold hmem
  | lose i member token _ hstate _ => exact hsame hstate

theorem active_step (hst : Staged s) (h : Traced s) (hs : serveTokens s a = some s')
    (userId : Int) (hact : s'.active (toString userId) ≠ none) :
    ∃ x y, [x, y].Sublist s'.log ∧ Enters userId x ∧ Admits userId y := by
  have hold : s.active (toString userId) ≠ none →
      ∃ x y, [x, y].Sublist s'.log ∧ Enters userId x ∧ Admits userId y := by
    intro hact
    obtain ⟨x, y, hxy, henters, hadmits⟩ := h.active userId hact
    exact ⟨x, y, hxy.trans (log_grows hs).sublist, henters, hadmits⟩
  cases strings_moved hst hs with
  | same h => exact hold (by rwa [TokenServer.active, h] at hact)
  | tick t _ _ h =>
    refine hold fun hnone => hact ?_
    generalize toString userId = member at hnone ⊢
    simp only [TokenServer.active] at hnone
    simp [TokenServer.active, h, Redis.Store.tick, hnone]
  | expire i r id _ _ _ _ h =>
    rw [TokenServer.active, h] at hact
    split at hact
    · contradiction
    · exact hold hact
  | store i batch m token _ hserving hbatch _ hstrings hlog =>
    by_cases hbefore : s.active (toString userId) = none
    · rw [TokenServer.active, hstrings] at hact
      split at hact
      · rename_i hk
        obtain rfl := ActiveTokenQueueRepository.key_inj hk.1
        obtain ⟨x, hx, henters⟩ := h.served i batch hserving userId hbatch
        obtain ⟨y, hlog, hlabel, hcreates⟩ := created_entry hlog hbefore
        refine ⟨x, y, ?_, henters, ⟨hlabel, hcreates⟩⟩
        rw [hlog]
        exact (List.singleton_sublist.mpr hx).append (List.Sublist.refl _)
      · exact absurd hbefore hact
    · exact hold hbefore

theorem step (hst : Staged s) (h : Traced s) (hs : serveTokens s a = some s') : Traced s' where
  waiting := h.waiting_step hst hs
  served := by
    intro i batch hserving userId hmem
    have hgrows := log_grows hs
    rcases serving_before hs hserving with hold | ⟨_, _, _, rfl⟩
    · obtain ⟨x, hx, hentry⟩ := h.served i batch hold userId hmem
      exact ⟨x, hgrows.subset hx, hentry⟩
    · obtain ⟨x, hx, hentry⟩ := h.waiting userId (Redis.SortedSet.mem_of_mem_range hmem)
      exact ⟨x, hgrows.subset hx, hentry⟩
  active := h.active_step hst hs
  found := by
    intro z hz userId hfinds
    rcases Pool.log_cases (serve_step hs).2 with
      ⟨hlog, _⟩ | ⟨i, r, o, e, reply, _, hexec, hlog, _⟩
    · rw [hlog] at hz ⊢
      exact h.found z hz userId hfinds
    · rw [hlog] at hz ⊢
      rcases List.mem_append.mp hz with hz | hz
      · obtain ⟨x, y, hxyz, hpath⟩ := h.found z hz userId hfinds
        exact ⟨x, y, hxyz.trans (List.sublist_append_left _ _), hpath⟩
      · obtain rfl := List.mem_singleton.mp hz
        -- a key that is found now was created before
        obtain ⟨x, y, hxy, hpath⟩ := h.active userId (active_of_finds hexec hfinds)
        exact ⟨x, y, hxy.append (List.Sublist.refl [_]), hpath⟩

theorem reachable (h : Machine.Reachable serveTokens (.init now) s) : Traced s := by
  refine h.invariant Traced (init now) ?_
  intro m a t hm ih hs
  exact ih.step (staged_reachable hm) hs

end Traced

/-! The requests, between the guard and the use cases. -/

/-- The user whom the guard has let through with this call. -/
def TokenServer.payload? (s : TokenServer) (i : CallId) : Option Int :=
  match s.calls i with
  | some ⟨.guard request, .done (.allowed true), [], _, _⟩ =>
    match extractTokenFromHeader request with
    | some (.signed token) => token.userId
    | _ => none
  | _ => none

/-- A handler runs after the guard of its request, for the user of the token. -/
def TokenServer.admits (s : TokenServer) : Act Call → Bool
  | .start t call => call.payload?.all fun userId => s.payload? t == some userId
  | _ => true

/-- A token is expired for a payment that has committed. -/
def Server.vouches (s : Server) : TokenAct → Bool
  | .start _ (.expire userId) => s.log.any fun e => decide (userId ∈ expiredUsers (.ok e.result))
  | _ => true

abbrev Gateway := TokenServer × Server

def Gateway.step (zone : TimeZone) : Gateway → TokenAct ⊕ Act Call → Option Gateway :=
  Machine.coupled serveTokens (serve zone) Server.vouches TokenServer.admits

def Gateway.init (now : Int) (start : Database) : Gateway := (TokenServer.init now, Sys.init start)

/-- The guard was shown a signed token of the user, and found an active key of
his. It does not ask whether the key holds this token. -/
structure Passes (userId : Int) (z : Executed tokenServer TokenCall) : Prop where
  label : ∃ request token, z.label = .guard request ∧
    extractTokenFromHeader request = some (.signed token) ∧ token.userId = some userId
  finds : finds userId z = true

section Payload

variable {s s' : TokenServer} {a : TokenAct} {now : Int} {i : CallId} {userId : Int}

theorem TokenServer.payload_eq_some : s.payload? i = some userId ↔
    ∃ r request token, s.calls i = some r ∧ r.label = .guard request ∧
      r.script = .done (.allowed true) ∧ r.queue = [] ∧
      extractTokenFromHeader request = some (.signed token) ∧ token.userId = some userId := by
  constructor
  · intro h
    unfold TokenServer.payload? at h
    split at h
    · rename_i request answers crashed hr
      split at h
      · rename_i token hextract
        exact ⟨_, request, token, hr, rfl, rfl, rfl, hextract, h⟩
      · contradiction
    · contradiction
  · intro h
    obtain ⟨⟨label, script, queue, answers, crashed⟩, request, token, hr, hlabel, hdone, hqueue,
      hextract, huser⟩ := h
    simp only at hlabel hdone hqueue
    subst hlabel hdone hqueue
    simp only [TokenServer.payload?, hr, hextract, huser]

/-- Who was let through once stays so. -/
theorem TokenServer.payload_step (h : serveTokens s a = some s') (hp : s.payload? i = some userId) :
    s'.payload? i = some userId := by
  obtain ⟨hcrash, hstep⟩ := serve_step h
  rw [TokenServer.payload_eq_some] at hp ⊢
  obtain ⟨r, request, token, hr, hlabel, hdone, hqueue, hextract⟩ := hp
  have howner := Pool.ended_step hstep hcrash hr (by rw [hdone]; rfl) hqueue
  exact ⟨r, request, token, (Pool.calls_step hstep howner).trans hr, hlabel, hdone, hqueue, hextract⟩

/-- The lookup of a guard call that has let its request through. -/
theorem passes_of_payload (h : Machine.Reachable serveTokens (.init now) s)
    (hp : s.payload? i = some userId) : ∃ z ∈ s.log, Passes userId z := by
  obtain ⟨r, request, token, hr, hlabel, hdone, _, hextract, huser⟩ :=
    TokenServer.payload_eq_some.mp hp
  have hstage := (staged_reachable h).stage i r hr
  rw [hlabel, hdone] at hstage
  generalize hscript : (Interleaving.Script.done (TokenResult.allowed true) : Rest) = script at hstage
  generalize hqueue : r.queue = queue at hstage
  generalize hanswers : r.answers = answers at hstage
  cases hstage with
  | allowed _ token' t userId' stored hextract' hexp huser' =>
    obtain rfl : token = token' := by simpa [hextract] using hextract'
    obtain rfl : userId = userId' := by simpa [huser] using huser'
    obtain ⟨z, hz, hzlabel, hza⟩ := Pool.answers_logged.reachable (reachable_pool h) i r hr _
      (hanswers ▸ List.mem_cons_of_mem _ List.mem_cons_self)
    refine ⟨z, hz, ⟨request, token, hzlabel.trans hlabel, hextract, huser⟩, ?_⟩
    simp [finds, hza]
  | _ => contradiction

/-- What a step leaves of an active key: the key as it was, unless its time is
up or a call for its user removes it. -/
theorem key_kept {v : Redis.Volatile Jwt} (hst : Staged s) (h : serveTokens s a = some s')
    (hact : s.active (toString userId) = some v) :
    s'.active (toString userId) = some v ∨ v.expiresAt ≤ s'.state.now ∨
      ∃ x, s'.log = s.log ++ [x] ∧ Removes userId x ∧
        ∃ i r, s.calls i = some r ∧ r.label = .expire userId := by
  rw [TokenServer.active] at hact ⊢
  cases strings_moved hst h with
  | same hstrings => exact Or.inl (hstrings ▸ hact)
  | tick t ha ht hstrings =>
    subst ha
    obtain ⟨st, hst', rfl⟩ := Pool.step_env (serve_step h).2
    simp only [if_pos ht, Option.some.injEq] at hst'
    subst hst'
    by_cases htime : t < v.expiresAt
    · refine Or.inl (Eq.trans (Redis.Store.strings_tick ?_) hact)
      intro w hw
      obtain rfl := Option.some.inj (hact.symm.trans hw)
      exact htime
    · exact Or.inr (Or.inl (Int.not_lt.mp htime))
  | expire i r id _ hr hlabel _ hstrings hlog =>
    by_cases hid : TokenCall.key userId = TokenCall.key id
    · obtain rfl := TokenCall.key_inj hid
      exact Or.inr (Or.inr ⟨_, hlog, ⟨rfl, _, rfl⟩, i, r, hr, hlabel⟩)
    · exact Or.inl ((hstrings _).trans ((if_neg hid).trans hact))
  | store i batch member token _ _ _ _ hstrings =>
    refine Or.inl ((hstrings _).trans (Eq.trans (if_neg ?_) hact))
    rintro ⟨hkey, hfree⟩
    rw [TokenServer.active, ← hkey, hact] at hfree
    contradiction

end Payload

/-- Only payments expire tokens, and only their user's. -/
theorem paid_of_expired {zone : TimeZone} {start db : Database} {log : List LogEntry}
    (h : Serial (execute zone) start log db) :
    ∀ e ∈ log, ∀ userId ∈ expiredUsers (.ok e.result),
      ∃ dto, e.call = .pay dto ∧ dto.userId = userId := by
  refine h.invariant (fun (log : List LogEntry) _ => ∀ e ∈ log,
    ∀ userId ∈ expiredUsers (.ok e.result), ∃ dto, e.call = .pay dto ∧ dto.userId = userId)
    (by simp) ?_
  intro log e m m' _ hm he x hx userId hexpired
  rcases mem_snoc.mp hx with hx | rfl
  · exact hm x hx userId hexpired
  obtain ⟨call, choices, result⟩ := x
  cases call with
  | book dto =>
    obtain ⟨r, _, _, rfl, _⟩ := exec_book.mp he
    simp [expiredUsers] at hexpired
  | pay dto =>
    obtain ⟨r, _, _, rfl, _⟩ := exec_pay.mp he
    exact ⟨dto, rfl, (List.mem_singleton.mp hexpired).symm⟩
  | charge dto =>
    obtain ⟨r, _, _, rfl, _⟩ := exec_charge.mp he
    simp [expiredUsers] at hexpired

/-- What a call to expire a token rests on. -/
def TokenAct.Vouched (s : Server) : TokenAct → Prop
  | .start _ (.expire userId) => ∃ e ∈ s.log, userId ∈ expiredUsers (.ok e.result)
  | _ => True

theorem Server.log_grows {zone : TimeZone} {s s' : Server} {a : Act Call}
    (h : serve zone s a = some s') : s.log <+: s'.log := by
  have hrun : Machine.run (serve zone) s [a] = some s' := Machine.run_cons.mpr ⟨s', h, rfl⟩
  exact Sys.log_prefix hrun

namespace Gateway

variable {zone : TimeZone} {now : Int} {start : Database} {p q : Gateway}
  {acts : List (TokenAct ⊕ Act Call)} {a : TokenAct ⊕ Act Call} {userId : Int}

/-- Every call to expire a token comes from a committed payment. -/
theorem vouched (h : Machine.run (step zone) (init now start) acts = some p) {i : CallId}
    {r : TokenRun} (hr : p.1.calls i = some r) (hlabel : r.label = .expire userId) :
    ∃ e ∈ p.2.log, userId ∈ expiredUsers (.ok e.result) := by
  have hpool := Machine.run_mono (fun s a t hs => (serve_step (s := s) hs).2)
    (Machine.run_coupled h).1
  have hstart := Pool.started hpool hr
  rw [hlabel] at hstart
  refine Machine.vouched_left TokenAct.Vouched ?_ ?_ h (.start i (.expire userId)) hstart
  · intro s a ha
    cases a with
    | start j call =>
      cases call with
      | expire userId => simpa [Server.vouches, TokenAct.Vouched] using ha
      | _ => trivial
    | _ => trivial
  · intro s a t b hs hb
    cases b with
    | start j call =>
      cases call with
      | expire userId =>
        obtain ⟨e, he, hexpired⟩ := hb
        exact ⟨e, (Server.log_grows hs).subset he, hexpired⟩
      | _ => trivial
    | _ => trivial

/-- Who pays is the user whose key is removed. -/
theorem payer_of_expire (h : Machine.run (step zone) (init now start) acts = some p) {i : CallId}
    {r : TokenRun} (hr : p.1.calls i = some r) (hlabel : r.label = .expire userId) :
    ∃ e ∈ p.2.log, ∃ dto, e.call = .pay dto ∧ dto.userId = userId := by
  obtain ⟨e, he, hexpired⟩ := vouched h hr hlabel
  have hserial := serializable (execute_guarded zone) (Machine.run_coupled h).2
  exact ⟨e, he, paid_of_expired hserial e he userId hexpired⟩

theorem active_step {v : Redis.Volatile Jwt}
    (h : Machine.Reachable (step zone) (init now start) p) (hs : step zone p a = some q)
    (hact : p.1.active (toString userId) = some v) :
    q.1.active (toString userId) = some v ∨ v.expiresAt ≤ q.1.state.now ∨
      ∃ x, q.1.log = p.1.log ++ [x] ∧ Removes userId x ∧
        ∃ e ∈ p.2.log, ∃ dto, e.call = .pay dto ∧ dto.userId = userId := by
  obtain ⟨acts, hacts⟩ := h
  cases a with
  | inr b =>
    obtain ⟨_, _, hsame⟩ := Machine.coupled_inr.mp hs
    exact Or.inl (hsame ▸ hact)
  | inl b =>
    obtain ⟨_, hstep, _⟩ := Machine.coupled_inl.mp hs
    have hst := staged_reachable ⟨_, (Machine.run_coupled hacts).1⟩
    rcases key_kept hst hstep hact with hkept | htime | ⟨x, hlog, hremoves, i, r, hr, hlabel⟩
    · exact Or.inl hkept
    · exact Or.inr (Or.inl htime)
    · exact Or.inr (Or.inr ⟨x, hlog, hremoves, payer_of_expire hacts hr hlabel⟩)

/-- Time and the logs only move on. -/
theorem moves_on (hst : Staged p.1) (hs : step zone p a = some q) :
    p.1.state.now ≤ q.1.state.now ∧ p.1.log <+: q.1.log ∧ p.2.log <+: q.2.log := by
  cases a with
  | inl b =>
    obtain ⟨_, hstep, hsame⟩ := Machine.coupled_inl.mp hs
    exact ⟨now_step hst hstep, Traced.log_grows hstep, hsame ▸ List.prefix_rfl⟩
  | inr b =>
    obtain ⟨_, hstep, hsame⟩ := Machine.coupled_inr.mp hs
    rw [hsame]
    exact ⟨Int.le_refl _, List.prefix_rfl, Server.log_grows hstep⟩

/-- Every handler that was started had its request let through before. -/
theorem let_through (h : Machine.run (step zone) (init now start) acts = some p) {t : TxId}
    {call : Call} (hstart : .inr (.start t call) ∈ acts) (hpayload : call.payload? = some userId) :
    ∃ past m, past ++ [.inr (.start t call)] <+: acts ∧
      Machine.run (step zone) (init now start) past = some m ∧
      m.1.payload? t = some userId := by
  obtain ⟨past, rest, rfl⟩ := List.append_of_mem hstart
  obtain ⟨m, hm, hrest⟩ := Machine.run_append.mp h
  obtain ⟨n, hn, _⟩ := Machine.run_cons.mp hrest
  obtain ⟨hadmits, _, _⟩ := Machine.coupled_inr.mp hn
  refine ⟨past, m, ⟨rest, by simp⟩, hm, ?_⟩
  simpa [TokenServer.admits, hpayload] using hadmits

end Gateway

/-- Nobody gets past the queue. Whoever has a booking or a payment committed had
asked for a place in the queue, was then given an active key by an activation,
and was then let through by the guard, which saw a signed token of his and an
active key, all of it before the handler of the request began. -/
theorem nobody_jumps_the_queue {zone : TimeZone} {now : Int} {start : Database} {p : Gateway}
    {acts : List (TokenAct ⊕ Act Call)}
    (h : Machine.run (Gateway.step zone) (Gateway.init now start) acts = some p) :
    ∀ e ∈ p.2.log, ∀ handled userId, e.call = Handled.call userId handled →
      handled.queued = true → ∃ past t m x y z, past ++ [.inr (.start t e.call)] <+: acts ∧
        Machine.run (Gateway.step zone) (Gateway.init now start) past = some m ∧
        [x, y, z].Sublist m.1.log ∧ Enters userId x ∧ Admits userId y ∧ Passes userId z := by
  intro e he handled userId hcall hqueued
  obtain ⟨t, hstart⟩ := (Sys.started (Machine.run_coupled h).2).2 e he
  obtain ⟨b, hb, hright⟩ := List.mem_filterMap.mp hstart
  cases b with
  | inl b => contradiction
  | inr b =>
    obtain rfl := Option.some.inj hright
    have hpayload : e.call.payload? = some userId := by
      rw [hcall, Handled.payload_call, if_pos hqueued]
    obtain ⟨past, m, hpast, hm, hlet⟩ := Gateway.let_through h hb hpayload
    have hreach : Machine.Reachable serveTokens (.init now) m.1 := ⟨_, (Machine.run_coupled hm).1⟩
    obtain ⟨z, hz, hpasses⟩ := passes_of_payload hreach hlet
    obtain ⟨x, y, hxyz, henters, hadmits⟩ := (Traced.reachable hreach).found z hz userId
      hpasses.finds
    exact ⟨past, t, m, x, y, z, hpast, hm, hxyz, henters, hadmits, hpasses⟩

/-- User 1 queues up and is let in. -/
def letIn : List (TokenAct ⊕ Act Call) := (enqueued 0 1 0 ++ activated 1 1000).map .inl

/-- He shows his token and books. -/
def booksThen : List (TokenAct ⊕ Act Call) :=
  (guarded 2 (Jwt.sign (some 1) 1000) 1000).map .inl ++
    (undisturbed 2 (.book ⟨1, 1, 1⟩) (bookingAt 0 1 1)).map .inr

theorem nobody_jumps_the_queue_letIn :
    ∃ p, Machine.run (Gateway.step .utc) (Gateway.init 0 smallHall) (letIn ++ booksThen) = some p ∧
      p.2.log.map (·.call) = [.book ⟨1, 1, 1⟩] ∧
      ∀ e ∈ p.2.log, ∀ handled userId, e.call = Handled.call userId handled →
        handled.queued = true → ∃ past t m x y z,
          past ++ [.inr (.start t e.call)] <+: letIn ++ booksThen ∧
          Machine.run (Gateway.step .utc) (Gateway.init 0 smallHall) past = some m ∧
          [x, y, z].Sublist m.1.log ∧ Enters userId x ∧ Admits userId y ∧ Passes userId z := by
  have h : (Machine.run (Gateway.step .utc) (Gateway.init 0 smallHall) (letIn ++ booksThen)).map
      (fun p => p.2.log.map (·.call)) = some [.book ⟨1, 1, 1⟩] := by
    decide +kernel
  obtain ⟨p, hp, hlog⟩ := Option.map_eq_some_iff.mp h
  exact ⟨p, hp, hlog, nobody_jumps_the_queue hp⟩

/-- Who was let in keeps his place. Until its time is up his active key is the one
he was given, whatever else happens, unless a removal is carried out for a payment
of his that has committed. It may come late, and for a payment of an earlier visit. -/
theorem place_is_kept {zone : TimeZone} {now : Int} {start : Database} {p q : Gateway}
    {acts : List (TokenAct ⊕ Act Call)} {userId : Int} {v : Redis.Volatile Jwt}
    (h : Machine.Reachable (Gateway.step zone) (Gateway.init now start) p)
    (hact : p.1.active (toString userId) = some v)
    (hmore : Machine.run (Gateway.step zone) p acts = some q)
    (htime : q.1.state.now < v.expiresAt) :
    ∃ since, q.1.log = p.1.log ++ since ∧ (q.1.active (toString userId) = some v ∨
      ∃ x ∈ since, Removes userId x ∧
        ∃ e ∈ q.2.log, ∃ dto, e.call = .pay dto ∧ dto.userId = userId) := by
  obtain ⟨before, hbefore⟩ := h
  refine Machine.run_induction (fun _ (m : Gateway) => m.1.state.now < v.expiresAt →
    ∃ since, m.1.log = p.1.log ++ since ∧ (m.1.active (toString userId) = some v ∨
      ∃ x ∈ since, Removes userId x ∧
        ∃ e ∈ m.2.log, ∃ dto, e.call = .pay dto ∧ dto.userId = userId))
    (fun _ => ⟨[], (List.append_nil _).symm, Or.inl hact⟩) ?_ hmore htime
  intro later m a n hm ih hs htime
  have hrun : Machine.run (Gateway.step zone) (Gateway.init now start) (before ++ later) = some m :=
    Machine.run_append.mpr ⟨p, hbefore, hm⟩
  have hst := staged_reachable ⟨_, (Machine.run_coupled hrun).1⟩
  obtain ⟨hnow, ⟨more, hmore⟩, hlog⟩ := Gateway.moves_on hst hs
  obtain ⟨since, hsince, hm⟩ := ih (Int.lt_of_le_of_lt hnow htime)
  have hgrown : n.1.log = p.1.log ++ (since ++ more) := by
    rw [← hmore, hsince, List.append_assoc]
  refine ⟨since ++ more, hgrown, ?_⟩
  rcases hm with hkept | ⟨x, hx, hremoves, e, he, hpaid⟩
  · rcases Gateway.active_step ⟨_, hrun⟩ hs hkept with
      hkept | hlate | ⟨x, hx, hremoves, e, he, hpaid⟩
    · exact Or.inl hkept
    · exact absurd htime (Int.not_lt.mpr hlate)
    · have hnew : more = [x] := List.append_cancel_left (hmore.trans hx)
      exact Or.inr ⟨x, by simp [hnew], hremoves, e, hlog.subset he, hpaid⟩
  · exact Or.inr ⟨x, List.mem_append_left _ hx, hremoves, e, hlog.subset he, hpaid⟩

/-- He pays, loses his key, and comes back for another. -/
def comesBack : List (TokenAct ⊕ Act Call) :=
  (guarded 3 (Jwt.sign (some 1) 1000) 1000).map .inl ++
    (undisturbed 3 (.pay ⟨1, 1⟩) (paymentAt 170000 1 1 1 2)).map .inr ++
    (expired 4 1 ++ enqueued 5 1 2000 ++ activated 6 3000).map .inl

/-- Another user queues up, and time goes by. -/
def anotherQueues : List (TokenAct ⊕ Act Call) :=
  (enqueued 7 2 4000).map .inl ++ [.inl (.env (.tick 299999))]

theorem place_is_kept_anotherQueues :
    ∃ p q, Machine.run (Gateway.step .utc) (Gateway.init 0 smallHall)
        (letIn ++ booksThen ++ comesBack) = some p ∧
      (∃ e ∈ p.2.log, e.call = .pay ⟨1, 1⟩) ∧
      Machine.run (Gateway.step .utc) p anotherQueues = some q ∧
      q.1.active (toString (1 : Int)) = some ⟨Jwt.sign (some 1) 3000, 300000⟩ := by
  have h : ((Machine.run (Gateway.step .utc) (Gateway.init 0 smallHall)
      (letIn ++ booksThen ++ comesBack)).bind fun p =>
        (Machine.run (Gateway.step .utc) p anotherQueues).map fun q =>
          (p.1.active "1", q.1.state.now, p.2.log.map (·.call),
            (q.1.log.drop p.1.log.length).map (·.label))) =
      some (some ⟨Jwt.sign (some 1) 3000, 300000⟩, 299999, [.book ⟨1, 1, 1⟩, .pay ⟨1, 1⟩],
        List.replicate 5 (.enqueue 2)) := by
    decide +kernel
  obtain ⟨p, hp, h⟩ := Option.bind_eq_some_iff.mp h
  obtain ⟨q, hq, h⟩ := Option.map_eq_some_iff.mp h
  simp only [Prod.mk.injEq] at h
  obtain ⟨hact, hnow, hlog, hsince⟩ := h
  refine ⟨p, q, hp, ?_, hq, ?_⟩
  · have hpaid : Call.pay ⟨1, 1⟩ ∈ p.2.log.map (·.call) := by simp [hlog]
    exact List.mem_map.mp hpaid
  have hact : p.1.active (toString (1 : Int)) = some ⟨Jwt.sign (some 1) 3000, 300000⟩ := hact
  obtain ⟨since, hgrown, hkept | ⟨x, hx, hremoves, _⟩⟩ :=
    place_is_kept ⟨_, hp⟩ hact hq (by rw [hnow]; decide)
  · exact hkept
  · rw [hgrown, List.drop_left] at hsince
    have hlabel := List.mem_map_of_mem (f := fun y => y.label) hx
    rw [hsince, hremoves.label, List.mem_replicate] at hlabel
    cases hlabel.2

end HighVolumeBooking
