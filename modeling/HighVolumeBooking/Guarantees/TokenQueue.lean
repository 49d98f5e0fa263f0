import HighVolumeBooking.Application.TokenQueue

namespace HighVolumeBooking

open Interleaving (Answer Pool Running)
open WaitingTokenQueueRepository (WAITING_TOKENS_KEY)
open ActiveTokenQueueRepository (EXPIRE_SEC)

/-- The server instances with all calls that were ever started, over one Redis. -/
abbrev TokenServer := Pool tokenServer TokenError TokenResult TokenCall

abbrev TokenRun := Running tokenServer TokenError TokenResult TokenCall

abbrev TokenAct := Interleaving.Act tokenServer TokenCall

abbrev TokenAnswer := Answer tokenServer

/-- No call is cut short. -/
def serveTokens (s : TokenServer) (a : TokenAct) : Option TokenServer :=
  if a.isCrash then none else Pool.step TokenCall.handle s a

def TokenServer.init (now : Int) : TokenServer := Pool.init (.init now)

/-- The script that each call goes on with. -/
abbrev Rest := TokenScript TokenResult

namespace TokenCall

/-! Each call, from each of its commands on. -/

def key (userId : Int) : String := ActiveTokenQueueRepository.key (toString userId)

def found (token : Jwt) : Rest := .done (.queue (.createActive token))

def waiting (userId : Int) (order : Nat) : Rest := .done (.queue (.createWaiting userId order))

def size (userId : Int) : Rest :=
  .call (.redis (.zcard WAITING_TOKENS_KEY)) fun order => waiting userId order

def join (userId : Int) (now : Int) : Rest :=
  .call (.redis (.zaddNX WAITING_TOKENS_KEY now (toString userId))) fun _ => size userId

def clock (userId : Int) : Rest := .ask .now fun now => join userId now

def rank (userId : Int) : Rest :=
  .call (.redis (.zrank WAITING_TOKENS_KEY (toString userId))) fun rankIdx =>
    match rankIdx with
    | some rankIdx => waiting userId (rankIdx + 1)
    | none => clock userId

def enqueueing (userId : Int) : Rest :=
  .call (.redis (.get (key userId))) fun token =>
    match token with
    | some token => found token
    | none => rank userId

def position (userId : Int) : Rest :=
  .call (.redis (.zrank WAITING_TOKENS_KEY (toString userId))) fun rankIdx =>
    match rankIdx with
    | some rankIdx => waiting userId (rankIdx + 1)
    | none => .fail (.custom .waitingTokenNotFound)

def scanning (userId : Int) : Rest :=
  .call (.redis (.get (key userId))) fun token =>
    match token with
    | some token => found token
    | none => position userId

def clear (batch : List String) : Rest :=
  .call (.redis (.zrem WAITING_TOKENS_KEY batch)) fun _ => .done .none

def store (member : String) (token : Jwt) : TokenOp :=
  .attempt (.setNX (ActiveTokenQueueRepository.key member) token EXPIRE_SEC)

/-- The loop over the users that are left, and the removal of them all. -/
def admitting (batch : List String) : List String → Rest
  | [] => clear batch
  | member :: todo => .ask (.sign (parseInt member)) fun token =>
    match token with
    | some token => .send (store member token) (admitting batch todo)
    | none => admitting batch todo

def activating : Rest :=
  .call (.redis (.zrange WAITING_TOKENS_KEY 0 (TokenQueueService.QUEUE_THROUGHPUT - 1)))
    fun batch => if batch.length = 0 then .done .none else admitting batch batch

def expiring (id : Int) : Rest := .call (.redis (.del (key id))) fun _ => .done .none

def lookup (userId : Int) : Rest :=
  .call (.redis (.get (key userId))) fun token =>
    match token with
    | some _ => .done (.allowed true)
    | none => .fail (.custom .invalidToken)

def verified (token : Jwt) : Rest :=
  match token.userId with
  | some userId => lookup userId
  | none => .fail (.custom .invalidToken)

def check (token : Jwt) : Rest :=
  .ask .now fun now => if token.expired now then .fail (.custom .invalidToken) else verified token

def checking (request : Request) : Rest :=
  match extractTokenFromHeader request with
  | none => .fail (.custom .tokenNotProvided)
  | some (.signed token) => check token
  | some (.other text) =>
    if text = "" then .fail (.custom .tokenNotProvided) else .fail (.custom .invalidToken)

theorem handle_enqueue (userId : Int) : handle (.enqueue userId) = enqueueing userId := by
  refine congrArg (Interleaving.Script.call _) (funext fun token => ?_)
  cases token with
  | some token => rfl
  | none =>
    refine congrArg (Interleaving.Script.call _) (funext fun rankIdx => ?_)
    cases rankIdx <;> rfl

theorem handle_scan (userId : Int) : handle (.scan userId) = scanning userId := by
  refine congrArg (Interleaving.Script.call _) (funext fun token => ?_)
  cases token with
  | some token => rfl
  | none =>
    refine congrArg (Interleaving.Script.call _) (funext fun rankIdx => ?_)
    cases rankIdx <;> rfl

theorem admitting_eq (batch todo : List String) :
    ((Interleaving.Script.forEach todo fun userId => do
        let token ← TokenQueue.generateToken (parseInt userId)
        match token with
        | none => pure ()
        | some token => ActiveTokenQueueRepository.add userId token).bind fun _ =>
      (WaitingTokenQueueRepository.remove batch).bind fun _ =>
        (.done TokenResult.none : Rest)) = admitting batch todo := by
  induction todo with
  | nil => rfl
  | cons member todo ih =>
    refine congrArg (Interleaving.Script.ask _) (funext fun token => ?_)
    cases token with
    | none => exact ih
    | some token => exact congrArg (Interleaving.Script.send _) ih

theorem handle_activate : handle .activate = activating := by
  refine congrArg (Interleaving.Script.call _) (funext fun batch => ?_)
  cases batch with
  | nil => rfl
  | cons member batch =>
    simp only [Interleaving.Script.bind_eq, Interleaving.Script.done_bind,
      Interleaving.Script.bind_assoc, List.length_cons, Nat.add_eq_zero_iff, Nat.one_ne_zero,
      and_false, if_false]
    exact admitting_eq (member :: batch) (member :: batch)

theorem handle_guard (request : Request) : handle (.guard request) = checking request := by
  simp only [handle, TokenQueueAuthGuard.canActivate, checking]
  cases extractTokenFromHeader request with
  | none => rfl
  | some token =>
    cases token with
    | other text =>
      by_cases ht : text = ""
      · simp [PresentedToken.isEmpty, ht]
      · simp only [PresentedToken.isEmpty, beq_iff_eq, ht, if_false]
        rfl
    | signed token =>
      refine congrArg (Interleaving.Script.ask _) (funext fun now => ?_)
      cases hexp : token.expired now with
      | true =>
        simp only [hexp, if_true]
        rfl
      | false =>
        simp only [hexp, Bool.false_eq_true, if_false, Interleaving.Script.bind_eq,
          Interleaving.Script.done_bind, verified]
        cases token.userId with
        | none => rfl
        | some userId =>
          refine congrArg (Interleaving.Script.call _) (funext fun stored => ?_)
          cases stored <;> rfl

/-- The answers that the users handled so far have in the log of a run. -/
def signs (served : List (String × Option Jwt)) : List TokenAnswer :=
  served.map fun d => ⟨.sign (parseInt d.1), d.2⟩

/-- The writes that were started for them. -/
def stores (served : List (String × Option Jwt)) : List TokenOp :=
  served.filterMap fun d => d.2.map (store d.1)

/-- The answer that opens a run. -/
def oldest (batch : List String) : TokenAnswer :=
  ⟨.redis (.zrange WAITING_TOKENS_KEY 0 (TokenQueueService.QUEUE_THROUGHPUT - 1)), batch⟩

/-- What a call has left to do and to write after the answers it got. -/
inductive Stage : TokenCall → Rest → List TokenOp → List TokenAnswer → Prop where
  | enqueueing (userId : Int) : Stage (.enqueue userId) (enqueueing userId) [] []
  | enqueueFound (userId : Int) (token : Jwt) :
      Stage (.enqueue userId) (found token) [] [⟨.redis (.get (key userId)), some token⟩]
  | rank (userId : Int) :
      Stage (.enqueue userId) (rank userId) [] [⟨.redis (.get (key userId)), none⟩]
  | ranked (userId : Int) (rankIdx : Nat) :
      Stage (.enqueue userId) (waiting userId (rankIdx + 1)) [] [⟨.redis (.get (key userId)), none⟩,
        ⟨.redis (.zrank WAITING_TOKENS_KEY (toString userId)), some rankIdx⟩]
  | clock (userId : Int) :
      Stage (.enqueue userId) (clock userId) [] [⟨.redis (.get (key userId)), none⟩,
        ⟨.redis (.zrank WAITING_TOKENS_KEY (toString userId)), none⟩]
  | join (userId now : Int) :
      Stage (.enqueue userId) (join userId now) [] [⟨.redis (.get (key userId)), none⟩,
        ⟨.redis (.zrank WAITING_TOKENS_KEY (toString userId)), none⟩, ⟨.now, now⟩]
  | size (userId now : Int) (added : Nat) :
      Stage (.enqueue userId) (size userId) [] [⟨.redis (.get (key userId)), none⟩,
        ⟨.redis (.zrank WAITING_TOKENS_KEY (toString userId)), none⟩, ⟨.now, now⟩,
        ⟨.redis (.zaddNX WAITING_TOKENS_KEY now (toString userId)), added⟩]
  | joined (userId now : Int) (added order : Nat) :
      Stage (.enqueue userId) (waiting userId order) [] [⟨.redis (.get (key userId)), none⟩,
        ⟨.redis (.zrank WAITING_TOKENS_KEY (toString userId)), none⟩, ⟨.now, now⟩,
        ⟨.redis (.zaddNX WAITING_TOKENS_KEY now (toString userId)), added⟩,
        ⟨.redis (.zcard WAITING_TOKENS_KEY), order⟩]
  | scanning (userId : Int) : Stage (.scan userId) (scanning userId) [] []
  | scanFound (userId : Int) (token : Jwt) :
      Stage (.scan userId) (found token) [] [⟨.redis (.get (key userId)), some token⟩]
  | position (userId : Int) :
      Stage (.scan userId) (position userId) [] [⟨.redis (.get (key userId)), none⟩]
  | positioned (userId : Int) (rankIdx : Nat) :
      Stage (.scan userId) (waiting userId (rankIdx + 1)) [] [⟨.redis (.get (key userId)), none⟩,
        ⟨.redis (.zrank WAITING_TOKENS_KEY (toString userId)), some rankIdx⟩]
  | unknown (userId : Int) :
      Stage (.scan userId) (.fail (.custom .waitingTokenNotFound)) []
        [⟨.redis (.get (key userId)), none⟩,
          ⟨.redis (.zrank WAITING_TOKENS_KEY (toString userId)), none⟩]
  | activating : Stage .activate activating [] []
  | idle : Stage .activate (.done .none) [] [oldest []]
  | admitting (served : List (String × Option Jwt)) (todo : List String) (queue : List TokenOp)
      (h : queue <:+ stores served) (hne : served.map Prod.fst ++ todo ≠ []) :
      Stage .activate (admitting (served.map Prod.fst ++ todo) todo) queue
        (oldest (served.map Prod.fst ++ todo) :: signs served)
  | storing (served : List (String × Option Jwt)) (member : String) (token : Jwt)
      (todo : List String) (queue : List TokenOp) (h : queue <:+ stores served) :
      Stage .activate
        (.send (store member token) (admitting (served.map Prod.fst ++ member :: todo) todo)) queue
        (oldest (served.map Prod.fst ++ member :: todo) :: signs (served ++ [(member, some token)]))
  | cleared (served : List (String × Option Jwt)) (removed : Nat) :
      Stage .activate (.done .none) [] (oldest (served.map Prod.fst) :: signs served ++
        [⟨.redis (.zrem WAITING_TOKENS_KEY (served.map Prod.fst)), removed⟩])
  | expiring (id : Int) : Stage (.expire id) (expiring id) [] []
  | expired (id : Int) (removed : Nat) :
      Stage (.expire id) (.done .none) [] [⟨.redis (.del (key id)), removed⟩]
  | unchecked (request : Request) (e : TokenError) : Stage (.guard request) (.fail e) [] []
  | check (request : Request) (token : Jwt)
      (h : extractTokenFromHeader request = some (.signed token)) :
      Stage (.guard request) (check token) [] []
  | refused (request : Request) (e : TokenError) (now : Int) :
      Stage (.guard request) (.fail e) [] [⟨.now, now⟩]
  | lookup (request : Request) (token : Jwt) (now userId : Int)
      (h : extractTokenFromHeader request = some (.signed token)) (hexp : token.expired now = false)
      (huser : token.userId = some userId) :
      Stage (.guard request) (lookup userId) [] [⟨.now, now⟩]
  | allowed (request : Request) (token : Jwt) (now userId : Int) (stored : Jwt)
      (h : extractTokenFromHeader request = some (.signed token)) (hexp : token.expired now = false)
      (huser : token.userId = some userId) :
      Stage (.guard request) (.done (.allowed true)) []
        [⟨.now, now⟩, ⟨.redis (.get (key userId)), some stored⟩]
  | absent (request : Request) (token : Jwt) (now userId : Int) :
      Stage (.guard request) (.fail (.custom .invalidToken)) []
        [⟨.now, now⟩, ⟨.redis (.get (key userId)), none⟩]

theorem stage_start (call : TokenCall) : Stage call call.handle [] [] := by
  cases call with
  | enqueue userId =>
    rw [handle_enqueue]
    exact .enqueueing userId
  | scan userId =>
    rw [handle_scan]
    exact .scanning userId
  | activate =>
    rw [handle_activate]
    exact .activating
  | expire id => exact .expiring id
  | guard request =>
    rw [handle_guard, checking]
    split
    · exact .unchecked request _
    · rename_i token h
      exact .check request token h
    · split <;> exact .unchecked request _

section Stages

variable {call : TokenCall} {script : Rest} {queue : List TokenOp} {answers : List TokenAnswer}
  {o : TokenOp}

theorem signs_append (served : List (String × Option Jwt)) (member : String) (token : Option Jwt) :
    signs (served ++ [(member, token)]) =
      signs served ++ [⟨.sign (parseInt member), token⟩] := by
  simp [signs]

theorem stores_append_some (served : List (String × Option Jwt)) (member : String) (token : Jwt) :
    stores (served ++ [(member, some token)]) = stores served ++ [store member token] := by
  simp [stores]

theorem stores_append_none (served : List (String × Option Jwt)) (member : String) :
    stores (served ++ [(member, none)]) = stores served := by
  simp [stores]

/-- Each answer leads from one stage to another. -/
theorem stage_answer {k : o.Reply → Rest} (h : Stage call script queue answers)
    (hs : script = .ask o k ∨ (script = .call o k ∧ queue = [])) (reply : o.Reply) :
    Stage call (k reply) queue (answers ++ [⟨o, reply⟩]) := by
  cases h with
  | enqueueing userId =>
    simp only [enqueueing, reduceCtorEq, false_or, and_true] at hs
    cases hs
    cases reply with
    | none => exact .rank userId
    | some token => exact .enqueueFound userId token
  | rank userId =>
    simp only [rank, reduceCtorEq, false_or, and_true] at hs
    cases hs
    cases reply with
    | none => exact .clock userId
    | some rankIdx => exact .ranked userId rankIdx
  | clock userId =>
    simp only [clock, reduceCtorEq, false_and, or_false] at hs
    cases hs
    exact .join userId reply
  | join userId now =>
    simp only [join, reduceCtorEq, false_or, and_true] at hs
    cases hs
    exact .size userId now reply
  | size userId now added =>
    simp only [size, reduceCtorEq, false_or, and_true] at hs
    cases hs
    exact .joined userId now added reply
  | scanning userId =>
    simp only [scanning, reduceCtorEq, false_or, and_true] at hs
    cases hs
    cases reply with
    | none => exact .position userId
    | some token => exact .scanFound userId token
  | position userId =>
    simp only [position, reduceCtorEq, false_or, and_true] at hs
    cases hs
    cases reply with
    | none => exact .unknown userId
    | some rankIdx => exact .positioned userId rankIdx
  | activating =>
    simp only [activating, reduceCtorEq, false_or, and_true] at hs
    cases hs
    cases reply with
    | nil => exact .idle
    | cons member batch => exact .admitting [] (member :: batch) [] (List.suffix_refl _) (by simp)
  | admitting served todo queue h hne =>
    cases todo with
    | nil =>
      rw [List.append_nil] at hs ⊢
      simp only [admitting, clear, reduceCtorEq, false_or] at hs
      obtain ⟨hcall, rfl⟩ := hs
      cases hcall
      exact .cleared served reply
    | cons member todo =>
      simp only [admitting, reduceCtorEq, false_and, or_false] at hs
      cases hs
      cases reply with
      | none =>
        have hstage := Stage.admitting (served ++ [(member, none)]) todo queue
          (by rw [stores_append_none]; exact h) (by simp)
        rw [signs_append] at hstage
        simpa using hstage
      | some token =>
        have hstage := Stage.storing served member token todo queue h
        rw [signs_append] at hstage
        exact hstage
  | storing served member token todo queue h => simp at hs
  | expiring id =>
    simp only [expiring, reduceCtorEq, false_or, and_true] at hs
    cases hs
    exact .expired id reply
  | check request token h =>
    simp only [check, reduceCtorEq, false_and, or_false] at hs
    cases hs
    beta_reduce
    by_cases hexp : token.expired reply = true
    · rw [if_pos hexp]
      exact .refused request _ reply
    · rw [if_neg hexp, verified]
      cases huser : token.userId with
      | none => exact .refused request _ reply
      | some userId =>
        exact .lookup request token reply userId h (Bool.eq_false_iff.mpr hexp) huser
  | lookup request token now userId h hexp huser =>
    simp only [lookup, reduceCtorEq, false_or, and_true] at hs
    cases hs
    cases reply with
    | none => exact .absent request token now userId
    | some stored => exact .allowed request token now userId stored h hexp huser
  | _ => simp [found, waiting] at hs

/-- What is sent without waiting is a write of the loop. -/
theorem stage_send {k : Rest} (h : Stage call (.send o k) queue answers) :
    Stage call k (queue ++ [o]) answers := by
  generalize hs : (Interleaving.Script.send o k : Rest) = script at h
  cases h with
  | storing served member token todo queue h =>
    cases hs
    have hqueue : queue ++ [store member token] <:+ stores (served ++ [(member, some token)]) := by
      obtain ⟨sent, hsent⟩ := h
      exact ⟨sent, by rw [stores_append_some, ← hsent, List.append_assoc]⟩
    have hstage := Stage.admitting (served ++ [(member, some token)]) todo _ hqueue (by simp)
    simpa using hstage
  | admitting served todo queue h hne => cases todo <;> cases hs
  | unchecked => cases hs
  | _ => cases hs

theorem stage_flush (h : Stage call script (o :: queue) answers) :
    Stage call script queue answers := by
  generalize hs : o :: queue = queue' at h
  cases h with
  | admitting served todo queue' h hne =>
    subst hs
    exact .admitting served todo queue ((List.suffix_cons o queue).trans h) hne
  | storing served member token todo queue' h =>
    subst hs
    exact .storing served member token todo queue ((List.suffix_cons o queue).trans h)
  | _ => cases hs

theorem staged : Pool.Local TokenCall.handle fun _ (r : TokenRun) =>
    Stage r.label r.script r.queue r.answers where
  mono := fun _ _ _ hp => hp
  start := fun _ call => stage_start call
  answer := by
    intro log r o k st e reply st' hp hn _
    exact stage_answer hp (Running.next_eq_some.mp hn).2 reply
  issue := by
    intro log r o k hp _ hs
    rw [hs] at hp
    exact stage_send hp
  flush := by
    intro log r o queue hp hq
    rw [hq] at hp
    exact stage_flush hp
  crash := fun _ _ hp => hp

end Stages

end TokenCall

def TokenOp.isRead : TokenOp → Bool
  | .redis (.get _) => true
  | .redis (.zrank _ _) => true
  | .redis (.zcard _) => true
  | .redis (.zrange _ _ _) => true
  | .now => true
  | .sign _ => true
  | _ => false

theorem TokenOp.exec_read {o : TokenOp} {st st' : Redis.Store Jwt} {e : TokenEvent}
    {reply : o.Reply} (h : o.isRead = true) (hx : TokenOp.exec st o e = some (reply, st')) :
    st' = st := by
  cases o with
  | redis c =>
    cases e <;> simp only [TokenOp.exec, Option.some.injEq, reduceCtorEq] at hx
    have hst := congrArg Prod.snd hx
    cases c <;> first | contradiction | exact hst.symm
  | attempt c => contradiction
  | now => cases e <;> simp_all [TokenOp.exec]
  | sign userId =>
    cases e <;> simp only [TokenOp.exec, Option.some.injEq, Prod.mk.injEq, reduceCtorEq] at hx
    · exact hx.2.symm
    · exact hx.2.symm

/-- The commands that change something, each in the only call that has it. -/
inductive TokenCall.Writes : TokenCall → List TokenAnswer → TokenOp → Prop where
  | join (userId now : Int) : Writes (.enqueue userId) [⟨.redis (.get (key userId)), none⟩,
      ⟨.redis (.zrank WAITING_TOKENS_KEY (toString userId)), none⟩, ⟨.now, now⟩]
      (.redis (.zaddNX WAITING_TOKENS_KEY now (toString userId)))
  | clear (served : List (String × Option Jwt)) (hne : served ≠ []) :
      Writes .activate (oldest (served.map Prod.fst) :: signs served)
        (.redis (.zrem WAITING_TOKENS_KEY (served.map Prod.fst)))
  | expire (id : Int) : Writes (.expire id) [] (.redis (.del (key id)))

namespace TokenCall

theorem stage_command {call : TokenCall} {script : Rest} {queue : List TokenOp}
    {answers : List TokenAnswer} {o : TokenOp} {k : o.Reply → Rest}
    (h : Stage call script queue answers)
    (hs : script = .ask o k ∨ (script = .call o k ∧ queue = [])) :
    o.isRead = true ∨ (Writes call answers o ∧ queue = [] ∧ script = .call o k) := by
  cases h with
  | enqueueing userId =>
    simp only [enqueueing, reduceCtorEq, false_or, and_true] at hs
    cases hs
    exact Or.inl rfl
  | rank userId =>
    simp only [rank, reduceCtorEq, false_or, and_true] at hs
    cases hs
    exact Or.inl rfl
  | clock userId =>
    simp only [clock, reduceCtorEq, false_and, or_false] at hs
    cases hs
    exact Or.inl rfl
  | join userId now =>
    simp only [join, reduceCtorEq, false_or, and_true] at hs
    cases hs
    exact Or.inr ⟨.join userId now, rfl, rfl⟩
  | size userId now added =>
    simp only [size, reduceCtorEq, false_or, and_true] at hs
    cases hs
    exact Or.inl rfl
  | scanning userId =>
    simp only [scanning, reduceCtorEq, false_or, and_true] at hs
    cases hs
    exact Or.inl rfl
  | position userId =>
    simp only [position, reduceCtorEq, false_or, and_true] at hs
    cases hs
    exact Or.inl rfl
  | activating =>
    simp only [activating, reduceCtorEq, false_or, and_true] at hs
    cases hs
    exact Or.inl rfl
  | admitting served todo queue h hne =>
    cases todo with
    | nil =>
      rw [List.append_nil] at hs hne ⊢
      simp only [admitting, clear, reduceCtorEq, false_or] at hs
      obtain ⟨hcall, rfl⟩ := hs
      cases hcall
      exact Or.inr ⟨.clear served (by simpa using hne), rfl, rfl⟩
    | cons member todo =>
      simp only [admitting, reduceCtorEq, false_and, or_false] at hs
      cases hs
      exact Or.inl rfl
  | storing served member token todo queue h => simp at hs
  | expiring id =>
    simp only [expiring, reduceCtorEq, false_or, and_true] at hs
    cases hs
    exact Or.inr ⟨.expire id, rfl, rfl⟩
  | check request token h =>
    simp only [check, reduceCtorEq, false_and, or_false] at hs
    cases hs
    exact Or.inl rfl
  | lookup request token now userId h hexp huser =>
    simp only [lookup, reduceCtorEq, false_or, and_true] at hs
    cases hs
    exact Or.inl rfl
  | _ => simp [found, waiting] at hs

/-- A write that is on its way belongs to an activation that has not come to
its removal yet. -/
theorem stage_queue {call : TokenCall} {script : Rest} {o : TokenOp} {queue : List TokenOp}
    {answers : List TokenAnswer} (h : Stage call script (o :: queue) answers) :
    ∃ batch member token rest, call = .activate ∧ answers = oldest batch :: rest ∧
      script.finished = false ∧ member ∈ batch ∧ o = store member token ∧
      ⟨.sign (parseInt member), some token⟩ ∈ rest := by
  have hstored : ∀ served : List (String × Option Jwt), o :: queue <:+ stores served →
      ∃ member token, member ∈ served.map Prod.fst ∧ o = store member token ∧
        (⟨.sign (parseInt member), some token⟩ : TokenAnswer) ∈ signs served := by
    intro served hsuffix
    obtain ⟨⟨member, reply⟩, hmem, hreply⟩ :=
      List.mem_filterMap.mp (hsuffix.subset List.mem_cons_self)
    obtain ⟨token, rfl, rfl⟩ := Option.map_eq_some_iff.mp hreply
    exact ⟨member, token, List.mem_map.mpr ⟨_, hmem, rfl⟩, rfl, List.mem_map.mpr ⟨_, hmem, rfl⟩⟩
  generalize hs : o :: queue = queue' at h
  cases h with
  | admitting served todo queue' h hne =>
    subst hs
    obtain ⟨member, token, hmem, rfl, hsign⟩ := hstored served h
    refine ⟨_, member, token, _, rfl, rfl, ?_, List.mem_append_left _ hmem, rfl, hsign⟩
    cases todo <;> rfl
  | storing served member' token' todo queue' h =>
    subst hs
    obtain ⟨member, token, hmem, rfl, hsign⟩ := hstored served h
    refine ⟨_, member, token, _, rfl, rfl, rfl, List.mem_append_left _ hmem, rfl, ?_⟩
    rw [signs_append]
    exact List.mem_append_left _ hsign
  | _ => cases hs

@[simp] theorem admitting_unfinished (batch todo : List String) :
    (admitting batch todo).finished = false := by
  cases todo <;> rfl

/-- A run that has read its batch is at some member of it, or about to send the
write for one. -/
theorem stage_serving {script : Rest} {queue : List TokenOp} {batch : List String}
    {rest : List TokenAnswer} (h : Stage .activate script queue (oldest batch :: rest))
    (hf : script.finished = false) : ∃ served todo, batch = served.map Prod.fst ++ todo ∧
      rest = signs served ∧ ((script = admitting batch todo ∧ queue <:+ stores served) ∨
        ∃ sent member token, served = sent ++ [(member, some token)] ∧
          script = .send (store member token) (admitting batch todo) ∧ queue <:+ stores sent) := by
  generalize ha : oldest batch :: rest = answers at h
  cases h with
  | activating => contradiction
  | idle => contradiction
  | admitting served todo queue h hne =>
    simp only [oldest, List.cons.injEq, Sigma.mk.injEq, heq_eq_eq, true_and] at ha
    obtain ⟨rfl, rfl⟩ := ha
    exact ⟨served, todo, rfl, rfl, Or.inl ⟨rfl, h⟩⟩
  | storing served member token todo queue h =>
    simp only [oldest, List.cons.injEq, Sigma.mk.injEq, heq_eq_eq, true_and] at ha
    obtain ⟨rfl, rfl⟩ := ha
    exact ⟨served ++ [(member, some token)], todo, by simp, rfl,
      Or.inr ⟨served, member, token, rfl, rfl, h⟩⟩
  | cleared served removed => contradiction

/-- The batch is the first thing a run reads. -/
theorem stage_reading {call : TokenCall} {script : Rest} {queue : List TokenOp}
    {answers : List TokenAnswer} {key : String} {start stop : Int} {k : List String → Rest}
    (h : Stage call script queue answers)
    (hs : script = .ask (.redis (.zrange key start stop)) k ∨
      script = .call (.redis (.zrange key start stop)) k) :
    call = .activate ∧ script = activating ∧ answers = [] := by
  cases h with
  | activating => exact ⟨rfl, rfl, rfl⟩
  | admitting served todo queue h hne => cases todo <;> simp [admitting, clear] at hs
  | check request token h => simp [check] at hs
  | _ =>
    simp [found, waiting, enqueueing, rank, clock, join, size, scanning, position, expiring,
      lookup] at hs

/-- The removal ends a run. -/
theorem stage_clear {script : Rest} {queue : List TokenOp} {answers : List TokenAnswer}
    {key : String} {batch : List String} {k : Nat → Rest}
    (h : Stage .activate script queue answers)
    (hs : script = .call (.redis (.zrem key batch)) k) : k = fun _ => .done .none := by
  cases h with
  | admitting served todo queue h hne =>
    cases todo with
    | nil =>
      simp only [admitting, clear, Interleaving.Script.call.injEq] at hs
      obtain ⟨hop, hk⟩ := hs
      cases hop
      exact (eq_of_heq hk).symm
    | cons member todo => simp [admitting] at hs
  | activating => simp [activating] at hs
  | _ => simp at hs

end TokenCall

end HighVolumeBooking
