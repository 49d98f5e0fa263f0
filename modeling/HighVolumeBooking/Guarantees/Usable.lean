import HighVolumeBooking.Guarantees.StoredTokens
import HighVolumeBooking.Interleaving.Solo

namespace HighVolumeBooking

open Interleaving (CallId Executed Pool Running)
open ActiveTokenQueueRepository (EXPIRE_SEC)
open TokenCall (store)

/-- The guard, run alone at this instant, lets the request pass. -/
def GuardAllows (st : Redis.Store Jwt) (request : Request) : Prop :=
  ∃ es w, (TokenCall.handle (.guard request)).solo st es = some w ∧
    w.result = .ok (.allowed true) ∧ ∀ t, .read t ∈ es → t = st.now

/-- In this step an enqueue or scan call returns the token to its user. -/
structure Hands (s : TokenServer) (a : TokenAct) (s' : TokenServer) (userId : Int) (token : Jwt) :
    Prop where
  step : serveTokens s a = some s'
  returned : ∃ i e r, a = .answer i e ∧ s'.calls i = some r ∧
    (r.label = .enqueue userId ∨ r.label = .scan userId) ∧
    r.script = .done (.queue (.createActive token))

/-- Where a stored token comes from: it was signed at one instant and stored at
another. -/
structure Issued (s : TokenServer) (userId : Int) (v : Redis.Volatile Jwt)
    (x y : Executed tokenServer TokenCall) : Prop where
  signing : x ∈ s.log ∧ x.answer = ⟨.sign (some userId), some v.value⟩
  storing : y ∈ s.log ∧ y.answer = ⟨store (toString userId) v.value, some true⟩
  order : x.before.now ≤ y.before.now
  expires : v.expiresAt = y.before.now + 1000 * EXPIRE_SEC

section Usable

variable {s s' : TokenServer} {a : TokenAct} {now : Int} {st : Redis.Store Jwt} {userId : Int}
  {token : Jwt} {request : Request}

/-- The guard asks for an unexpired token and for an active key of its user. -/
theorem guardAllows_iff (hextract : extractTokenFromHeader request = some (.signed token))
    (huser : token.userId = some userId) : GuardAllows st request ↔
      token.expired st.now = false ∧ ∃ v, st.strings (TokenCall.key userId) = some v := by
  simp only [GuardAllows, TokenCall.handle_guard, TokenCall.checking, hextract]
  constructor
  · rintro ⟨es, w, hsolo, hresult, hreads⟩
    cases es with
    | nil => contradiction
    | cons e es =>
      obtain ⟨t, st', w, hx, hsolo, rfl⟩ := Interleaving.solo_ask.mp hsolo
      cases e <;> simp only [TokenOp.exec, Option.some.injEq, Prod.mk.injEq, reduceCtorEq] at hx
      obtain ⟨rfl, rfl⟩ := hx
      obtain rfl := hreads _ List.mem_cons_self
      cases hexp : token.expired st.now with
      | true =>
        simp only [hexp, if_true] at hsolo
        cases es with
        | nil =>
          obtain rfl := Option.some.inj hsolo
          contradiction
        | cons e es => contradiction
      | false =>
        simp only [hexp, Bool.false_eq_true, if_false, TokenCall.verified, huser] at hsolo
        obtain ⟨e, es', found, st', w', rfl, hx, hrest, rfl⟩ := Interleaving.solo_call.mp hsolo
        cases e <;> simp only [TokenOp.exec, Option.some.injEq, reduceCtorEq] at hx
        cases hk : st.strings (TokenCall.key userId) with
        | some v => exact ⟨rfl, v, rfl⟩
        | none =>
          have hnone : found = (none : Option Jwt) := by
            have hfound := congrArg Prod.fst hx
            simpa [Redis.Store.exec, hk] using hfound.symm
          subst hnone
          cases es' with
          | nil =>
            obtain rfl := Option.some.inj hrest
            contradiction
          | cons e es => contradiction
  · rintro ⟨hexp, v, hv⟩
    refine ⟨[.read st.now, .quiet], ⟨[⟨.now, st.now⟩,
      ⟨.redis (.get (TokenCall.key userId)), some v.value⟩], .ok (.allowed true), st⟩, ?_, rfl, ?_⟩
    · simp [TokenCall.check, Interleaving.Script.solo, TokenOp.exec, hexp, TokenCall.verified, huser,
        TokenCall.lookup, Redis.Store.exec, hv, Interleaving.Went.after]
    · intro t ht
      simpa using ht

theorem not_expired_iff (signing t : Int) : (Jwt.sign (some userId) signing).expired t = false ↔
    t < (signing / 1000 + 300) * 1000 := by
  have hunexpired : (Jwt.sign (some userId) signing).expired t = false ↔
      ¬ signing / 1000 + 60 * 5 ≤ t / 1000 := decide_eq_false_iff_not
  rw [hunexpired]
  omega

theorem Issued.step {v : Redis.Volatile Jwt} {x y : Executed tokenServer TokenCall}
    (h : Issued s userId v x y) (hs : serveTokens s a = some s') : Issued s' userId v x y := by
  have hsub : ∀ z ∈ s.log, z ∈ s'.log := by
    intro z hz
    rcases Pool.log_cases (serve_step hs).2 with ⟨hlog, _⟩ | ⟨i, r, o, e, reply, _, _, hlog, _⟩
    · rwa [hlog]
    · rw [hlog]
      exact List.mem_append_left _ hz
  exact ⟨⟨hsub x h.signing.1, h.signing.2⟩, ⟨hsub y h.storing.1, h.storing.2⟩, h.order, h.expires⟩

/-- Each active key was written after its token was signed. -/
theorem issued {acts : List TokenAct} (h : Machine.run serveTokens (.init now) acts = some s)
    (hclock : Machine.Along serveTokens OneClock (.init now) acts) :
    ∀ userId v, s.state.strings (TokenCall.key userId) = some v → ∃ x y, Issued s userId v x y := by
  have hboth : Clocked s ∧ ∀ userId v, s.state.strings (TokenCall.key userId) = some v →
      ∃ x y, Issued s userId v x y := by
    refine Machine.along_induction (fun s => Clocked s ∧ ∀ userId v,
      s.state.strings (TokenCall.key userId) = some v → ∃ x y, Issued s userId v x y) ?_ ?_ h hclock
    · refine ⟨clocked_init, ?_⟩
      intro userId v hv
      simp [TokenServer.init, Pool.init, Redis.Store.init] at hv
    · intro m a t hm hq ha hs
      obtain ⟨hc, hissued⟩ := hq
      have hst := staged_reachable hm
      refine ⟨clocked_step hst hc ha hs, ?_⟩
      have hkeep : ∀ userId v, m.state.strings (TokenCall.key userId) = some v →
          ∃ x y, Issued t userId v x y := by
        intro userId v hv
        obtain ⟨x, y, hxy⟩ := hissued userId v hv
        exact ⟨x, y, hxy.step hs⟩
      intro userId v hv
      cases strings_moved hst hs with
      | same h => exact hkeep userId v (h ▸ hv)
      | tick u _ _ h =>
        rw [h] at hv
        exact hkeep userId v (Option.filter_eq_some_iff.mp hv).1
      | expire i r id _ _ _ _ h =>
        rw [h] at hv
        split at hv
        · contradiction
        · exact hkeep userId v hv
      | store i batch member token _ _ _ hq h hlog =>
        rw [h] at hv
        split at hv
        · rename_i hk
          obtain ⟨hkey, hnone⟩ := hk
          obtain rfl := Option.some.inj hv
          obtain rfl := ActiveTokenQueueRepository.key_inj hkey
          obtain ⟨r, queue, hr, hq⟩ := hq
          obtain ⟨_, _, x, hx, hxa⟩ := pending_signed hm hr hq
          have hstored : (m.state.exec
              (.setNX (TokenCall.key userId) token EXPIRE_SEC)).1 = true := by
            simp only [Redis.Store.exec, dif_pos (show 0 < EXPIRE_SEC by decide)]
            rw [show m.state.strings (TokenCall.key userId) = none from hnone]
          refine ⟨x, _, ⟨?_, hxa⟩, ⟨hlog ▸ List.mem_append_right _ (List.mem_singleton_self _), ?_⟩,
            hc.past x hx, rfl⟩
          · rw [hlog]
            exact List.mem_append_left _ hx
          · exact congrArg (fun b => (⟨store (toString userId) token, some b⟩ : TokenAnswer)) hstored
        · exact hkeep userId v hv
  exact hboth.2

/-- A call that returns a token has found it under the key of its user. -/
theorem stage_found {call : TokenCall} {script : Rest} {queue : List TokenOp}
    {answers : List TokenAnswer} (h : TokenCall.Stage call script queue answers)
    (hcall : call = .enqueue userId ∨ call = .scan userId)
    (hs : script = .done (.queue (.createActive token))) :
    answers = [⟨.redis (.get (TokenCall.key userId)), some token⟩] := by
  cases h with
  | enqueueFound u token' =>
    simp only [TokenCall.found, Interleaving.Script.done.injEq, TokenResult.queue.injEq,
      TokenQueue.createActive, TokenQueue.mk.injEq, Option.some.injEq] at hs
    rcases hcall with hcall | hcall
    · cases hcall
      rw [hs.2.1]
    · contradiction
  | scanFound u token' =>
    simp only [TokenCall.found, Interleaving.Script.done.injEq, TokenResult.queue.injEq,
      TokenQueue.createActive, TokenQueue.mk.injEq, Option.some.injEq] at hs
    rcases hcall with hcall | hcall
    · contradiction
    · cases hcall
      rw [hs.2.1]
  | ranked => simp [TokenCall.waiting, TokenQueue.createWaiting, TokenQueue.createActive] at hs
  | joined => simp [TokenCall.waiting, TokenQueue.createWaiting, TokenQueue.createActive] at hs
  | positioned => simp [TokenCall.waiting, TokenQueue.createWaiting, TokenQueue.createActive] at hs
  | admitting served todo queue h hne => cases todo <;> contradiction
  | _ => first | contradiction | rcases hcall with hcall | hcall <;> contradiction

/-- What is handed out is what the active key holds. -/
theorem Hands.stored (hst : Staged s) (h : Hands s a s' userId token) :
    s'.state = s.state ∧ ∃ v, s.state.strings (TokenCall.key userId) = some v ∧ v.value = token := by
  obtain ⟨i, e, r', rfl, hr', hlabel, hdone⟩ := h.returned
  have hanswers := stage_found ((staged_step hst h.step).stage i r' hr') hlabel hdone
  obtain ⟨r, o, k, reply, st, hr, hn, hx, rfl⟩ := Pool.step_answer (serve_step h.step).2
  rcases Pool.calls_update hr' with ⟨_, rfl⟩ | ⟨hne, _⟩
  · simp only [Running.answered] at hanswers
    obtain ⟨_, hlast⟩ := List.append_eq_singleton_iff.mp hanswers |>.resolve_right (by simp)
    cases hlast
    cases e <;> simp only [TokenOp.exec, Option.some.injEq, reduceCtorEq] at hx
    obtain ⟨v, hv, hvalue⟩ := Option.map_eq_some_iff.mp (congrArg Prod.fst hx)
    exact ⟨(congrArg Prod.snd hx).symm, v, hv, hvalue⟩
  · exact absurd rfl hne

/-- A token that is handed out passes the guard at the same instant exactly when
the three hundredth second after the one it was signed in has not begun. -/
theorem handed_token_usable_iff {acts : List TokenAct}
    (h : Machine.run serveTokens (.init now) acts = some s)
    (hclock : Machine.Along serveTokens OneClock (.init now) acts)
    (hhands : Hands s a s' userId token) :
    ∃ x y, (x ∈ s.log ∧ x.answer = ⟨.sign (some userId), some token⟩) ∧
      (y ∈ s.log ∧ y.answer = ⟨store (toString userId) token, some true⟩) ∧
      x.before.now ≤ y.before.now ∧ y.before.now ≤ s.state.now ∧
      s.state.now < y.before.now + 1000 * EXPIRE_SEC ∧
      ∀ request, extractTokenFromHeader request = some (.signed token) →
        (GuardAllows s'.state request ↔ s.state.now < (x.before.now / 1000 + 300) * 1000) := by
  obtain ⟨hstate, v, hv, rfl⟩ := hhands.stored (staged_reachable ⟨acts, h⟩)
  obtain ⟨x, y, hissued⟩ := issued h hclock userId v hv
  have hc := clocked h hclock
  have hsigned := hc.signed x hissued.signing.1 _ _ hissued.signing.2
  refine ⟨x, y, hissued.signing, hissued.storing, hissued.order, hc.past y hissued.storing.1, ?_, ?_⟩
  · have hlive := s.state.live _ v hv
    rw [hissued.expires] at hlive
    exact hlive
  · intro request hextract
    have huser : v.value.userId = some userId := by
      rw [hsigned]
      rfl
    rw [hstate, guardAllows_iff hextract huser, hsigned, not_expired_iff]
    simp [hv]

/-- A token passes the guard for as long as its key lives exactly when it was
stored in the millisecond it was signed in and that was the first of a second. -/
theorem usable_for_life_iff {signing storing : Int} (hle : signing ≤ storing)
    (hextract : extractTokenFromHeader request = some (.signed (Jwt.sign (some userId) signing)))
    (hnow : st.now = storing) (hkey : st.strings (TokenCall.key userId) =
      some ⟨Jwt.sign (some userId) signing, storing + 1000 * EXPIRE_SEC⟩) :
    (∀ t, storing ≤ t → t < storing + 1000 * EXPIRE_SEC → GuardAllows (st.tick t) request) ↔
      signing = storing ∧ signing % 1000 = 0 := by
  have hexpire : (EXPIRE_SEC : Int) = 300 := rfl
  have hallows : ∀ t, storing ≤ t → t < storing + 1000 * EXPIRE_SEC →
      (GuardAllows (st.tick t) request ↔ t < (signing / 1000 + 300) * 1000) := by
    intro t _ ht
    rw [guardAllows_iff hextract rfl, not_expired_iff]
    simp only [Redis.Store.tick, hkey, Option.filter_some, decide_eq_true_eq, ht, if_true,
      Option.some.injEq, exists_eq', and_true]
  constructor
  · intro hall
    have hlast := (hallows (storing + 299999) (by omega) (by omega)).mp
      (hall _ (by omega) (by omega))
    omega
  · rintro ⟨rfl, hsecond⟩ t hge hlt
    rw [hallows t hge hlt]
    omega

end Usable

/-- User 7 is admitted half a second after the full second, and asks later. -/
def admittedThenAsking (t : Int) : List TokenAct :=
  enqueued 0 7 0 ++ [.env (.tick 500)] ++ activated 1 500 ++ [.env (.tick t), .start 2 (.scan 7)]

theorem hands_of_check {s s' : TokenServer} {i : CallId} {userId : Int} {token : Jwt}
    (hs : serveTokens s (.answer i .quiet) = some s')
    (h : (s'.calls i).map (fun r => (r.label, r.script.ending)) =
      some (.scan userId, some (.ok (.queue (.createActive token))))) :
    Hands s (.answer i .quiet) s' userId token := by
  obtain ⟨r, hr, hr'⟩ := Option.map_eq_some_iff.mp h
  simp only [Prod.mk.injEq] at hr'
  obtain ⟨hlabel, hending⟩ := hr'
  refine ⟨hs, i, .quiet, r, rfl, hr, Or.inr hlabel, ?_⟩
  cases hscript : r.script <;> simp_all [Interleaving.Script.ending]

theorem handed_token_usable_iff_early :
    ∃ s s' : TokenServer, Machine.run serveTokens (.init 0) (admittedThenAsking 10000) = some s ∧
      ∃ x y, (x ∈ s.log ∧ x.answer = ⟨.sign (some 7), some (Jwt.sign (some 7) 500)⟩) ∧
        (y ∈ s.log ∧ y.answer = ⟨store (toString (7 : Int)) (Jwt.sign (some 7) 500), some true⟩) ∧
        x.before.now ≤ y.before.now ∧ y.before.now ≤ s.state.now ∧
        s.state.now < y.before.now + 1000 * EXPIRE_SEC ∧
        ∀ request, extractTokenFromHeader request = some (.signed (Jwt.sign (some 7) 500)) →
          (GuardAllows s'.state request ↔ s.state.now < (x.before.now / 1000 + 300) * 1000) := by
  have h : (Machine.run serveTokens (.init 0) (admittedThenAsking 10000 ++ [.answer 2 .quiet])).map
      (fun s => (s.calls 2).map fun r => (r.label, r.script.ending)) =
      some (some (.scan 7, some (.ok (.queue (.createActive (Jwt.sign (some 7) 500)))))) := by
    decide +kernel
  have hchecks : Machine.checks serveTokens oneClock? (.init 0) (admittedThenAsking 10000) = true := by
    decide +kernel
  obtain ⟨s', hs', hcheck⟩ := Option.map_eq_some_iff.mp h
  obtain ⟨s, hs, hstep⟩ := Machine.run_concat.mp hs'
  exact ⟨s, s', hs, handed_token_usable_iff hs
    (Machine.throughout_true.along_of_checks oneClock_of_check hchecks) (hands_of_check hstep hcheck)⟩

/-- The token has expired and its key has not. -/
theorem handed_token_refused :
    ∃ s s' : TokenServer, Machine.run serveTokens (.init 0) (admittedThenAsking 300200) = some s ∧
      Machine.Along serveTokens OneClock (.init 0) (admittedThenAsking 300200) ∧
      Hands s (.answer 2 .quiet) s' 7 (Jwt.sign (some 7) 500) ∧
      ∀ request, extractTokenFromHeader request = some (.signed (Jwt.sign (some 7) 500)) →
        ¬ GuardAllows s'.state request := by
  have h : (Machine.run serveTokens (.init 0) (admittedThenAsking 300200 ++ [.answer 2 .quiet])).map
      (fun s => ((s.calls 2).map (fun r => (r.label, r.script.ending)),
        (Jwt.sign (some 7) 500).expired s.state.now)) =
      some (some (.scan 7, some (.ok (.queue (.createActive (Jwt.sign (some 7) 500))))), true) := by
    decide +kernel
  have hchecks : Machine.checks serveTokens oneClock? (.init 0) (admittedThenAsking 300200) =
      true := by
    decide +kernel
  obtain ⟨s', hs', hcheck⟩ := Option.map_eq_some_iff.mp h
  simp only [Prod.mk.injEq] at hcheck
  obtain ⟨s, hs, hstep⟩ := Machine.run_concat.mp hs'
  refine ⟨s, s', hs, Machine.throughout_true.along_of_checks oneClock_of_check hchecks,
    hands_of_check hstep hcheck.1, ?_⟩
  intro request hextract hallows
  have hvalid := ((guardAllows_iff hextract rfl).mp hallows).1
  rw [hcheck.2] at hvalid
  contradiction

end HighVolumeBooking
