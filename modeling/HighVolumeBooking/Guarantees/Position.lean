import HighVolumeBooking.Application.TokenQueue
import HighVolumeBooking.Interleaving.Solo

namespace HighVolumeBooking

open Interleaving (Script Went solo_ask solo_call solo_done)
open WaitingTokenQueueRepository (WAITING_TOKENS_KEY)

abbrev waitingSet (store : Redis.Store Jwt) : Redis.SortedSet Int String :=
  store.zsets WAITING_TOKENS_KEY

section Solo

variable {β : Type} {store : Redis.Store Jwt} {es : List TokenEvent}
  {w : Went tokenServer TokenError β}

theorem solo_redis {c : Redis.Command Jwt} {k : c.Reply → TokenScript β} :
    (Script.call (S := tokenServer) (TokenOp.redis c) k).solo store es = some w ↔
      ∃ es' w', es = .quiet :: es' ∧
        (k (store.exec c).1).solo (store.exec c).2 es' = some w' ∧
        w = w'.after ⟨TokenOp.redis c, (store.exec c).1⟩ := by
  rw [solo_call]
  constructor
  · intro h
    obtain ⟨e, es', reply, store', w', rfl, hx, hw', rfl⟩ := h
    cases e with
    | quiet =>
      obtain ⟨rfl, rfl⟩ := Prod.mk.inj (Option.some.inj hx)
      exact ⟨es', w', rfl, hw', rfl⟩
    | failed | read | tick => contradiction
  · intro h
    obtain ⟨es', w', rfl, hw', rfl⟩ := h
    exact ⟨.quiet, es', _, _, w', rfl, rfl, hw', rfl⟩

theorem solo_now {k : Int → TokenScript β} :
    (Script.ask (S := tokenServer) TokenOp.now k).solo store es = some w ↔
      ∃ t es' w', es = .read t :: es' ∧ (k t).solo store es' = some w' ∧
        w = w'.after ⟨TokenOp.now, t⟩ := by
  cases es with
  | nil => simp [Script.solo]
  | cons e es =>
    rw [solo_ask]
    constructor
    · intro h
      obtain ⟨reply, store', w', hx, hw', rfl⟩ := h
      cases e <;> cases hx
      exact ⟨_, es, w', rfl, hw', rfl⟩
    · intro h
      obtain ⟨t, es', w', he, hw', rfl⟩ := h
      obtain ⟨rfl, rfl⟩ := List.cons.inj he
      exact ⟨t, store, w', rfl, hw', rfl⟩

end Solo

namespace TokenQueueService

variable {store : Redis.Store Jwt} {u t : Int} {n : Nat} {es : List TokenEvent}
  {w : Went tokenServer TokenError TokenQueue}

/-- The script of a user who is not waiting yet. -/
def entering (u : Int) : TokenScript TokenQueue :=
  .ask .now fun now => .call (.redis (.zaddNX WAITING_TOKENS_KEY now (toString u))) fun _ =>
    .call (.redis (.zcard WAITING_TOKENS_KEY)) fun order => .done (.createWaiting u order)

theorem addWaitingToken_eq (u : Int) : addWaitingToken u =
    .call (.redis (.zrank WAITING_TOKENS_KEY (toString u))) fun rankIdx =>
      match rankIdx with
      | some rankIdx => .done (.createWaiting u (rankIdx + 1))
      | none => entering u := by
  refine congrArg (Script.call _) (funext fun rankIdx => ?_)
  cases rankIdx <;> rfl

theorem getWaitingToken_eq (u : Int) : getWaitingToken u =
    .call (.redis (.zrank WAITING_TOKENS_KEY (toString u))) fun rankIdx =>
      match rankIdx with
      | some rankIdx => .done (.createWaiting u (rankIdx + 1))
      | none => .fail (.custom .waitingTokenNotFound) := by
  refine congrArg (Script.call _) (funext fun rankIdx => ?_)
  cases rankIdx <;> rfl

theorem exec_zrank (store : Redis.Store Jwt) (member : String) :
    store.exec (.zrank WAITING_TOKENS_KEY member) = ((waitingSet store).rank member, store) := rfl

theorem entering_solo (h : (entering u).solo store es = some w) :
    ∃ t, TokenEvent.read t ∈ es ∧
      waitingSet w.state = (waitingSet store).addNX ⟨t, toString u⟩ ∧
      w.result = .ok (.createWaiting u ((waitingSet store).addNX ⟨t, toString u⟩).card) := by
  obtain ⟨t, es, w, rfl, hadd, rfl⟩ := solo_now.mp h
  obtain ⟨es, w, rfl, hcard, rfl⟩ := solo_redis.mp hadd
  obtain ⟨es, w, rfl, hdone, rfl⟩ := solo_redis.mp hcard
  obtain ⟨rfl, rfl⟩ := solo_done.mp hdone
  have hset : waitingSet (store.exec (.zaddNX WAITING_TOKENS_KEY t (toString u))).2 =
      (waitingSet store).addNX ⟨t, toString u⟩ := by
    rw [waitingSet, Redis.Store.zsets_exec_zaddNX, if_pos rfl]
  exact ⟨t, by simp, hset, by rw [← hset]; rfl⟩

/-- A user who waits is told the rank, and a new one the size of the set. -/
theorem addWaitingToken_solo (h : (addWaitingToken u).solo store es = some w) :
    (∃ n, (waitingSet store).rank (toString u) = some n ∧ w.state = store ∧
      w.result = .ok (.createWaiting u (n + 1))) ∨
    ∃ t, TokenEvent.read t ∈ es ∧ toString u ∉ waitingSet store ∧
      waitingSet w.state = (waitingSet store).addNX ⟨t, toString u⟩ ∧
      w.result = .ok (.createWaiting u ((waitingSet store).addNX ⟨t, toString u⟩).card) := by
  rw [addWaitingToken_eq] at h
  obtain ⟨es, w, rfl, hw, rfl⟩ := solo_redis.mp h
  rw [exec_zrank] at hw
  cases hr : (waitingSet store).rank (toString u) with
  | some n =>
    rw [hr] at hw
    obtain ⟨rfl, rfl⟩ := solo_done.mp hw
    exact Or.inl ⟨n, rfl, rfl, rfl⟩
  | none =>
    rw [hr] at hw
    obtain ⟨t, ht, hset, hresult⟩ := entering_solo hw
    exact Or.inr ⟨t, List.mem_cons_of_mem _ ht, Redis.SortedSet.rank_eq_none.mp hr, hset, hresult⟩

theorem exists_addWaitingToken (store : Redis.Store Jwt) (u t : Int) :
    ∃ es w, (addWaitingToken u).solo store es = some w ∧ ∀ t', TokenEvent.read t' ∈ es → t' = t := by
  rw [addWaitingToken_eq]
  cases hr : (waitingSet store).rank (toString u) with
  | some n =>
    have hw : ∃ w, (Script.done (.createWaiting u (n + 1)) :
        TokenScript TokenQueue).solo store [] = some w := ⟨_, rfl⟩
    obtain ⟨w, hw⟩ := hw
    refine ⟨[.quiet], _, solo_redis.mpr ⟨[], w, rfl, ?_, rfl⟩, by simp⟩
    rw [exec_zrank, hr]
    exact hw
  | none =>
    have hw : ∃ w, (entering u).solo store [.read t, .quiet, .quiet] = some w := ⟨_, rfl⟩
    obtain ⟨w, hw⟩ := hw
    refine ⟨[.quiet, .read t, .quiet, .quiet], _, solo_redis.mpr ⟨_, w, rfl, ?_, rfl⟩, by simp⟩
    rw [exec_zrank, hr]
    exact hw

theorem getWaitingToken_solo (h : (waitingSet store).rank (toString u) = some n) :
    (getWaitingToken u).solo store es = some w ↔ es = [.quiet] ∧
      w = ⟨[⟨TokenOp.redis (.zrank WAITING_TOKENS_KEY (toString u)), some n⟩],
        .ok (.createWaiting u (n + 1)), store⟩ := by
  rw [getWaitingToken_eq, solo_redis, exec_zrank, h]
  constructor
  · intro hw
    obtain ⟨es, w, rfl, hw, rfl⟩ := hw
    obtain ⟨rfl, rfl⟩ := solo_done.mp hw
    exact ⟨rfl, rfl⟩
  · intro hw
    obtain ⟨rfl, rfl⟩ := hw
    exact ⟨[], _, rfl, solo_done.mpr ⟨rfl, rfl⟩, rfl⟩

end TokenQueueService

open TokenQueueService

/-- Entering the queue at t tells a user what asking right afterwards does. -/
def EntryIsPosition (store : Redis.Store Jwt) (u : Int) (t : Int) : Prop :=
  ∀ es w es' w', (addWaitingToken u).solo store es = some w →
    (∀ t', TokenEvent.read t' ∈ es → t' = t) →
    (getWaitingToken u).solo w.state es' = some w' →
    ∃ entry query, w.result = .ok entry ∧ w'.result = .ok query ∧ query.order = entry.order ∧
      query.estimateWaitingSec = entry.estimateWaitingSec

section Entry

variable {store : Redis.Store Jwt} {u t : Int}

/-- Among scores up to t a new member comes last unless a member with the
score t sorts after it. -/
theorem last_iff {s : Redis.SortedSet Int String} {member : String}
    (h : ∀ x ∈ s.entries, x.score ≤ t) :
    (∀ x ∈ s.entries, ¬ (⟨t, member⟩ : Redis.Scored Int String).le x) ↔
      ∀ x ∈ s.entries, x.score = t → x.member < member := by
  constructor
  · intro hlast x hx ht
    exact not_le.mp fun hle => hlast x hx (Or.inr ⟨ht.symm, hle⟩)
  · intro hbefore x hx hle
    rcases hle with hlt | ⟨ht, hle⟩
    · exact absurd (h x hx) (not_le.mpr hlt)
    · exact absurd hle (not_le.mpr (hbefore x hx ht.symm))

theorem entry_is_position_iff (h : ∀ x ∈ (waitingSet store).entries, x.score ≤ t) :
    EntryIsPosition store u t ↔ toString u ∈ waitingSet store ∨
      ∀ x ∈ (waitingSet store).entries, x.score = t → x.member < toString u := by
  rw [← last_iff h]
  constructor
  · intro hentry
    by_cases hu : toString u ∈ waitingSet store
    · exact Or.inl hu
    · right
      obtain ⟨es, w, hadd, hread⟩ := exists_addWaitingToken store u t
      rcases addWaitingToken_solo hadd with ⟨n, hn, _⟩ | ⟨t', ht', _, hset, hresult⟩
      · rw [Redis.SortedSet.rank_eq_none.mpr hu] at hn
        contradiction
      · obtain rfl := hread t' ht'
        have hcard : ((waitingSet store).addNX ⟨t', toString u⟩).card =
          (waitingSet store).card + 1 := Redis.SortedSet.card_addNX hu
        have hmem : toString u ∈ (waitingSet store).addNX ⟨t', toString u⟩ :=
          Redis.SortedSet.mem_addNX.mpr (Or.inr rfl)
        obtain ⟨n, hn⟩ := Redis.SortedSet.exists_rank hmem
        obtain ⟨entry, query, he, hq, horder, _⟩ := hentry es w _ _ hadd hread
          ((getWaitingToken_solo (hset ▸ hn)).mpr ⟨rfl, rfl⟩)
        obtain rfl := Except.ok.inj (hresult.symm.trans he)
        obtain rfl := Except.ok.inj hq
        have hn' : n = (waitingSet store).card := by
          simp only [TokenQueue.createWaiting] at horder
          omega
        exact (Redis.SortedSet.rank_addNX_eq_card hu).mp (hn.trans (congrArg some hn'))
  · intro hlast es w es' w' hadd hread hget
    rcases addWaitingToken_solo hadd with ⟨n, hn, hstate, hresult⟩ | ⟨t', ht', hu, hset, hresult⟩
    · obtain ⟨_, rfl⟩ := (getWaitingToken_solo (hstate ▸ hn)).mp hget
      exact ⟨_, _, hresult, rfl, rfl, rfl⟩
    · obtain rfl := hread t' ht'
      have hrank := (Redis.SortedSet.rank_addNX_eq_card hu).mpr (hlast.resolve_left hu)
      have hcard : ((waitingSet store).addNX ⟨t', toString u⟩).card =
        (waitingSet store).card + 1 := Redis.SortedSet.card_addNX hu
      obtain ⟨_, rfl⟩ := (getWaitingToken_solo (hset ▸ hrank)).mp hget
      exact ⟨_, _, hcard ▸ hresult, rfl, rfl, rfl⟩

end Entry

/-- User 9 waits since 0. -/
def nineWaits : Redis.Store Jwt :=
  (Redis.Store.init 0).modify WAITING_TOKENS_KEY (Redis.SortedSet.empty.addNX ⟨0, "9"⟩)

theorem entry_is_position_later : (∀ x ∈ (waitingSet nineWaits).entries, x.score ≤ 1) ∧
    (EntryIsPosition nineWaits 10 1 ↔ toString (10 : Int) ∈ waitingSet nineWaits ∨
      ∀ x ∈ (waitingSet nineWaits).entries, x.score = 1 → x.member < toString (10 : Int)) :=
  ⟨by decide +kernel, entry_is_position_iff (by decide +kernel)⟩

/-- User 10 enters in the millisecond of user 9: the size of the set is 2, but
"10" sorts before "9". -/
theorem entry_not_position : ¬ EntryIsPosition nineWaits 10 0 := by
  intro h
  have hrun : ((addWaitingToken 10).solo nineWaits [.quiet, .read 0, .quiet, .quiet]).bind
      (fun w => ((getWaitingToken 10).solo w.state [.quiet]).map fun w' =>
        (w.result.map TokenQueue.order, w'.result.map TokenQueue.order)) =
      some (.ok 2, .ok 1) := by
    decide +kernel
  obtain ⟨w, hadd, hget⟩ := Option.bind_eq_some_iff.mp hrun
  obtain ⟨w', hget, hpair⟩ := Option.map_eq_some_iff.mp hget
  obtain ⟨entry, query, he, hq, horder, _⟩ := h _ w _ w' hadd (by simp) hget
  rw [he, hq] at hpair
  simp only [Except.map, Prod.mk.injEq, Except.ok.injEq] at hpair
  omega

end HighVolumeBooking
