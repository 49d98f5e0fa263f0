import HighVolumeBooking.Guarantees.Admission

namespace HighVolumeBooking

open Interleaving (CallId Executed Pool Running)
open WaitingTokenQueueRepository (WAITING_TOKENS_KEY)
open ActiveTokenQueueRepository (EXPIRE_SEC key key_inj)
open TokenCall (store)
open TokenQueueService (QUEUE_THROUGHPUT)

/-- The SET for the member reached Redis. -/
def wrote (member : String) (x : Executed tokenServer TokenCall) : Bool :=
  match x.answer with
  | ⟨.attempt (.setNX k _ _), some _⟩ => k == key member
  | _ => false

def Written (member : String) (log : List (Executed tokenServer TokenCall)) : Prop :=
  ∃ x ∈ log, wrote member x = true

/-- A step of call i, or time that passes without a key expiring. -/
def OfRun (i : CallId) (s : TokenServer) (a : TokenAct) : Prop :=
  a.owner = some i ∨ ∃ t, a = .env (.tick t) ∧
    ∀ key v, s.state.strings key = some v → t < v.expiresAt

/-- What a run that is alone has done so far, from a store on. -/
inductive Phase (st : Redis.Store Jwt) (i : CallId) (s : TokenServer) : Prop where
  | fresh (r : TokenRun) (hr : s.calls i = some r) (hlabel : r.label = .activate)
      (hanswers : r.answers = []) (hwaiting : s.waiting = st.zsets WAITING_TOKENS_KEY)
  | serving (hserving : Serving s i ((st.zsets WAITING_TOKENS_KEY).members.take QUEUE_THROUGHPUT))
      (hwaiting : s.waiting = st.zsets WAITING_TOKENS_KEY)
  | done (r : TokenRun) (hr : s.calls i = some r) (hdone : r.script = .done .none ∧ r.queue = [])
      (hwaiting : ∀ member, member ∈ s.waiting ↔ member ∈ st.zsets WAITING_TOKENS_KEY ∧
        member ∉ (st.zsets WAITING_TOKENS_KEY).members.take QUEUE_THROUGHPUT)

/-- Keys were there before or were written by the run. -/
def Keyed (st : Redis.Store Jwt) (s : TokenServer) : Prop :=
  ∀ member, s.active member ≠ none ↔ st.strings (key member) ≠ none ∨ Written member s.log

section Steps

variable {st : Redis.Store Jwt} {s s' : TokenServer} {a : TokenAct} {i : CallId}

theorem written_append {member : String} {log : List (Executed tokenServer TokenCall)}
    {x : Executed tokenServer TokenCall} :
    Written member (log ++ [x]) ↔ Written member log ∨ wrote member x = true := by
  simp [Written, or_and_right, exists_or]

/-- The calls of a pool in which only an activation was started. -/
structure Only (i : CallId) (s : TokenServer) : Prop where
  others : ∀ j, j ≠ i → s.calls j = none
  run : ∃ r, s.calls i = some r ∧ r.label = .activate

theorem Only.label (honly : Only i s) {j : CallId} {r : TokenRun} (hr : s.calls j = some r) :
    j = i ∧ r.label = .activate := by
  by_cases hj : j = i
  · subst hj
    obtain ⟨q, hq, hlabel⟩ := honly.run
    obtain rfl := Option.some.inj (hr.symm.trans hq)
    exact ⟨rfl, hlabel⟩
  · rw [honly.others j hj] at hr
    contradiction

theorem only_step (hrun : OfRun i s a) (honly : Only i s) (h : serveTokens s a = some s') :
    Only i s' := by
  refine ⟨?_, ?_⟩
  · intro j hj
    rw [Pool.calls_step (serve_step h).2, honly.others j hj]
    rcases hrun with howner | ⟨t, rfl, _⟩
    · rw [howner]
      exact fun heq => hj (Option.some.inj heq).symm
    · simp [Interleaving.Act.owner]
  · obtain ⟨r, hr, hlabel⟩ := honly.run
    obtain ⟨r', hr', hlabel'⟩ := Pool.label_step (serve_step h).2 hr
    exact ⟨r', hr', hlabel'.trans hlabel⟩

theorem keyed_step (hst : Staged s) (hrun : OfRun i s a) (honly : Only i s) (hkeyed : Keyed st s)
    (h : serveTokens s a = some s') : Keyed st s' := by
  intro member
  have hsame : ∀ {x : Executed tokenServer TokenCall}, s'.state.strings = s.state.strings →
      s'.log = s.log ++ [x] → wrote member x = false →
      (s'.active member ≠ none ↔ st.strings (key member) ≠ none ∨ Written member s'.log) := by
    intro x hstrings hlog hx
    rw [TokenServer.active, hstrings, hlog, written_append, hx]
    simp only [Bool.false_eq_true, or_false]
    exact hkeyed member
  cases moved hst h with
  | quiet hstate hlog =>
    rw [TokenServer.active, hstate, hlog]
    exact hkeyed member
  | tick t ha _ hs =>
    subst hs
    rcases hrun with howner | ⟨u, hu, hkeep⟩
    · rw [ha] at howner
      contradiction
    · obtain rfl : t = u := by
        rw [ha] at hu
        cases hu
        rfl
      have hstrings := Redis.Store.strings_tick (hkeep (key member))
      rw [TokenServer.active, hstrings]
      exact hkeyed member
  | read j e r o reply _ _ hread _ hstate hlog =>
    refine hsame (by rw [hstate]) hlog ?_
    cases o with
    | redis c => rfl
    | attempt c => contradiction
    | now => rfl
    | sign userId => rfl
  | join j r userId now _ hr hlabel _ _ _ =>
    rw [(honly.label hr).2] at hlabel
    contradiction
  | clear j batch _ _ _ hstate hlog =>
    exact hsame (by rw [hstate, Redis.Store.strings_exec_other (by simp) (by simp)]) hlog rfl
  | expire j r id _ hr hlabel _ _ _ =>
    rw [(honly.label hr).2] at hlabel
    contradiction
  | lose j m token _ hstate hlog => exact hsame (by rw [hstate]) hlog rfl
  | store j batch m token _ _ _ _ hstate hlog =>
    rw [hlog, written_append, TokenServer.active, hstate,
      Redis.Store.strings_exec_setNX (by decide)]
    by_cases hm : member = m
    · subst hm
      have hwrote : wrote member ⟨.activate, ⟨store member token, some (s.state.exec
          (.setNX (key member) token EXPIRE_SEC)).1⟩, s.state⟩ = true := beq_self_eq_true _
      simp only [hwrote, or_true, iff_true, true_and]
      split
      · simp
      · rename_i hk
        exact hk
    · have hwrote : wrote member ⟨.activate, ⟨store m token, some (s.state.exec
          (.setNX (key m) token EXPIRE_SEC)).1⟩, s.state⟩ = false := by
        refine beq_eq_false_iff_ne.mpr fun hk => hm (key_inj hk).symm
      rw [if_neg fun hk => hm (key_inj hk.1), hwrote]
      simp only [Bool.false_eq_true, or_false]
      exact hkeyed member

/-- Only its removal takes anybody out of the queue. -/
theorem waiting_step (hst : Staged s) (honly : Only i s) (h : serveTokens s a = some s') :
    s'.waiting = s.waiting ∨ ∃ batch, Serving s i batch ∧
      s'.waiting = s.waiting.remove batch ∧
      ∃ r, s'.calls i = some r ∧ r.script = .done .none ∧ r.queue = [] := by
  cases waiting_moved hst h with
  | same h => exact Or.inl h
  | join j r userId now _ hr hlabel _ _ =>
    rw [(honly.label hr).2] at hlabel
    contradiction
  | clear j batch _ hserving hdone h =>
    obtain rfl : j = i := by
      obtain ⟨r, _, hr, _⟩ := hserving
      exact (honly.label hr).1
    exact Or.inr ⟨batch, hserving, h, hdone⟩

/-- An activation that has read nothing yet is about to read. -/
theorem atFront_of_fresh {r : TokenRun} (hst : Staged s) (hr : s.calls i = some r)
    (hlabel : r.label = .activate) (hanswers : r.answers = []) :
    s.AtFront i ∧ r.queue = [] := by
  have hstage := hst.stage i r hr
  rw [hlabel, hanswers] at hstage
  obtain ⟨hidle, hqueue⟩ : r.script = TokenCall.activating ∧ r.queue = [] := by
    generalize r.script = script at hstage
    generalize r.queue = queue at hstage
    cases hstage
    exact ⟨rfl, rfl⟩
  exact ⟨⟨r, _, hr, Running.next_eq_some.mpr
    ⟨hst.uncrashed i r hr, Or.inr ⟨hidle, hqueue⟩⟩⟩, hqueue⟩

/-- Its first step is to read. -/
theorem read_of_fresh {r : TokenRun} (hst : Staged s) (hr : s.calls i = some r)
    (hlabel : r.label = .activate) (hanswers : r.answers = []) (howner : a.owner = some i)
    (h : serveTokens s a = some s') : s.AtFront i ∧ a = .answer i .quiet := by
  obtain ⟨hfront, hqueue⟩ := atFront_of_fresh hst hr hlabel hanswers
  obtain ⟨hcrash, hpool⟩ := serve_step h
  have hreads := hfront
  obtain ⟨q, k, hq, hn⟩ := hreads
  obtain rfl := Option.some.inj (hr.symm.trans hq)
  obtain ⟨e, rfl⟩ := Pool.answer_of_next hpool howner hcrash hr hn hqueue
  obtain ⟨q, o, k', reply, st', hq, hn', hx, _⟩ := Pool.step_answer hpool
  obtain rfl := Option.some.inj (hr.symm.trans hq)
  obtain ⟨rfl, _⟩ := Sigma.mk.inj (Option.some.inj (hn.symm.trans hn'))
  cases e with
  | quiet => exact ⟨hfront, rfl⟩
  | failed | read | tick => simp only [TokenOp.exec, reduceCtorEq] at hx

theorem phase_fresh {r : TokenRun} (hst : Staged s) (hrun : OfRun i s a) (hr : s.calls i = some r)
    (hlabel : r.label = .activate) (hanswers : r.answers = [])
    (hwaiting : s.waiting = st.zsets WAITING_TOKENS_KEY) (h : serveTokens s a = some s') :
    Phase st i s' := by
  rcases hrun with howner | ⟨t, rfl, _⟩
  · obtain ⟨hfront, rfl⟩ := read_of_fresh hst hr hlabel hanswers howner h
    have hbatch : s.front = (st.zsets WAITING_TOKENS_KEY).members.take QUEUE_THROUGHPUT := by
      rw [← hwaiting]
      exact Redis.SortedSet.range_first s.waiting (by decide)
    obtain ⟨hstate, _, r', hr', hlabel', hanswers', hqueue', hscript⟩ :=
      front_read hst hfront h
    have hsame : s'.waiting = st.zsets WAITING_TOKENS_KEY :=
      (congrArg (fun st => st.zsets WAITING_TOKENS_KEY) hstate).trans hwaiting
    by_cases hempty : s.front.length = 0
    · rw [if_pos hempty] at hscript
      refine .done r' hr' ⟨hscript, hqueue'⟩ ?_
      intro member
      rw [hsame, ← hbatch, List.length_eq_zero_iff.mp hempty]
      simp
    · rw [if_neg hempty] at hscript
      refine .serving ⟨r', [], hr', hlabel', ?_, ?_⟩ hsame
      · rw [hscript]
        exact TokenCall.admitting_unfinished _ _
      · rw [hanswers', hbatch]
  · obtain ⟨st', hst', rfl⟩ := Pool.step_env (serve_step h).2
    simp only [Option.ite_none_right_eq_some, Option.some.injEq] at hst'
    obtain ⟨_, rfl⟩ := hst'
    exact .fresh r hr hlabel hanswers hwaiting

theorem phase_step (hst : Staged s) (hrun : OfRun i s a) (honly : Only i s) (hphase : Phase st i s)
    (h : serveTokens s a = some s') : Phase st i s' := by
  have hwaiting' := waiting_step hst honly h
  cases hphase with
  | fresh r hr hlabel hanswers hwaiting => exact phase_fresh hst hrun hr hlabel hanswers hwaiting h
  | serving hserving hwaiting =>
    rcases serving_step hst h hserving with hgo | ⟨_, hstate, ⟨r, hr, hdone⟩, _⟩
    · rcases hwaiting' with hsame | ⟨batch, _, _, r, hr, hdone, _⟩
      · exact .serving hgo (hsame.trans hwaiting)
      · obtain ⟨q, _, hq, _, hf, _⟩ := hgo
        obtain rfl := Option.some.inj (hr.symm.trans hq)
        rw [hdone] at hf
        contradiction
    · refine .done r hr hdone ?_
      intro member
      rw [TokenServer.waiting, hstate, Redis.Store.zsets_exec_zrem, if_pos rfl,
        Redis.SortedSet.mem_remove, ← hwaiting]
      rfl
  | done r hr hdone hwaiting =>
    have hsame : ∀ member, member ∈ s'.waiting ↔ member ∈ s.waiting := by
      intro member
      rcases hwaiting' with hsame | ⟨batch, ⟨q, _, hq, _, hf, _⟩, _⟩
      · rw [hsame]
      · obtain rfl := Option.some.inj (hr.symm.trans hq)
        rw [hdone.1] at hf
        contradiction
    rcases hrun with howner | ⟨t, rfl, _⟩
    · obtain ⟨hcrash, hpool⟩ := serve_step h
      refine absurd howner (Pool.ended_step hpool hcrash hr ?_ hdone.2)
      rw [hdone.1]
      rfl
    · obtain ⟨st', _, rfl⟩ := Pool.step_env (serve_step h).2
      exact .done r hr hdone fun member => (hsame member).trans (hwaiting member)

/-- What holds of a run that is alone at each of its steps. -/
structure Underway (st : Redis.Store Jwt) (i : CallId) (s : TokenServer) : Prop where
  staged : Staged s
  only : Only i s
  keyed : Keyed st s
  phase : Phase st i s

theorem underway_start (h : serveTokens (Pool.init st) (.start i .activate) = some s) :
    Underway st i s := by
  have hst : Staged (Pool.init st : TokenServer) := by
    refine ⟨?_, ?_⟩
    · intro j r hr
      simp [Pool.init] at hr
    · intro j r hr
      simp [Pool.init] at hr
  refine { staged := staged_step hst h, only := ?_, keyed := ?_, phase := ?_ }
  · obtain ⟨_, rfl⟩ := Pool.step_start (serve_step h).2
    exact ⟨fun j hj => Function.update_of_ne hj _ _, _, Function.update_self .., rfl⟩
  · obtain ⟨_, rfl⟩ := Pool.step_start (serve_step h).2
    intro member
    simp [Written, Pool.init, TokenServer.active]
  · obtain ⟨_, rfl⟩ := Pool.step_start (serve_step h).2
    exact .fresh _ (Function.update_self ..) rfl rfl rfl

theorem underway {acts : List TokenAct}
    (h : Machine.run serveTokens (Pool.init st) (.start i .activate :: acts) = some s)
    (halone : Machine.Along serveTokens (OfRun i) (Pool.init st) (.start i .activate :: acts)) :
    Underway st i s := by
  obtain ⟨m, hm, hrun⟩ := Machine.run_cons.mp h
  refine Machine.along_induction (Underway st i) (underway_start hm) ?_ hrun (halone.2 _ hm)
  intro m a t _ hu hrun hs
  exact { staged := staged_step hu.staged hs
          only := only_step hrun hu.only hs
          keyed := keyed_step hu.staged hrun hu.only hu.keyed hs
          phase := phase_step hu.staged hrun hu.only hu.phase hs }

/-- At its end a run has taken the first users out of the queue. -/
theorem Underway.ended {r : TokenRun} (hu : Underway st i s) (hr : s.calls i = some r)
    (hend : r.ended = true) : ∀ member, member ∈ s.waiting ↔
      member ∈ st.zsets WAITING_TOKENS_KEY ∧
        member ∉ (st.zsets WAITING_TOKENS_KEY).members.take QUEUE_THROUGHPUT := by
  have hf : r.script.finished = true := by
    simp only [Running.ended, hu.staged.uncrashed i r hr, Bool.false_or, Bool.and_eq_true] at hend
    exact hend.1
  cases hu.phase with
  | fresh q hq hlabel hanswers _ =>
    obtain rfl := Option.some.inj (hr.symm.trans hq)
    have hstage := hu.staged.stage i r hr
    rw [hlabel, hanswers] at hstage
    generalize r.script = script at hstage hf
    generalize r.queue = queue at hstage
    cases hstage
    contradiction
  | serving hserving _ =>
    obtain ⟨q, _, hq, _, hunfinished, _⟩ := hserving
    obtain rfl := Option.some.inj (hr.symm.trans hq)
    rw [hf] at hunfinished
    contradiction
  | done q hq hdone hwaiting => exact hwaiting

/-- A run that is alone loses nobody exactly when each user it reads had an
active key already or was written. -/
theorem nobody_lost_iff {acts : List TokenAct} {r : TokenRun}
    (h : Machine.run serveTokens (Pool.init st) (.start i .activate :: acts) = some s)
    (halone : Machine.Along serveTokens (OfRun i) (Pool.init st) (.start i .activate :: acts))
    (hr : s.calls i = some r) (hend : r.ended = true) :
    (∀ member ∈ st.zsets WAITING_TOKENS_KEY, member ∈ s.waiting ∨ s.active member ≠ none) ↔
      ∀ member ∈ (st.zsets WAITING_TOKENS_KEY).members.take QUEUE_THROUGHPUT,
        st.strings (key member) ≠ none ∨ Written member s.log := by
  have hu := underway h halone
  have hwaiting := hu.ended hr hend
  constructor
  · intro hall member hmem
    rw [← hu.keyed member]
    have hin : member ∈ st.zsets WAITING_TOKENS_KEY := List.mem_of_mem_take hmem
    rcases hall member hin with hw | hactive
    · exact absurd hmem ((hwaiting member).mp hw).2
    · exact hactive
  · intro hall member hin
    by_cases hmem : member ∈ (st.zsets WAITING_TOKENS_KEY).members.take QUEUE_THROUGHPUT
    · exact Or.inr ((hu.keyed member).mpr (hall member hmem))
    · exact Or.inl ((hwaiting member).mpr ⟨hin, hmem⟩)

end Steps

/-- A store in which user 7 waits. -/
def oneWaiting : Redis.Store Jwt :=
  ((Redis.Store.init 0).exec (.zaddNX WAITING_TOKENS_KEY 1 (toString (7 : Int)))).2

theorem ofRun_of_check (s : TokenServer) (a : TokenAct) (_ : True)
    (h : (a.owner == some 0) = true) : OfRun 0 s a :=
  Or.inl (by simpa using h)

/-- A store in which the users 7, 8 and 9 wait, and user 9 has a key already. -/
def threeWaiting : Redis.Store Jwt :=
  ((((oneWaiting.exec (.zaddNX WAITING_TOKENS_KEY 2 (toString (8 : Int)))).2.exec
    (.zaddNX WAITING_TOKENS_KEY 3 (toString (9 : Int)))).2.exec
      (.setNX (key (toString (9 : Int))) (Jwt.sign (some 9) 0) EXPIRE_SEC)).2)

/-- One SET of the batch stores a key, one fails, and one meets a key. -/
def serveMixed : List TokenAct :=
  [.start 0 .activate, .answer 0 .quiet, .answer 0 (.read 4), .issue 0, .answer 0 (.read 4),
    .flush 0 .quiet, .issue 0, .flush 0 .failed, .answer 0 (.read 5), .issue 0, .flush 0 .quiet,
    .answer 0 .quiet]

theorem nobody_lost_iff_serveMixed :
    ∃ s, ∃ r : TokenRun, Machine.run serveTokens (Pool.init threeWaiting) serveMixed = some s ∧
      s.calls 0 = some r ∧ r.ended = true ∧
      ["7", "8", "9"].map (fun member => (s.active member).isSome) = [true, false, true] ∧
      ((∀ member ∈ threeWaiting.zsets WAITING_TOKENS_KEY,
          member ∈ s.waiting ∨ s.active member ≠ none) ↔
        ∀ member ∈ (threeWaiting.zsets WAITING_TOKENS_KEY).members.take QUEUE_THROUGHPUT,
          threeWaiting.strings (key member) ≠ none ∨ Written member s.log) := by
  have h : (Machine.run serveTokens (Pool.init threeWaiting) serveMixed).map
      (fun s => ((s.calls 0).map fun r => r.ended,
        ["7", "8", "9"].map fun member => (s.active member).isSome)) =
      some (some true, [true, false, true]) := by
    decide +kernel
  have hchecks : Machine.checks serveTokens (fun _ a => a.owner == some 0) (Pool.init threeWaiting)
      serveMixed = true := by
    decide +kernel
  obtain ⟨s, hs, h⟩ := Option.map_eq_some_iff.mp h
  obtain ⟨hr, hactive⟩ := Prod.mk.inj h
  obtain ⟨r, hr, hend⟩ := Option.map_eq_some_iff.mp hr
  exact ⟨s, r, hs, hr, hend, hactive,
    nobody_lost_iff hs (Machine.throughout_true.along_of_checks ofRun_of_check hchecks) hr hend⟩

/-- The steps of a run that finds one user, after its start. -/
def serveOne (e : TokenEvent) : List TokenAct :=
  [.start 0 .activate, .answer 0 .quiet, .answer 0 (.read 2), .issue 0, .flush 0 e,
    .answer 0 .quiet]

/-- The SET for the only user fails, and he is removed all the same. -/
theorem lost_when_write_fails :
    ∃ s, ∃ r : TokenRun, Machine.run serveTokens (Pool.init oneWaiting) (serveOne .failed) = some s ∧
      s.calls 0 = some r ∧ r.ended = true ∧
      "7" ∈ oneWaiting.zsets WAITING_TOKENS_KEY ∧ "7" ∉ s.waiting ∧ s.active "7" = none := by
  have h : (Machine.run serveTokens (Pool.init oneWaiting) (serveOne .failed)).map
      (fun s => ((s.calls 0).map fun r => r.ended, decide ("7" ∈ s.waiting),
        (s.active "7").isNone)) = some (some true, false, true) := by
    decide +kernel
  obtain ⟨s, hs, hs'⟩ := Option.map_eq_some_iff.mp h
  simp only [Prod.mk.injEq, decide_eq_false_iff_not, Option.isNone_iff_eq_none] at hs'
  obtain ⟨hr, hwaiting, hactive⟩ := hs'
  obtain ⟨r, hr, hend⟩ := Option.map_eq_some_iff.mp hr
  exact ⟨s, r, hs, hr, hend, by decide +kernel, hwaiting, hactive⟩

end HighVolumeBooking
