import HighVolumeBooking.Guarantees.Admission

namespace HighVolumeBooking

open Interleaving (CallId Executed Pool)
open WaitingTokenQueueRepository (WAITING_TOKENS_KEY)
open ActiveTokenQueueRepository (EXPIRE_SEC key_inj)
open TokenCall (admitting store stores)

/-- The log entry of a ZADD that added the member. -/
def adds (member : String) (x : Executed tokenServer TokenCall) : Bool :=
  match x.answer with
  | ⟨.redis (.zaddNX key _ m), added⟩ => key == WAITING_TOKENS_KEY && m == member && added == 1
  | _ => false

/-- The log entry of a SET that created the active key of the member. -/
def creates (member : String) (x : Executed tokenServer TokenCall) : Bool :=
  match x.answer with
  | ⟨.attempt (.setNX key _ _), stored⟩ =>
    key == ActiveTokenQueueRepository.key member && stored == some true
  | _ => false

namespace TokenServer

/-- How often the user was added to the waiting queue. -/
def added (s : TokenServer) (userId : Int) : Nat := s.log.countP (adds (toString userId))

/-- How often an active key was created for the user. -/
def created (s : TokenServer) (userId : Int) : Nat := s.log.countP (creates (toString userId))

/-- The run has read the member and not written his key yet. -/
structure Due (s : TokenServer) (i : CallId) (member : String) : Prop where
  owed : ∃ batch r token, Serving s i batch ∧ member ∈ batch ∧ s.calls i = some r ∧
    r.Owes (store member token)

/-- The step is a run reading the member from the queue. -/
def Reads (s : TokenServer) (a : TokenAct) (member : String) : Prop :=
  ∃ i r k, a = .answer i .quiet ∧ s.calls i = some r ∧
    r.next = some ⟨.redis (.zrange WAITING_TOKENS_KEY 0 (TokenQueueService.QUEUE_THROUGHPUT - 1)),
      k⟩ ∧
    member ∈ s.waiting.range 0 (TokenQueueService.QUEUE_THROUGHPUT - 1)

/-- The active key of the member goes with the step. -/
def Drops (s : TokenServer) (a : TokenAct) (member : String) : Prop :=
  s.active member ≠ none ∧ ∃ t, serveTokens s a = some t ∧ t.active member = none

/-- No key goes that a run has yet to write, and no run reads a user whom another
run in progress has let in and whose key has gone. -/
structure Timely (s : TokenServer) (a : TokenAct) : Prop where
  drops : ∀ member i, s.Due i member → ¬ s.Drops a member
  reads : ∀ member, s.Reads a member → ∀ i batch, Serving s i batch → member ∈ batch →
    ¬ s.Due i member → s.active member ≠ none

end TokenServer

/-- No key was created for the member since he was last added. -/
def unused (member : String) (log : List (Executed tokenServer TokenCall)) : Bool :=
  log.foldl (fun b x => adds member x || (b && !creates member x)) false

section Log

variable {member : String} {log : List (Executed tokenServer TokenCall)}
  {x : Executed tokenServer TokenCall}

theorem unused_append : unused member (log ++ [x]) =
    (adds member x || (unused member log && !creates member x)) := by
  simp [unused, List.foldl_append]

/-- Each key takes up an entry of its own while keys are created for unused
entries only. -/
theorem created_le (hx : creates member x = true → unused member log = true)
    (h : log.countP (creates member) + (unused member log).toNat ≤ log.countP (adds member)) :
    (log ++ [x]).countP (creates member) + (unused member (log ++ [x])).toNat ≤
      (log ++ [x]).countP (adds member) := by
  rw [unused_append, List.countP_append, List.countP_append]
  have hboth : adds member x = true → creates member x = false := by
    obtain ⟨label, ⟨o, reply⟩, before⟩ := x
    cases o with
    | redis c => cases c <;> simp [adds, creates]
    | attempt c => simp [adds]
    | now => simp [adds]
    | sign userId => simp [adds]
  cases ha : adds member x with
  | true =>
    have hc := hboth ha
    simp only [List.countP_singleton, ha, hc]
    cases hu : unused member log <;> simp [hu] at h ⊢ <;> omega
  | false =>
    cases hc : creates member x with
    | true =>
      have hu := hx hc
      simp only [List.countP_singleton, ha, hc, hu] at h ⊢
      simp at h ⊢
      omega
    | false =>
      simp only [List.countP_singleton, ha, hc]
      simpa using h

end Log

section Writes

variable {batch todo : List String} {member : String} {token : Jwt}

theorem store_inj {m : String} {t : Jwt} (h : store m t = store member token) : m = member := by
  simp only [store, TokenOp.attempt.injEq, Redis.Command.setNX.injEq] at h
  exact key_inj h.1

theorem maySend_admitting (h : (admitting batch todo).MaySend (store member token)) :
    member ∈ todo := by
  induction todo with
  | nil =>
    obtain ⟨_, h⟩ := h
    contradiction
  | cons m todo ih =>
    obtain ⟨reply, h⟩ := h
    cases reply with
    | none => exact List.mem_cons_of_mem m (ih h)
    | some t =>
      rcases h with h | h
      · rw [store_inj h]
        exact List.mem_cons_self
      · exact List.mem_cons_of_mem m (ih h)

/-- Who is left to be handled may still get any token. -/
theorem maySend_of_mem (token : Jwt) (h : member ∈ todo) :
    (admitting batch todo).MaySend (store member token) := by
  induction todo with
  | nil => contradiction
  | cons m todo ih =>
    rcases List.mem_cons.mp h with rfl | h
    · exact ⟨some token, Or.inl rfl⟩
    · exact ⟨none, ih h⟩

theorem mem_stores {served : List (String × Option Jwt)} (h : store member token ∈ stores served) :
    member ∈ served.map Prod.fst := by
  obtain ⟨⟨m, reply⟩, hmem, hreply⟩ := List.mem_filterMap.mp h
  obtain ⟨t, _, hstore⟩ := Option.map_eq_some_iff.mp hreply
  obtain rfl := store_inj hstore
  exact List.mem_map.mpr ⟨_, hmem, rfl⟩

/-- A run writes no key twice. -/
theorem stores_once {served : List (String × Option Jwt)} {queue : List TokenOp}
    (hnodup : (served.map Prod.fst).Nodup) (h : store member token :: queue <:+ stores served)
    (t : Jwt) : store member t ∉ queue := by
  have hpair : (stores served).Pairwise fun o o' =>
      ∀ m t t', o = store m t → o' ≠ store m t' := by
    refine List.Pairwise.filterMap _ ?_ (List.pairwise_map.mp hnodup)
    intro d d' hne o ho o' ho' m t t' hm hm'
    obtain ⟨_, _, hd⟩ := Option.map_eq_some_iff.mp ho
    obtain ⟨_, _, hd'⟩ := Option.map_eq_some_iff.mp ho'
    exact hne ((store_inj (hd.trans hm)).trans (store_inj (hd'.trans hm')).symm)
  intro hmem
  exact (List.pairwise_cons.mp (hpair.sublist h.sublist)).1 _ hmem member token t rfl rfl

end Writes

section Due

variable {s s' : TokenServer} {a : TokenAct} {i : CallId} {batch : List String} {member : String}

theorem due_step (h : serveTokens s a = some s') (hdue : s'.Due i member) :
    s.Due i member ∨ (s.Reads a member ∧ ∀ b, ¬ Serving s i b) := by
  obtain ⟨batch, r', token, hserving, hmem, hr', howes⟩ := hdue
  rcases serving_before h hserving with hold | ⟨ha, hnone, ⟨q, k, hq, hn⟩, hfront⟩
  · have hold' := hold
    obtain ⟨r, _, hr, _⟩ := hold'
    exact Or.inl ⟨batch, r, token, hold, hmem, hr,
      Pool.owes_step (serve_step h).2 hr hr' howes⟩
  · rw [hfront] at hmem
    exact Or.inr ⟨⟨i, q, k, ha, hq, hn, hmem⟩, hnone⟩

/-- When a write arrives the run has no other for the same member. -/
theorem written_step (hreach : ∃ now, Machine.Reachable serveTokens (.init now) s)
    {r : TokenRun} {token : Jwt} {queue : List TokenOp} {e : TokenEvent}
    (h : serveTokens s (.flush i e) = some s') (hr : s.calls i = some r)
    (hq : r.queue = store member token :: queue) : ¬ s'.Due i member := by
  obtain ⟨now, hreach⟩ := hreach
  have hst := staged_reachable hreach
  rintro ⟨batch, r', t, hserving, hmem, hr', howes⟩
  have hserving' : Serving s i batch := by
    rcases serving_before h hserving with hold | ⟨ha, _⟩
    · exact hold
    · contradiction
  have hnodup := batch_nodup hreach hserving'
  obtain ⟨q, rest, hq', hlabel, hf, hanswers⟩ := hserving'
  obtain rfl := Option.some.inj (hr.symm.trans hq')
  have hstage := hst.stage i r hr
  rw [hlabel, hanswers] at hstage
  obtain ⟨served, todo, rfl, _, hscript⟩ := TokenCall.stage_serving hstage hf
  obtain ⟨q, o, queue', reply, st, hq', hqueue, _, rfl⟩ := Pool.step_flush (serve_step h).2
  obtain rfl := Option.some.inj (hr.symm.trans hq')
  rw [hq, List.cons.injEq] at hqueue
  obtain ⟨_, rfl⟩ := hqueue
  rcases Pool.calls_update hr' with ⟨_, rfl⟩ | ⟨hne, _⟩
  · obtain ⟨hserved, htodo, hdisj⟩ := List.nodup_append.mp hnodup
    rcases hscript with ⟨hscript, hsuffix⟩ | ⟨sent, m, tok, rfl, hscript, hsuffix⟩
    · rw [hq] at hsuffix
      have hin := mem_stores (hsuffix.subset List.mem_cons_self)
      rcases howes with hqueue | hsend
      · exact stores_once hserved hsuffix t hqueue
      · simp only [hscript] at hsend
        exact hdisj member hin member (maySend_admitting hsend) rfl
    · rw [hq] at hsuffix
      have hin := mem_stores (hsuffix.subset List.mem_cons_self)
      rw [List.map_append, List.nodup_append] at hserved
      obtain ⟨hsent, _, hlast⟩ := hserved
      rcases howes with hqueue | hsend
      · exact stores_once hsent hsuffix t hqueue
      · simp only [hscript] at hsend
        rcases hsend with hsend | hsend
        · exact hlast member hin m (by simp) (store_inj hsend).symm
        · refine hdisj member ?_ member (maySend_admitting hsend) rfl
          rw [List.map_append]
          exact List.mem_append_left _ hin
  · exact absurd rfl hne

end Due

/-- A run creates the key of a member it has read. -/
structure Creates (s : TokenServer) (a : TokenAct) (s' : TokenServer) (member : String) : Prop where
  before : s.active member = none
  after : s'.active member ≠ none
  write : ∃ i batch r token queue, a = .flush i .quiet ∧ Serving s i batch ∧ member ∈ batch ∧
    s.calls i = some r ∧ r.queue = store member token :: queue

section Entries

variable {s s' : TokenServer} {a : TokenAct}

theorem isRead_counts {x : Executed tokenServer TokenCall} (h : x.answer.1.isRead = true)
    (member : String) : adds member x = false ∧ creates member x = false := by
  obtain ⟨label, ⟨o, reply⟩, before⟩ := x
  cases o with
  | redis c => cases c <;> first | contradiction | exact ⟨rfl, rfl⟩
  | attempt c => contradiction
  | now => exact ⟨rfl, rfl⟩
  | sign userId => exact ⟨rfl, rfl⟩

/-- Who comes to wait was added, and each new key was written by a run. -/
theorem log_step (hst : Staged s) (h : serveTokens s a = some s') :
    (s'.log = s.log ∧ ∀ member ∈ s'.waiting, member ∈ s.waiting) ∨
      ∃ x, s'.log = s.log ++ [x] ∧
        (∀ member ∈ s'.waiting, member ∈ s.waiting ∨ adds member x = true) ∧
        ∀ member, creates member x = true → Creates s a s' member := by
  cases moved hst h with
  | quiet hstate hlog =>
    refine Or.inl ⟨hlog, fun member hmem => ?_⟩
    rwa [TokenServer.waiting, hstate] at hmem
  | tick t _ _ hs =>
    subst hs
    exact Or.inl ⟨rfl, fun member hmem => hmem⟩
  | read i e r o reply _ _ hread _ hstate hlog =>
    refine Or.inr ⟨_, hlog, fun member hmem => Or.inl ?_, fun member hc => ?_⟩
    · rwa [TokenServer.waiting, hstate] at hmem
    · rw [(isRead_counts hread member).2] at hc
      contradiction
  | join i r userId now _ _ _ _ hstate hlog =>
    refine Or.inr ⟨_, hlog, fun member hmem => ?_, fun member hc => ?_⟩
    · rw [TokenServer.waiting, hstate, Redis.Store.zsets_exec_zaddNX, if_pos rfl] at hmem
      by_cases hold : member ∈ s.waiting
      · exact Or.inl hold
      · rcases Redis.SortedSet.mem_addNX.mp hmem with hmem | rfl
        · exact absurd hmem hold
        · have hnew : toString userId ∉ s.state.zsets WAITING_TOKENS_KEY := hold
          have hadded : (s.state.exec
              (.zaddNX WAITING_TOKENS_KEY now (toString userId))).1 = (1 : Nat) := if_neg hnew
          exact Or.inr (by simp only [adds, hadded, beq_self_eq_true, Bool.and_self])
    · simp [creates] at hc
  | clear i batch _ _ _ hstate hlog =>
    refine Or.inr ⟨_, hlog, fun member hmem => Or.inl ?_, fun member hc => ?_⟩
    · rw [TokenServer.waiting, hstate, Redis.Store.zsets_exec_zrem, if_pos rfl] at hmem
      exact (Redis.SortedSet.mem_remove.mp hmem).1
    · simp [creates] at hc
  | expire i r id _ _ _ _ hstate hlog =>
    refine Or.inr ⟨_, hlog, fun member hmem => Or.inl ?_, fun member hc => ?_⟩
    · rwa [TokenServer.waiting, hstate, Redis.Store.zsets_exec_other (by simp) (by simp)] at hmem
    · simp [creates] at hc
  | lose i m token _ hstate hlog =>
    refine Or.inr ⟨_, hlog, fun member hmem => Or.inl ?_, fun member hc => ?_⟩
    · rwa [TokenServer.waiting, hstate] at hmem
    · simp [creates, store] at hc
  | store i batch m token ha hserving hbatch hq hstate hlog =>
    refine Or.inr ⟨_, hlog, fun member hmem => Or.inl ?_, fun member hc => ?_⟩
    · rwa [TokenServer.waiting, hstate, Redis.Store.zsets_exec_other (by simp) (by simp)] at hmem
    · simp only [creates, store, Bool.and_eq_true, beq_iff_eq, Option.some.injEq] at hc
      obtain ⟨hkey, hstored⟩ := hc
      obtain rfl := key_inj hkey
      obtain ⟨r, queue, hr, hq⟩ := hq
      have hnone : s.active m = none := by
        simp only [Redis.Store.exec, dif_pos (show 0 < EXPIRE_SEC by decide)] at hstored
        simp only [TokenServer.active]
        cases hk : s.state.strings (ActiveTokenQueueRepository.key m) with
        | none => rfl
        | some v => simp [hk] at hstored
      refine ⟨hnone, ?_, i, batch, r, token, queue, ha, hserving, hbatch, hr, hq⟩
      rw [TokenServer.active, hstate, Redis.Store.strings_exec_setNX (by decide),
        if_pos ⟨rfl, hnone⟩]
      simp

/-- A run that reads changes nothing. -/
theorem reads_state {member : String} (h : serveTokens s a = some s') (hreads : s.Reads a member) :
    s'.state = s.state := by
  obtain ⟨i, r, k, rfl, hr, hn, _⟩ := hreads
  obtain ⟨q, o, k', reply, st, hq, hn', hx, rfl⟩ := Pool.step_answer (serve_step h).2
  obtain rfl := Option.some.inj (hr.symm.trans hq)
  obtain ⟨rfl, _⟩ := Sigma.mk.inj (Option.some.inj (hn.symm.trans hn'))
  cases hx
  rfl

/-- Entries of the queue and active keys, one for one. -/
structure Entries (s : TokenServer) : Prop where
  due : ∀ i member, s.Due i member → unused member s.log = true ∨ s.active member ≠ none
  queued : ∀ member ∈ s.waiting, unused member s.log = true ∨
    ∃ i batch, Serving s i batch ∧ member ∈ batch ∧ ¬ s.Due i member
  counted : ∀ member, s.log.countP (creates member) + (unused member s.log).toNat ≤
    s.log.countP (adds member)

/-- An entry stays unused while the step does not create the key. -/
theorem unused_step {member : String} (hst : Staged s) (h : serveTokens s a = some s')
    (hno : ¬ Creates s a s' member) (hu : unused member s.log = true) :
    unused member s'.log = true := by
  rcases log_step hst h with ⟨hlog, _⟩ | ⟨x, hlog, _, hcreates⟩
  · rwa [hlog]
  · have hx : creates member x = false := by
      by_contra hc
      exact hno (hcreates member (Bool.not_eq_false _ |>.mp hc))
    rw [hlog, unused_append, hu, hx]
    simp

theorem entries_due {i : CallId} {member : String} (he : Entries s) (hst : Staged s)
    (ht : s.Timely a) (h : serveTokens s a = some s') (hdue : s'.Due i member) :
    unused member s'.log = true ∨ s'.active member ≠ none := by
  by_cases hc : Creates s a s' member
  · exact Or.inr hc.after
  · rcases due_step h hdue with hold | ⟨hreads, _⟩
    · rcases he.due i member hold with hu | hactive
      · exact Or.inl (unused_step hst h hc hu)
      · refine Or.inr fun hnone => ?_
        exact ht.drops member i hold ⟨hactive, s', h, hnone⟩
    · have hstate := reads_state h hreads
      have hmem : member ∈ s.waiting := by
        obtain ⟨_, _, _, _, _, _, hmem⟩ := hreads
        exact Redis.SortedSet.mem_of_mem_range hmem
      rcases he.queued member hmem with hu | ⟨j, batch, hserving, hbatch, hdone⟩
      · exact Or.inl (unused_step hst h hc hu)
      · refine Or.inr ?_
        rw [TokenServer.active, hstate]
        exact ht.reads member hreads j batch hserving hbatch hdone

theorem entries_queued {now : Int} {member : String}
    (hreach : Machine.Reachable serveTokens (.init now) s) (he : Entries s)
    (h : serveTokens s a = some s') (hmem : member ∈ s'.waiting) : unused member s'.log = true ∨
      ∃ i batch, Serving s' i batch ∧ member ∈ batch ∧ ¬ s'.Due i member := by
  have hst := staged_reachable hreach
  by_cases hc : Creates s a s' member
  · obtain ⟨i, batch, r, token, queue, rfl, hserving, hbatch, hr, hq⟩ := hc.write
    refine Or.inr ⟨i, batch, ?_, hbatch, written_step ⟨now, hreach⟩ h hr hq⟩
    rcases serving_step hst h hserving with hgo | ⟨ha, _⟩
    · exact hgo
    · contradiction
  · have hcases : member ∈ s.waiting ∨ unused member s'.log = true := by
      rcases log_step hst h with ⟨_, hwaiting⟩ | ⟨x, hlog, hwaiting, _⟩
      · exact Or.inl (hwaiting member hmem)
      · rcases hwaiting member hmem with hold | hadds
        · exact Or.inl hold
        · exact Or.inr (by rw [hlog, unused_append, hadds, Bool.true_or])
    rcases hcases with hold | hu
    · rcases he.queued member hold with hu | ⟨j, batch, hserving, hbatch, hdone⟩
      · exact Or.inl (unused_step hst h hc hu)
      · refine Or.inr ⟨j, batch, serving_kept hst h hserving hbatch hmem, hbatch, fun hdue => ?_⟩
        rcases due_step h hdue with hold | ⟨_, hnone⟩
        · exact hdone hold
        · exact hnone batch hserving
    · exact Or.inl hu

theorem entries_counted (he : Entries s) (hst : Staged s) (h : serveTokens s a = some s')
    (member : String) : s'.log.countP (creates member) + (unused member s'.log).toNat ≤
      s'.log.countP (adds member) := by
  rcases log_step hst h with ⟨hlog, _⟩ | ⟨x, hlog, _, hcreates⟩
  · rw [hlog]
    exact he.counted member
  · rw [hlog]
    refine created_le (fun hc => ?_) (he.counted member)
    obtain ⟨hnone, _, i, batch, r, token, queue, _, hserving, hbatch, hr, hq⟩ := hcreates member hc
    have hdue : s.Due i member := ⟨batch, r, token, hserving, hbatch, hr,
      Or.inl (hq ▸ List.mem_cons_self)⟩
    rcases he.due i member hdue with hu | hactive
    · exact hu
    · exact absurd hnone hactive

theorem entries_step {now : Int} (hreach : Machine.Reachable serveTokens (.init now) s)
    (he : Entries s) (ht : s.Timely a) (h : serveTokens s a = some s') : Entries s' := by
  have hst := staged_reachable hreach
  refine ⟨?_, ?_, ?_⟩
  · intro i member hdue
    exact entries_due he hst ht h hdue
  · intro member hmem
    exact entries_queued hreach he h hmem
  · intro member
    exact entries_counted he hst h member

/-- In a run in which keys do not go, and users are not read again, between the
reading and the writing of an activation, nobody is admitted more often than he
was added to the queue. -/
theorem one_admission_per_entry {now : Int} {acts : List TokenAct}
    (h : Machine.run serveTokens (.init now) acts = some s)
    (htimely : Machine.Along serveTokens TokenServer.Timely (.init now) acts) :
    Machine.Throughout serveTokens (fun m => ∀ userId, m.created userId ≤ m.added userId)
      (.init now) acts := by
  have hentries : Machine.Throughout serveTokens Entries (.init now) acts := by
    refine htimely.throughout h ⟨?_, ?_, fun _ => Nat.le_refl 0⟩ ?_
    · rintro i member ⟨batch, r, token, ⟨q, rest, hq, _⟩, _⟩
      simp [TokenServer.init, Pool.init] at hq
    · intro member hmem
      exact absurd hmem Redis.SortedSet.not_mem_empty
    · intro m a t hm he ht hs
      exact entries_step hm he ht hs
  refine hentries.imp fun m _ he userId => ?_
  have hcounted := he.counted (toString userId)
  simp only [TokenServer.created, TokenServer.added]
  omega

end Entries

/-- Runs that overlap neither with each other nor with the end of a key meet the
condition. -/
theorem timely_of_apart {s : TokenServer} {a : TokenAct} (hst : Staged s)
    (htick : (∃ t, a = .env (.tick t)) → ∀ i batch, ¬ Serving s i batch)
    (hcall : ∀ i r o k, a = .answer i .quiet → s.calls i = some r → r.next = some ⟨o, k⟩ →
      (∃ key, o = .redis (.del key)) ∨ (∃ key start stop, o = .redis (.zrange key start stop)) →
      ∀ i batch, ¬ Serving s i batch) : s.Timely a := by
  refine ⟨?_, ?_⟩
  · rintro member i ⟨batch, r, token, hserving, _⟩ ⟨hactive, t, ht, hnone⟩
    refine hactive ?_
    cases strings_moved hst ht with
    | same h => rwa [TokenServer.active, h] at hnone
    | tick u ha _ _ => exact absurd hserving (htick ⟨u, ha⟩ i batch)
    | expire j q id ha hq _ hn _ =>
      obtain ⟨k, hn⟩ := hn
      exact absurd hserving (hcall j q _ k ha hq hn (Or.inl ⟨_, rfl⟩) i batch)
    | store j b m tok _ _ _ _ h =>
      rw [TokenServer.active, h] at hnone
      split at hnone
      · contradiction
      · exact hnone
  · rintro member ⟨j, q, k, ha, hq, hn, _⟩ i batch hserving
    exact absurd hserving (hcall j q _ k ha hq hn (Or.inr ⟨_, _, _, rfl⟩) i batch)

/-- A run among the first n calls that has read its batch. -/
def TokenServer.serving? (s : TokenServer) (n : Nat) : Bool :=
  (List.range n).any fun i => (s.calls i).any fun r =>
    r.label == .activate && !r.script.finished && !r.answers.isEmpty

def TokenServer.apart? (n : Nat) (s : TokenServer) : TokenAct → Bool
  | .env _ => !s.serving? n
  | .answer i _ => (s.calls i).all fun r =>
    match r.next with
    | some ⟨.redis (.del _), _⟩ => !s.serving? n
    | some ⟨.redis (.zrange _ _ _), _⟩ => !s.serving? n
    | _ => true
  | _ => true

theorem timely_of_check {n : Nat} (s : TokenServer) (a : TokenAct)
    (hs : Staged s ∧ ∀ i, n ≤ i → s.calls i = none) (h : s.apart? n a = true) : s.Timely a := by
  have hnot : (!s.serving? n) = true → ∀ i batch, ¬ Serving s i batch := by
    rintro hcheck i batch ⟨r, rest, hr, hlabel, hf, hanswers⟩
    by_cases hi : i < n
    · simp only [TokenServer.serving?, Bool.not_eq_true', List.any_eq_false, List.mem_range] at hcheck
      exact hcheck i hi (by simp [hr, hlabel, hf, hanswers])
    · rw [hs.2 i (Nat.le_of_not_lt hi)] at hr
      contradiction
  refine timely_of_apart hs.1 ?_ ?_
  · rintro ⟨t, rfl⟩
    exact hnot h
  · rintro i r o k rfl hr hn ho
    simp only [TokenServer.apart?, hr, Option.all_some, hn] at h
    rcases ho with ⟨key, rfl⟩ | ⟨key, start, stop, rfl⟩
    · exact hnot h
    · exact hnot h

theorem one_admission_per_entry_admittedTwice :
    ∃ s, Machine.run serveTokens (.init 0) admittedTwice = some s ∧ s.created 7 = 2 ∧
      Machine.Throughout serveTokens (fun m => ∀ userId, m.created userId ≤ m.added userId)
        (.init 0) admittedTwice := by
  have hrun : (Machine.run serveTokens (.init 0) admittedTwice).map (fun s => s.created 7) =
      some 2 := by
    decide +kernel
  have hchecks : Machine.checks serveTokens (TokenServer.apart? 5) (.init 0) admittedTwice =
      true := by
    decide +kernel
  have hcalls : Machine.Throughout serveTokens (fun s => Staged s ∧ ∀ i, 5 ≤ i → s.calls i = none)
      (.init 0) admittedTwice := by
    rintro past m ⟨rest, hpast⟩ hm
    refine ⟨staged_reachable ⟨past, hm⟩, unused_calls hm ?_⟩
    have hall : (admittedTwice.all fun a => a.owner.all (· < 5)) = true := by decide
    rw [← hpast, List.all_append, Bool.and_eq_true] at hall
    exact hall.1
  obtain ⟨s, hs, hcreated⟩ := Option.map_eq_some_iff.mp hrun
  exact ⟨s, hs, hcreated,
    one_admission_per_entry hs (hcalls.along_of_checks timely_of_check hchecks)⟩

/-- Two runs read user 7; he pays between their writes. -/
def activatedTwice : List TokenAct :=
  enqueued 0 7 1 ++ [.start 1 .activate, .answer 1 .quiet, .start 2 .activate, .answer 2 .quiet,
    .answer 1 (.read 2), .issue 1, .flush 1 .quiet, .answer 1 .quiet] ++ expired 3 7 ++
    [.answer 2 (.read 3), .issue 2, .flush 2 .quiet]

theorem two_admissions_for_an_entry :
    ∃ s, Machine.Reachable serveTokens (.init 0) s ∧ s.created 7 = 2 ∧ s.added 7 = 1 := by
  have h : (Machine.run serveTokens (.init 0) activatedTwice).map (fun s =>
      (s.created 7, s.added 7)) = some (2, 1) := by
    decide +kernel
  obtain ⟨s, hs, hs'⟩ := Option.map_eq_some_iff.mp h
  simp only [Prod.mk.injEq] at hs'
  exact ⟨s, ⟨_, hs⟩, hs'.1, hs'.2⟩

end HighVolumeBooking
