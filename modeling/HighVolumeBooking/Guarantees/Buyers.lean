import HighVolumeBooking.Guarantees.Gateway
import HighVolumeBooking.Guarantees.Throttle

namespace HighVolumeBooking

open ReadCommitted
open Interleaving (CallId Pool)
open TokenQueueService (QUEUE_THROUGHPUT)

/-- From the start on, a key that a GET has found was written by an activation
run that read its member. -/
theorem batch_of_found {now : Int} {s : TokenServer} {acts : List TokenAct}
    (h : Machine.run serveTokens (.init now) acts = some s) :
    ∀ z ∈ s.log, ∀ userId, finds userId z = true →
      ∃ i ∈ acts.filterMap TokenAct.activation?, ∃ batch,
        HasRead s i batch ∧ toString userId ∈ batch := by
  refine Machine.run_induction (fun past (n : TokenServer) => ∀ z ∈ n.log, ∀ userId,
    finds userId z = true → ∃ i ∈ past.filterMap TokenAct.activation?, ∃ batch,
      HasRead n i batch ∧ toString userId ∈ batch) ?_ ?_ h
  · simp [TokenServer.init, Pool.init]
  intro past n a t hn ih hs z hz userId hfinds
  have hstep : ∀ i ∈ past.filterMap TokenAct.activation?, ∀ batch, HasRead n i batch →
      toString userId ∈ batch →
      ∃ i ∈ (past ++ [a]).filterMap TokenAct.activation?, ∃ batch,
        HasRead t i batch ∧ toString userId ∈ batch := by
    intro i hi batch hread hmem
    refine ⟨i, ?_, batch, hread.step hs, hmem⟩
    rw [List.filterMap_append]
    exact List.mem_append_left _ hi
  have hold : z ∈ n.log →
      ∃ i ∈ (past ++ [a]).filterMap TokenAct.activation?, ∃ batch,
        HasRead t i batch ∧ toString userId ∈ batch := by
    intro hz
    obtain ⟨i, hi, batch, hread, hmem⟩ := ih z hz userId hfinds
    exact hstep i hi batch hread hmem
  rcases Pool.log_cases (serve_step hs).2 with
    ⟨hlog, _⟩ | ⟨i, r, o, e, reply, _, hexec, hlog, _⟩
  · exact hold (hlog ▸ hz)
  · rw [hlog] at hz
    rcases List.mem_append.mp hz with hz | hz
    · exact hold hz
    · obtain rfl := List.mem_singleton.mp hz
      obtain ⟨v, hv⟩ := Option.ne_none_iff_exists'.mp (active_of_finds hexec hfinds)
      have hruns : ∀ i r, (TokenServer.init now).calls i = some r → r.label = .activate →
          r.ended = false → i ∈ ([] : List CallId) := by
        simp [TokenServer.init, Pool.init]
      have hnone : ∀ v, (TokenServer.init now).active (toString userId) = some v → ¬ True := by
        simp [TokenServer.active, TokenServer.init, Pool.init, Redis.Store.init]
      obtain ⟨i, hi, batch, hread, hmem⟩ := batch_of_active (P := fun _ => True)
        Machine.Reachable.refl hruns hnone hn hv trivial
      exact hstep i hi batch hread hmem

theorem payload_run {s s' : TokenServer} {acts : List TokenAct} {i : CallId} {userId : Int}
    (h : Machine.run serveTokens s acts = some s') (hp : s.payload? i = some userId) :
    s'.payload? i = some userId := by
  refine Machine.run_induction (fun _ (u : TokenServer) => u.payload? i = some userId) hp ?_ h
  intro _ m a t _ ih hs
  exact TokenServer.payload_step hs ih

/-- Every request of the queue that has committed was let through. -/
theorem Gateway.passes_of_committed {zone : TimeZone} {now : Int} {start : Database} {p : Gateway}
    {acts : List (TokenAct ⊕ Act Call)} {e : LogEntry} {userId : Int}
    (h : Machine.run (Gateway.step zone) (Gateway.init now start) acts = some p) (he : e ∈ p.2.log)
    (hpayload : e.call.payload? = some userId) : ∃ z ∈ p.1.log, Passes userId z := by
  obtain ⟨htokens, hserver⟩ := Machine.run_coupled h
  obtain ⟨t, hstart⟩ := (Sys.started hserver).2 e he
  obtain ⟨b, hb, hright⟩ := List.mem_filterMap.mp hstart
  cases b with
  | inl b => contradiction
  | inr b =>
    obtain rfl := Option.some.inj hright
    obtain ⟨past, m, ⟨rest, rfl⟩, hm, hlet⟩ := Gateway.let_through h hb hpayload
    obtain ⟨m', hm', hrest⟩ := Machine.run_append.mp (List.append_assoc _ _ _ ▸ h)
    obtain rfl := Option.some.inj (hm.symm.trans hm')
    exact passes_of_payload ⟨_, htokens⟩ (payload_run (Machine.run_coupled hrest).1 hlet)

/-- Sales go no faster than the queue. However requests and activations
interleave, at most 2000 users for each activation run that was started have a
booking or a payment committed. -/
theorem buyers_bounded {zone : TimeZone} {now : Int} {start : Database} {p : Gateway}
    {acts : List (TokenAct ⊕ Act Call)} {users : List Int}
    (h : Machine.run (Gateway.step zone) (Gateway.init now start) acts = some p)
    (hnodup : users.Nodup)
    (hbought : ∀ userId ∈ users, ∃ e ∈ p.2.log, ∃ handled : Handled,
      e.call = handled.call userId ∧ handled.queued = true) :
    users.length ≤ QUEUE_THROUGHPUT *
      ((acts.filterMap Sum.getLeft?).filterMap TokenAct.activation?).length := by
  obtain ⟨htokens, hserver⟩ := Machine.run_coupled h
  have hreach : Machine.Reachable serveTokens (.init now) p.1 := ⟨_, htokens⟩
  have hread : ∀ i batch batch', HasRead p.1 i batch → HasRead p.1 i batch' → batch = batch' :=
    fun i batch batch' h h' => h.unique h'
  have hlength : ∀ i batch, HasRead p.1 i batch → batch.length ≤ QUEUE_THROUGHPUT :=
    fun i batch h => h.length_le hreach
  have hmembers : (users.map toString).Nodup :=
    hnodup.map fun userId userId' hsame => toString_injective hsame
  have hcount := Queueing.length_le_of_batches hread hlength hmembers fun member hmember => by
    obtain ⟨userId, huser, rfl⟩ := List.mem_map.mp hmember
    obtain ⟨e, he, handled, hcall, hqueued⟩ := hbought userId huser
    have hpayload : e.call.payload? = some userId := by
      rw [hcall, Handled.payload_call, if_pos hqueued]
    obtain ⟨z, hz, hpasses⟩ := Gateway.passes_of_committed h he hpayload
    exact batch_of_found htokens z hz userId hpasses.finds
  rwa [List.length_map] at hcount

theorem buyers_bounded_letIn :
    ∃ p, Machine.run (Gateway.step .utc) (Gateway.init 0 smallHall) (letIn ++ booksThen) = some p ∧
      (∃ e ∈ p.2.log, e.call = .book ⟨1, 1, 1⟩) ∧ ([1] : List Int).length ≤ QUEUE_THROUGHPUT *
        (((letIn ++ booksThen).filterMap Sum.getLeft?).filterMap TokenAct.activation?).length := by
  have h : (Machine.run (Gateway.step .utc) (Gateway.init 0 smallHall) (letIn ++ booksThen)).map
      (fun p => p.2.log.any fun e => decide (e.call = .book ⟨1, 1, 1⟩)) = some true := by
    decide +kernel
  obtain ⟨p, hp, hlog⟩ := Option.map_eq_some_iff.mp h
  have hbooked : ∃ e ∈ p.2.log, e.call = .book ⟨1, 1, 1⟩ := by simpa using hlog
  refine ⟨p, hp, hbooked, buyers_bounded hp (List.nodup_singleton 1) ?_⟩
  intro userId huser
  obtain rfl := List.mem_singleton.mp huser
  obtain ⟨e, he, hcall⟩ := hbooked
  exact ⟨e, he, .bookConcertSeat 1 ⟨1⟩, hcall, rfl⟩

end HighVolumeBooking
