import HighVolumeBooking.Guarantees.StoredTokens
import HighVolumeBooking.Queueing.Line

namespace HighVolumeBooking

open Interleaving (CallId Pool Running)
open ActiveTokenQueueRepository (EXPIRE_SEC)
open TokenQueueService (QUEUE_THROUGHPUT)
open TokenCall (oldest)

/-- The activation run that the step starts. -/
def TokenAct.activation? : TokenAct → Option CallId
  | .start i .activate => some i
  | _ => none

section Batches

variable {s s' m : TokenServer} {a : TokenAct} {now : Int} {i : CallId} {batch : List String}

theorem HasRead.unique {batch' : List String} (h : HasRead s i batch) (h' : HasRead s i batch') :
    batch = batch' := by
  obtain ⟨r, rest, hr, hanswers⟩ := h
  obtain ⟨r', rest', hr', hanswers'⟩ := h'
  obtain rfl := Option.some.inj (hr.symm.trans hr')
  rw [hanswers] at hanswers'
  simp only [oldest, List.cons.injEq, Sigma.mk.injEq, heq_eq_eq, true_and] at hanswers'
  exact hanswers'.1

theorem HasRead.step (hs : serveTokens s a = some s') (h : HasRead s i batch) :
    HasRead s' i batch := by
  obtain ⟨r, rest, hr, hanswers⟩ := h
  obtain ⟨r', hr', _, more, hmore⟩ := Pool.kept_step (serve_step hs).2 hr
  exact ⟨r', rest ++ more, hr', by rw [← hmore, hanswers, List.cons_append]⟩

theorem HasRead.length_le (h : Machine.Reachable serveTokens (.init now) s)
    (hread : HasRead s i batch) : batch.length ≤ QUEUE_THROUGHPUT := by
  obtain ⟨x, _, rfl⟩ := hread.front h
  rw [Redis.SortedSet.range_first _ (by decide)]
  exact List.length_take_le _ _

/-- No key lives longer than it does when it is new. -/
theorem deadline_le (h : Machine.Reachable serveTokens (.init now) s) :
    ∀ key v, s.state.strings key = some v → v.expiresAt ≤ s.state.now + 1000 * EXPIRE_SEC := by
  refine h.invariant (fun (s : TokenServer) => ∀ key v, s.state.strings key = some v →
    v.expiresAt ≤ s.state.now + 1000 * (EXPIRE_SEC : Int)) ?_ ?_
  · intro key v hv
    simp [TokenServer.init, Pool.init, Redis.Store.init] at hv
  · intro m a t hm ih hs key v hv
    have hst := staged_reachable hm
    have hnow := now_step hst hs
    have hold : m.state.strings key = some v → v.expiresAt ≤ t.state.now + 1000 * EXPIRE_SEC := by
      intro hv
      have := ih key v hv
      omega
    cases strings_moved hst hs with
    | same h => exact hold (h ▸ hv)
    | tick u _ _ h =>
      rw [h] at hv
      exact hold (Option.filter_eq_some_iff.mp hv).1
    | expire i r id _ _ _ _ h =>
      rw [h] at hv
      split at hv
      · contradiction
      · exact hold hv
    | store i batch member token _ _ _ _ h =>
      rw [h] at hv
      split at hv
      · obtain rfl := Option.some.inj hv
        simp only
        omega
      · exact hold hv

/-- A key unlike the one of an instant was written since, by a run that was in
progress then or has begun since. -/
theorem batch_of_active {runs : List CallId} {acts : List TokenAct} {member : String}
    {P : Redis.Volatile Jwt → Prop} {v : Redis.Volatile Jwt}
    (h : Machine.Reachable serveTokens (.init now) m)
    (hruns : ∀ i r, m.calls i = some r → r.label = .activate → r.ended = false → i ∈ runs)
    (hnone : ∀ v, m.active member = some v → ¬ P v)
    (hmore : Machine.run serveTokens m acts = some s) (hv : s.active member = some v)
    (hlate : P v) :
    ∃ i ∈ runs ++ acts.filterMap TokenAct.activation?, ∃ batch,
      HasRead s i batch ∧ member ∈ batch := by
  refine Machine.run_induction (fun later (n : TokenServer) => ∀ v, n.active member = some v →
    P v → ∃ i ∈ runs ++ later.filterMap TokenAct.activation?, ∃ batch,
      HasRead n i batch ∧ member ∈ batch) ?_ ?_ hmore v hv hlate
  · intro v hv hlate
    exact absurd hlate (hnone v hv)
  intro later n a t hn ih hs v hv hlate
  have hst : Staged n := by
    obtain ⟨before, hbefore⟩ := h
    exact staged_reachable ⟨before ++ later, Machine.run_append.mpr ⟨m, hbefore, hn⟩⟩
  have hsub : runs ++ later.filterMap TokenAct.activation? ⊆
      runs ++ (later ++ [a]).filterMap TokenAct.activation? := by
    rw [List.filterMap_append, ← List.append_assoc]
    exact List.subset_append_left _ _
  have hold : n.active member = some v →
      ∃ i ∈ runs ++ (later ++ [a]).filterMap TokenAct.activation?, ∃ batch,
        HasRead t i batch ∧ member ∈ batch := by
    intro hv
    obtain ⟨i, hi, batch, hread, hmem⟩ := ih v hv hlate
    exact ⟨i, hsub hi, batch, hread.step hs, hmem⟩
  cases strings_moved hst hs with
  | same h => exact hold (by rwa [TokenServer.active, h] at hv)
  | tick u _ _ h =>
    rw [TokenServer.active, h] at hv
    exact hold (Option.filter_eq_some_iff.mp hv).1
  | expire i r id _ _ _ _ h =>
    rw [TokenServer.active, h] at hv
    split at hv
    · contradiction
    · exact hold hv
  | store i batch member' token _ hserving hmem _ h =>
    rw [TokenServer.active, h] at hv
    split at hv
    · rename_i hk
      obtain rfl := ActiveTokenQueueRepository.key_inj hk.1
      refine ⟨i, hsub ?_, batch, hserving.hasRead.step hs, hmem⟩
      obtain ⟨r, rest, hr, hlabel, hf, _⟩ := hserving
      have hopen : r.ended = false := by simp [Running.ended, hf, hst.uncrashed i r hr]
      have hpool := Machine.run_mono (fun s a t hs => (serve_step (s := s) hs).2) hn
      rcases Pool.running_since hruns hpool hr hlabel hopen with hi | hstart
      · exact List.mem_append_left _ hi
      · exact List.mem_append_right _ (List.mem_filterMap.mpr ⟨_, hstart, rfl⟩)
    · exact hold hv

end Batches

/-- The queue throttles: at any time there are at most 2000 active keys for each
activation run that was in progress five minutes ago or has begun since. -/
theorem active_keys_bounded {now : Int} {m s : TokenServer} {acts : List TokenAct}
    {runs : List CallId} {members : List String}
    (h : Machine.Reachable serveTokens (.init now) m)
    (hruns : ∀ i r, m.calls i = some r → r.label = .activate → r.ended = false → i ∈ runs)
    (hmore : Machine.run serveTokens m acts = some s)
    (hpast : m.state.now + 1000 * EXPIRE_SEC ≤ s.state.now) (hnodup : members.Nodup)
    (hactive : ∀ member ∈ members, s.active member ≠ none) :
    members.length ≤
      QUEUE_THROUGHPUT * (runs.length + (acts.filterMap TokenAct.activation?).length) := by
  obtain ⟨before, hbefore⟩ := h
  have hreach : Machine.Reachable serveTokens (.init now) s :=
    ⟨before ++ acts, Machine.run_append.mpr ⟨m, hbefore, hmore⟩⟩
  have hread : ∀ i batch batch', HasRead s i batch → HasRead s i batch' → batch = batch' :=
    fun i batch batch' h h' => h.unique h'
  have hlength : ∀ i batch, HasRead s i batch → batch.length ≤ QUEUE_THROUGHPUT :=
    fun i batch h => h.length_le hreach
  rw [← List.length_append]
  refine Queueing.length_le_of_batches hread hlength hnodup fun member hmem => ?_
  obtain ⟨v, hv⟩ := Option.ne_none_iff_exists'.mp (hactive member hmem)
  have hlive := s.state.live _ v hv
  refine batch_of_active (P := fun v => m.state.now + 1000 * EXPIRE_SEC < v.expiresAt)
    ⟨before, hbefore⟩ hruns ?_ hmore hv (by omega)
  intro w hw
  have := deadline_le ⟨before, hbefore⟩ _ w hw
  omega

/-- Two users queue up, and an activation has read their batch. -/
def twoRead : List TokenAct :=
  enqueued 0 1 0 ++ enqueued 1 2 5 ++ [.start 2 .activate, .answer 2 .quiet]

/-- Five minutes later it lets them in, while a third user queues up and another
activation begins, which lets him in. -/
def letInLater : List TokenAct :=
  [.env (.tick 300000), .answer 2 (.read 300000), .start 3 (.enqueue 3), .answer 3 .quiet, .issue 2,
    .answer 2 (.read 300000), .answer 3 .quiet, .answer 3 (.read 300000), .flush 2 .quiet,
    .answer 3 .quiet, .answer 3 .quiet, .issue 2, .start 4 .activate, .flush 2 .quiet,
    .answer 2 .quiet, .answer 4 .quiet, .answer 4 (.read 300001), .issue 4, .flush 4 .quiet,
    .answer 4 .quiet]

theorem active_keys_bounded_letInLater :
    ∃ m s, Machine.run serveTokens (.init 0) twoRead = some m ∧
      Machine.run serveTokens m letInLater = some s ∧
      (∀ member ∈ ["1", "2", "3"], s.active member ≠ none) ∧
      ["1", "2", "3"].length ≤
        QUEUE_THROUGHPUT * ([2].length + (letInLater.filterMap TokenAct.activation?).length) := by
  have h : ((Machine.run serveTokens (.init 0) twoRead).bind fun m =>
      (Machine.run serveTokens m letInLater).map fun s => (m.state.now, s.state.now,
        ["1", "2", "3"].all fun member => (s.active member).isSome)) =
      some (0, 300000, true) := by
    decide +kernel
  obtain ⟨m, hm, h⟩ := Option.bind_eq_some_iff.mp h
  obtain ⟨s, hs, h⟩ := Option.map_eq_some_iff.mp h
  simp only [Prod.mk.injEq] at h
  obtain ⟨hbefore, hnow, hall⟩ := h
  have hactive : ∀ member ∈ ["1", "2", "3"], s.active member ≠ none := by
    intro member hmember
    exact Option.isSome_iff_ne_none.mp (List.all_eq_true.mp hall member hmember)
  have hruns : ∀ i r, m.calls i = some r → r.label = .activate → r.ended = false → i ∈ [2] := by
    intro i r hr hlabel _
    have hstart := Pool.started (Machine.run_mono (fun _ _ _ hs => (serve_step hs).2) hm) hr
    rw [hlabel] at hstart
    simpa [twoRead, enqueued] using hstart
  refine ⟨m, s, hm, hs, hactive, active_keys_bounded ⟨_, hm⟩ hruns hs ?_ (by decide) hactive⟩
  rw [hbefore, hnow]
  decide

end HighVolumeBooking
