import HighVolumeBooking.Guarantees.StoredTokens

namespace HighVolumeBooking

open Interleaving (CallId Running)
open WaitingTokenQueueRepository (WAITING_TOKENS_KEY)

namespace TokenServer

/-- An activation run is in progress. -/
def Activating (s : TokenServer) : Prop :=
  ∃ i r, s.calls i = some r ∧ r.label = .activate ∧ r.ended = false

/-- Between two activation runs nobody is both waiting and active. -/
def Exclusive (s : TokenServer) : Prop :=
  ¬ s.Activating → ∀ userId : Int, toString userId ∈ s.waiting → s.active (toString userId) = none

/-- The step adds the user to the waiting queue. -/
def Joins (s : TokenServer) (a : TokenAct) (userId : Int) : Prop :=
  ∃ i r now k, a = .answer i .quiet ∧ s.calls i = some r ∧
    r.next = some ⟨.redis (.zaddNX WAITING_TOKENS_KEY now (toString userId)), k⟩ ∧
    toString userId ∉ s.waiting

/-- Who is added has no active key, unless a run in progress has read him before
and will remove him. -/
def JoinsInactive (s : TokenServer) (a : TokenAct) : Prop :=
  ∀ userId, s.Joins a userId → s.active (toString userId) = none ∨
    ∃ i batch, Serving s i batch ∧ toString userId ∈ batch

/-- Who is both waiting and active will be removed by a run in progress. -/
def Covered (s : TokenServer) : Prop :=
  ∀ member ∈ s.waiting, s.active member ≠ none → ∃ i batch, Serving s i batch ∧ member ∈ batch

end TokenServer

section Exclusive

variable {s s' : TokenServer} {a : TokenAct}

theorem Serving.activating {i : CallId} {batch : List String} (hst : Staged s)
    (h : Serving s i batch) : s.Activating := by
  obtain ⟨r, rest, hr, hlabel, hf, _⟩ := h
  exact ⟨i, r, hr, hlabel, by simp [Running.ended, hf, hst.uncrashed i r hr]⟩

/-- Who is still waiting after a step is still served by the run that served him. -/
theorem serving_kept {member : String} (hst : Staged s) (h : serveTokens s a = some s')
    {i : CallId} {batch : List String} (hserving : Serving s i batch) (hbatch : member ∈ batch)
    (hmem : member ∈ s'.waiting) : Serving s' i batch := by
  rcases serving_step hst h hserving with hgo | ⟨_, hstate, _⟩
  · exact hgo
  · rw [TokenServer.waiting, hstate, Redis.Store.zsets_exec_zrem, if_pos rfl] at hmem
    exact absurd hbatch (Redis.SortedSet.mem_remove.mp hmem).2

/-- A key that is there after a step was there before, or a run serves its user. -/
theorem active_step {member : String} (hst : Staged s) (h : serveTokens s a = some s')
    (hact : s'.active member ≠ none) :
    s.active member ≠ none ∨ ∃ i batch, Serving s i batch ∧ member ∈ batch := by
  cases strings_moved hst h with
  | same h => exact Or.inl (by rwa [TokenServer.active, h] at hact)
  | tick t _ _ h =>
    refine Or.inl fun hnone => hact ?_
    simp only [TokenServer.active] at hnone
    simp [TokenServer.active, h, Redis.Store.tick, hnone]
  | expire i r id _ _ _ _ h =>
    rw [TokenServer.active, h] at hact
    split at hact
    · contradiction
    · exact Or.inl hact
  | store i batch m token _ hserving hbatch _ h =>
    rw [TokenServer.active, h] at hact
    split at hact
    · rename_i hk
      obtain rfl := ActiveTokenQueueRepository.key_inj hk.1
      exact Or.inr ⟨i, batch, hserving, hbatch⟩
    · exact Or.inl hact

theorem covered_step (hst : Staged s) (hcov : s.Covered) (hjoin : s.JoinsInactive a)
    (h : serveTokens s a = some s') : s'.Covered := by
  intro member hmem hact
  suffices hserved : ∃ i batch, Serving s i batch ∧ member ∈ batch by
    obtain ⟨i, batch, hserving, hbatch⟩ := hserved
    exact ⟨i, batch, serving_kept hst h hserving hbatch hmem, hbatch⟩
  rcases active_step hst h hact with hact | hserved
  · cases waiting_moved hst h with
    | same h => exact hcov member (h ▸ hmem) hact
    | join i r userId now ha hr _ hn h =>
      by_cases hold : member ∈ s.waiting
      · exact hcov member hold hact
      · rw [h, Redis.SortedSet.mem_addNX] at hmem
        rcases hmem with hmem | rfl
        · exact absurd hmem hold
        · obtain ⟨k, hn⟩ := hn
          rcases hjoin userId ⟨i, r, now, k, ha, hr, hn, hold⟩ with hnone | hserved
          · exact absurd hnone hact
          · exact hserved
    | clear i batch _ _ _ h =>
      rw [h, Redis.SortedSet.mem_remove] at hmem
      exact hcov member hmem.1 hact
  · exact hserved

theorem exclusive_of_covered (hst : Staged s) (hcov : s.Covered) : s.Exclusive := by
  intro hidle userId hmem
  by_contra hact
  obtain ⟨i, batch, hserving, _⟩ := hcov _ hmem hact
  exact hidle (hserving.activating hst)

/-- In a run that adds no user who is active already, nobody is ever waiting and
active between two activation runs. -/
theorem waiting_or_active {now : Int} {acts : List TokenAct}
    (h : Machine.run serveTokens (.init now) acts = some s)
    (hjoins : Machine.Along serveTokens TokenServer.JoinsInactive (.init now) acts) :
    Machine.Throughout serveTokens TokenServer.Exclusive (.init now) acts := by
  have hcov : Machine.Throughout serveTokens TokenServer.Covered (.init now) acts := by
    refine hjoins.throughout h ?_ ?_
    · intro member hmem
      exact absurd hmem Redis.SortedSet.not_mem_empty
    · intro m a t hm hcov hjoin hs
      exact covered_step (staged_reachable hm) hcov hjoin hs
  exact hcov.imp fun m hm hq => exclusive_of_covered (staged_reachable hm) hq

end Exclusive

/-- Whether a step adds somebody who is active. -/
def TokenServer.joinsInactive? (s : TokenServer) : TokenAct → Bool
  | .answer i _ => (s.calls i).all fun r =>
    match r.next with
    | some ⟨.redis (.zaddNX _ _ member), _⟩ => (s.active member).isNone
    | _ => true
  | _ => true

theorem joinsInactive_of_check (s : TokenServer) (a : TokenAct) (_ : True)
    (h : s.joinsInactive? a = true) : s.JoinsInactive a := by
  rintro userId ⟨i, r, now, k, rfl, hr, hn, _⟩
  simp only [TokenServer.joinsInactive?, hr, Option.all_some, hn, Option.isNone_iff_eq_none] at h
  exact Or.inl h

/-- A user is admitted, pays, and queues up again. -/
def admittedTwice : List TokenAct :=
  enqueued 0 7 1 ++ activated 1 2 ++ expired 2 7 ++ enqueued 3 7 4 ++ activated 4 5

theorem waiting_or_active_admittedTwice :
    ∃ s, Machine.run serveTokens (.init 0) admittedTwice = some s ∧
      Machine.Throughout serveTokens TokenServer.Exclusive (.init 0) admittedTwice := by
  have hrun : (Machine.run serveTokens (.init 0) admittedTwice).isSome = true := by decide +kernel
  have hchecks : Machine.checks serveTokens TokenServer.joinsInactive? (.init 0) admittedTwice =
      true := by
    decide +kernel
  obtain ⟨s, hs⟩ := Option.isSome_iff_exists.mp hrun
  exact ⟨s, hs, waiting_or_active hs (Machine.throughout_true.along_of_checks
    joinsInactive_of_check hchecks)⟩

/-- An activation run among the first n calls. -/
def TokenServer.activating? (s : TokenServer) (n : Nat) : Bool :=
  (List.range n).any fun i => (s.calls i).any fun r => r.label == .activate && !r.ended

theorem not_activating_of_check {s : TokenServer} {n : Nat}
    (hcalls : ∀ i, n ≤ i → s.calls i = none) (hcheck : s.activating? n = false) :
    ¬ s.Activating := by
  rintro ⟨i, r, hr, hlabel, hend⟩
  by_cases hi : i < n
  · simp only [TokenServer.activating?, List.any_eq_false, List.mem_range] at hcheck
    exact hcheck i hi (by simp [hr, hlabel, hend])
  · rw [hcalls i (Nat.le_of_not_lt hi)] at hr
    contradiction

/-- A request of user 7 reads that there is no active key; before it goes on, he
is enqueued and admitted through another request. -/
def enqueuedWhileAdmitted : List TokenAct :=
  [.start 0 (.enqueue 7), .answer 0 .quiet] ++ enqueued 1 7 1 ++ activated 2 2 ++
    [.answer 0 .quiet, .answer 0 (.read 3), .answer 0 .quiet]

theorem waiting_and_active :
    ∃ s, Machine.Reachable serveTokens (.init 0) s ∧ ¬ s.Exclusive := by
  have h : (Machine.run serveTokens (.init 0) enqueuedWhileAdmitted).map (fun s =>
      (decide ("7" ∈ s.waiting), (s.active "7").isSome, s.activating? 3)) =
      some (true, true, false) := by
    decide +kernel
  obtain ⟨s, hs, hs'⟩ := Option.map_eq_some_iff.mp h
  simp only [Prod.mk.injEq, decide_eq_true_eq] at hs'
  obtain ⟨hmem, hact, hidle⟩ := hs'
  refine ⟨s, ⟨_, hs⟩, ?_⟩
  intro hexclusive
  have hnone := hexclusive (not_activating_of_check (unused_calls hs (by decide)) hidle) 7 hmem
  rw [show toString (7 : Int) = "7" from rfl] at hnone
  rw [hnone] at hact
  contradiction

end HighVolumeBooking
