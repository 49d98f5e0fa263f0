import HighVolumeBooking.Guarantees.Admission
import HighVolumeBooking.Interleaving.Solo
import HighVolumeBooking.Queueing.Line

namespace HighVolumeBooking

open Interleaving (CallId Executed Pool Running)
open Queueing (line)
open WaitingTokenQueueRepository (WAITING_TOKENS_KEY)
open TokenCall (oldest)

/-- What a command does to the line of those who wait. -/
def lineEvent : TokenAnswer → Option (Queueing.Event String)
  | ⟨.redis (.zaddNX _ _ member), added⟩ => if added = (1 : Nat) then some (.join member) else none
  | ⟨.redis (.zrem _ batch), _⟩ => some (.leave batch)
  | _ => none

namespace TokenServer

/-- Who came and who left, in the order of the commands. -/
def history (s : TokenServer) : List (Queueing.Event String) :=
  (s.log.map Executed.answer).filterMap lineEvent

/-- No activation takes a user out while somebody who came before him stays. -/
def FirstInFirstOut (s : TokenServer) : Prop := Queueing.InOrder s.history

/-- One user stands before another in the waiting queue, by score and then by name. -/
def Before (s : TokenServer) (u v : String) : Prop :=
  ∃ x ∈ s.waiting.entries, ∃ y ∈ s.waiting.entries, x.member = u ∧ y.member = v ∧ x.le y

/-- Where the waiting queue has a user before one who came earlier, the two are
both among the first users or both are not. -/
def Straight (s : TokenServer) : Prop :=
  ∀ u v, [u, v].Sublist (line s.history) → s.Before v u → v ∈ s.front → u ∈ s.front

/-- What is read in this step is straight. -/
def ReadsStraight (s : TokenServer) (a : TokenAct) : Prop :=
  ∀ i, a = .answer i .quiet → s.AtFront i → s.Straight

/-- An activation starts when no other is in progress. -/
def Apart (s : TokenServer) (a : TokenAct) : Prop := ∀ i, a = .start i .activate → ¬ s.Activating

end TokenServer

/-- What a step does to the line. -/
inductive Queued (s : TokenServer) (a : TokenAct) (s' : TokenServer) : Prop where
  | same (hhistory : s'.history = s.history) (hwaiting : s'.waiting = s.waiting)
  | join (member : String) (score : Int) (hnew : member ∉ s.waiting)
      (hhistory : s'.history = s.history ++ [.join member])
      (hwaiting : s'.waiting = s.waiting.addNX ⟨score, member⟩)
  | leave (i : CallId) (batch : List String) (hserving : Serving s i batch)
      (hdone : ∃ r, s'.calls i = some r ∧ r.script = .done .none ∧ r.queue = [])
      (hhistory : s'.history = s.history ++ [.leave batch])
      (hwaiting : s'.waiting = s.waiting.remove batch)

section Fifo

variable {s s' : TokenServer} {a : TokenAct} {i : CallId} {batch : List String}

theorem history_logged {x : Executed tokenServer TokenCall} (h : s'.log = s.log ++ [x]) :
    s'.history = s.history ++ (lineEvent x.answer).toList := by
  rw [TokenServer.history, h, List.map_append, List.filterMap_append]
  cases hx : lineEvent x.answer <;> simp [hx, TokenServer.history]

theorem lineEvent_read {x : TokenAnswer} (h : x.1.isRead = true) : lineEvent x = none := by
  obtain ⟨o, reply⟩ := x
  cases o with
  | redis c => cases c <;> first | contradiction | rfl
  | attempt c => contradiction
  | now => rfl
  | sign userId => rfl

theorem queued (hst : Staged s) (h : serveTokens s a = some s') : Queued s a s' := by
  have hquiet : ∀ {x : Executed tokenServer TokenCall}, s'.log = s.log ++ [x] →
      lineEvent x.answer = none → s'.history = s.history := by
    intro x hlog hx
    rw [history_logged hlog, hx]
    simp
  cases moved hst h with
  | quiet hstate hlog =>
    refine .same (by rw [TokenServer.history, hlog]; rfl) ?_
    rw [TokenServer.waiting, hstate]
    rfl
  | tick t _ _ hs =>
    subst hs
    exact .same rfl rfl
  | read j e r o reply _ _ hread _ hstate hlog =>
    refine .same (hquiet hlog (lineEvent_read hread)) ?_
    rw [TokenServer.waiting, hstate]
    rfl
  | join j r userId now _ _ _ _ hstate hlog =>
    have hwaiting : s'.waiting = s.waiting.addNX ⟨now, toString userId⟩ := by
      rw [TokenServer.waiting, hstate, Redis.Store.zsets_exec_zaddNX, if_pos rfl]
      rfl
    by_cases hold : toString userId ∈ s.waiting
    · have hadded : (s.state.exec (.zaddNX WAITING_TOKENS_KEY now (toString userId))).1 = (0 : Nat) :=
        if_pos hold
      refine .same (hquiet hlog ?_) (hwaiting.trans (Redis.SortedSet.addNX_of_mem hold))
      simp [lineEvent, hadded]
    · have hadded : (s.state.exec (.zaddNX WAITING_TOKENS_KEY now (toString userId))).1 = (1 : Nat) :=
        if_neg hold
      refine .join (toString userId) now hold ?_ hwaiting
      rw [history_logged hlog]
      simp [lineEvent, hadded]
  | clear j batch _ hserving hdone hstate hlog =>
    refine .leave j batch hserving hdone (history_logged hlog) ?_
    rw [TokenServer.waiting, hstate, Redis.Store.zsets_exec_zrem, if_pos rfl]
    rfl
  | expire j r id _ _ _ _ hstate hlog =>
    refine .same (hquiet hlog rfl) ?_
    rw [TokenServer.waiting, hstate, Redis.Store.zsets_exec_other (by simp) (by simp)]
    rfl
  | store j batch member token _ _ _ _ hstate hlog =>
    refine .same (hquiet hlog rfl) ?_
    rw [TokenServer.waiting, hstate, Redis.Store.zsets_exec_other (by simp) (by simp)]
    rfl
  | lose j member token _ hstate hlog =>
    refine .same (hquiet hlog rfl) ?_
    rw [TokenServer.waiting, hstate]
    rfl

/-- The order in which users came, kept apart from what Redis keeps. -/
structure Lined (s : TokenServer) : Prop where
  line : ∀ member, member ∈ line s.history ↔ member ∈ s.waiting
  single : ∀ i j r q, s.calls i = some r → s.calls j = some q → r.label = .activate →
    q.label = .activate → r.ended = false → q.ended = false → i = j
  present : ∀ i batch, Serving s i batch → ∀ member ∈ batch, member ∈ s.waiting

theorem Serving.unique {batch' : List String} (h : Serving s i batch) (h' : Serving s i batch') :
    batch = batch' := by
  obtain ⟨r, rest, hr, _, _, hanswers⟩ := h
  obtain ⟨q, rest', hq, _, _, hanswers'⟩ := h'
  obtain rfl := Option.some.inj (hr.symm.trans hq)
  simp only [hanswers, oldest, List.cons.injEq, Sigma.mk.injEq, heq_eq_eq, true_and] at hanswers'
  exact hanswers'.1

/-- At most one activation is in progress. -/
def TokenServer.Single (s : TokenServer) : Prop :=
  ∀ i j r q, s.calls i = some r → s.calls j = some q → r.label = .activate →
    q.label = .activate → r.ended = false → q.ended = false → i = j

theorem TokenServer.Single.serving {j : CallId} {batch' : List String} (hst : Staged s)
    (hsingle : s.Single) (h : Serving s i batch) (h' : Serving s j batch') :
    i = j ∧ batch = batch' := by
  have hij : i = j := by
    obtain ⟨r, _, hr, hlabel, hf, _⟩ := h
    obtain ⟨q, _, hq, hlabel', hf', _⟩ := h'
    refine hsingle i j r q hr hq hlabel hlabel' ?_ ?_
    · simp [Running.ended, hf, hst.uncrashed i r hr]
    · simp [Running.ended, hf', hst.uncrashed j q hq]
  subst hij
  exact ⟨rfl, h.unique h'⟩

theorem Lined.serving {j : CallId} {batch' : List String} (hst : Staged s) (hl : Lined s)
    (h : Serving s i batch) (h' : Serving s j batch') : i = j ∧ batch = batch' :=
  TokenServer.Single.serving hst hl.single h h'

/-- The run reads the first users, and serves them if there are any. -/
theorem front_step (hst : Staged s) (hfront : s.AtFront i)
    (h : serveTokens s (.answer i .quiet) = some s') :
    s'.waiting = s.waiting ∧ s'.history = s.history ∧ (s.front ≠ [] → Serving s' i s.front) := by
  obtain ⟨hstate, hlog, r, hr, hlabel, hanswers, _, hscript⟩ := front_read hst hfront h
  refine ⟨congrArg (fun st => st.zsets WAITING_TOKENS_KEY) hstate, ?_, fun hne => ?_⟩
  · rw [TokenServer.history, hlog]
    simp [TokenServer.history, lineEvent, oldest]
  · rw [if_neg fun hlen => hne (List.length_eq_zero_iff.mp hlen)] at hscript
    refine ⟨r, [], hr, hlabel, ?_, hanswers⟩
    rw [hscript]
    exact TokenCall.admitting_unfinished _ _

/-- An activation that is in progress was so before, or the step starts it. -/
theorem activating_before {r' : TokenRun} (hst : Staged s) (h : serveTokens s a = some s')
    (hr' : s'.calls i = some r') (hlabel : r'.label = .activate) (hend : r'.ended = false) :
    (∃ r, s.calls i = some r ∧ r.label = .activate ∧ r.ended = false) ∨
      a = .start i .activate := by
  obtain ⟨hcrash, hs⟩ := serve_step h
  by_cases howner : a.owner = some i
  · cases hold : s.calls i with
    | none =>
      obtain ⟨label, ha, hstart⟩ := Pool.first_step hs howner hold
      obtain rfl := Option.some.inj (hr'.symm.trans hstart)
      obtain rfl : label = .activate := hlabel
      exact Or.inr ha
    | some r =>
      refine Or.inl ⟨r, rfl, ?_, ?_⟩
      · obtain ⟨q, hq, hsame⟩ := Pool.label_step hs hold
        obtain rfl := Option.some.inj (hr'.symm.trans hq)
        exact hsame.symm.trans hlabel
      · by_contra hended
        simp only [Bool.not_eq_false, Running.ended, hst.uncrashed i r hold, Bool.false_or,
          Bool.and_eq_true, List.isEmpty_iff] at hended
        exact Pool.ended_step hs hcrash hold hended.1 hended.2 howner
  · rw [Pool.calls_step hs howner] at hr'
    exact Or.inl ⟨r', hr', hlabel, hend⟩

theorem TokenServer.Single.step (hst : Staged s) (hsingle : s.Single) (hapart : s.Apart a)
    (h : serveTokens s a = some s') : s'.Single := by
  intro i j r q hr hq hlabel hlabel' hend hend'
  rcases activating_before hst h hr hlabel hend with ⟨r', hr', hl', he'⟩ | hi
  · rcases activating_before hst h hq hlabel' hend' with ⟨q', hq', hl'', he''⟩ | hj
    · exact hsingle i j r' q' hr' hq' hl' hl'' he' he''
    · exact absurd ⟨i, r', hr', hl', he'⟩ (hapart j hj)
  · rcases activating_before hst h hq hlabel' hend' with ⟨q', hq', hl'', he''⟩ | hj
    · exact absurd ⟨j, q', hq', hl'', he''⟩ (hapart i hi)
    · rw [hi] at hj
      cases hj
      rfl

theorem lined_step (hst : Staged s) (hl : Lined s) (hapart : s.Apart a)
    (h : serveTokens s a = some s') : Lined s' := by
  refine { line := ?_, single := ?_, present := ?_ }
  · intro member
    cases queued hst h with
    | same hhistory hwaiting =>
      rw [hhistory, hwaiting]
      exact hl.line member
    | join m score _ hhistory hwaiting =>
      rw [hhistory, hwaiting, Queueing.line_join, List.mem_append, List.mem_singleton,
        Redis.SortedSet.mem_addNX, hl.line]
    | leave j b _ _ hhistory hwaiting =>
      rw [hhistory, hwaiting, Queueing.line_leave, List.mem_filter, Redis.SortedSet.mem_remove,
        hl.line, decide_eq_true_eq]
  · exact TokenServer.Single.step hst hl.single hapart h
  · intro i batch hserving member hmem
    rcases serving_before h hserving with hold | ⟨rfl, _, hfront, rfl⟩
    · have hin := hl.present i batch hold member hmem
      cases queued hst h with
      | same _ hwaiting => rwa [hwaiting]
      | join m score _ _ hwaiting =>
        rw [hwaiting]
        exact Redis.SortedSet.mem_addNX.mpr (Or.inl hin)
      | leave j b hother hdone _ _ =>
        obtain ⟨rfl, rfl⟩ := hl.serving hst hold hother
        obtain ⟨r, hr, hscript, _⟩ := hdone
        obtain ⟨q, _, hq, _, hf, _⟩ := hserving
        obtain rfl := Option.some.inj (hr.symm.trans hq)
        rw [hscript] at hf
        contradiction
    · rw [(front_step hst hfront h).1]
      exact Redis.SortedSet.mem_of_mem_range hmem

/-- What is served is in order. -/
structure Orderly (s : TokenServer) : Prop where
  before : s.FirstInFirstOut
  underway : ∀ i batch, Serving s i batch → Queueing.Fair (line s.history) batch

theorem fair_front_iff (hl : Lined s) :
    Queueing.Fair (line s.history) s.front ↔ s.Straight := by
  rw [Queueing.fair_iff]
  constructor
  · intro h u v hs _ hv
    exact h u v hs hv
  · intro h u v hs hv
    by_contra hu
    have hfront : s.front = s.waiting.members.take TokenQueueService.QUEUE_THROUGHPUT :=
      Redis.SortedSet.range_first _ (by decide)
    have hin : u ∈ s.waiting := (hl.line u).mp (hs.subset List.mem_cons_self)
    obtain ⟨x, hx, y, hy, hxv, hyu, hle⟩ :=
      Redis.SortedSet.le_of_first (hfront ▸ hv) hin (hfront ▸ hu)
    exact hu (h u v hs ⟨x, hx, y, hy, hxv, hyu, hle⟩ hv)

/-- A run goes on serving its batch unless the batch leaves the line. -/
theorem serving_after (hst : Staged s) (h : serveTokens s a = some s') (hserving : Serving s i batch)
    (hleave : s'.history ≠ s.history ++ [.leave batch]) : Serving s' i batch := by
  rcases serving_step hst h hserving with hgo | ⟨_, _, _, hlog⟩
  · exact hgo
  · exact absurd (history_logged hlog) hleave

/-- Where the same batches are served before and after and the line has them in
the same order, the step decides nothing. -/
theorem orderly_congr (hserving : ∀ j batch, Serving s' j batch ↔ Serving s j batch)
    (hinOrder : Queueing.InOrder s'.history ↔ Queueing.InOrder s.history)
    (hfair : ∀ j batch, Serving s j batch →
      (Queueing.Fair (line s'.history) batch ↔ Queueing.Fair (line s.history) batch)) :
    Orderly s' ↔ Orderly s := by
  constructor
  · intro ho
    refine ⟨hinOrder.mp ho.before, fun j batch hs => ?_⟩
    exact (hfair j batch hs).mp (ho.underway j batch ((hserving j batch).mpr hs))
  · intro ho
    refine ⟨hinOrder.mpr ho.before, fun j batch hs => ?_⟩
    have hs' := (hserving j batch).mp hs
    exact (hfair j batch hs').mpr (ho.underway j batch hs')

/-- Whether those who are served are in order is decided when they are read. -/
theorem orderly_reading (hst : Staged s) (hl : Lined s) (hfront : s.AtFront i)
    (h : serveTokens s (.answer i .quiet) = some s') :
    Orderly s' ↔ Orderly s ∧ s.ReadsStraight (.answer i .quiet) := by
  obtain ⟨_, hhistory, hserves⟩ := front_step hst hfront h
  have hnone : ∀ j batch, ¬ Serving s j batch := by
    intro j batch hserving
    obtain ⟨q, hq, hlabel', hend', hempty, _⟩ := hfront.reading hst
    have hserving' := hserving
    obtain ⟨r, rest, hr, hlabel, hf, hanswers⟩ := hserving'
    have hend : r.ended = false := by simp [Running.ended, hf, hst.uncrashed j r hr]
    obtain rfl := hl.single j i r q hr hq hlabel hlabel' hend hend'
    obtain rfl := Option.some.inj (hr.symm.trans hq)
    rw [hempty] at hanswers
    contradiction
  constructor
  · intro ho
    have hbefore := ho.before
    rw [TokenServer.FirstInFirstOut, hhistory] at hbefore
    refine ⟨⟨hbefore, fun j batch hserving => absurd hserving (hnone j batch)⟩, ?_⟩
    intro _ _ _
    rw [← fair_front_iff hl]
    by_cases hempty : s.front = []
    · rw [hempty]
      exact Queueing.fair_nil
    · have hfair := ho.underway i s.front (hserves hempty)
      rwa [hhistory] at hfair
  · rintro ⟨ho, hstraight⟩
    refine ⟨?_, ?_⟩
    · rw [TokenServer.FirstInFirstOut, hhistory]
      exact ho.before
    · intro j batch hserving
      rcases serving_before h hserving with hold | ⟨_, _, _, rfl⟩
      · exact absurd hold (hnone j batch)
      · rw [hhistory, fair_front_iff hl]
        exact hstraight i rfl hfront

/-- A batch that leaves in order was in order while it was served. -/
theorem orderly_leaving (hst : Staged s) (hl : Lined s) (hserving : Serving s i batch)
    (hdone : ∃ r, s'.calls i = some r ∧ r.script = .done .none ∧ r.queue = [])
    (hhistory : s'.history = s.history ++ [.leave batch])
    (hold : ∀ j batch, Serving s' j batch → Serving s j batch) : Orderly s' ↔ Orderly s := by
  have hgone : ∀ j batch', ¬ Serving s' j batch' := by
    intro j batch' hserving'
    obtain ⟨rfl, _⟩ := hl.serving hst hserving (hold j batch' hserving')
    obtain ⟨r, hr, hscript, _⟩ := hdone
    obtain ⟨q, _, hq, _, hf, _⟩ := hserving'
    obtain rfl := Option.some.inj (hr.symm.trans hq)
    rw [hscript] at hf
    contradiction
  constructor
  · intro ho
    have hbefore := ho.before
    rw [TokenServer.FirstInFirstOut, hhistory, Queueing.inOrder_leave] at hbefore
    refine ⟨hbefore.1, fun j batch' hserving' => ?_⟩
    obtain ⟨_, rfl⟩ := hl.serving hst hserving hserving'
    exact hbefore.2
  · intro ho
    refine ⟨?_, fun j batch' hserving' => absurd hserving' (hgone j batch')⟩
    rw [TokenServer.FirstInFirstOut, hhistory, Queueing.inOrder_leave]
    exact ⟨ho.before, ho.underway i batch hserving⟩

theorem orderly_step (hst : Staged s) (hl : Lined s) (h : serveTokens s a = some s') :
    Orderly s' ↔ Orderly s ∧ s.ReadsStraight a := by
  by_cases hread : ∃ i, a = .answer i .quiet ∧ s.AtFront i
  · obtain ⟨i, rfl, hfront⟩ := hread
    exact orderly_reading hst hl hfront h
  · have hold : ∀ j batch, Serving s' j batch → Serving s j batch := by
      intro j batch hserving
      rcases serving_before h hserving with hold | ⟨ha, _, hfront, _⟩
      · exact hold
      · exact absurd ⟨j, ha, hfront⟩ hread
    have hstraight : s.ReadsStraight a := fun j ha hfront => absurd ⟨j, ha, hfront⟩ hread
    rw [and_iff_left hstraight]
    cases queued hst h with
    | same hhistory _ =>
      refine orderly_congr (fun j batch => ⟨hold j batch, fun hserving => ?_⟩) ?_ ?_
      · exact serving_after hst h hserving (by simp [hhistory])
      · rw [hhistory]
      · intro j batch _
        rw [hhistory]
    | join member score hnew hhistory _ =>
      refine orderly_congr (fun j batch => ⟨hold j batch, fun hserving => ?_⟩) ?_ ?_
      · exact serving_after hst h hserving (by simp [hhistory])
      · rw [hhistory, Queueing.inOrder_join]
      · intro j batch hserving
        rw [hhistory, Queueing.line_join]
        exact Queueing.fair_concat fun hmem => hnew (hl.present j batch hserving member hmem)
    | leave i batch hserving hdone hhistory _ =>
      exact orderly_leaving hst hl hserving hdone hhistory hold

/-- In a run of activations that do not overlap, those who are served are in
order exactly when all that was read was straight. -/
theorem orderly_iff {now : Int} {acts : List TokenAct}
    (h : Machine.run serveTokens (.init now) acts = some s)
    (hapart : Machine.Along serveTokens TokenServer.Apart (.init now) acts) :
    Lined s ∧ (Orderly s ↔
      Machine.Along serveTokens TokenServer.ReadsStraight (.init now) acts) := by
  refine Machine.run_induction (fun acts s =>
    Machine.Along serveTokens TokenServer.Apart (.init now) acts → Lined s ∧ (Orderly s ↔
      Machine.Along serveTokens TokenServer.ReadsStraight (.init now) acts)) ?_ ?_ h hapart
  · intro _
    have hnone : ∀ i batch, ¬ Serving (.init now) i batch := by
      rintro i batch ⟨r, _, hr, _⟩
      simp [TokenServer.init, Pool.init] at hr
    refine ⟨{ line := ?_, single := ?_, present := ?_ }, ?_⟩
    · intro member
      constructor
      · intro hmem
        contradiction
      · intro hmem
        exact absurd hmem Redis.SortedSet.not_mem_empty
    · intro i j r q hr
      simp [TokenServer.init, Pool.init] at hr
    · intro i batch hserving
      exact absurd hserving (hnone i batch)
    · refine ⟨fun _ => trivial, fun _ => ⟨Queueing.inOrder_nil, ?_⟩⟩
      intro i batch hserving
      exact absurd hserving (hnone i batch)
  · intro acts m a t hm ih hs hall
    obtain ⟨hbefore, hlast⟩ := (Machine.along_append hm).mp hall
    obtain ⟨hl, hiff⟩ := ih hbefore
    have hst := staged_reachable ⟨acts, hm⟩
    refine ⟨lined_step hst hl hlast.1 hs, ?_⟩
    rw [orderly_step hst hl hs, hiff, Machine.along_append hm]
    simp [Machine.Along]

theorem orderly_of_done (hst : Staged s) (hdone : ¬ s.Activating) (hfifo : s.FirstInFirstOut) :
    Orderly s := by
  refine ⟨hfifo, fun i batch hserving => ?_⟩
  exact absurd (hserving.activating hst) hdone

/-- When all activations have come to their end, the queue was first in, first
out exactly when all that was read was straight. -/
theorem first_in_first_out_iff {now : Int} {acts : List TokenAct}
    (h : Machine.run serveTokens (.init now) acts = some s)
    (hapart : Machine.Along serveTokens TokenServer.Apart (.init now) acts)
    (hdone : ¬ s.Activating) : s.FirstInFirstOut ↔
      Machine.Along serveTokens TokenServer.ReadsStraight (.init now) acts := by
  obtain ⟨_, hiff⟩ := orderly_iff h hapart
  rw [← hiff]
  constructor
  · intro hfifo
    exact orderly_of_done (staged_reachable ⟨acts, h⟩) hdone hfifo
  · intro ho
    exact ho.before

end Fifo

/-- Two users come and are served. -/
def twoServed : List TokenAct :=
  enqueued 0 7 1 ++ enqueued 1 8 2 ++ [.start 2 .activate, .answer 2 .quiet, .answer 2 (.read 3),
    .issue 2, .flush 2 .quiet, .answer 2 (.read 3), .issue 2, .flush 2 .quiet, .answer 2 .quiet]

def TokenServer.startsApart? (n : Nat) (s : TokenServer) : TokenAct → Bool
  | .start _ .activate => !s.activating? n
  | _ => true

theorem startsApart_of_check {n : Nat} (s : TokenServer) (a : TokenAct)
    (hcalls : ∀ i, n ≤ i → s.calls i = none) (h : s.startsApart? n a = true) : s.Apart a := by
  rintro i rfl
  exact not_activating_of_check hcalls (by simpa [TokenServer.startsApart?] using h)

theorem first_in_first_out_iff_twoServed :
    ∃ s, Machine.run serveTokens (.init 0) twoServed = some s ∧ (s.FirstInFirstOut ↔
      Machine.Along serveTokens TokenServer.ReadsStraight (.init 0) twoServed) := by
  have hrun : (Machine.run serveTokens (.init 0) twoServed).map (fun s => s.activating? 3) =
      some false := by
    decide +kernel
  have hchecks : Machine.checks serveTokens (TokenServer.startsApart? 3) (.init 0) twoServed =
      true := by
    decide +kernel
  have hcalls : Machine.Throughout serveTokens (fun s => ∀ i, 3 ≤ i → s.calls i = none) (.init 0)
      twoServed := by
    rintro past m ⟨rest, hpast⟩ hm
    refine unused_calls hm ?_
    have hall : (twoServed.all fun a => a.owner.all (· < 3)) = true := by decide
    rw [← hpast, List.all_append, Bool.and_eq_true] at hall
    exact hall.1
  obtain ⟨s, hs, hidle⟩ := Option.map_eq_some_iff.mp hrun
  refine ⟨s, hs, first_in_first_out_iff hs (hcalls.along_of_checks startsApart_of_check hchecks) ?_⟩
  exact not_activating_of_check (hcalls _ s List.prefix_rfl hs) hidle

/-! A queue that is longer than a batch. -/

def arriving (i : CallId) (userId now : Int) : List TokenAct :=
  .env (.tick now) :: enqueued i userId now

/-- A run that has read its batch, and has so many users to go. -/
def admitted (i : CallId) (now : Int) : Nat → List TokenAct
  | 0 => [.answer i .quiet]
  | n + 1 => .answer i (.read now) :: .issue i :: .flush i .quiet :: admitted i now n

/-- A user comes every millisecond. -/
def crowd : Nat → List TokenAct
  | 0 => []
  | n + 1 => crowd n ++ arriving n (100 + n) n

/-- Behind them users 9 and 10 come in one millisecond. -/
def tied (n : Nat) : List TokenAct :=
  crowd n ++ arriving n 9 5000 ++ arriving (n + 1) 10 5000

/-- An activation serves all but one of them. -/
def overtaking (n : Nat) : List TokenAct :=
  tied n ++ (.start (n + 2) .activate :: .answer (n + 2) .quiet :: admitted (n + 2) 5000 (n + 1))

/-- Nobody has been let in yet. -/
structure Waited (s : TokenServer) (n : Nat) (entries : List (Redis.Scored Int String)) : Prop where
  calls : ∀ j, n ≤ j → s.calls j = none
  strings : ∀ key, s.state.strings key = none
  entries : s.waiting.entries = entries

section Crowd

variable {s : TokenServer} {i : CallId} {userId : Int} (now : Int)

theorem enqueue_solo {st : Redis.Store Jwt} (hget : st.strings (TokenCall.key userId) = none)
    (hnew : toString userId ∉ st.zsets WAITING_TOKENS_KEY) :
    ∃ w, (TokenCall.handle (.enqueue userId)).solo st [.quiet, .quiet, .read now, .quiet, .quiet] =
      some w ∧ w.state = (st.exec (.zaddNX WAITING_TOKENS_KEY now (toString userId))).2 ∧
      w.answers.filterMap lineEvent = [.join (toString userId)] := by
  have hrank := Redis.SortedSet.rank_eq_none.mpr hnew
  simp only [TokenCall.handle_enqueue, TokenCall.enqueueing, Interleaving.Script.solo, TokenOp.exec,
    Redis.Store.exec, hget, Option.map_none, TokenCall.rank, hrank, TokenCall.clock, TokenCall.join,
    TokenCall.size, TokenCall.waiting, if_neg hnew, Option.bind_some, Option.map_some,
    Option.some.injEq, exists_eq_left', Interleaving.Went.after, true_and, List.filterMap_cons,
    lineEvent, if_true, List.filterMap_nil]

theorem arriving_run {n : Nat} (userId : Int) (low high : List (Redis.Scored Int String))
    (hs : Waited s n (low ++ high)) (hnow : s.state.now ≤ now)
    (hlow : ∀ y ∈ low, y.score < now) (hnew : ∀ y ∈ low ++ high, y.member ≠ toString userId) :
    ∃ t, Machine.run serveTokens s (arriving n userId now) = some t ∧ t.state.now = now ∧
      Waited t (n + 1) (low ++ high.orderedInsert Redis.Scored.le ⟨now, toString userId⟩) ∧
      t.history = s.history ++ [.join (toString userId)] := by
  have htick : serveTokens s (.env (.tick now)) = some { s with state := s.state.tick now } := by
    simp [serveTokens, Interleaving.Act.isCrash, Pool.step, hnow]
  have hstrings : ∀ key, (s.state.tick now).strings key = none := by
    intro key
    simp [Redis.Store.tick, hs.strings key]
  have hmem : toString userId ∉ s.waiting := by
    intro hmem
    obtain ⟨y, hy, hyu⟩ := Redis.SortedSet.mem_iff.mp hmem
    exact hnew y (hs.entries ▸ hy) hyu
  obtain ⟨w, hw, hstate, hanswers⟩ := enqueue_solo now (hstrings (TokenCall.key userId)) hmem
  obtain ⟨t, hrun, hleft⟩ := Pool.alone_of_solo TokenCall.handle
    (s := { s with state := s.state.tick now }) (hs.calls n (Nat.le_refl n)) hw
  have hserve : Machine.run serveTokens { s with state := s.state.tick now }
      (enqueued n userId now) = some t := by
    refine serve_run hrun fun a ha => ?_
    have hall : ((enqueued n userId now).all fun a => !a.isCrash) = true := rfl
    simpa using List.all_eq_true.mp hall a ha
  refine ⟨t, Machine.run_cons.mpr ⟨_, htick, hserve⟩, ?_, ⟨?_, ?_, ?_⟩, ?_⟩
  · rw [hleft.state, hstate, Redis.Store.now_exec]
    rfl
  · intro j hj
    rw [hleft.others j (Nat.ne_of_gt hj)]
    exact hs.calls j (Nat.le_of_succ_le hj)
  · intro key
    rw [hleft.state, hstate, Redis.Store.strings_exec_other (by simp) (by simp)]
    exact hstrings key
  · rw [TokenServer.waiting, hleft.state, hstate, Redis.Store.zsets_exec_zaddNX, if_pos rfl]
    exact Redis.SortedSet.entries_addNX_append hmem hs.entries hlow
  · rw [TokenServer.history, hleft.logged, List.filterMap_append, hanswers]
    rfl

theorem arriving_oneClock {now : Int} :
    Machine.Along serveTokens OneClock s (arriving i userId now) := by
  refine ⟨?_, ?_⟩
  · intro j t h
    contradiction
  · intro m hm
    obtain ⟨st, hst, rfl⟩ := Pool.step_env (serve_step hm).2
    simp only [Option.ite_none_right_eq_some, Option.some.injEq] at hst
    obtain ⟨_, rfl⟩ := hst
    refine oneClock_between ?_ ?_
    · intro a ha e he
      simp [enqueued, he] at ha
    · intro a ha j t ht
      simp only [enqueued, ht, List.mem_cons, Interleaving.Act.answer.injEq, reduceCtorEq, and_false,
        TokenEvent.read.injEq, List.not_mem_nil, or_false, false_or] at ha
      exact ha.2

/-- The users of the crowd, as they wait. -/
def crowded (n : Nat) : List (Redis.Scored Int String) :=
  (List.range n).map fun (k : Nat) => ⟨k, toString (100 + k : Int)⟩

theorem crowd_run (n : Nat) : ∃ t, Machine.run serveTokens (.init 0) (crowd n) = some t ∧
    Machine.Along serveTokens OneClock (.init 0) (crowd n) ∧ t.state.now ≤ n ∧
    Waited t n (crowded n) := by
  induction n with
  | zero =>
    refine ⟨_, rfl, trivial, Int.le_refl 0, ⟨?_, ?_, rfl⟩⟩
    · intro j _
      rfl
    · intro key
      rfl
  | succ n ih =>
    obtain ⟨s, hs, hclock, hnow, hwaited⟩ := ih
    have hlow : ∀ y ∈ crowded n, y.score < n := by
      intro y hy
      obtain ⟨k, hk, rfl⟩ := List.mem_map.mp hy
      exact Int.ofNat_lt.mpr (List.mem_range.mp hk)
    have hnew : ∀ y ∈ crowded n ++ [], y.member ≠ toString (100 + n : Int) := by
      intro y hy heq
      rw [List.append_nil] at hy
      obtain ⟨k, hk, rfl⟩ := List.mem_map.mp hy
      have hlt := List.mem_range.mp hk
      have hid := toString_injective heq
      omega
    obtain ⟨t, ht, htnow, hwaited', _⟩ := arriving_run (s := s) n (100 + n) (crowded n) []
      (by simpa using hwaited) hnow hlow hnew
    refine ⟨t, Machine.run_append.mpr ⟨s, hs, ht⟩,
      (Machine.along_append hs).mpr ⟨hclock, arriving_oneClock⟩, by omega, ?_⟩
    rw [crowded, List.range_succ, List.map_append]
    exact hwaited'

/-- The user who came last stands before the one who came before him. -/
theorem tied_run {n : Nat} (hn : n ≤ 5000) :
    ∃ t, Machine.run serveTokens (.init 0) (tied n) = some t ∧
    Machine.Along serveTokens OneClock (.init 0) (tied n) ∧ t.state.now = 5000 ∧
    Waited t (n + 2) (crowded n ++ [⟨5000, toString (10 : Int)⟩, ⟨5000, toString (9 : Int)⟩]) ∧
    [toString (9 : Int), toString (10 : Int)].Sublist (line t.history) := by
  obtain ⟨s, hs, hclock, hnow, hwaited⟩ := crowd_run n
  have hlow : ∀ y ∈ crowded n, y.score < 5000 := by
    intro y hy
    obtain ⟨k, hk, rfl⟩ := List.mem_map.mp hy
    have hlt := List.mem_range.mp hk
    simp only
    omega
  have hother : ∀ userId : Int, userId < 100 → ∀ y ∈ crowded n, y.member ≠ toString userId := by
    intro userId hu y hy heq
    obtain ⟨k, _, rfl⟩ := List.mem_map.mp hy
    have hid := toString_injective heq
    omega
  obtain ⟨m, hm, hmnow, hmwaited, hmhistory⟩ := arriving_run (s := s) 5000 9 (crowded n) []
    (by simpa using hwaited) (by omega) hlow (by simpa using hother 9 (by decide))
  have hnew : ∀ y ∈ crowded n ++ [⟨5000, toString (9 : Int)⟩], y.member ≠ toString (10 : Int) := by
    intro y hy
    rcases List.mem_append.mp hy with hy | hy
    · exact hother 10 (by decide) y hy
    · rw [List.mem_singleton.mp hy]
      decide
  obtain ⟨t, ht, htnow, htwaited, hthistory⟩ := arriving_run (s := m) 5000 10 (crowded n) _
    hmwaited (Int.le_of_eq hmnow) hlow hnew
  have hboth := Machine.run_append.mpr ⟨s, hs, hm⟩
  refine ⟨t, Machine.run_append.mpr ⟨m, hboth, ht⟩, ?_, htnow, ?_, ?_⟩
  · exact (Machine.along_append hboth).mpr ⟨(Machine.along_append hs).mpr
      ⟨hclock, arriving_oneClock⟩, arriving_oneClock⟩
  · rwa [List.orderedInsert_nil, List.orderedInsert_cons, if_pos (by decide)] at htwaited
  · rw [hthistory, hmhistory, Queueing.line_join, Queueing.line_join, List.append_assoc]
    exact List.sublist_append_right _ _

theorem not_activate_of_tied (n : Nat) : ∀ a ∈ tied n, ∀ j, a ≠ .start j .activate := by
  have harriving : ∀ i userId now, ∀ a ∈ arriving i userId now, ∀ j, a ≠ .start j .activate := by
    intro i userId now a ha j hj
    simp [arriving, enqueued, hj] at ha
  have hcrowd : ∀ n, ∀ a ∈ crowd n, ∀ j, a ≠ .start j .activate := by
    intro n
    induction n with
    | zero => simp [crowd]
    | succ n ih =>
      intro a ha
      rcases List.mem_append.mp ha with ha | ha
      · exact ih a ha
      · exact harriving _ _ _ a ha
  intro a ha
  rcases List.mem_append.mp ha with ha | ha
  · rcases List.mem_append.mp ha with ha | ha
    · exact hcrowd _ a ha
    · exact harriving _ _ _ a ha
  · exact harriving _ _ _ a ha

theorem mem_admitted {now : Int} {n : Nat} {a : TokenAct} (h : a ∈ admitted i now n) :
    a = .answer i .quiet ∨ a = .answer i (.read now) ∨ a = .issue i ∨ a = .flush i .quiet := by
  induction n with
  | zero => exact Or.inl (List.mem_singleton.mp h)
  | succ n ih =>
    simp only [admitted, List.mem_cons] at h
    rcases h with h | h | h | h
    · exact Or.inr (Or.inl h)
    · exact Or.inr (Or.inr (Or.inl h))
    · exact Or.inr (Or.inr (Or.inr h))
    · exact ih h

/-- A run that has read its batch can be brought to its end. -/
theorem admitted_run {r : TokenRun} {batch todo : List String} (hr : s.calls i = some r)
    (hs : r.script = TokenCall.admitting batch todo) (hq : r.queue = []) (hc : r.crashed = false) :
    ∃ (t : TokenServer) (r' : TokenRun),
      Machine.run (Pool.step TokenCall.handle) s (admitted i now todo.length) = some t ∧
      t.calls i = some r' ∧ r'.ended = true := by
  induction todo generalizing s r with
  | nil =>
    have hn : r.next = some ⟨.redis (.zrem WAITING_TOKENS_KEY batch), fun _ => .done .none⟩ :=
      Running.next_eq_some.mpr ⟨hc, Or.inr ⟨hs, hq⟩⟩
    refine ⟨_, _, Machine.run_cons.mpr ⟨_, Pool.answer_step hr hn rfl, rfl⟩,
      Function.update_self .., ?_⟩
    simp [Running.ended, Running.answered, Interleaving.Script.finished, hq]
  | cons member todo ih =>
    obtain ⟨k, hn, hk⟩ : ∃ k, r.next = some ⟨.sign (parseInt member), k⟩ ∧
        ∀ token, k (some token) =
          .send (TokenCall.store member token) (TokenCall.admitting batch todo) :=
      ⟨_, Running.next_eq_some.mpr ⟨hc, Or.inl hs⟩, fun _ => rfl⟩
    obtain ⟨s₁, hs₁, r₁, hr₁, hscript₁, hq₁, hc₁⟩ : ∃ s₁,
        Pool.step TokenCall.handle s (.answer i (.read now)) = some s₁ ∧ ∃ r₁,
          s₁.calls i = some r₁ ∧ r₁.script = .send (TokenCall.store member
            (Jwt.sign (parseInt member) now)) (TokenCall.admitting batch todo) ∧
          r₁.queue = [] ∧ r₁.crashed = false :=
      ⟨_, Pool.answer_step hr hn rfl, _, Function.update_self .., hk _, hq, hc⟩
    obtain ⟨s₂, hs₂, r₂, hr₂, hscript₂, hq₂, hc₂⟩ : ∃ s₂,
        Pool.step TokenCall.handle s₁ (.issue i) = some s₂ ∧ ∃ r₂,
          s₂.calls i = some r₂ ∧ r₂.script = TokenCall.admitting batch todo ∧
          r₂.queue = [TokenCall.store member (Jwt.sign (parseInt member) now)] ∧
          r₂.crashed = false :=
      ⟨_, Pool.issue_step hr₁ hc₁ hscript₁, _, Function.update_self .., rfl, by simp [hq₁], hc₁⟩
    obtain ⟨s₃, hs₃, r₃, hr₃, hscript₃, hq₃, hc₃⟩ : ∃ s₃,
        Pool.step TokenCall.handle s₂ (.flush i .quiet) = some s₃ ∧ ∃ r₃,
          s₃.calls i = some r₃ ∧ r₃.script = TokenCall.admitting batch todo ∧
          r₃.queue = [] ∧ r₃.crashed = false :=
      ⟨_, Pool.flush_step hr₂ hq₂ rfl, _, Function.update_self .., hscript₂, rfl, hc₂⟩
    obtain ⟨t, r', hrun, hr', hend⟩ := ih hr₃ hscript₃ hq₃ hc₃
    refine ⟨t, r', ?_, hr', hend⟩
    exact Machine.run_cons.mpr ⟨s₁, hs₁, Machine.run_cons.mpr ⟨s₂, hs₂,
      Machine.run_cons.mpr ⟨s₃, hs₃, hrun⟩⟩⟩

theorem mem_activation {now : Int} {n : Nat} {a : TokenAct}
    (h : a ∈ (.start i .activate :: .answer i .quiet :: admitted i now n : List TokenAct)) :
    a = .start i .activate ∨ a = .answer i .quiet ∨ a = .answer i (.read now) ∨ a = .issue i ∨
      a = .flush i .quiet := by
  rcases List.mem_cons.mp h with h | h
  · exact Or.inl h
  · rcases List.mem_cons.mp h with h | h
    · exact Or.inr (Or.inl h)
    · exact Or.inr (mem_admitted h)

/-- An activation that starts now and reads so many users. -/
theorem activation_run {n : Nat} (hi : s.calls i = none) (hlength : s.front.length = n + 1) :
    ∃ (m t : TokenServer) (r : TokenRun), serveTokens s (.start i .activate) = some m ∧
      m.AtFront i ∧ m.state = s.state ∧ m.history = s.history ∧
      Machine.run serveTokens s (.start i .activate :: .answer i .quiet :: admitted i now (n + 1)) =
        some t ∧ t.calls i = some r ∧ r.ended = true := by
  obtain ⟨m, hm, r, hr, hscript, hq, hc, hstate, hhistory⟩ : ∃ m : TokenServer,
      Pool.step TokenCall.handle s (.start i .activate) = some m ∧ ∃ r,
        m.calls i = some r ∧ r.script = TokenCall.activating ∧ r.queue = [] ∧
        r.crashed = false ∧ m.state = s.state ∧ m.history = s.history :=
    ⟨_, Pool.start_step hi, _, Function.update_self .., TokenCall.handle_activate, rfl, rfl, rfl, rfl⟩
  have hn : r.next = some ⟨.redis (.zrange WAITING_TOKENS_KEY 0
      (TokenQueueService.QUEUE_THROUGHPUT - 1)), fun batch =>
        if batch.length = 0 then .done .none else TokenCall.admitting batch batch⟩ :=
    Running.next_eq_some.mpr ⟨hc, Or.inr ⟨hscript, hq⟩⟩
  obtain ⟨m₂, hm₂, r₂, hr₂, hscript₂, hq₂, hc₂⟩ : ∃ m₂,
      Pool.step TokenCall.handle m (.answer i .quiet) = some m₂ ∧ ∃ r₂,
        m₂.calls i = some r₂ ∧ r₂.script = TokenCall.admitting s.front s.front ∧
        r₂.queue = [] ∧ r₂.crashed = false := by
    refine ⟨_, Pool.answer_step hr hn rfl, _, Function.update_self .., ?_, hq, hc⟩
    have hreply : (m.state.zsets WAITING_TOKENS_KEY).range 0
        (TokenQueueService.QUEUE_THROUGHPUT - 1) = s.front := by
      rw [hstate]
      rfl
    simp only [Running.answered]
    rw [hreply, hlength, if_neg (Nat.succ_ne_zero n)]
  obtain ⟨t, r', hrun, hr', hend⟩ := admitted_run now hr₂ hscript₂ hq₂ hc₂
  rw [hlength] at hrun
  refine ⟨m, t, r', hm, ⟨r, _, hr, hn⟩, hstate, hhistory, ?_, hr', hend⟩
  refine serve_run (Machine.run_cons.mpr ⟨m, hm, Machine.run_cons.mpr ⟨m₂, hm₂, hrun⟩⟩) ?_
  intro a ha
  rcases mem_activation ha with rfl | rfl | rfl | rfl | rfl <;> rfl

theorem activation_oneClock {n : Nat} (hnow : s.state.now = now) : Machine.Along serveTokens OneClock s
    (.start i .activate :: .answer i .quiet :: admitted i now n) := by
  refine oneClock_between ?_ ?_
  · intro a ha e he
    subst he
    rcases mem_activation ha with h | h | h | h | h <;> contradiction
  · intro a ha j u hu
    subst hu
    rcases mem_activation ha with h | h | h | h | h <;> cases h
    exact hnow.symm

theorem activation_apart {n : Nat} (hidle : ¬ s.Activating) : Machine.Along serveTokens
    TokenServer.Apart s (.start i .activate :: .answer i .quiet :: admitted i now n) := by
  refine ⟨fun _ _ => hidle, fun _ _ => ?_⟩
  refine Machine.along_of_forall fun a ha m j hj => ?_
  rcases List.mem_cons.mp ha with rfl | ha
  · contradiction
  · rcases mem_admitted ha with rfl | rfl | rfl | rfl <;> contradiction

/-- All but the last of the waiting users are at the front. -/
theorem front_crowded {n : Nat} (hn : n + 1 = TokenQueueService.QUEUE_THROUGHPUT)
    (hentries : s.waiting.entries =
      crowded n ++ [⟨5000, toString (10 : Int)⟩, ⟨5000, toString (9 : Int)⟩]) :
    s.front = (crowded n).map Redis.Scored.member ++ [toString (10 : Int)] := by
  have hcrowd : ((crowded n).map Redis.Scored.member).length = n := by simp [crowded]
  rw [TokenServer.front, Redis.SortedSet.range_first _ (by decide), ← hn,
    Redis.SortedSet.members, hentries, List.map_append, List.take_append, hcrowd,
    List.take_of_length_le (by omega), Nat.add_sub_cancel_left]
  rfl

theorem not_straight_crowded {n : Nat} (hn : n + 1 = TokenQueueService.QUEUE_THROUGHPUT)
    (hentries : s.waiting.entries =
      crowded n ++ [⟨5000, toString (10 : Int)⟩, ⟨5000, toString (9 : Int)⟩])
    (hline : [toString (9 : Int), toString (10 : Int)].Sublist (line s.history)) :
    ¬ s.Straight := by
  intro hstraight
  have hbefore : s.Before (toString (10 : Int)) (toString (9 : Int)) := by
    refine ⟨⟨5000, toString (10 : Int)⟩, ?_, ⟨5000, toString (9 : Int)⟩, ?_, rfl, rfl, ?_⟩
    · rw [hentries]
      simp
    · rw [hentries]
      simp
    · decide
  have hfront := front_crowded hn hentries
  have hnine := hstraight _ _ hline hbefore (by rw [hfront]; simp)
  rw [hfront] at hnine
  rcases List.mem_append.mp hnine with hmem | hmem
  · obtain ⟨y, hy, hnine⟩ := List.mem_map.mp hmem
    obtain ⟨k, _, rfl⟩ := List.mem_map.mp hy
    have hid := toString_injective hnine
    omega
  · exact absurd (List.mem_singleton.mp hmem) (by decide)

theorem overtaking_run {n : Nat} (hn : n + 1 = TokenQueueService.QUEUE_THROUGHPUT) :
    ∃ s, Machine.run serveTokens (.init 0) (overtaking n) = some s ∧
      Machine.Along serveTokens OneClock (.init 0) (overtaking n) ∧
      Machine.Along serveTokens TokenServer.Apart (.init 0) (overtaking n) ∧
      ¬ s.Activating ∧ ¬ s.FirstInFirstOut := by
  have hle : n ≤ 5000 := by
    have hthroughput : TokenQueueService.QUEUE_THROUGHPUT = 2000 := rfl
    omega
  obtain ⟨t, ht, hclock, hnow, hwaited, hline⟩ := tied_run hle
  have hlength : t.front.length = n + 1 := by
    rw [front_crowded hn hwaited.entries, List.length_append, crowded]
    simp
  obtain ⟨m, s, r, hm, hfront, hstate, hhistory, htail, hr, hend⟩ :=
    activation_run 5000 (hwaited.calls (n + 2) (Nat.le_refl _)) hlength
  have hs := Machine.run_append.mpr ⟨t, ht, htail⟩
  have hidle : ¬ t.Activating := by
    rintro ⟨j, q, hq, hlabel, _⟩
    have hstarted := Pool.started
      (Machine.run_mono (fun s a t hs => (serve_step (s := s) hs).2) ht) hq
    rw [hlabel] at hstarted
    exact not_activate_of_tied n _ hstarted j rfl
  have hapart : Machine.Along serveTokens TokenServer.Apart (.init 0) (overtaking n) := by
    refine (Machine.along_append ht).mpr ⟨?_, activation_apart 5000 hidle⟩
    refine Machine.along_of_forall fun a ha m i hi => ?_
    exact absurd hi (not_activate_of_tied n a ha i)
  have hdone : ¬ s.Activating := by
    rintro ⟨j, q, hq, hlabel, hend'⟩
    have hstarted := Pool.started
      (Machine.run_mono (fun s a t hs => (serve_step (s := s) hs).2) hs) hq
    rw [hlabel] at hstarted
    rcases List.mem_append.mp hstarted with hmem | hmem
    · exact not_activate_of_tied n _ hmem j rfl
    · rcases mem_activation hmem with h | h | h | h | h <;> cases h
      obtain rfl := Option.some.inj (hr.symm.trans hq)
      rw [hend] at hend'
      contradiction
  refine ⟨s, hs, (Machine.along_append ht).mpr ⟨hclock, activation_oneClock 5000 hnow⟩, hapart,
    hdone, ?_⟩
  -- what the activation reads is not straight
  intro hfifo
  have hreads := (orderly_iff hs hapart).2.mp
    (orderly_of_done (staged_reachable ⟨_, hs⟩) hdone hfifo)
  obtain ⟨_, _, hrest⟩ := (Machine.along_append ht).mp hreads
  have hentries : m.waiting.entries = t.waiting.entries :=
    congrArg (fun st => (st.zsets WAITING_TOKENS_KEY).entries) hstate
  exact not_straight_crowded hn (hentries.trans hwaited.entries) (hhistory ▸ hline)
    ((hrest m hm).1 (n + 2) rfl hfront)

end Crowd

/-- User 9 came first, and user 10 is let in. -/
theorem taken_out_of_turn :
    ∃ s, Machine.run serveTokens (.init 0) (overtaking 1999) = some s ∧
      Machine.Along serveTokens OneClock (.init 0) (overtaking 1999) ∧
      Machine.Along serveTokens TokenServer.Apart (.init 0) (overtaking 1999) ∧
      ¬ s.Activating ∧ ¬ s.FirstInFirstOut :=
  overtaking_run rfl

end HighVolumeBooking
