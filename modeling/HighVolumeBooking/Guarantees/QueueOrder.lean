import HighVolumeBooking.Guarantees.LiveQueues
import HighVolumeBooking.Guarantees.Ranks

namespace HighVolumeBooking

open ReadCommitted (RowId Table)
open Interleaving (Pool Running)

namespace UserQueueStore

/-- No row has a key beyond the greatest one. -/
def Keyed (st : UserQueueStore) : Prop := ∀ row ∈ st.queues.rows, row.id ≤ st.lastId

/-- What was activated is older than what is pending. -/
def InOrder (st : UserQueueStore) : Prop :=
  ∀ x ∈ st.queues.rows, ∀ y ∈ st.queues.rows, x.token.isNone = false →
    y.token.isNone = true → x.id < y.id

/-- Rows that were read together, as far as their keys and users go. -/
structure Batch (st : UserQueueStore) (batch : List UserQueueEntity) : Prop where
  sorted : batch.Pairwise fun a b => a.id < b.id
  known : ∀ x ∈ batch, st.Known x

/-- No pending row is older than one of the batch without being in it. -/
def Front (st : UserQueueStore) (batch : List UserQueueEntity) : Prop :=
  ∀ x ∈ batch, ∀ y ∈ st.queues.rows, y.token.isNone = true → y.id ≤ x.id →
    y.id ∈ batch.map UserQueueEntity.id

/-- What has become of the rows of an earlier store: none is gone, and none that
was activated is pending again. -/
def Kept (st st' : UserQueueStore) : Prop :=
  ∀ x ∈ st.queues.rows, ∃ y ∈ st'.queues.rows, y.id = x.id ∧ y.userId = x.userId ∧
    (x.token.isNone = false → y.token.isNone = false)

variable {st st' : UserQueueStore} {batch entities : List UserQueueEntity} {x y : UserQueueEntity}
  {id : Int} {userId : RowId}

theorem Kept.refl (st : UserQueueStore) : st.Kept st := fun x hx => ⟨x, hx, rfl, rfl, fun h => h⟩

theorem Kept.trans {st'' : UserQueueStore} (h : st.Kept st') (h' : st'.Kept st'') :
    st.Kept st'' := by
  intro x hx
  obtain ⟨y, hy, hid, huser, htoken⟩ := h x hx
  obtain ⟨z, hz, hid', huser', htoken'⟩ := h' y hy
  exact ⟨z, hz, hid'.trans hid, huser'.trans huser, fun ht => htoken' (htoken ht)⟩

theorem Kept.known (h : st.Kept st') (hx : st.Known x) : st'.Known x := by
  obtain ⟨row, hrow, hid, huser⟩ := hx
  obtain ⟨y, hy, hid', huser', _⟩ := h row hrow
  exact ⟨y, hy, hid'.trans hid, huser'.trans huser⟩

/-! The oldest pending rows, as they are read. -/

theorem Batch.pending (st : UserQueueStore) (n : Nat) : st.Batch (st.pending.take n) where
  sorted := (pairwise_pending st).sublist (List.take_sublist n st.pending)
  known := fun x hx => ⟨x, (mem_pending.mp (List.mem_of_mem_take hx)).1, rfl, rfl⟩

theorem Front.pending (st : UserQueueStore) (n : Nat) : st.Front (st.pending.take n) := by
  intro x hx y hy hnone hle
  refine List.mem_map.mpr ⟨y, ?_, rfl⟩
  rcases (mem_split n).mp (mem_pending.mpr ⟨hy, hnone⟩) with htake | hdrop
  · exact htake
  · exact absurd (pairwise_split hx hdrop) (not_lt.mpr hle)

/-! A new row leaves the others alone, and is younger than all of them where the rows
show up in the order of their keys. -/

theorem Keyed.addQueue (h : st.Keyed) (hid : st.Fresh id) : (st.addQueue id userId).Keyed := by
  intro row hrow
  rcases (mem_addQueue hid).mp hrow with rfl | hrow
  · exact le_max_right _ _
  · exact (h row hrow).trans (le_max_left _ _)

theorem kept_addQueue (hid : st.Fresh id) : st.Kept (st.addQueue id userId) :=
  fun x hx => ⟨x, (mem_addQueue hid).mpr (Or.inr hx), rfl, rfl, fun ht => ht⟩

theorem Batch.addQueue (hb : st.Batch batch) (hid : st.Fresh id) :
    (st.addQueue id userId).Batch batch :=
  ⟨hb.sorted, fun x hx => (kept_addQueue hid).known (hb.known x hx)⟩

theorem InOrder.addQueue (h : st.InOrder) (hkeys : st.Keyed) (hid : st.Fresh id)
    (hlast : st.lastId < id) : (st.addQueue id userId).InOrder := by
  intro x hx y hy hx' hy'
  rcases (mem_addQueue hid).mp hx with rfl | hx
  · contradiction
  · rcases (mem_addQueue hid).mp hy with rfl | hy
    · exact lt_of_le_of_lt (hkeys x hx) hlast
    · exact h x hx y hy hx' hy'

theorem Front.addQueue (hf : st.Front batch) (hb : st.Batch batch) (hkeys : st.Keyed)
    (hid : st.Fresh id) (hlast : st.lastId < id) : (st.addQueue id userId).Front batch := by
  intro x hx y hy hnone hle
  rcases (mem_addQueue hid).mp hy with rfl | hy
  · obtain ⟨row, hrow, hrowid, _⟩ := hb.known x hx
    have hkey := hkeys row hrow
    simp only at hle
    omega
  · exact hf x hx y hy hnone hle

/-! A batch is saved with a token in each of its rows. -/

section Save

variable (hb : st.Batch batch) (hactivated : List.Forall₂ ActivatedAs batch entities)
include hactivated

theorem ids_activated : entities.map UserQueueEntity.id = batch.map UserQueueEntity.id := by
  induction hactivated with
  | nil => rfl
  | cons ha _ ih =>
    obtain ⟨_, _, rfl⟩ := ha
    simp only [List.map_cons, ih]

include hb

theorem Batch.mem_saveAll : x ∈ (st.saveAll entities).queues.rows ↔
    x ∈ entities ∨ (x ∈ st.queues.rows ∧ x.id ∉ batch.map UserQueueEntity.id) := by
  have hids := ids_activated hactivated
  have hnodup : (entities.map UserQueueEntity.id).Nodup := by
    rw [hids]
    exact List.pairwise_map.mpr (hb.sorted.imp ne_of_lt)
  rw [← hids]
  exact Table.mem_putAll hnodup

/-- Who is pending after the save was pending before, and not in the batch. -/
theorem Batch.pending_saveAll (hy : y ∈ (st.saveAll entities).queues.rows)
    (hnone : y.token.isNone = true) :
    y ∈ st.queues.rows ∧ y.id ∉ batch.map UserQueueEntity.id := by
  rcases (hb.mem_saveAll hactivated).mp hy with hy | hy
  · obtain ⟨row, _, _, _, rfl⟩ := activated_from hactivated hy
    contradiction
  · exact hy

theorem Batch.keyed_saveAll (hkeys : st.Keyed) : (st.saveAll entities).Keyed := by
  intro row hrow
  rcases (hb.mem_saveAll hactivated).mp hrow with hrow | ⟨hrow, _⟩
  · obtain ⟨old, hold, _, _, rfl⟩ := activated_from hactivated hrow
    obtain ⟨stored, hstored, hid, _⟩ := hb.known old hold
    exact hid ▸ hkeys stored hstored
  · exact hkeys row hrow

theorem Batch.kept_saveAll : st.Kept (st.saveAll entities) := by
  intro x hx
  by_cases hin : x.id ∈ batch.map UserQueueEntity.id
  · rw [← ids_activated hactivated] at hin
    obtain ⟨e, he, hid⟩ := List.mem_map.mp hin
    refine ⟨e, (hb.mem_saveAll hactivated).mpr (Or.inl he), hid, ?_, fun _ => ?_⟩
    · obtain ⟨row, hrow, _, _, rfl⟩ := activated_from hactivated he
      exact ((hb.known row hrow).user_eq hx hid.symm).symm
    · obtain ⟨row, _, _, _, rfl⟩ := activated_from hactivated he
      rfl
  · exact ⟨x, (hb.mem_saveAll hactivated).mpr (Or.inr ⟨hx, hin⟩), rfl, rfl, fun ht => ht⟩

/-- The batches of other runs stay what they were. -/
theorem Batch.saveAll {other : List UserQueueEntity} (hother : st.Batch other) :
    (st.saveAll entities).Batch other :=
  ⟨hother.sorted, fun x hx => (hb.kept_saveAll hactivated).known (hother.known x hx)⟩

theorem Front.saveAll {other : List UserQueueEntity} (hother : st.Front other) :
    (st.saveAll entities).Front other :=
  fun x hx y hy hnone hle =>
    hother x hx y (hb.pending_saveAll hactivated hy hnone).1 hnone hle

theorem Front.saveAll_inOrder (hf : st.Front batch) (h : st.InOrder) :
    (st.saveAll entities).InOrder := by
  intro x hx y hy hx' hy'
  obtain ⟨hold, hout⟩ := hb.pending_saveAll hactivated hy hy'
  rcases (hb.mem_saveAll hactivated).mp hx with hx | ⟨hx, _⟩
  · obtain ⟨row, hrow, _, _, rfl⟩ := activated_from hactivated hx
    by_contra hle
    exact hout (hf row hrow y hold hy' (not_lt.mp hle))
  · exact h x hx y hold hx' hy'

end Save

end UserQueueStore

/-- Each batch that a call has read is stored. -/
structure RowsRead (s : UserQueuePool) : Prop where
  waiting : Pool.Waiting UserQueueCall.handle s
  keyed : s.state.Keyed
  batch : ∀ i r count batch, s.calls i = some r → ⟨.findPending count, batch⟩ ∈ r.answers →
    s.state.Batch batch
  length : ∀ i r count batch, s.calls i = some r → ⟨.findPending count, batch⟩ ∈ r.answers →
    batch.length ≤ count

namespace RowsRead

variable {s s' : UserQueuePool} {a : UserQueueAct}

theorem init {st : UserQueueStore} (hst : st.Keyed) : RowsRead (Pool.init st) :=
  ⟨Pool.Waiting.init _ st, hst, fun i r count batch hr => by contradiction,
    fun i r count batch hr => by contradiction⟩

/-- What a command of a call does to the store. -/
theorem exec {i : Interleaving.CallId} {r : UserQueueRun} {o : UserQueueOp} {e : UserQueueEvent}
    {reply : o.Reply} {st : UserQueueStore} {k : o.Reply → UserQueueScript UserQueueResult}
    (hs : RowsRead s) (hr : s.calls i = some r) (hscript : r.script = .ask o k ∨ r.script = .call o k)
    (hx : o.exec s.state e = some (reply, st)) :
    st.Keyed ∧ s.state.Kept st ∧ (∀ batch, s.state.Batch batch → st.Batch batch) ∧
      ∀ count batch, (⟨.findPending count, batch⟩ : Interleaving.Answer userQueueServer) =
        ⟨o, reply⟩ → st.Batch batch ∧ batch.length ≤ count := by
  have hleads := (hs.waiting i r hr).2
  rcases UserQueueOp.exec_cases hx with ⟨_, rfl, _⟩ | ⟨entity, id, rfl, hfresh, _, rfl⟩ |
    ⟨entities, rfl, _, rfl⟩
  · refine ⟨hs.keyed, .refl _, fun _ h => h, fun count batch heq => ?_⟩
    cases heq
    cases e <;> cases hx
    exact ⟨.pending _ count, List.length_take_le _ _⟩
  · obtain ⟨userId, _, _, rfl, _⟩ := inserted_of_leads hleads hscript
    refine ⟨hs.keyed.addQueue hfresh, UserQueueStore.kept_addQueue hfresh,
      fun batch h => h.addQueue hfresh, fun count batch heq => ?_⟩
    cases heq
  · obtain ⟨_, _, batch, hbatch, hactivated⟩ := saved_of_leads hleads hscript
    have hb := hs.batch i r 100 batch hr hbatch
    refine ⟨hb.keyed_saveAll hactivated hs.keyed, hb.kept_saveAll hactivated,
      fun other h => hb.saveAll hactivated h, fun count batch heq => ?_⟩
    cases heq

theorem step (hs : RowsRead s) (h : serveQueues s a = some s') :
    RowsRead s' ∧ s.state.Kept s'.state := by
  have hwaiting := hs.waiting.serve UserQueueCall.waits h
  rcases hs.waiting.cases UserQueueCall.waits h with ⟨i, label, rfl, hnone, rfl⟩ |
    ⟨i, e, r, o, k, reply, st, rfl, hr, _, hscript, hx, rfl⟩ | ⟨e, st, rfl, hst, rfl⟩
  · refine ⟨⟨hwaiting, hs.keyed, fun j r' count batch hr' hread => ?_,
      fun j r' count batch hr' hread => ?_⟩, .refl _⟩
    · rcases Pool.calls_update hr' with ⟨_, rfl⟩ | ⟨_, hold⟩
      · contradiction
      · exact hs.batch j r' count batch hold hread
    · rcases Pool.calls_update hr' with ⟨_, rfl⟩ | ⟨_, hold⟩
      · contradiction
      · exact hs.length j r' count batch hold hread
  · obtain ⟨hkeyed, hkept, hbatch, hnew⟩ := hs.exec hr hscript hx
    refine ⟨⟨hwaiting, hkeyed, fun j r' count batch hr' hread => ?_,
      fun j r' count batch hr' hread => ?_⟩, hkept⟩
    · rcases Pool.calls_update hr' with ⟨_, rfl⟩ | ⟨_, hold⟩
      · rcases List.mem_append.mp hread with hread | hread
        · exact hbatch batch (hs.batch i r count batch hr hread)
        · exact (hnew count batch (List.mem_singleton.mp hread)).1
      · exact hbatch batch (hs.batch j r' count batch hold hread)
    · rcases Pool.calls_update hr' with ⟨_, rfl⟩ | ⟨_, hold⟩
      · rcases List.mem_append.mp hread with hread | hread
        · exact hs.length i r count batch hr hread
        · exact (hnew count batch (List.mem_singleton.mp hread)).2
      · exact hs.length j r' count batch hold hread
  · cases e with
    | tick t =>
      obtain ⟨_, hst⟩ := Option.ite_none_right_eq_some.mp hst
      obtain rfl := Option.some.inj hst
      exact ⟨⟨hwaiting, hs.keyed, fun j r count batch hr hread =>
        ⟨(hs.batch j r count batch hr hread).sorted, (hs.batch j r count batch hr hread).known⟩,
        hs.length⟩, .refl _⟩
    | quiet | found | issued => contradiction

theorem run {as : List UserQueueAct} (hs : RowsRead s) (h : Machine.run serveQueues s as = some s') :
    RowsRead s' ∧ s.state.Kept s'.state := by
  refine Machine.run_induction (fun _ (m : UserQueuePool) => RowsRead m ∧ s.state.Kept m.state)
    ⟨hs, .refl _⟩ ?_ h
  intro _ m a t _ hm hstep
  obtain ⟨hrows, hkept⟩ := hm
  obtain ⟨hrows', hkept'⟩ := hrows.step hstep
  exact ⟨hrows', hkept.trans hkept'⟩

end RowsRead

/-- A new row has a greater key than all rows that were seen before it. -/
def inSequence (s : UserQueuePool) : UserQueueAct → Bool
  | .answer _ (.issued id) => s.state.lastId < id
  | _ => true

theorem lastId_lt_of_insert {s : UserQueuePool} {i : Interleaving.CallId} {entity : UserQueueEntity}
    {e : UserQueueEvent} {reply : UserQueueEntity} {st : UserQueueStore} {id : Int}
    (hok : inSequence s (.answer i e) = true)
    (hx : UserQueueOp.exec s.state (.insert entity) e = some (reply, st)) (hid : reply.id = id) :
    s.state.lastId < id := by
  cases e with
  | issued id' =>
    obtain ⟨_, hx⟩ := Option.ite_none_right_eq_some.mp hx
    obtain rfl : id' = id :=
      (congrArg UserQueueEntity.id (Prod.mk.inj (Option.some.inj hx)).1).trans hid
    exact of_decide_eq_true hok
  | quiet | found | tick => contradiction

/-- Each batch that a call has read was the front of the queue. -/
structure FrontsRead (s : UserQueuePool) : Prop where
  rows : RowsRead s
  inOrder : s.state.InOrder
  front : ∀ i r count batch, s.calls i = some r → ⟨.findPending count, batch⟩ ∈ r.answers →
    s.state.Front batch

namespace FrontsRead

variable {s s' : UserQueuePool} {a : UserQueueAct}

theorem init {st : UserQueueStore} (hkeys : st.Keyed) (hst : st.InOrder) :
    FrontsRead (Pool.init st) :=
  ⟨.init hkeys, hst, fun i r count batch hr => by contradiction⟩

theorem exec {i : Interleaving.CallId} {r : UserQueueRun} {o : UserQueueOp} {e : UserQueueEvent}
    {reply : o.Reply} {st : UserQueueStore} {k : o.Reply → UserQueueScript UserQueueResult}
    (hs : FrontsRead s) (hr : s.calls i = some r)
    (hscript : r.script = .ask o k ∨ r.script = .call o k)
    (hx : o.exec s.state e = some (reply, st)) (hok : inSequence s (.answer i e) = true) :
    st.InOrder ∧ (∀ batch, s.state.Batch batch → s.state.Front batch → st.Front batch) ∧
      ∀ count batch, (⟨.findPending count, batch⟩ : Interleaving.Answer userQueueServer) =
        ⟨o, reply⟩ → st.Front batch := by
  have hleads := (hs.rows.waiting i r hr).2
  rcases UserQueueOp.exec_cases hx with ⟨_, rfl, _⟩ | ⟨entity, id, rfl, hfresh, hrows, rfl⟩ |
    ⟨entities, rfl, _, rfl⟩
  · refine ⟨hs.inOrder, fun _ _ h => h, fun count batch heq => ?_⟩
    cases heq
    cases e <;> cases hx
    exact .pending _ count
  · obtain ⟨userId, _, _, rfl, _⟩ := inserted_of_leads hleads hscript
    have hlast := lastId_lt_of_insert hok hx (congrArg UserQueueEntity.id (List.cons.inj hrows).1)
    refine ⟨hs.inOrder.addQueue hs.rows.keyed hfresh hlast,
      fun batch hb h => h.addQueue hb hs.rows.keyed hfresh hlast, fun count batch heq => ?_⟩
    cases heq
  · obtain ⟨_, _, batch, hbatch, hactivated⟩ := saved_of_leads hleads hscript
    have hb := hs.rows.batch i r 100 batch hr hbatch
    have hf := hs.front i r 100 batch hr hbatch
    refine ⟨hf.saveAll_inOrder hb hactivated hs.inOrder,
      fun other _ h => h.saveAll hb hactivated, fun count batch heq => ?_⟩
    cases heq

theorem step (hs : FrontsRead s) (h : serveQueues s a = some s') (hok : inSequence s a = true) :
    FrontsRead s' := by
  have hrows := (hs.rows.step h).1
  rcases hs.rows.waiting.cases UserQueueCall.waits h with ⟨i, label, rfl, hnone, rfl⟩ |
    ⟨i, e, r, o, k, reply, st, rfl, hr, _, hscript, hx, rfl⟩ | ⟨e, st, rfl, hst, rfl⟩
  · refine ⟨hrows, hs.inOrder, fun j r' count batch hr' hread => ?_⟩
    rcases Pool.calls_update hr' with ⟨_, rfl⟩ | ⟨_, hold⟩
    · contradiction
    · exact hs.front j r' count batch hold hread
  · obtain ⟨hinOrder, hfront, hnew⟩ := hs.exec hr hscript hx hok
    refine ⟨hrows, hinOrder, fun j r' count batch hr' hread => ?_⟩
    rcases Pool.calls_update hr' with ⟨_, rfl⟩ | ⟨_, hold⟩
    · rcases List.mem_append.mp hread with hread | hread
      · exact hfront batch (hs.rows.batch i r count batch hr hread)
          (hs.front i r count batch hr hread)
      · exact hnew count batch (List.mem_singleton.mp hread)
    · exact hfront batch (hs.rows.batch j r' count batch hold hread)
        (hs.front j r' count batch hold hread)
  · cases e with
    | tick t =>
      obtain ⟨_, hst⟩ := Option.ite_none_right_eq_some.mp hst
      obtain rfl := Option.some.inj hst
      exact ⟨hrows, hs.inOrder, hs.front⟩
    | quiet | found | issued => contradiction

end FrontsRead

/-- The database queue is first come, first served, however the calls overlap: no
row ever goes, changes its user or becomes pending again, and as long as new rows
are seen in the order of their keys, the activated rows are older than the pending
ones at any time. -/
theorem first_come_first_activated {st : UserQueueStore} {as bs : List UserQueueAct}
    {m s : UserQueuePool} (hkeys : st.Keyed) (hst : st.InOrder)
    (h : Machine.run serveQueues (Pool.init st) as = some m)
    (hmore : Machine.run serveQueues m bs = some s) :
    (Machine.Along serveQueues (fun s a => inSequence s a = true) (Pool.init st) as →
      ∀ x ∈ m.state.queues.rows, ∀ y ∈ m.state.queues.rows, x.token.isNone = false →
        y.token.isNone = true → x.id < y.id) ∧ m.state.Kept s.state := by
  constructor
  · intro hseq
    exact (Machine.along_induction FrontsRead (.init hkeys hst)
      (fun _ _ _ _ hm hok hs => hm.step hs hok) h hseq).inOrder
  · obtain ⟨hrows, _⟩ := (RowsRead.init hkeys).run h
    exact (hrows.run hmore).2

theorem first_come_first_activated_meanwhile : ∃ m s,
    Machine.run serveQueues (Pool.init noQueues) activatedMeanwhile = some m ∧
    Machine.run serveQueues m [.env (.tick 5), .start 3 .activate, .answer 3 .quiet] = some s ∧
    m.state.queues.rows.map (fun row => (row.id, row.token.isNone)) = [(1, false), (2, true)] ∧
    (∀ x ∈ m.state.queues.rows, ∀ y ∈ m.state.queues.rows, x.token.isNone = false →
      y.token.isNone = true → x.id < y.id) ∧ m.state.Kept s.state := by
  have h : ((Machine.run serveQueues (Pool.init noQueues) activatedMeanwhile).bind fun m =>
      (Machine.run serveQueues m [.env (.tick 5), .start 3 .activate, .answer 3 .quiet]).map fun _ =>
        m.state.queues.rows.map fun row => (row.id, row.token.isNone)) =
      some [(1, false), (2, true)] := by
    decide +kernel
  obtain ⟨m, hm, h⟩ := Option.bind_eq_some_iff.mp h
  obtain ⟨s, hs, hrows⟩ := Option.map_eq_some_iff.mp h
  have hseq : Machine.Along serveQueues (fun s a => inSequence s a = true) (Pool.init noQueues)
      activatedMeanwhile :=
    Machine.throughout_true.along_of_checks (fun _ _ _ => id) (by decide +kernel)
  have hkeys : noQueues.Keyed := by simp [noQueues, UserQueueStore.Keyed]
  have hst : noQueues.InOrder := by simp [noQueues, UserQueueStore.InOrder]
  obtain ⟨horder, hkept⟩ := first_come_first_activated hkeys hst hm hs
  exact ⟨m, s, hm, hs, hrows, horder hseq, hkept⟩

end HighVolumeBooking
