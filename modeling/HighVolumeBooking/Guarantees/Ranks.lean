import HighVolumeBooking.Guarantees.UserQueue
import HighVolumeBooking.Machine.Run

namespace HighVolumeBooking

open ReadCommitted (RowId Table)
open UserQueueMapper (toDomain)

/-- A call alone at one instant, with the events of its commands, or time that
passes. -/
inductive QueueAct where
  | call (call : UserQueueCall) (es : List UserQueueEvent)
  | tick (t : Int)
  deriving DecidableEq, Repr

def serveQueueAlone (st : UserQueueStore) : QueueAct → Option UserQueueStore
  | .call call es => (call.handle.solo st es).map fun w => w.state
  | .tick t => if st.now ≤ t then some (st.setNow t) else none

/-- The keys of the sequence follow one another. -/
def consecutive (st : UserQueueStore) : QueueAct → Bool
  | .call _ es => es.all fun e =>
    match e with
    | .issued id => id == st.lastId + 1
    | _ => true
  | .tick _ => true

def UserQueueStore.empty (lastId : Nat) (t : Int) : UserQueueStore := ⟨.empty _, lastId, t⟩

/-- The pending rows have exactly the ids from first to the last one issued. -/
def UserQueueStore.PendingFrom (st : UserQueueStore) (first : Int) : Prop :=
  ∀ id, (∃ row ∈ st.queues.rows, row.id = id ∧ row.token.isNone = true) ↔
    first ≤ id ∧ id ≤ st.lastId

def UserQueueStore.pendingUpTo (st : UserQueueStore) (id : Int) : Nat :=
  st.queues.rows.countP fun row => row.token.isNone && row.id ≤ id

structure Ranked (st : UserQueueStore) : Prop where
  issued : ∀ row ∈ st.queues.rows, 0 < row.id ∧ row.id ≤ st.lastId
  sequence : 0 ≤ st.lastId
  expiring : ∀ row ∈ st.queues.rows, row.token.isSome = true → row.expiresAt.isSome = true
  range : ∃ first, first ≤ st.lastId + 1 ∧ st.PendingFrom first

section Rank

variable {st : UserQueueStore} {row : UserQueueEntity} {userId : RowId} {t : Int}

/-- The oldest pending row is the one the range starts with. -/
theorem head_pending {first : Int} (h : st.PendingFrom first) (hrow : row ∈ st.queues.rows)
    (hpending : row.token.isNone = true) : st.pending.head?.map UserQueueEntity.id = some first := by
  have hmem : row ∈ st.pending := mem_pending.mpr ⟨hrow, hpending⟩
  cases hhead : st.pending.head? with
  | none =>
    rw [List.head?_eq_none_iff.mp hhead] at hmem
    contradiction
  | some oldest =>
    obtain ⟨holdest, hnone⟩ := mem_pending.mp (List.mem_of_head? hhead)
    have hfirst := (h oldest.id).mp ⟨oldest, holdest, rfl, hnone⟩
    obtain ⟨x, hx, rfl, hxnone⟩ := (h first).mpr
      ⟨le_refl _, hfirst.1.trans hfirst.2⟩
    have hle := Table.key_le_of_head? hhead hx hxnone
    exact congrArg some (le_antisymm hle hfirst.1)

/-- The difference of the two ids is the place in the line. -/
theorem Ranked.order_eq (h : Ranked st) (hrow : row ∈ st.queues.rows)
    (hpending : row.token.isNone = true) :
    ((toDomain row).calculateCurrentOrder (st.pending.head?.map UserQueueEntity.id)).currentOrder =
      st.pendingUpTo row.id := by
  obtain ⟨first, _, hrange⟩ := h.range
  obtain ⟨hfirst, hlast⟩ := (hrange row.id).mp ⟨row, hrow, rfl, hpending⟩
  obtain ⟨x, hx, rfl, _⟩ := (hrange first).mpr ⟨le_refl _, hfirst.trans hlast⟩
  have hpos := (h.issued x hx).1
  have hcount : st.pendingUpTo row.id = (row.id + 1 - x.id).toNat := by
    refine Table.countP_of_range fun id => ?_
    constructor
    · intro hid
      obtain ⟨r, hr, rfl, hp⟩ := hid
      simp only [Bool.and_eq_true, decide_eq_true_eq] at hp
      exact ⟨((hrange r.id).mp ⟨r, hr, rfl, hp.1⟩).1, hp.2⟩
    · intro hid
      obtain ⟨r, hr, rfl, hp⟩ := (hrange id).mpr ⟨hid.1, hid.2.trans hlast⟩
      exact ⟨r, hr, rfl, by simp [hp, hid.2]⟩
  rw [head_pending hrange hrow hpending, UserQueue.calculateCurrentOrder_some (by omega), hcount]
  simp only [toDomain]
  omega

theorem Ranked.fresh (h : Ranked st) : st.Fresh (st.lastId + 1) := by
  have hsequence := h.sequence
  refine ⟨by omega, fun row hrow => ?_⟩
  have hissued := h.issued row hrow
  omega

theorem Ranked.addQueue (h : Ranked st) : Ranked (st.addQueue (st.lastId + 1) userId) := by
  have hmem : ∀ row, row ∈ (st.addQueue (st.lastId + 1) userId).queues.rows ↔
      row = ⟨st.lastId + 1, userId, none, none⟩ ∨ row ∈ st.queues.rows := fun row =>
    UserQueueStore.mem_addQueue h.fresh
  have hlast : (st.addQueue (st.lastId + 1) userId).lastId = st.lastId + 1 :=
    max_eq_right (by omega)
  have hsequence := h.sequence
  obtain ⟨first, hfirst, hrange⟩ := h.range
  refine ⟨?_, by omega, ?_, first, by omega, ?_⟩
  · intro row hrow
    rcases (hmem row).mp hrow with rfl | hrow
    · exact ⟨by simp only; omega, by simp only [hlast]; omega⟩
    · have hissued := h.issued row hrow
      omega
  · intro row hrow htoken
    rcases (hmem row).mp hrow with rfl | hrow
    · contradiction
    · exact h.expiring row hrow htoken
  · intro id
    rw [hlast]
    constructor
    · intro hid
      obtain ⟨row, hrow, rfl, hp⟩ := hid
      rcases (hmem row).mp hrow with rfl | hrow
      · exact ⟨hfirst, le_refl _⟩
      · have hold := (hrange row.id).mp ⟨row, hrow, rfl, hp⟩
        omega
    · intro hid
      by_cases hnew : id = st.lastId + 1
      · subst hnew
        exact ⟨_, (hmem _).mpr (Or.inl rfl), rfl, rfl⟩
      · obtain ⟨row, hrow, hrest⟩ := (hrange id).mpr ⟨hid.1, by omega⟩
        exact ⟨row, (hmem row).mpr (Or.inr hrow), hrest⟩

/-- The store after a run of the activation at an instant. -/
def UserQueueStore.activate (st : UserQueueStore) (t : Int) : UserQueueStore :=
  { st with queues := st.queues.putAll ((st.pending.take 100).map (UserQueueEntity.activated t)) }

/-- The rows that a run takes are older than those it leaves. -/
theorem pairwise_split {old new : UserQueueEntity} {n : Nat} (hold : old ∈ st.pending.take n)
    (hnew : new ∈ st.pending.drop n) : old.id < new.id := by
  have hsorted := pairwise_pending st
  rw [← List.take_append_drop n st.pending, List.pairwise_append] at hsorted
  exact hsorted.2.2 old hold new hnew

/-- What a run leaves of the table: the activated rows and the others. -/
theorem mem_activate : row ∈ (st.activate t).queues.rows ↔
    (∃ old ∈ st.pending.take 100, row = old.activated t) ∨
      (row ∈ st.queues.rows ∧ row ∉ st.pending.take 100) := by
  have hids : ((st.pending.take 100).map (UserQueueEntity.activated t)).map UserQueueEntity.id =
      (st.pending.take 100).map UserQueueEntity.id := by
    rw [List.map_map]
    rfl
  have hnodup : ((st.pending.take 100).map UserQueueEntity.id).Nodup :=
    List.pairwise_map.mpr (((pairwise_pending st).sublist (List.take_sublist ..)).imp ne_of_lt)
  have hkeys : row ∈ st.queues.rows →
      (row.id ∈ (st.pending.take 100).map UserQueueEntity.id ↔ row ∈ st.pending.take 100) := by
    intro hrow
    rw [List.mem_map]
    constructor
    · intro hid
      obtain ⟨x, hx, hid⟩ := hid
      have hxrow := (mem_pending.mp (List.mem_of_mem_take hx)).1
      obtain rfl : x = row := Table.eq_of_key hxrow hrow hid
      exact hx
    · exact fun hx => ⟨row, hx, rfl⟩
  rw [UserQueueStore.activate, Table.mem_putAll (hids ▸ hnodup), hids, List.mem_map]
  constructor
  · intro h
    rcases h with ⟨old, hold, rfl⟩ | ⟨hrow, hnot⟩
    · exact Or.inl ⟨old, hold, rfl⟩
    · exact Or.inr ⟨hrow, fun hx => hnot ((hkeys hrow).mpr hx)⟩
  · intro h
    rcases h with ⟨old, hold, rfl⟩ | ⟨hrow, hnot⟩
    · exact Or.inl ⟨old, hold, rfl⟩
    · exact Or.inr ⟨hrow, fun hx => hnot ((hkeys hrow).mp hx)⟩

theorem mem_split (n : Nat) :
    row ∈ st.pending ↔ row ∈ st.pending.take n ∨ row ∈ st.pending.drop n := by
  rw [← List.mem_append, List.take_append_drop]

/-- What is still pending was not among the hundred oldest. -/
theorem pending_activate : (row ∈ (st.activate t).queues.rows ∧ row.token.isNone = true) ↔
    row ∈ st.pending.drop 100 := by
  constructor
  · intro h
    obtain ⟨hrow, hnone⟩ := h
    rcases mem_activate.mp hrow with ⟨old, _, rfl⟩ | ⟨hrow, hnot⟩
    · contradiction
    · exact ((mem_split 100).mp (mem_pending.mpr ⟨hrow, hnone⟩)).resolve_left hnot
  · intro hdrop
    obtain ⟨hrow, hnone⟩ := mem_pending.mp (List.mem_of_mem_drop hdrop)
    refine ⟨mem_activate.mpr (Or.inr ⟨hrow, fun htake => ?_⟩), hnone⟩
    exact lt_irrefl _ (pairwise_split htake hdrop)

/-- The rows that a run leaves are those from the first of them on. -/
theorem mem_drop_of_cons {next : UserQueueEntity} {rest : List UserQueueEntity} {n : Nat}
    (h : st.pending.drop n = next :: rest) (hrow : row ∈ st.pending) :
    row ∈ st.pending.drop n ↔ next.id ≤ row.id := by
  have hnext : next ∈ st.pending.drop n := h ▸ List.mem_cons_self
  constructor
  · intro hdrop
    have hsorted := (pairwise_pending st).sublist (List.drop_sublist n st.pending)
    rw [h] at hdrop hsorted
    rcases List.mem_cons.mp hdrop with rfl | hdrop
    · exact le_refl _
    · exact le_of_lt ((List.pairwise_cons.mp hsorted).1 row hdrop)
  · intro hle
    refine ((mem_split n).mp hrow).resolve_left fun htake => ?_
    exact absurd (pairwise_split htake hnext) (not_lt.mpr hle)

theorem pendingFrom_activate {first : Int} (h : st.PendingFrom first) :
    ∃ first', first' ≤ st.lastId + 1 ∧ (st.activate t).PendingFrom first' := by
  cases hrest : st.pending.drop 100 with
  | nil =>
    refine ⟨st.lastId + 1, le_refl _, fun id => ?_⟩
    constructor
    · intro hid
      obtain ⟨row, hrow, _, hnone⟩ := hid
      have hdrop := pending_activate.mp ⟨hrow, hnone⟩
      rw [hrest] at hdrop
      contradiction
    · intro hid
      have hlast : (st.activate t).lastId = st.lastId := rfl
      omega
  | cons next rest =>
    have hnext := mem_pending.mp (List.mem_of_mem_drop (hrest ▸ List.mem_cons_self))
    have hfirst := (h next.id).mp ⟨next, hnext.1, rfl, hnext.2⟩
    refine ⟨next.id, by omega, fun id => ?_⟩
    constructor
    · intro hid
      obtain ⟨row, hrow, rfl, hnone⟩ := hid
      have hdrop := pending_activate.mp ⟨hrow, hnone⟩
      have hpending := List.mem_of_mem_drop hdrop
      obtain ⟨hold, _⟩ := mem_pending.mp hpending
      exact ⟨(mem_drop_of_cons hrest hpending).mp hdrop, ((h row.id).mp ⟨row, hold, rfl, hnone⟩).2⟩
    · intro hid
      obtain ⟨row, hrow, rfl, hnone⟩ := (h id).mpr ⟨hfirst.1.trans hid.1, hid.2⟩
      have hdrop := (mem_drop_of_cons hrest (mem_pending.mpr ⟨hrow, hnone⟩)).mpr hid.1
      exact ⟨row, (pending_activate.mpr hdrop).1, rfl, hnone⟩

/-- A run of the activation moves the start of the range up. -/
theorem Ranked.activate (h : Ranked st) : Ranked (st.activate t) := by
  refine ⟨?_, h.sequence, ?_, ?_⟩
  · intro row hrow
    rcases mem_activate.mp hrow with ⟨old, hold, rfl⟩ | ⟨hrow, _⟩
    · exact h.issued old (mem_pending.mp (List.mem_of_mem_take hold)).1
    · exact h.issued row hrow
  · intro row hrow htoken
    rcases mem_activate.mp hrow with ⟨old, hold, rfl⟩ | ⟨hrow, _⟩
    · rfl
    · exact h.expiring row hrow htoken
  · obtain ⟨first, _, hrange⟩ := h.range
    exact pendingFrom_activate hrange

end Rank

theorem Ranked.empty (lastId : Nat) (t : Int) : Ranked (UserQueueStore.empty lastId t) := by
  refine ⟨by simp [UserQueueStore.empty, Table.empty], Int.natCast_nonneg lastId,
    by simp [UserQueueStore.empty, Table.empty], lastId + 1, le_refl _, fun id => ?_⟩
  constructor
  · intro hid
    obtain ⟨row, hrow, _⟩ := hid
    contradiction
  · intro hid
    simp only [UserQueueStore.empty, Table.empty] at hid
    omega

theorem issued_of_consecutive {st : UserQueueStore} {call : UserQueueCall}
    {es : List UserQueueEvent} {id : Int} (h : consecutive st (.call call es) = true)
    (hid : .issued id ∈ es) : id = st.lastId + 1 := by
  simpa using List.all_eq_true.mp h _ hid

theorem Ranked.step {st st' : UserQueueStore} {a : QueueAct} (h : Ranked st)
    (hids : consecutive st a = true) (hs : serveQueueAlone st a = some st') : Ranked st' := by
  cases a with
  | call call es =>
    obtain ⟨w, hw, rfl⟩ := Option.map_eq_some_iff.mp hs
    cases call with
    | enqueue userId =>
      obtain ⟨_, _, _, _, _, _, hstate⟩ := UserQueueCall.enqueue_solo hw
      rcases hstate with hstate | ⟨id, hid, _, hstate⟩
      · rw [hstate]
        exact h
      · obtain rfl := issued_of_consecutive hids hid
        rw [hstate]
        exact h.addQueue
    | activate =>
      rw [UserQueueCall.activate_solo hw]
      exact h.activate
  | tick t =>
    obtain ⟨_, hs⟩ := Option.ite_none_right_eq_some.mp hs
    obtain rfl := Option.some.inj hs
    exact ⟨h.issued, h.sequence, h.expiring, h.range⟩

/-- An unexpired row that is not active is pending. -/
theorem Ranked.pending_of_idle {st : UserQueueStore} {row : UserQueueEntity} {userId : RowId}
    {t : Int} (h : Ranked st) (hrow : row ∈ st.queues.rows)
    (hunexpired : row.unexpiredAt userId t = true) (hidle : (toDomain row).activeAt t = false) :
    row.token.isNone = true := by
  cases htoken : row.token with
  | none => rfl
  | some token =>
    have hsome := h.expiring row hrow (by rw [htoken]; rfl)
    obtain ⟨expiresAt, hexpires⟩ := Option.isSome_iff_exists.mp hsome
    simp only [UserQueue.activeAt, toDomain, htoken, hexpires, decide_eq_false_iff_not] at hidle
    simp only [UserQueueEntity.unexpiredAt, hexpires, Option.all_some, Bool.and_eq_true,
      decide_eq_true_eq] at hunexpired
    exact absurd hunexpired.2 hidle

/-- With consecutive keys the pending rows are the last ones issued, and a call
that returns a queue that is not active returns its place among them. -/
theorem user_queue_ranks {lastId : Nat} {t : Int} {as : List QueueAct} {st : UserQueueStore}
    (h : Machine.run serveQueueAlone (.empty lastId t) as = some st)
    (hids : Machine.Along serveQueueAlone (fun st a => consecutive st a = true) (.empty lastId t) as) :
    (∃ first, st.PendingFrom first) ∧
      ∀ userId es w queue, (UserQueueCall.enqueue userId).handle.solo st es = some w →
        consecutive st (.call (.enqueue userId) es) = true → w.result = .ok (.queue queue) →
        queue.activeAt st.now = false → queue.currentOrder = w.state.pendingUpTo queue.id := by
  have hranked : Ranked st :=
    Machine.along_induction Ranked (Ranked.empty lastId t)
      (fun _ _ _ _ hm hids hs => hm.step hids hs) h hids
  obtain ⟨first, _, hrange⟩ := hranked.range
  refine ⟨⟨first, hrange⟩, ?_⟩
  intro userId es w queue hw hconsecutive hresult hidle
  have hafter : Ranked w.state :=
    hranked.step (a := .call (.enqueue userId) es) hconsecutive
      (Option.map_eq_some_iff.mpr ⟨w, hw, rfl⟩)
  obtain ⟨row, hrow, hunexpired, queue', hresult', hjudged, hstate⟩ := UserQueueCall.enqueue_solo hw
  obtain rfl : queue = queue' :=
    UserQueueResult.queue.inj (Except.ok.inj (hresult.symm.trans hresult'))
  have hnow : w.state.now = st.now := by
    rcases hstate with hstate | ⟨id, _, _, hstate⟩ <;> rw [hstate]
    rfl
  rcases hjudged with ⟨hactive, rfl⟩ | ⟨_, rfl⟩
  · rw [hnow, hidle] at hactive
    contradiction
  · rw [UserQueue.activeAt_calculateCurrentOrder] at hidle
    rw [UserQueue.calculateCurrentOrder_id]
    exact hafter.order_eq hrow (hafter.pending_of_idle hrow hunexpired hidle)

/-- Two users enter, both are activated, and a third one enters. -/
def twoThenOne : List QueueAct :=
  [.call (.enqueue 1) [.quiet, .quiet, .issued 1, .quiet],
    .call (.enqueue 2) [.quiet, .quiet, .issued 2, .quiet], .tick 10,
    .call .activate [.quiet, .quiet, .quiet, .quiet, .quiet, .quiet],
    .call (.enqueue 3) [.quiet, .quiet, .issued 3, .quiet]]

theorem user_queue_ranks_twoThenOne : ∃ st,
    Machine.run serveQueueAlone (.empty 0 0) twoThenOne = some st ∧
    Machine.Along serveQueueAlone (fun st a => consecutive st a = true) (.empty 0 0) twoThenOne ∧
    (∃ first, st.PendingFrom first) ∧
      ∀ userId es w queue, (UserQueueCall.enqueue userId).handle.solo st es = some w →
        consecutive st (.call (.enqueue userId) es) = true → w.result = .ok (.queue queue) →
        queue.activeAt st.now = false → queue.currentOrder = w.state.pendingUpTo queue.id := by
  have hrun : (Machine.run serveQueueAlone (.empty 0 0) twoThenOne).isSome = true := by decide +kernel
  obtain ⟨st, hst⟩ := Option.isSome_iff_exists.mp hrun
  have hids : Machine.Along serveQueueAlone (fun st a => consecutive st a = true) (.empty 0 0)
      twoThenOne :=
    Machine.throughout_true.along_of_checks (fun _ _ _ => id) (by decide +kernel)
  exact ⟨st, hst, hids, user_queue_ranks hst hids⟩

end HighVolumeBooking
