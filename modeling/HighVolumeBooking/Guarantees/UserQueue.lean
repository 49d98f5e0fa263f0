import HighVolumeBooking.Application.UserQueue
import HighVolumeBooking.Interleaving.Solo

namespace HighVolumeBooking

open ReadCommitted (RowId Table)
open Interleaving (Script Went solo_ask solo_call solo_done)
open UserQueueMapper (toDomain toEntity)

namespace UserQueueCall

/-! Each call, from each of its commands on. -/

def ranking (queue : UserQueue) : UserQueueScript UserQueueResult :=
  .call .findOldestPending fun oldest =>
    .done (.queue (queue.calculateCurrentOrder (oldest.map UserQueueEntity.id)))

def judging (queue : UserQueue) : UserQueueScript UserQueueResult :=
  match queue.token, queue.expiresAt with
  | some _, some expiresAt =>
    .ask .now fun now => if expiresAt > now then .done (.queue queue) else ranking queue
  | _, _ => ranking queue

def creating (userId : RowId) : UserQueueScript UserQueueResult :=
  .call (.insert ⟨0, userId, none, none⟩) fun entity => judging (toDomain entity)

def looked (userId : RowId) (entity : Option UserQueueEntity) : UserQueueScript UserQueueResult :=
  match entity with
  | some entity => judging (toDomain entity)
  | none => creating userId

def looking (userId : RowId) (date : Int) : UserQueueScript UserQueueResult :=
  .call (.findUnexpired userId date) (looked userId)

def enqueueing (userId : RowId) : UserQueueScript UserQueueResult := .ask .now (looking userId)

def saving (queues : List UserQueue) : UserQueueScript UserQueueResult :=
  .call (.saveAll (queues.map toEntity)) fun _ => .done .none

def activating : UserQueueScript UserQueueResult :=
  .call (.findPending 100) fun entities =>
    (UserQueueService.activateEach (entities.map toDomain)).bind saving

theorem judging_eq (queue : UserQueue) :
    (UserQueueService.calculateOrder queue).bind (fun queue => .done (.queue queue)) =
      judging queue := by
  have hranking : (UserQueueRepository.findOldestPending.bind fun oldest =>
      .done (queue.calculateCurrentOrder (oldest.map UserQueue.id))).bind
        (fun queue => .done (.queue queue)) = ranking queue := by
    refine congrArg (Script.call _) (funext fun oldest => ?_)
    cases oldest <;> rfl
  unfold UserQueueService.calculateOrder judging UserQueue.isActive
  cases queue.token with
  | none => exact hranking
  | some token =>
    cases queue.expiresAt with
    | none => exact hranking
    | some expiresAt =>
      refine congrArg (Script.ask _) (funext fun now => ?_)
      by_cases hnow : expiresAt > now
      · simp [hnow]
      · simp only [Script.bind_eq, Script.done_bind, decide_eq_true_eq, if_neg hnow]
        exact hranking

theorem handle_enqueue (userId : RowId) : handle (.enqueue userId) = enqueueing userId := by
  refine congrArg (Script.ask _) (funext fun date => ?_)
  refine congrArg (Script.call _) (funext fun entity => ?_)
  cases entity with
  | some entity => exact judging_eq (toDomain entity)
  | none =>
    refine congrArg (Script.call _) (funext fun entity => ?_)
    exact judging_eq (toDomain entity)

theorem handle_activate : handle .activate = activating := by
  refine congrArg (Script.call _) (funext fun entities => ?_)
  simp only [Script.bind_eq, Script.bind_assoc, Script.done_bind]
  refine congrArg (Script.bind _) (funext fun queues => ?_)
  rfl

end UserQueueCall

/-- The entities of the queues of some rows are these rows. -/
theorem UserQueueMapper.map_toEntity_toDomain (rows : List UserQueueEntity) :
    (rows.map toDomain).map toEntity = rows := by
  rw [List.map_map]
  exact List.map_id rows

theorem mem_pending {st : UserQueueStore} {row : UserQueueEntity} :
    row ∈ st.pending ↔ row ∈ st.queues.rows ∧ row.token.isNone = true := by
  rw [UserQueueStore.pending, List.mem_filter, Table.mem_ordered]

theorem pairwise_pending (st : UserQueueStore) : st.pending.Pairwise fun a b => a.id < b.id :=
  (Table.pairwise_ordered st.queues).filter _

section Solo

open UserQueueCall

variable {st : UserQueueStore} {queue queue' : UserQueue} {userId : RowId}
  {es : List UserQueueEvent} {w : Went userQueueServer ErrorCode UserQueueResult}

/-- What a call tells about a queue: its place, unless it is active. -/
def Judged (st : UserQueueStore) (queue queue' : UserQueue) : Prop :=
  (queue.activeAt st.now = true ∧ queue' = queue) ∨ (queue.activeAt st.now = false ∧
    queue' = queue.calculateCurrentOrder (st.pending.head?.map UserQueueEntity.id))

theorem ranking_solo (h : (ranking queue).solo st es = some w) : w.state = st ∧ w.result =
    .ok (.queue (queue.calculateCurrentOrder (st.pending.head?.map UserQueueEntity.id))) := by
  obtain ⟨e, es', reply, st', w', rfl, hx, hw', rfl⟩ := solo_call.mp h
  cases e <;> cases hx
  obtain ⟨_, rfl⟩ := solo_done.mp hw'
  exact ⟨rfl, rfl⟩

theorem judging_solo (h : (judging queue).solo st es = some w) :
    w.state = st ∧ ∃ queue', w.result = .ok (.queue queue') ∧ Judged st queue queue' := by
  have hranked : queue.activeAt st.now = false → ∀ es w, (ranking queue).solo st es = some w →
      w.state = st ∧ ∃ queue', w.result = .ok (.queue queue') ∧ Judged st queue queue' := by
    intro hidle es w hw
    obtain ⟨hstate, hresult⟩ := ranking_solo hw
    exact ⟨hstate, _, hresult, Or.inr ⟨hidle, rfl⟩⟩
  unfold judging at h
  split at h
  · rename_i token expiresAt htoken hexpires
    have hactive : ∀ t, queue.activeAt t = decide (expiresAt > t) := by
      intro t
      simp only [UserQueue.activeAt, htoken, hexpires]
    cases es with
    | nil => contradiction
    | cons e es =>
      obtain ⟨now, st', w', hx, hw', rfl⟩ := solo_ask.mp h
      cases e <;> cases hx
      split at hw'
      · rename_i hlater
        obtain ⟨_, rfl⟩ := solo_done.mp hw'
        exact ⟨rfl, queue, rfl, Or.inl ⟨(hactive _).trans (decide_eq_true hlater), rfl⟩⟩
      · rename_i hover
        exact hranked ((hactive _).trans (decide_eq_false hover)) es w' hw'
  · rename_i hnone
    refine hranked ?_ es w h
    unfold UserQueue.activeAt
    split
    · rename_i token expiresAt htoken hexpires
      exact absurd hexpires (hnone token expiresAt htoken)
    · rfl

/-- The store with a new row, which has the key that the sequence issued. -/
def UserQueueStore.addQueue (st : UserQueueStore) (id : Int) (userId : RowId) : UserQueueStore :=
  { st with queues := st.queues.put ⟨id, userId, none, none⟩, lastId := max st.lastId id }

theorem UserQueueStore.mem_addQueue {row : UserQueueEntity} {id : Int} (hid : st.Fresh id) :
    row ∈ (st.addQueue id userId).queues.rows ↔
      row = ⟨id, userId, none, none⟩ ∨ row ∈ st.queues.rows :=
  Table.mem_put.trans (or_congr_right (and_iff_left_of_imp (hid.2 row)))

theorem exec_findUnexpired {st' : UserQueueStore} {date : Int} {e : UserQueueEvent}
    {found : Option UserQueueEntity}
    (h : UserQueueOp.exec st (.findUnexpired userId date) e = some (found, st')) :
    st' = st ∧ ∀ row, found = some row →
      row ∈ st.queues.rows ∧ row.unexpiredAt userId date = true := by
  cases e with
  | found id =>
    simp only [UserQueueOp.exec] at h
    split at h
    · rename_i row hrow
      obtain ⟨hunexpired, h⟩ := Option.ite_none_right_eq_some.mp h
      cases h
      refine ⟨rfl, ?_⟩
      intro row' hrow'
      obtain rfl := Option.some.inj hrow'
      exact ⟨(Table.find?_eq_some.mp hrow).1, hunexpired⟩
    · contradiction
  | quiet =>
    simp only [UserQueueOp.exec] at h
    split at h <;> cases h
    exact ⟨rfl, fun _ hrow => by contradiction⟩
  | issued | tick => contradiction

theorem exec_findUnexpired_none {st' : UserQueueStore} {date : Int} {e : UserQueueEvent}
    (h : UserQueueOp.exec st (.findUnexpired userId date) e = some (none, st')) :
    st' = st ∧ ∀ row ∈ st.queues.rows, row.unexpiredAt userId date = false := by
  cases e with
  | found id =>
    simp only [UserQueueOp.exec] at h
    split at h
    · split at h <;> cases h
    · contradiction
  | quiet =>
    simp only [UserQueueOp.exec] at h
    split at h
    · contradiction
    · rename_i hnone
      cases h
      exact ⟨rfl, by simpa using hnone⟩
  | issued | tick => contradiction

theorem creating_solo (h : (creating userId).solo st es = some w) :
    ∃ id queue, .issued id ∈ es ∧ st.Fresh id ∧ w.state = st.addQueue id userId ∧
      w.result = .ok (.queue queue) ∧ Judged w.state (toDomain ⟨id, userId, none, none⟩) queue := by
  obtain ⟨e, es', entity, st', w', rfl, hx, hw', rfl⟩ := solo_call.mp h
  cases e with
  | issued id =>
    obtain ⟨hfresh, hx⟩ := Option.ite_none_right_eq_some.mp hx
    cases hx
    obtain ⟨hstate, queue, hresult, hjudged⟩ := judging_solo hw'
    rw [← hstate] at hjudged
    exact ⟨id, queue, by simp, hfresh, hstate, hresult, hjudged⟩
  | quiet | found | tick => contradiction

/-- A call finds a row of its user, or adds one. -/
theorem UserQueueCall.enqueue_solo (h : (handle (.enqueue userId)).solo st es = some w) :
    ∃ row ∈ w.state.queues.rows, row.unexpiredAt userId st.now = true ∧
      ∃ queue, w.result = .ok (.queue queue) ∧ Judged w.state (toDomain row) queue ∧
        (w.state = st ∨ ∃ id, .issued id ∈ es ∧ st.Fresh id ∧
          w.state = st.addQueue id userId) := by
  rw [handle_enqueue] at h
  cases es with
  | nil => contradiction
  | cons e es =>
    obtain ⟨date, st', w', hdate, hlooking, rfl⟩ := solo_ask.mp h
    cases e <;> cases hdate
    obtain ⟨e, es', found, st', w, rfl, hfound, hlooked, rfl⟩ := solo_call.mp hlooking
    obtain ⟨rfl, hrow⟩ := exec_findUnexpired hfound
    cases found with
    | some row =>
      obtain ⟨hstate, queue, hresult, hjudged⟩ := judging_solo hlooked
      rw [← hstate] at hjudged
      obtain ⟨hmem, hunexpired⟩ := hrow row rfl
      exact ⟨row, hstate ▸ hmem, hunexpired, queue, hresult, hjudged, Or.inl hstate⟩
    | none =>
      obtain ⟨id, queue, hid, hfresh, hstate, hresult, hjudged⟩ := creating_solo hlooked
      refine ⟨⟨id, userId, none, none⟩, ?_, by simp [UserQueueEntity.unexpiredAt], queue, hresult,
        hjudged, Or.inr ⟨id, by simp [hid], hfresh, hstate⟩⟩
      simp only [Went.after, hstate]
      exact Table.mem_put.mpr (Or.inl rfl)

/-- A row after its activation at an instant. -/
def UserQueueEntity.activated (t : Int) (row : UserQueueEntity) : UserQueueEntity :=
  { row with token := some (.sign row.userId row.id t), expiresAt := some (t + 10 * 60 * 1000) }

theorem activateEach_solo {rows : List UserQueueEntity}
    {f : List UserQueue → UserQueueScript UserQueueResult}
    (h : ((UserQueueService.activateEach (rows.map toDomain)).bind f).solo st es = some w) :
    ∃ es' w', (f ((rows.map (UserQueueEntity.activated st.now)).map toDomain)).solo st es' =
      some w' ∧ w.state = w'.state := by
  induction rows generalizing f es w with
  | nil => exact ⟨es, w, h, rfl⟩
  | cons row rows ih =>
    cases es with
    | nil => contradiction
    | cons e es =>
      obtain ⟨token, st', w', hsign, hsigned, rfl⟩ := solo_ask.mp h
      cases e <;> cases hsign
      cases es with
      | nil => contradiction
      | cons e es =>
        obtain ⟨now, st', w, hnow, hw, rfl⟩ := solo_ask.mp hsigned
        cases e <;> cases hnow
        simp only [Script.bind_eq, Script.done_bind, Script.bind_assoc] at hw
        exact ih hw

/-- A run activates the oldest hundred of the pending rows. -/
theorem UserQueueCall.activate_solo (h : (handle .activate).solo st es = some w) : w.state = { st with
    queues := st.queues.putAll ((st.pending.take 100).map (UserQueueEntity.activated st.now)) } := by
  rw [handle_activate] at h
  obtain ⟨e, es', rows, st', w', rfl, hread, heach, rfl⟩ := solo_call.mp h
  cases e <;> cases hread
  obtain ⟨es, w, hsaving, hstate⟩ := activateEach_solo heach
  obtain ⟨e, es', reply, st', w', rfl, hsave, hend, rfl⟩ := solo_call.mp hsaving
  cases e <;> cases hsave
  obtain ⟨_, rfl⟩ := solo_done.mp hend
  simp only [Went.after, UserQueueMapper.map_toEntity_toDomain] at hstate ⊢
  exact hstate

end Solo

end HighVolumeBooking
