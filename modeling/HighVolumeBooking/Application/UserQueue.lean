import HighVolumeBooking.Common.ErrorCode
import HighVolumeBooking.Domain.UserQueue
import HighVolumeBooking.Interleaving.Pool
import HighVolumeBooking.ReadCommitted.Ordered

namespace HighVolumeBooking

open ReadCommitted (RowId Table)
open Interleaving (Service)

structure UserQueueEntity where
  id : Int
  userId : RowId
  token : Option UserQueueJwt
  expiresAt : Option Int
  deriving DecidableEq, Repr

namespace UserQueueMapper

def toDomain (entity : UserQueueEntity) : UserQueue :=
  { id := entity.id, userId := entity.userId, token := entity.token, expiresAt := entity.expiresAt }

def toEntity (domain : UserQueue) : UserQueueEntity :=
  ⟨domain.id, domain.userId, domain.token, domain.expiresAt⟩

end UserQueueMapper

/-- The table user_queues, the greatest key that a row of it was given, and the clock. -/
structure UserQueueStore where
  queues : Table UserQueueEntity.id
  lastId : Int
  now : Int

namespace UserQueueStore

def setNow (st : UserQueueStore) (t : Int) : UserQueueStore := { st with now := t }

/-- A key that the sequence can have issued for a new row. Rows are seen when their
transactions commit, which is not always in the order of the keys. -/
def Fresh (st : UserQueueStore) (id : Int) : Prop := 0 < id ∧ ∀ row ∈ st.queues.rows, row.id ≠ id

instance (st : UserQueueStore) (id : Int) : Decidable (st.Fresh id) :=
  inferInstanceAs (Decidable (0 < id ∧ ∀ row ∈ st.queues.rows, row.id ≠ id))

/-- The rows whose token is NULL, in the order of their ids. -/
def pending (st : UserQueueStore) : List UserQueueEntity :=
  st.queues.ordered.filter fun row => row.token.isNone

end UserQueueStore

/-- The filter of the query: the user's row, with expires_at after the date or NULL. -/
def UserQueueEntity.unexpiredAt (row : UserQueueEntity) (userId : RowId) (date : Int) : Bool :=
  row.userId == userId && row.expiresAt.all fun expiresAt => expiresAt > date

inductive UserQueueOp where
  | now
  | sign (userId : RowId) (userQueueId : Int)
  | findOldestPending
  | findPending (count : Nat)
  | findUnexpired (userId : RowId) (date : Int)
  | insert (entity : UserQueueEntity)
  | saveAll (entities : List UserQueueEntity)
  deriving DecidableEq, Repr

inductive UserQueueEvent where
  | quiet
  | found (id : Int)
  | issued (id : Int)
  | tick (t : Int)
  deriving DecidableEq, Repr

namespace UserQueueOp

@[reducible] def Reply : UserQueueOp → Type
  | .now => Int
  | .sign _ _ => UserQueueJwt
  | .findOldestPending => Option UserQueueEntity
  | .findPending _ => List UserQueueEntity
  | .findUnexpired _ _ => Option UserQueueEntity
  | .insert _ => UserQueueEntity
  | .saveAll _ => Unit

/-- The query for an unexpired row has no order, so any row that matches may be
found. A new row has a key of its own. -/
def exec (st : UserQueueStore) :
    (o : UserQueueOp) → UserQueueEvent → Option (o.Reply × UserQueueStore)
  | .now, .quiet => some (st.now, st)
  | .sign userId userQueueId, .quiet => some (.sign userId userQueueId st.now, st)
  | .findOldestPending, .quiet => some (st.pending.head?, st)
  | .findPending count, .quiet => some (st.pending.take count, st)
  | .findUnexpired userId date, .found id =>
    match st.queues.find? id with
    | some row => if row.unexpiredAt userId date then some (some row, st) else none
    | none => none
  | .findUnexpired userId date, .quiet =>
    if st.queues.rows.any fun row => row.unexpiredAt userId date then none else some (none, st)
  | .insert entity, .issued id =>
    if st.Fresh id then
      some ({ entity with id := id },
        { st with queues := st.queues.put { entity with id := id }, lastId := max st.lastId id })
    else none
  | .saveAll entities, .quiet => some ((), { st with queues := st.queues.putAll entities })
  | _, _ => none

end UserQueueOp

/-- The table and the clock behind the queue of the users. -/
abbrev userQueueServer : Service where
  State := UserQueueStore
  Op := UserQueueOp
  Reply := UserQueueOp.Reply
  Event := UserQueueEvent
  exec := UserQueueOp.exec
  env st
    | .tick t => if st.now ≤ t then some (st.setNow t) else none
    | _ => none

abbrev UserQueueScript := Interleaving.Script userQueueServer ErrorCode

namespace UserQueue

/-- The clock is read only where there is a token and an expiry. -/
def isActive (queue : UserQueue) : UserQueueScript Bool :=
  match queue.token, queue.expiresAt with
  | some _, some expiresAt => .ask .now fun now => .done (expiresAt > now)
  | _, _ => .done false

def activate (queue : UserQueue) : UserQueueScript UserQueue :=
  .ask (.sign queue.userId queue.id) fun token =>
    .ask .now fun now =>
      .done { queue with token := some token, expiresAt := some (now + 10 * 60 * 1000) }

end UserQueue

namespace UserQueueRepository

def findOldestPending : UserQueueScript (Option UserQueue) :=
  .call .findOldestPending fun entity => .done (entity.map UserQueueMapper.toDomain)

def findPendingQueues (count : Nat) : UserQueueScript (List UserQueue) :=
  .call (.findPending count) fun entities => .done (entities.map UserQueueMapper.toDomain)

def findUnexpiredByUserId (userId : RowId) : UserQueueScript (Option UserQueue) :=
  .ask .now fun date =>
    .call (.findUnexpired userId date) fun entity => .done (entity.map UserQueueMapper.toDomain)

/-- An entity with the id 0 is new. -/
def save (userQueue : UserQueue) : UserQueueScript UserQueue :=
  let entity := UserQueueMapper.toEntity userQueue
  if entity.id = 0 then
    .call (.insert entity) fun entity => .done (UserQueueMapper.toDomain entity)
  else .call (.saveAll [entity]) fun _ => .done (UserQueueMapper.toDomain entity)

/-- The rows are saved in one transaction. Its caller has read them all. -/
def bulkSave (userQueues : List UserQueue) : UserQueueScript (List UserQueue) :=
  let entities := userQueues.map UserQueueMapper.toEntity
  .call (.saveAll entities) fun _ => .done (entities.map UserQueueMapper.toDomain)

end UserQueueRepository

namespace UserQueueService

def getUnexpired (userId : RowId) : UserQueueScript (Option UserQueue) :=
  UserQueueRepository.findUnexpiredByUserId userId

def create (userId : RowId) : UserQueueScript UserQueue :=
  UserQueueRepository.save (UserQueue.create userId)

def calculateOrder (userQueue : UserQueue) : UserQueueScript UserQueue := do
  let active ← userQueue.isActive
  if active then pure userQueue else do
    let oldestPendingQueue ← UserQueueRepository.findOldestPending
    pure (userQueue.calculateCurrentOrder (oldestPendingQueue.map UserQueue.id))

/-- The loop that activates the queues in turn. -/
def activateEach : List UserQueue → UserQueueScript (List UserQueue)
  | [] => pure []
  | queue :: queues => do
    let queue ← queue.activate
    let queues ← activateEach queues
    pure (queue :: queues)

def activateQueues : UserQueueScript Unit := do
  let pendingQueues ← UserQueueRepository.findPendingQueues 100
  let pendingQueues ← activateEach pendingQueues
  let _ ← UserQueueRepository.bulkSave pendingQueues
  pure ()

end UserQueueService

def EnqueueUserQueueUseCase.execute (userId : RowId) : UserQueueScript UserQueue := do
  let userQueue ← UserQueueService.getUnexpired userId
  match userQueue with
  | some userQueue => UserQueueService.calculateOrder userQueue
  | none => do
    let userQueue ← UserQueueService.create userId
    UserQueueService.calculateOrder userQueue

def ActivateUserQueuesUseCase.execute : UserQueueScript Unit := UserQueueService.activateQueues

inductive UserQueueCall where
  | enqueue (userId : RowId)
  | activate
  deriving DecidableEq, Repr

inductive UserQueueResult where
  | queue (queue : UserQueue)
  | none
  deriving DecidableEq, Repr

def UserQueueCall.handle : UserQueueCall → UserQueueScript UserQueueResult
  | .enqueue userId => do
    let userQueue ← EnqueueUserQueueUseCase.execute userId
    pure (.queue userQueue)
  | .activate => do
    ActivateUserQueuesUseCase.execute
    pure .none

end HighVolumeBooking
