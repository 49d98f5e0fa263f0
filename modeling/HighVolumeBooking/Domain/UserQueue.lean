import HighVolumeBooking.ReadCommitted.Table

namespace HighVolumeBooking

open ReadCommitted (RowId)

/-- The signed token of an activated queue, which is never an empty text. -/
structure UserQueueJwt where
  userId : RowId
  userQueueId : Int
  iat : Int
  exp : Int
  deriving DecidableEq, Repr

/-- Signed for ten minutes at an instant in milliseconds; the token itself
counts in seconds. -/
def UserQueueJwt.sign (userId : RowId) (userQueueId now : Int) : UserQueueJwt :=
  ⟨userId, userQueueId, now / 1000, now / 1000 + 60 * 10⟩

structure UserQueue where
  id : Int
  userId : RowId
  token : Option UserQueueJwt
  expiresAt : Option Int
  currentOrder : Int := 0
  deriving DecidableEq, Repr

namespace UserQueue

def create (userId : RowId) : UserQueue := { id := 0, userId, token := none, expiresAt := none }

/-- An id of 0 counts as none. -/
def calculateCurrentOrder (queue : UserQueue) (oldestPendingId : Option Int) : UserQueue :=
  match oldestPendingId with
  | none => { queue with currentOrder := 1 }
  | some oldestPendingId =>
    if oldestPendingId = 0 then { queue with currentOrder := 1 }
    else { queue with currentOrder := queue.id - oldestPendingId + 1 }

/-- What isActive says at an instant. -/
def activeAt (queue : UserQueue) (now : Int) : Bool :=
  match queue.token, queue.expiresAt with
  | some _, some expiresAt => expiresAt > now
  | _, _ => false

variable {queue : UserQueue} {i : Int}

@[simp] theorem calculateCurrentOrder_none : (queue.calculateCurrentOrder none).currentOrder = 1 := rfl

theorem calculateCurrentOrder_some (hi : i ≠ 0) :
    (queue.calculateCurrentOrder (some i)).currentOrder = queue.id - i + 1 := by
  rw [calculateCurrentOrder, if_neg hi]

@[simp] theorem calculateCurrentOrder_id (oldest : Option Int) :
    (queue.calculateCurrentOrder oldest).id = queue.id := by
  cases oldest with
  | none => rfl
  | some i =>
    rw [calculateCurrentOrder]
    split <;> rfl

@[simp] theorem activeAt_calculateCurrentOrder (oldest : Option Int) (t : Int) :
    (queue.calculateCurrentOrder oldest).activeAt t = queue.activeAt t := by
  cases oldest with
  | none => rfl
  | some i =>
    rw [calculateCurrentOrder]
    split <;> rfl

end UserQueue

end HighVolumeBooking
