import HighVolumeBooking.Application.UseCase

namespace HighVolumeBooking

/-! The requests that write, and what the controllers make of them. -/

structure BookConcertSeatRequest where
  concertScheduleId : RowId
  deriving DecidableEq, Repr

def BookConcertSeatRequest.toUseCaseDTO (request : BookConcertSeatRequest)
    (userId concertSeatId : RowId) : BookConcertSeatUseCaseDTO :=
  ⟨userId, request.concertScheduleId, concertSeatId⟩

/-- It has no fields. -/
structure PayConcertBookingRequest where
  deriving DecidableEq, Repr

def PayConcertBookingRequest.toUseCaseDTO (_request : PayConcertBookingRequest)
    (userId concertBookingId : RowId) : PayConcertBookingUseCaseDTO :=
  ⟨userId, concertBookingId⟩

structure ChargePointRequest where
  amount : Int
  deriving DecidableEq, Repr

def ChargePointRequest.toUseCaseDTO (request : ChargePointRequest) (userId : RowId) :
    ChargePointUseCaseDTO :=
  ⟨userId, request.amount⟩

/-! The user is the one of the payload that the guard left on the request. -/

def ConcertController.bookConcertSeat (concertSeatId : RowId) (request : BookConcertSeatRequest)
    (payload : RowId) : Call :=
  .book (request.toUseCaseDTO payload concertSeatId)

def ConcertController.payConcertBooking (concertBookingId : RowId)
    (request : PayConcertBookingRequest) (payload : RowId) : Call :=
  .pay (request.toUseCaseDTO payload concertBookingId)

def PointController.chargePoint (request : ChargePointRequest) (payload : RowId) : Call :=
  .charge (request.toUseCaseDTO payload)

/-- The handlers, with the rest of their requests. -/
inductive Handled where
  | bookConcertSeat (concertSeatId : RowId) (request : BookConcertSeatRequest)
  | payConcertBooking (concertBookingId : RowId) (request : PayConcertBookingRequest)
  | chargePoint (request : ChargePointRequest)
  deriving DecidableEq, Repr

def Handled.call (payload : RowId) : Handled → Call
  | .bookConcertSeat concertSeatId request =>
    ConcertController.bookConcertSeat concertSeatId request payload
  | .payConcertBooking concertBookingId request =>
    ConcertController.payConcertBooking concertBookingId request payload
  | .chargePoint request => PointController.chargePoint request payload

/-- Booking and paying are behind the guard of the queue. -/
def Handled.queued : Handled → Bool
  | .chargePoint _ => false
  | _ => true

/-- The user whose queue token the guard has asked for. -/
def Call.payload? : Call → Option RowId
  | .book dto => some dto.userId
  | .pay dto => some dto.userId
  | .charge _ => none

@[simp] theorem Handled.payload_call (handled : Handled) (payload : RowId) :
    (handled.call payload).payload? = if handled.queued then some payload else none := by
  cases handled <;> rfl

end HighVolumeBooking
