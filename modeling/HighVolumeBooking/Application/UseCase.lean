import HighVolumeBooking.Domain.Service

namespace HighVolumeBooking

open ReadCommitted (Prog)

inductive EventTrasactionId where
  | concertPaymentCompleted
  | concertBookingCompleted
  deriving DecidableEq, Repr

structure BookingCompletedEvent where
  outbox : Outbox
  transactionId : EventTrasactionId
  deriving DecidableEq, Repr

structure PaymentCompletedEvent where
  outbox : Outbox
  transactionId : EventTrasactionId
  deriving DecidableEq, Repr

structure BookConcertSeatUseCaseDTO where
  userId : RowId
  concertScheduleId : RowId
  concertSeatId : RowId
  deriving DecidableEq, Repr

namespace BookConcertSeatUseCaseDTO

def toCreateConcertBookingDTO (dto : BookConcertSeatUseCaseDTO) (concertId : RowId) (price : Int) :
    CreateConcertBookingDTO :=
  ⟨dto.userId, concertId, dto.concertScheduleId, dto.concertSeatId, price⟩

def toCreateOutboxDTO (_dto : BookConcertSeatUseCaseDTO) (booking : ConcertBooking) :
    CreateOutboxDTO :=
  ⟨"booking.completed", booking.toJson.stringify⟩

end BookConcertSeatUseCaseDTO

structure PayConcertBookingUseCaseDTO where
  userId : RowId
  concertBookingId : RowId
  deriving DecidableEq, Repr

namespace PayConcertBookingUseCaseDTO

def toPayBookingDTO (dto : PayConcertBookingUseCaseDTO) : PayConcertBookingDTO :=
  ⟨dto.userId, dto.concertBookingId⟩

def toPayPointDTO (dto : PayConcertBookingUseCaseDTO) (price : Int) : PayPointDTO :=
  ⟨dto.userId, price⟩

def toCreatePaymentDTO (dto : PayConcertBookingUseCaseDTO)
    (concertId concertScheduleId concertSeatId : RowId) (price : Int) : CreatePaymentDTO :=
  ⟨dto.userId, concertId, concertScheduleId, concertSeatId, dto.concertBookingId, price, .buy⟩

def toCreateOutboxDTO (_dto : PayConcertBookingUseCaseDTO) (payment : ConcertPayment) :
    CreateOutboxDTO :=
  ⟨"payment.completed", payment.toJson.stringify⟩

end PayConcertBookingUseCaseDTO

structure ChargePointUseCaseDTO where
  userId : RowId
  amount : Int
  deriving DecidableEq, Repr

def ChargePointUseCaseDTO.toChargePointDTO (dto : ChargePointUseCaseDTO) : ChargePointDTO :=
  ⟨dto.userId, dto.amount⟩

/-! The use cases up to their commit. What follows it, publishing the event and
expiring the queue token, is handed back with the result. -/

structure Booked where
  booking : ConcertBooking
  event : BookingCompletedEvent
  deriving DecidableEq, Repr

structure Paid where
  payment : ConcertPayment
  event : PaymentCompletedEvent
  expire : RowId
  deriving DecidableEq, Repr

/-- The schedule is checked before the transaction begins. -/
def BookConcertSeatUseCaseImpl.execute (zone : TimeZone) (dto : BookConcertSeatUseCaseDTO) :
    Script Booked := do
  ConcertService.validateScheduleIsBookable dto.concertScheduleId
  Prog.begin do
    let bookedSeat ← ConcertService.bookSeat dto.concertSeatId
    let booking ← BookingService.createBooking zone
      (dto.toCreateConcertBookingDTO bookedSeat.concertId bookedSeat.price)
    let outbox ← OutboxService.create (dto.toCreateOutboxDTO booking)
    pure ⟨booking, ⟨outbox, .concertBookingCompleted⟩⟩

def PayConcertBookingUseCaseImpl.execute (dto : PayConcertBookingUseCaseDTO) : Script Paid :=
  Prog.begin do
    let booking ← ConcertService.payBooking dto.toPayBookingDTO
    let _ ← ConcertService.paySeat booking.concertSeatId
    let _ ← PointService.use (dto.toPayPointDTO booking.price)
    let payment ← PaymentService.create (dto.toCreatePaymentDTO booking.concertId
      booking.concertScheduleId booking.concertSeatId booking.price)
    let outbox ← OutboxService.create (dto.toCreateOutboxDTO payment)
    pure ⟨payment, ⟨outbox, .concertPaymentCompleted⟩, dto.userId⟩

def ChargePointUseCaseImpl.execute (dto : ChargePointUseCaseDTO) : Script Point :=
  Prog.begin (PointService.charge dto.toChargePointDTO)

inductive Call where
  | book (dto : BookConcertSeatUseCaseDTO)
  | pay (dto : PayConcertBookingUseCaseDTO)
  | charge (dto : ChargePointUseCaseDTO)
  deriving DecidableEq, Repr

inductive Response where
  | booked (b : Booked)
  | paid (p : Paid)
  | charged (p : Point)
  deriving DecidableEq, Repr

def execute (zone : TimeZone) : Call → Script Response
  | .book dto => do
    let b ← BookConcertSeatUseCaseImpl.execute zone dto
    pure (.booked b)
  | .pay dto => do
    let p ← PayConcertBookingUseCaseImpl.execute dto
    pure (.paid p)
  | .charge dto => do
    let p ← ChargePointUseCaseImpl.execute dto
    pure (.charged p)

/-! The use cases as one chain of service calls each. -/

theorem execute_book (zone : TimeZone) (dto : BookConcertSeatUseCaseDTO) :
    execute zone (.book dto) =
      (ConcertService.validateScheduleIsBookable dto.concertScheduleId).bind fun _ => .begin <|
        (ConcertService.bookSeat dto.concertSeatId).bind fun seat =>
        (BookingService.createBooking zone
          (dto.toCreateConcertBookingDTO seat.concertId seat.price)).bind fun booking =>
        (OutboxService.create (dto.toCreateOutboxDTO booking)).bind fun outbox =>
        .done (.booked ⟨booking, ⟨outbox, .concertBookingCompleted⟩⟩) := by
  simp [execute, BookConcertSeatUseCaseImpl.execute, Prog.bind_assoc]

theorem execute_pay (zone : TimeZone) (dto : PayConcertBookingUseCaseDTO) :
    execute zone (.pay dto) = .begin (
      (ConcertService.payBooking dto.toPayBookingDTO).bind fun booking =>
      (ConcertService.paySeat booking.concertSeatId).bind fun _ =>
      (PointService.use (dto.toPayPointDTO booking.price)).bind fun _ =>
      (PaymentService.create (dto.toCreatePaymentDTO booking.concertId booking.concertScheduleId
        booking.concertSeatId booking.price)).bind fun payment =>
      (OutboxService.create (dto.toCreateOutboxDTO payment)).bind fun outbox =>
      .done (.paid ⟨payment, ⟨outbox, .concertPaymentCompleted⟩, dto.userId⟩)) := by
  simp [execute, PayConcertBookingUseCaseImpl.execute, Prog.bind_assoc]

theorem execute_charge (zone : TimeZone) (dto : ChargePointUseCaseDTO) :
    execute zone (.charge dto) = .begin (
      (PointService.charge dto.toChargePointDTO).bind fun point => .done (.charged point)) := by
  simp [execute, ChargePointUseCaseImpl.execute]

end HighVolumeBooking
