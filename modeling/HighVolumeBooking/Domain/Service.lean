import HighVolumeBooking.Infrastructure.Repository

namespace HighVolumeBooking

open ReadCommitted (Prog)

structure PayConcertBookingDTO where
  userId : RowId
  concertBookingId : RowId

namespace ConcertService

def bookSeat (concertSeatId : RowId) : Script ConcertSeat := do
  let some concertSeat ← ConcertSeatRepository.findOneById concertSeatId
    | Prog.throw .seatNotFound
  let concertSeat ← concertSeat.book
  let updated ← ConcertSeatRepository.update concertSeat
  Prog.throwIf (updated = false) .optimisticLockConflict
  pure concertSeat

def paySeat (seatId : RowId) : Script ConcertSeat := do
  let some concertSeat ← ConcertSeatRepository.findOneById seatId
    | Prog.throw .seatNotFound
  let concertSeat ← concertSeat.pay
  let updated ← ConcertSeatRepository.update concertSeat
  Prog.throwIf (updated = false) .optimisticLockConflict
  pure concertSeat

def payBooking (dto : PayConcertBookingDTO) : Script ConcertBooking := do
  let some concertBooking ← ConcertBookingRepository.findOneById dto.concertBookingId
    | Prog.throw .bookingNotFound
  let concertBooking ← concertBooking.pay dto.userId
  let updated ← ConcertBookingRepository.update concertBooking
  Prog.throwIf (updated = false) .optimisticLockConflict
  pure concertBooking

def validateScheduleIsBookable (concertScheduleId : RowId) : Script Unit := do
  let some concertSchedule ← ConcertScheduleRepository.findOneById concertScheduleId
    | Prog.throw .scheduleNotFound
  concertSchedule.validateBookable

end ConcertService

def BookingService.createBooking (zone : TimeZone) (dto : CreateConcertBookingDTO) :
    Script ConcertBooking := do
  let booking ← ConcertBooking.create zone dto
  ConcertBookingRepository.save booking

def PaymentService.create (dto : CreatePaymentDTO) : Script ConcertPayment :=
  ConcertPaymentRepository.save (ConcertPayment.create dto)

structure ChargePointDTO where
  userId : RowId
  amount : Int

structure PayPointDTO where
  userId : RowId
  amount : Int

namespace PointService

def findOneByUserIdOrThrow (userId : RowId) : Script Point := do
  let some point ← PointRepository.findOneByUserId userId
    | Prog.throw .pointNotFound
  pure point

def createHistory (dto : CreatePointHistoryDTO) : Script PointHistory := do
  let pointHistory ← PointHistory.create dto
  PointHistoryRepository.save pointHistory

def charge (dto : ChargePointDTO) : Script Point := do
  let point ← findOneByUserIdOrThrow dto.userId
  let point ← point.charge dto.amount
  let savedPoint ← PointRepository.save point
  let _ ← createHistory ⟨dto.userId, savedPoint.id, dto.amount, .charge⟩
  pure savedPoint

def use (dto : PayPointDTO) : Script Point := do
  let point ← findOneByUserIdOrThrow dto.userId
  let point ← point.use dto.amount
  let savedPoint ← PointRepository.save point
  let _ ← createHistory ⟨dto.userId, savedPoint.id, dto.amount, .use⟩
  pure savedPoint

end PointService

def OutboxService.create (dto : CreateOutboxDTO) : Script Outbox :=
  OutboxRepository.save (Outbox.create dto)

variable {γ : Type}

/-! What the services do to the database, as scripts that go on with f. -/

namespace ConcertService

/-- The common shape of the services that change a versioned seat. -/
def changeSeat (id : RowId) (change : ConcertSeat → Script ConcertSeat)
    (f : ConcertSeat → Script γ) : Script γ :=
  .find Tab.concertSeats id fun entity =>
    match entity with
    | none => .fail .seatNotFound
    | some entity => (change (ConcertSeatMapper.toDomain entity)).bind fun concertSeat =>
      (ConcertSeatRepository.update concertSeat).bind fun updated =>
        if updated = false then .fail .optimisticLockConflict else f concertSeat

theorem bookSeat_bind (id : RowId) (f : ConcertSeat → Script γ) :
    (bookSeat id).bind f = changeSeat id ConcertSeat.book f := by
  unfold bookSeat changeSeat ConcertSeatRepository.findOneById
  refine Prog.find_congr fun entity => ?_
  cases entity with
  | none => rfl
  | some entity => simp [Prog.bind_assoc]

theorem paySeat_bind (id : RowId) (f : ConcertSeat → Script γ) :
    (paySeat id).bind f = changeSeat id ConcertSeat.pay f := by
  unfold paySeat changeSeat ConcertSeatRepository.findOneById
  refine Prog.find_congr fun entity => ?_
  cases entity with
  | none => rfl
  | some entity => simp [Prog.bind_assoc]

theorem payBooking_bind (dto : PayConcertBookingDTO) (f : ConcertBooking → Script γ) :
    (payBooking dto).bind f =
      .find Tab.concertBookings dto.concertBookingId fun entity =>
        match entity with
        | none => .fail .bookingNotFound
        | some entity =>
          ((ConcertBookingMapper.toDomain entity).pay dto.userId).bind fun concertBooking =>
            (ConcertBookingRepository.update concertBooking).bind fun updated =>
              if updated = false then .fail .optimisticLockConflict else f concertBooking := by
  unfold payBooking ConcertBookingRepository.findOneById
  refine Prog.find_congr fun entity => ?_
  cases entity with
  | none => rfl
  | some entity => simp [Prog.bind_assoc]

theorem validateScheduleIsBookable_bind (id : RowId) (f : Unit → Script γ) :
    (validateScheduleIsBookable id).bind f =
      .find Tab.concertSchedules id fun entity =>
        match entity with
        | none => .fail .scheduleNotFound
        | some entity => (ConcertScheduleMapper.toDomain entity).validateBookable.bind f := by
  unfold validateScheduleIsBookable ConcertScheduleRepository.findOneById
  refine Prog.find_congr fun entity => ?_
  cases entity with
  | none => rfl
  | some entity => rfl

end ConcertService

namespace PointService

/-- The common shape of the services that change a balance and record it. -/
def changePoint (userId : RowId) (change : Point → Script Point) (amount : Int)
    (transactionType : PointTransactionType) (f : Point → Script γ) : Script γ :=
  .findForUpdate Tab.points (fun entity : PointEntity => entity.userId == userId) fun entity =>
    match entity with
    | none => .fail .pointNotFound
    | some entity => (change (PointMapper.toDomain entity)).bind fun point =>
      .save Tab.points (PointMapper.toEntity point)
        ((createHistory ⟨userId, point.id, amount, transactionType⟩).bind fun _ => f point)

theorem charge_bind (dto : ChargePointDTO) (f : Point → Script γ) :
    (charge dto).bind f =
      changePoint dto.userId (fun point => point.charge dto.amount) dto.amount .charge f := by
  unfold charge changePoint findOneByUserIdOrThrow PointRepository.findOneByUserId
  refine Prog.findForUpdate_congr fun entity => ?_
  cases entity with
  | none => rfl
  | some entity => simp [Prog.bind_assoc, PointRepository.save, Prog.bind, PointMapper.toDomain,
      PointMapper.toEntity]

theorem use_bind (dto : PayPointDTO) (f : Point → Script γ) :
    (use dto).bind f =
      changePoint dto.userId (fun point => point.use dto.amount) dto.amount .use f := by
  unfold use changePoint findOneByUserIdOrThrow PointRepository.findOneByUserId
  refine Prog.findForUpdate_congr fun entity => ?_
  cases entity with
  | none => rfl
  | some entity => simp [Prog.bind_assoc, PointRepository.save, Prog.bind, PointMapper.toDomain,
      PointMapper.toEntity]

end PointService

end HighVolumeBooking
