import HighVolumeBooking.Infrastructure.Schema

namespace HighVolumeBooking

open ReadCommitted (Prog)

/-- A statement script over the tables of this application. -/
abbrev Script := Prog schema ErrorCode

def ConcertScheduleMapper.toDomain (entity : ConcertScheduleEntity) : ConcertSchedule :=
  ⟨entity.id, entity.concertId, entity.bookingStartAt, entity.bookingEndAt, entity.startAt,
    entity.endAt⟩

namespace ConcertSeatMapper

def toDomain (entity : ConcertSeatEntity) : ConcertSeat :=
  ⟨entity.id, entity.concertId, entity.concertScheduleId, entity.price, entity.number,
    entity.isPaid, entity.reservedUntil, some entity.version⟩

def toEntity (domain : ConcertSeat) : ConcertSeatEntity :=
  ⟨domain.id, domain.concertId, domain.concertScheduleId, domain.price, domain.number,
    domain.isPaid, domain.reservedUntil, domain.version.getD 0⟩

end ConcertSeatMapper

namespace ConcertBookingMapper

def toDomain (entity : ConcertBookingEntity) : ConcertBooking :=
  ⟨entity.id, entity.userId, entity.concertId, entity.concertScheduleId, entity.concertSeatId,
    entity.price, entity.isPaid, entity.expiresAt, some entity.version⟩

def toEntity (domain : ConcertBooking) : ConcertBookingEntity :=
  ⟨domain.id, domain.userId, domain.concertId, domain.concertScheduleId, domain.concertSeatId,
    domain.price, domain.isPaid, domain.expiresAt, domain.version.getD 0⟩

end ConcertBookingMapper

namespace ConcertPaymentMapper

def toDomain (entity : ConcertPaymentEntity) : ConcertPayment :=
  ⟨entity.id, entity.userId, entity.concertId, entity.concertScheduleId, entity.concertSeatId,
    entity.concertBookingId, entity.price, entity.type⟩

def toEntity (domain : ConcertPayment) : ConcertPaymentEntity :=
  ⟨domain.id, domain.userId, domain.concertId, domain.concertScheduleId, domain.concertSeatId,
    domain.concertBookingId, domain.price, domain.type⟩

end ConcertPaymentMapper

namespace PointMapper

def toDomain (entity : PointEntity) : Point := ⟨entity.id, entity.userId, entity.amount⟩

def toEntity (domain : Point) : PointEntity := ⟨domain.id, domain.userId, domain.amount⟩

end PointMapper

namespace PointHistoryMapper

def toDomain (entity : PointHistoryEntity) : PointHistory :=
  ⟨entity.id, entity.userId, entity.pointId, entity.amount, entity.transactionType,
    entity.createdAt⟩

def toEntity (domain : PointHistory) : PointHistoryEntity :=
  ⟨domain.id, domain.userId, domain.pointId, domain.amount, domain.transactionType,
    domain.createdAt⟩

end PointHistoryMapper

namespace OutboxMapper

def toDomain (entity : OutboxEntity) : Outbox :=
  ⟨entity.id, entity.topic, entity.message, entity.status⟩

/-- The domain object has no creation time: the column default supplies it. -/
def toEntity (domain : Outbox) (createdAt : Int) : OutboxEntity :=
  ⟨domain.id, domain.topic, domain.message, domain.status, createdAt⟩

end OutboxMapper

/-! The repositories, with the entity manager of the running transaction. What
a use case saves as new comes from `create` with the id 0, which the insert
replaces by the next key of the sequence. -/

def ConcertScheduleRepository.findOneById (id : RowId) : Script (Option ConcertSchedule) :=
  .find Tab.concertSchedules id fun entity => .done (entity.map ConcertScheduleMapper.toDomain)

namespace ConcertSeatRepository

def findOneById (id : RowId) : Script (Option ConcertSeat) :=
  .find Tab.concertSeats id fun entity => .done (entity.map ConcertSeatMapper.toDomain)

def update (concertSeat : ConcertSeat) : Script Bool :=
  let entity := ConcertSeatMapper.toEntity concertSeat
  .update Tab.concertSeats entity.version { entity with version := entity.version + 1 } .done

end ConcertSeatRepository

namespace ConcertBookingRepository

def findOneById (id : RowId) : Script (Option ConcertBooking) :=
  .find Tab.concertBookings id fun entity => .done (entity.map ConcertBookingMapper.toDomain)

def save (concertBooking : ConcertBooking) : Script ConcertBooking :=
  .insert Tab.concertBookings
    (fun id _ => { ConcertBookingMapper.toEntity concertBooking with id := id })
    fun entity => .done (ConcertBookingMapper.toDomain entity)

def update (concertBooking : ConcertBooking) : Script Bool :=
  let entity := ConcertBookingMapper.toEntity concertBooking
  .update Tab.concertBookings entity.version { entity with version := entity.version + 1 } .done

end ConcertBookingRepository

def ConcertPaymentRepository.save (concertPayment : ConcertPayment) : Script ConcertPayment :=
  .insert Tab.concertPaymentHistories
    (fun id _ => { ConcertPaymentMapper.toEntity concertPayment with id := id })
    fun entity => .done (ConcertPaymentMapper.toDomain entity)

namespace PointRepository

/-- SELECT ... WHERE user_id = userId LIMIT 1 FOR UPDATE. -/
def findOneByUserId (userId : RowId) : Script (Option Point) :=
  .findForUpdate Tab.points (fun entity : PointEntity => entity.userId == userId)
    fun entity => .done (entity.map PointMapper.toDomain)

/-- The point was loaded before, so this updates its row. -/
def save (point : Point) : Script Point :=
  let entity := PointMapper.toEntity point
  .save Tab.points entity (.done (PointMapper.toDomain entity))

end PointRepository

def PointHistoryRepository.save (pointHistory : PointHistory) : Script PointHistory :=
  .insert Tab.pointHistories
    (fun id _ => { PointHistoryMapper.toEntity pointHistory with id := id })
    fun entity => .done (PointHistoryMapper.toDomain entity)

def OutboxRepository.save (outbox : Outbox) : Script Outbox :=
  .insert Tab.outbox (fun id now => { OutboxMapper.toEntity outbox now with id := id })
    fun entity => .done (OutboxMapper.toDomain entity)

end HighVolumeBooking
