import HighVolumeBooking.Domain.Concert
import HighVolumeBooking.Domain.Point
import HighVolumeBooking.Domain.Outbox

namespace HighVolumeBooking

open ReadCommitted (Schema Access Db)

/-! The entities, without the timestamp columns that no query reads. -/

structure ConcertScheduleEntity where
  id : RowId
  concertId : RowId
  bookingStartAt : Int
  bookingEndAt : Int
  startAt : Int
  endAt : Int
  deriving DecidableEq, Repr

structure ConcertSeatEntity where
  id : RowId
  concertId : RowId
  concertScheduleId : RowId
  price : Int
  number : Int
  isPaid : Bool
  reservedUntil : Option Int
  version : Nat
  deriving DecidableEq, Repr

structure ConcertBookingEntity where
  id : RowId
  userId : RowId
  concertId : RowId
  concertScheduleId : RowId
  concertSeatId : RowId
  price : Int
  isPaid : Bool
  expiresAt : Int
  version : Nat
  deriving DecidableEq, Repr

structure ConcertPaymentEntity where
  id : RowId
  userId : RowId
  concertId : RowId
  concertScheduleId : RowId
  concertSeatId : RowId
  concertBookingId : RowId
  price : Int
  type : ConcertPaymentType
  deriving DecidableEq, Repr

structure PointEntity where
  id : RowId
  userId : RowId
  amount : Int
  deriving DecidableEq, Repr

structure PointHistoryEntity where
  id : RowId
  userId : RowId
  pointId : RowId
  amount : Int
  transactionType : PointTransactionType
  createdAt : Int
  deriving DecidableEq, Repr

structure OutboxEntity where
  id : RowId
  topic : String
  message : String
  status : OutboxStatus
  createdAt : Int
  deriving DecidableEq, Repr

inductive Tab where
  | concertSchedules
  | concertSeats
  | concertBookings
  | concertPaymentHistories
  | points
  | pointHistories
  | outbox
  deriving DecidableEq, Repr

namespace Tab

@[reducible] def Row : Tab → Type
  | .concertSchedules => ConcertScheduleEntity
  | .concertSeats => ConcertSeatEntity
  | .concertBookings => ConcertBookingEntity
  | .concertPaymentHistories => ConcertPaymentEntity
  | .points => PointEntity
  | .pointHistories => PointHistoryEntity
  | .outbox => OutboxEntity

@[reducible] def key : (τ : Tab) → τ.Row → RowId
  | .concertSchedules => ConcertScheduleEntity.id
  | .concertSeats => ConcertSeatEntity.id
  | .concertBookings => ConcertBookingEntity.id
  | .concertPaymentHistories => ConcertPaymentEntity.id
  | .points => PointEntity.id
  | .pointHistories => PointHistoryEntity.id
  | .outbox => OutboxEntity.id

/-- Seats and bookings have a version column. -/
@[reducible] def version : (τ : Tab) → τ.Row → Nat
  | .concertSeats => ConcertSeatEntity.version
  | .concertBookings => ConcertBookingEntity.version
  | _ => fun _ => 0

/-- No use case that is modelled here writes a schedule. -/
@[reducible] def access : Tab → Access
  | .concertSchedules => .frozen
  | .concertSeats => .optimistic
  | .concertBookings => .optimistic
  | _ => .pessimistic

end Tab

abbrev schema : Schema where
  Tab := Tab
  decTab := inferInstance
  Row := Tab.Row
  key := Tab.key
  version := Tab.version
  access := Tab.access

abbrev Database := Db schema

namespace Database

abbrev schedules (db : Database) : List ConcertScheduleEntity := (db .concertSchedules).rows
abbrev seats (db : Database) : List ConcertSeatEntity := (db .concertSeats).rows
abbrev bookings (db : Database) : List ConcertBookingEntity := (db .concertBookings).rows
abbrev payments (db : Database) : List ConcertPaymentEntity := (db .concertPaymentHistories).rows
abbrev points (db : Database) : List PointEntity := (db .points).rows
abbrev histories (db : Database) : List PointHistoryEntity := (db .pointHistories).rows
abbrev outboxes (db : Database) : List OutboxEntity := (db .outbox).rows

abbrev seat? (db : Database) (i : RowId) : Option ConcertSeatEntity := db.find .concertSeats i
abbrev booking? (db : Database) (i : RowId) : Option ConcertBookingEntity :=
  db.find .concertBookings i

end Database

end HighVolumeBooking
