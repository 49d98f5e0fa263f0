import HighVolumeBooking.Common.ErrorCode
import HighVolumeBooking.Common.Json

namespace HighVolumeBooking

open ReadCommitted (Prog Schema)

variable {S : Schema}

/-! The domain objects of a concert. Each `new Date()` of a method is its own
reading of the clock, taken where the source takes it. -/

structure ConcertSchedule where
  id : RowId
  concertId : RowId
  bookingStartAt : Int
  bookingEndAt : Int
  startAt : Int
  endAt : Int
  deriving DecidableEq, Repr

def ConcertSchedule.validateBookable (schedule : ConcertSchedule) : Prog S ErrorCode Unit := do
  let now ← Prog.newDate
  Prog.throwIf (schedule.bookingStartAt > now) .bookingNotStarted
  let now ← Prog.newDate
  Prog.throwIf (schedule.bookingEndAt < now) .bookingAlreadyPassed

structure ConcertSeat where
  id : RowId
  concertId : RowId
  concertScheduleId : RowId
  price : Int
  number : Int
  isPaid : Bool
  reservedUntil : Option Int
  version : Option Nat
  deriving DecidableEq, Repr

namespace ConcertSeat

/-- A missing deadline is decided without reading the clock. -/
def book (seat : ConcertSeat) : Prog S ErrorCode ConcertSeat := do
  let reserved ← match seat.reservedUntil with
    | some reservedUntil => do
      let now ← Prog.newDate
      pure (decide (reservedUntil > now))
    | none => pure false
  Prog.throwIf (reserved = true) .seatAlreadyBooked
  Prog.throwIf (seat.isPaid = true) .seatAlreadySold
  let now ← Prog.newDate
  pure { seat with reservedUntil := some (now + 5 * 60 * 1000) }

def pay (seat : ConcertSeat) : Prog S ErrorCode ConcertSeat := do
  Prog.throwIf (seat.isPaid = true) .seatAlreadySold
  let lapsed ← match seat.reservedUntil with
    | some reservedUntil => do
      let now ← Prog.newDate
      pure (decide (reservedUntil < now))
    | none => pure true
  Prog.throwIf (lapsed = true) .seatNotReserved
  pure { seat with isPaid := true }

def isAvailable (seat : ConcertSeat) : Prog S ErrorCode Bool :=
  if seat.isPaid then pure false
  else match seat.reservedUntil with
    | some reservedUntil => do
      let now ← Prog.newDate
      pure (!decide (reservedUntil > now))
    | none => pure true

end ConcertSeat

structure CreateConcertBookingDTO where
  userId : RowId
  concertId : RowId
  concertScheduleId : RowId
  concertSeatId : RowId
  price : Int

structure ConcertBooking where
  id : RowId
  userId : RowId
  concertId : RowId
  concertScheduleId : RowId
  concertSeatId : RowId
  price : Int
  isPaid : Bool
  expiresAt : Int
  version : Option Nat
  deriving DecidableEq, Repr

namespace ConcertBooking

def calculateExpiryTime (zone : TimeZone) (now : Int) : Int :=
  setMinutes zone now (getMinutes zone now + 5)

def create (zone : TimeZone) (dto : CreateConcertBookingDTO) : Prog S ErrorCode ConcertBooking := do
  let now ← Prog.newDate
  pure ⟨0, dto.userId, dto.concertId, dto.concertScheduleId, dto.concertSeatId, dto.price, false,
    calculateExpiryTime zone now, none⟩

def pay (booking : ConcertBooking) (userId : RowId) : Prog S ErrorCode ConcertBooking := do
  Prog.throwIf (booking.userId ≠ userId) .unauthorizedConcertPayment
  Prog.throwIf (booking.isPaid = true) .paymentAlreadyProcessed
  let now ← Prog.newDate
  Prog.throwIf (booking.expiresAt < now) .paymentExpired
  pure { booking with isPaid := true }

def toJson (booking : ConcertBooking) : Json :=
  .obj ([("id", .num booking.id), ("userId", .num booking.userId),
    ("concertId", .num booking.concertId), ("concertScheduleId", .num booking.concertScheduleId),
    ("concertSeatId", .num booking.concertSeatId), ("price", .num booking.price),
    ("isPaid", .bool booking.isPaid), ("expiresAt", .date booking.expiresAt)] ++
    (booking.version.map fun v => ("version", .num v)).toList)

end ConcertBooking

inductive ConcertPaymentType where
  | buy
  | refund
  deriving DecidableEq, Repr

def ConcertPaymentType.text : ConcertPaymentType → String
  | .buy => "BUY"
  | .refund => "REFUND"

structure CreatePaymentDTO where
  userId : RowId
  concertId : RowId
  concertScheduleId : RowId
  concertSeatId : RowId
  concertBookingId : RowId
  price : Int
  type : ConcertPaymentType

structure ConcertPayment where
  id : RowId
  userId : RowId
  concertId : RowId
  concertScheduleId : RowId
  concertSeatId : RowId
  concertBookingId : RowId
  price : Int
  type : ConcertPaymentType
  deriving DecidableEq, Repr

namespace ConcertPayment

def create (dto : CreatePaymentDTO) : ConcertPayment :=
  ⟨0, dto.userId, dto.concertId, dto.concertScheduleId, dto.concertSeatId, dto.concertBookingId,
    dto.price, dto.type⟩

def toJson (payment : ConcertPayment) : Json :=
  .obj [("id", .num payment.id), ("userId", .num payment.userId),
    ("concertId", .num payment.concertId), ("concertScheduleId", .num payment.concertScheduleId),
    ("concertSeatId", .num payment.concertSeatId),
    ("concertBookingId", .num payment.concertBookingId), ("price", .num payment.price),
    ("type", .str payment.type.text)]

end ConcertPayment

end HighVolumeBooking
