import HighVolumeBooking.Common.JsValue
import HighVolumeBooking.Domain.Listing

namespace HighVolumeBooking

open ReadCommitted (Prog Schema)

variable {S : Schema}

structure ConcertSeatResponse where
  id : RowId
  concertScheduleId : RowId
  price : Int
  number : Int
  isAvailable : Bool
  deriving DecidableEq, Repr

def ConcertSeatResponse.from (concertSeat : ConcertSeat) : Prog S ErrorCode ConcertSeatResponse := do
  let isAvailable ← concertSeat.isAvailable
  pure ⟨concertSeat.id, concertSeat.concertScheduleId, concertSeat.price, concertSeat.number,
    isAvailable⟩

/-! The listed objects as JavaScript values. -/

def Relation.toJs {α : Type} (toJs : α → JsValue) : Relation α → JsValue
  | .undefined => .undefined
  | .null => .null
  | .loaded a => toJs a

def Concert.toJs (concert : Concert) : JsValue :=
  .obj [("id", .num concert.id), ("title", .str concert.title),
    ("description", concert.description.elim .null .str)]

def ListedSchedule.toJs (schedule : ListedSchedule) : JsValue :=
  .obj [("id", .num schedule.id), ("concertId", .num schedule.concertId),
    ("bookingStartAt", .date schedule.bookingStartAt), ("bookingEndAt", .date schedule.bookingEndAt),
    ("startAt", .date schedule.startAt), ("endAt", .date schedule.endAt),
    ("concert", schedule.concert.toJs Concert.toJs)]

theorem Concert.toJson_toJs (concert : Concert) : concert.toJs.toJson = some concert.toJson := by
  cases hd : concert.description <;>
    simp [toJs, toJson, hd, JsValue.toJson, JsValue.toJsonMembers]

theorem ListedSchedule.toJson_toJs (schedule : ListedSchedule) :
    schedule.toJs.toJson = some schedule.toJson := by
  cases hc : schedule.concert <;>
    simp [toJs, toJson, hc, Relation.toJs, Relation.member, JsValue.toJson, JsValue.toJsonMembers,
      Concert.toJson_toJs]

/-- The response of whatever has the properties of a schedule, with none for a
TypeError. -/
def ConcertScheduleResponse.from (concertSchedule : JsValue) : Option JsValue := do
  let id ← concertSchedule.get "id"
  let concertId ← concertSchedule.get "concertId"
  let bookingStartAt ← concertSchedule.get "bookingStartAt"
  let bookingEndAt ← concertSchedule.get "bookingEndAt"
  let startAt ← concertSchedule.get "startAt"
  let endAt ← concertSchedule.get "endAt"
  let concert ← concertSchedule.get "concert"
  let concertTitle ← concert.get "title"
  pure (.obj [("id", id), ("concertId", concertId), ("bookingStartAt", bookingStartAt),
    ("bookingEndAt", bookingEndAt), ("startAt", startAt), ("endAt", endAt),
    ("concertTitle", concertTitle)])

end HighVolumeBooking
