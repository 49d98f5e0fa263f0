import HighVolumeBooking.Domain.Concert

namespace HighVolumeBooking

/-- A property that holds another object: undefined, null or that object. -/
inductive Relation (α : Type) where
  | undefined
  | null
  | loaded (a : α)
  deriving DecidableEq, Repr

namespace Relation

variable {α β : Type}

/-- What `r && f(r)` evaluates to. -/
def map (f : α → β) : Relation α → Relation β
  | .undefined => .undefined
  | .null => .null
  | .loaded a => .loaded (f a)

/-- A member with the value undefined is left out. -/
def member (name : String) (toJson : α → Json) : Relation α → List (String × Json)
  | .undefined => []
  | .null => [(name, .null)]
  | .loaded a => [(name, toJson a)]

end Relation

structure CreateConcertDTO where
  title : String
  description : Option String
  deriving DecidableEq, Repr

structure Concert where
  id : RowId
  title : String
  description : Option String
  deriving DecidableEq, Repr

namespace Concert

def create (dto : CreateConcertDTO) : Concert := ⟨0, dto.title, dto.description⟩

def toJson (concert : Concert) : Json :=
  .obj [("id", .num concert.id), ("title", .str concert.title),
    ("description", (concert.description.map Json.str).getD .null)]

end Concert

structure CreateConcertScheduleDTO where
  concertId : RowId
  bookingStartAt : Int
  bookingEndAt : Int
  startAt : Int
  endAt : Int
  deriving DecidableEq, Repr

/-- A schedule with the concert it may carry. -/
structure ListedSchedule extends ConcertSchedule where
  concert : Relation Concert
  deriving DecidableEq, Repr

namespace ListedSchedule

def create (dto : CreateConcertScheduleDTO) : ListedSchedule :=
  ⟨⟨0, dto.concertId, dto.bookingStartAt, dto.bookingEndAt, dto.startAt, dto.endAt⟩, .undefined⟩

def toJson (schedule : ListedSchedule) : Json :=
  .obj ([("id", .num schedule.id), ("concertId", .num schedule.concertId),
    ("bookingStartAt", .date schedule.bookingStartAt),
    ("bookingEndAt", .date schedule.bookingEndAt), ("startAt", .date schedule.startAt),
    ("endAt", .date schedule.endAt)] ++ schedule.concert.member "concert" Concert.toJson)

/-- A schedule is told apart from others by its JSON. -/
theorem id_of_toJson {schedule schedule' : ListedSchedule} (h : schedule.toJson = schedule'.toJson) :
    schedule.id = schedule'.id := by
  simp only [toJson, List.cons_append, Json.obj.injEq, List.cons.injEq, Prod.mk.injEq,
    Json.num.injEq, true_and] at h
  exact h.1

end ListedSchedule

end HighVolumeBooking
