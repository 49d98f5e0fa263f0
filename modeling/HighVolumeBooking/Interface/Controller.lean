import HighVolumeBooking.Application.Listing
import HighVolumeBooking.Interface.Response

namespace HighVolumeBooking

inductive ControllerError where
  | listing (e : ListingError)
  | typeError
  deriving DecidableEq, Repr

abbrev Controller := Interleaving.Script listingService ControllerError

def Listed.toJs {α : Type} (toJs : α → JsValue) : Listed α → JsValue
  | .loaded items => .arr (items.map toJs)
  | .cached value => .ofJson value

/-- A TypeError where there is no value. -/
def Controller.ofOption {β : Type} : Option β → Controller β
  | some b => .done b
  | none => .fail .typeError

namespace ConcertController

def createConcertSchedule (dto : CreateConcertScheduleDTO) : Controller JsValue := do
  let schedule ← (CreateConcertScheduleUseCase.execute dto).tryCatch fun e => .fail (.listing e)
  Controller.ofOption (ConcertScheduleResponse.from schedule.toJs)

/-- Only an array has the method map. -/
def scanBookableSchedules (concertId : RowId) : Controller JsValue := do
  let bookableSchedules ← (ScanBookableSchedulesUseCase.execute concertId).tryCatch
    fun e => .fail (.listing e)
  match bookableSchedules.toJs ListedSchedule.toJs with
  | .arr items => do
    let responses ← Controller.ofOption (items.mapM ConcertScheduleResponse.from)
    pure (.arr responses)
  | _ => .fail .typeError

end ConcertController

end HighVolumeBooking
