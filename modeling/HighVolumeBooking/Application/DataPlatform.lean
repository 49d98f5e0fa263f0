import HighVolumeBooking.Application.Outbox
import HighVolumeBooking.Common.JsonParse
import HighVolumeBooking.Domain.Processed
import HighVolumeBooking.Interleaving.Pool

namespace HighVolumeBooking

open ReadCommitted (Table)
open Interleaving (Service)

abbrev ProcessedTable := Table ProcessedEntity.id

/-- What is handed over to the data platform. -/
inductive DataPlatformResult where
  | booking (booking : Json)
  | payment (payment : Json)

inductive DataPlatformOp where
  | insert (entity : ProcessedEntity)
  | update (entity : ProcessedEntity)
  | send (result : DataPlatformResult)
  | response

/-- How a call of the data platform client ends, if it ends. -/
inductive Outcome where
  | returned
  | threw
  deriving DecidableEq, Repr

inductive DataPlatformEvent where
  | quiet
  | issued (id : RowId)
  | ended (outcome : Outcome)
  deriving DecidableEq, Repr

namespace DataPlatformOp

@[reducible] def Reply : DataPlatformOp → Type
  | .insert _ => Option ProcessedEntity
  | .response => Outcome
  | _ => Unit

/-- An INSERT takes the next key of the sequence, which starts at 1, and none
answers it when the unique constraint on outbox_id rejects the row. The platform
itself is outside; its calls change no table. -/
def exec (table : ProcessedTable) :
    (o : DataPlatformOp) → DataPlatformEvent → Option (o.Reply × ProcessedTable)
  | .insert entity, .issued id =>
    if table.rows.any fun row => row.outboxId == entity.outboxId then some (none, table)
    else if 0 < id ∧ table.find? id = none then
      some (some { entity with id := id }, table.put { entity with id := id })
    else none
  | .update entity, .quiet => some ((), table.put entity)
  | .send _, .quiet => some ((), table)
  | .response, .ended outcome => some (outcome, table)
  | _, _ => none

end DataPlatformOp

/-- The processed table and the data platform behind its client. -/
abbrev dataPlatform : Service where
  State := ProcessedTable
  Op := DataPlatformOp
  Reply := DataPlatformOp.Reply
  Event := DataPlatformEvent
  exec := DataPlatformOp.exec
  env := fun _ _ => none

inductive HandlerError where
  | syntaxError
  | uniqueViolation
  deriving DecidableEq, Repr

abbrev Handler := Interleaving.Script dataPlatform HandlerError

/-- An entity with the id 0 is new. -/
def ProcessedRepository.save (processed : Processed) : Handler Processed :=
  let entity := ProcessedMapper.toEntity processed
  if entity.id = 0 then .call (.insert entity) fun saved =>
    match saved with
    | some entity => .done (ProcessedMapper.toDomain entity)
    | none => .fail .uniqueViolation
  else .call (.update entity) fun _ => .done (ProcessedMapper.toDomain entity)

namespace ProcessedService

def create (dto : CreateProcessedDTO) : Handler Processed :=
  ProcessedRepository.save (Processed.create dto)

def toSuccess (processed : Processed) : Handler Unit := do
  let _ ← ProcessedRepository.save processed.toSuccess
  pure ()

end ProcessedService

/-! A call of the client is made at once and ends later. -/

namespace DataPlatformService

def sendBookingResult (booking : Json) : Handler Outcome :=
  .call (.send (.booking booking)) fun _ => .call .response .done

def sendPaymentResult (payment : Json) : Handler Outcome :=
  .call (.send (.payment payment)) fun _ => .call .response .done

end DataPlatformService

def JSON.parse (s : String) : Handler Json :=
  match Json.parse s with
  | some v => .done v
  | none => .fail .syntaxError

/-! The catch block around the client call is empty, so what follows it runs
after either outcome. -/

def DataPlatformBookingConsumer.sendBookingData (data : Message) : Handler Unit := do
  let booking ← JSON.parse data.value.message
  let processed ← ProcessedService.create ⟨data.value.id⟩
  let _ ← DataPlatformService.sendBookingResult booking
  ProcessedService.toSuccess processed

def DataPlatformPaymentConsumer.sendPaymentData (data : Message) : Handler Unit := do
  let payment ← JSON.parse data.value.message
  let processed ← ProcessedService.create ⟨data.value.id⟩
  let _ ← DataPlatformService.sendPaymentResult payment
  ProcessedService.toSuccess processed

/-- A delivery to one of the two consumers. -/
inductive Delivery where
  | booking (data : Message)
  | payment (data : Message)
  deriving DecidableEq, Repr

namespace Delivery

def data : Delivery → Message
  | .booking data => data
  | .payment data => data

def outboxId (d : Delivery) : RowId := d.data.value.id

def handle : Delivery → Handler Unit
  | .booking data => DataPlatformBookingConsumer.sendBookingData data
  | .payment data => DataPlatformPaymentConsumer.sendPaymentData data

/-- What the consumer hands over. -/
def result : Delivery → Json → DataPlatformResult
  | .booking _ => .booking
  | .payment _ => .payment

end Delivery

end HighVolumeBooking
