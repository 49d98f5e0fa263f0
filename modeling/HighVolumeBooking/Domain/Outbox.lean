import HighVolumeBooking.ReadCommitted.Program

namespace HighVolumeBooking

open ReadCommitted (RowId)

inductive OutboxStatus where
  | init
  | published
  deriving DecidableEq, Repr

structure CreateOutboxDTO where
  topic : String
  message : String

structure Outbox where
  id : RowId
  topic : String
  message : String
  status : OutboxStatus
  deriving DecidableEq, Repr

namespace Outbox

def create (dto : CreateOutboxDTO) : Outbox := ⟨0, dto.topic, dto.message, .init⟩

def toPublished (outbox : Outbox) : Outbox := { outbox with status := .published }

end Outbox

end HighVolumeBooking
