import HighVolumeBooking.ReadCommitted.Table

namespace HighVolumeBooking

open ReadCommitted (RowId)

inductive ProcessedStatus where
  | received
  | success
  deriving DecidableEq, Repr

structure CreateProcessedDTO where
  outboxId : RowId
  deriving DecidableEq, Repr

structure Processed where
  id : RowId
  outboxId : RowId
  status : ProcessedStatus
  deriving DecidableEq, Repr

namespace Processed

def create (dto : CreateProcessedDTO) : Processed := ⟨0, dto.outboxId, .received⟩

def toSuccess (processed : Processed) : Processed := { processed with status := .success }

end Processed

structure ProcessedEntity where
  id : RowId
  outboxId : RowId
  status : ProcessedStatus
  deriving DecidableEq, Repr

namespace ProcessedMapper

def toDomain (entity : ProcessedEntity) : Processed := ⟨entity.id, entity.outboxId, entity.status⟩

def toEntity (domain : Processed) : ProcessedEntity := ⟨domain.id, domain.outboxId, domain.status⟩

end ProcessedMapper

end HighVolumeBooking
