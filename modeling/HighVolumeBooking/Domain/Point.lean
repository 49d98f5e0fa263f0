import HighVolumeBooking.Common.ErrorCode
import HighVolumeBooking.ReadCommitted.Program

namespace HighVolumeBooking

open ReadCommitted (Prog Schema RowId)

variable {S : Schema}

structure Point where
  id : RowId
  userId : RowId
  amount : Int
  deriving DecidableEq, Repr

namespace Point

def charge (point : Point) (amount : Int) : Prog S ErrorCode Point := do
  Prog.throwIf (amount ≤ 0) .minimumChargeAmount
  pure { point with amount := point.amount + amount }

def use (point : Point) (amount : Int) : Prog S ErrorCode Point := do
  Prog.throwIf (amount ≤ 0) .minimumPaymentAmount
  Prog.throwIf (point.amount < amount) .insufficientPoint
  pure { point with amount := point.amount - amount }

end Point

inductive PointTransactionType where
  | charge
  | use
  | refund
  deriving DecidableEq, Repr

structure CreatePointHistoryDTO where
  userId : RowId
  pointId : RowId
  amount : Int
  transactionType : PointTransactionType

structure PointHistory where
  id : RowId
  userId : RowId
  pointId : RowId
  amount : Int
  transactionType : PointTransactionType
  createdAt : Int
  deriving DecidableEq, Repr

def PointHistory.create (dto : CreatePointHistoryDTO) : Prog S ErrorCode PointHistory := do
  Prog.throwIf (dto.amount ≤ 0) .minimumChargeAmount
  let now ← Prog.newDate
  pure ⟨0, dto.userId, dto.pointId, dto.amount, dto.transactionType, now⟩

end HighVolumeBooking
