namespace HighVolumeBooking

/-- What a CustomException carries. -/
inductive ErrorCode where
  | tokenExpired
  | invalidToken
  | tokenNotProvided
  | unauthorizedConcertPayment
  | paymentAlreadyProcessed
  | paymentExpired
  | bookingNotStarted
  | bookingAlreadyPassed
  | seatAlreadyBooked
  | seatAlreadySold
  | seatNotReserved
  | concertNotFound
  | scheduleNotFound
  | seatNotFound
  | bookingNotFound
  | minimumChargeAmount
  | minimumPaymentAmount
  | insufficientPoint
  | pointNotFound
  | queueNotFound
  | waitingTokenNotFound
  | outboxNotFound
  | optimisticLockConflict
  | internalServerError
  deriving DecidableEq, Repr

end HighVolumeBooking
