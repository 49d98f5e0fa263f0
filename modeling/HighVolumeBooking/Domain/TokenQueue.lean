import Mathlib.Data.Int.Notation

namespace HighVolumeBooking

/-- A signed token of the queue. The user id is none where the payload has null. -/
structure Jwt where
  userId : Option Int
  iat : Int
  exp : Int
  deriving DecidableEq, Repr

namespace Jwt

/-- Signed for five minutes at an instant in milliseconds; the token itself
counts in seconds. -/
def sign (userId : Option Int) (now : Int) : Jwt := ⟨userId, now / 1000, now / 1000 + 60 * 5⟩

def expired (token : Jwt) (now : Int) : Bool := token.exp ≤ now / 1000

end Jwt

structure TokenQueue where
  userId : Option Int
  token : Option Jwt
  order : Nat
  estimateWaitingSec : Nat
  deriving DecidableEq, Repr

namespace TokenQueue

def THROUGHPUT_PER_10_SEC : Nat := 2000

def createActive (token : Jwt) : TokenQueue := ⟨token.userId, some token, 0, 0⟩

def createWaiting (userId : Int) (order : Nat) : TokenQueue :=
  let estimatedWaitingSec := (order + (THROUGHPUT_PER_10_SEC - 1)) / THROUGHPUT_PER_10_SEC * 10
  ⟨some userId, none, order, estimatedWaitingSec⟩

end TokenQueue

end HighVolumeBooking
