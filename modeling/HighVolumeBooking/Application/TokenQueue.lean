import HighVolumeBooking.Common.ErrorCode
import HighVolumeBooking.Common.Number
import HighVolumeBooking.Domain.TokenQueue
import HighVolumeBooking.Interleaving.Pool
import HighVolumeBooking.Redis.Store

namespace HighVolumeBooking

open Interleaving (Service)

/-- A command that is attempted may fail without effect, and the caller goes on. -/
inductive TokenOp where
  | redis (c : Redis.Command Jwt)
  | attempt (c : Redis.Command Jwt)
  | now
  | sign (userId : Option Int)
  deriving DecidableEq, Repr

inductive TokenEvent where
  | quiet
  | failed
  | read (t : Int)
  | tick (t : Int)
  deriving DecidableEq, Repr

namespace TokenOp

@[reducible] def Reply : TokenOp → Type
  | .redis c => c.Reply
  | .attempt c => Option c.Reply
  | .now => Int
  | .sign _ => Option Jwt

/-- Each server has its own clock, so its readings are taken from the event. -/
def exec (store : Redis.Store Jwt) :
    (o : TokenOp) → TokenEvent → Option (o.Reply × Redis.Store Jwt)
  | .redis c, .quiet => some (store.exec c)
  | .attempt c, .quiet => some (some (store.exec c).1, (store.exec c).2)
  | .attempt _, .failed => some (none, store)
  | .now, .read t => some (t, store)
  | .sign userId, .read t => some (some (Jwt.sign userId t), store)
  | .sign _, .failed => some (none, store)
  | _, _ => none

end TokenOp

/-- Redis, the clocks of the servers and the signing of tokens. -/
abbrev tokenServer : Service where
  State := Redis.Store Jwt
  Op := TokenOp
  Reply := TokenOp.Reply
  Event := TokenEvent
  exec := TokenOp.exec
  env store
    | .tick t => if store.now ≤ t then some (store.tick t) else none
    | _ => none

inductive TokenError where
  | custom (code : ErrorCode)
  | jsonWebToken
  | typeError
  deriving DecidableEq, Repr

abbrev TokenScript := Interleaving.Script tokenServer TokenError

/-- What the caller waits for. -/
def redis (c : Redis.Command Jwt) : TokenScript c.Reply := .call (.redis c) .done

namespace WaitingTokenQueueRepository

def WAITING_TOKENS_KEY : String := "waiting_tokens"

def add (member : String) : TokenScript Nat :=
  .ask .now fun now => redis (.zaddNX WAITING_TOKENS_KEY now member)

def getOrder (member : String) : TokenScript (Option Nat) := do
  let rankIdx ← redis (.zrank WAITING_TOKENS_KEY member)
  match rankIdx with
  | none => pure none
  | some rankIdx => pure (some (rankIdx + 1))

def getSize : TokenScript Nat := redis (.zcard WAITING_TOKENS_KEY)

def findOldest (count : Nat) : TokenScript (List String) :=
  redis (.zrange WAITING_TOKENS_KEY 0 (count - 1))

def remove (members : List String) : TokenScript Nat := redis (.zrem WAITING_TOKENS_KEY members)

end WaitingTokenQueueRepository

namespace ActiveTokenQueueRepository

def KEY_PREFIX : String := "active_tokens"

def EXPIRE_SEC : Nat := 60 * 5

def key (k : String) : String := KEY_PREFIX ++ ":" ++ k

/-- The only caller does not wait for it. -/
def add (k : String) (value : Jwt) : TokenScript Unit :=
  .send (.attempt (.setNX (key k) value EXPIRE_SEC)) (.done ())

def findOne (k : String) : TokenScript (Option Jwt) := redis (.get (key k))

def remove (k : String) : TokenScript Nat := redis (.del (key k))

end ActiveTokenQueueRepository

/-- none when the signing throws. -/
def TokenQueue.generateToken (userId : Option Int) : TokenScript (Option Jwt) :=
  .ask (.sign userId) .done

namespace TokenQueueService

def QUEUE_THROUGHPUT : Nat := 2000

def addWaitingToken (userId : Int) : TokenScript TokenQueue := do
  let order ← WaitingTokenQueueRepository.getOrder (toString userId)
  match order with
  | some order => pure (TokenQueue.createWaiting userId order)
  | none =>
    let _ ← WaitingTokenQueueRepository.add (toString userId)
    let order ← WaitingTokenQueueRepository.getSize
    pure (TokenQueue.createWaiting userId order)

/-- An order of 0 counts as none. -/
def getWaitingToken (userId : Int) : TokenScript TokenQueue := do
  let order ← WaitingTokenQueueRepository.getOrder (toString userId)
  match order with
  | none => .fail (.custom .waitingTokenNotFound)
  | some 0 => .fail (.custom .waitingTokenNotFound)
  | some order => pure (TokenQueue.createWaiting userId order)

def getActiveToken (userId : Int) : TokenScript (Option TokenQueue) := do
  let token ← ActiveTokenQueueRepository.findOne (toString userId)
  match token with
  | none => pure none
  | some token => pure (some (TokenQueue.createActive token))

/-- The loop starts its writes without waiting for them; where a token cannot be
generated, the loop goes on. -/
def activateQueues : TokenScript Unit := do
  let userIds ← WaitingTokenQueueRepository.findOldest QUEUE_THROUGHPUT
  if userIds.length = 0 then pure () else do
    Interleaving.Script.forEach userIds fun userId => do
      let token ← TokenQueue.generateToken (parseInt userId)
      match token with
      | none => pure ()
      | some token => ActiveTokenQueueRepository.add userId token
    let _ ← WaitingTokenQueueRepository.remove userIds
    pure ()

def expire (id : Int) : TokenScript Unit := do
  let _ ← ActiveTokenQueueRepository.remove (toString id)
  pure ()

end TokenQueueService

def EnqueueTokenQueueUseCase.execute (userId : Int) : TokenScript TokenQueue := do
  let activeTokenQueue ← TokenQueueService.getActiveToken userId
  match activeTokenQueue with
  | some activeTokenQueue => pure activeTokenQueue
  | none => TokenQueueService.addWaitingToken userId

def ScanTokenQueueUseCase.execute (userId : Int) : TokenScript TokenQueue := do
  let activeTokenQueue ← TokenQueueService.getActiveToken userId
  match activeTokenQueue with
  | some activeTokenQueue => pure activeTokenQueue
  | none => TokenQueueService.getWaitingToken userId

def ActivateTokenQueuesUseCase.execute : TokenScript Unit := TokenQueueService.activateQueues

/-- The text that a request presents: one that was signed here, or anything else. -/
inductive PresentedToken where
  | signed (token : Jwt)
  | other (text : String)
  deriving DecidableEq, Repr

def PresentedToken.isEmpty : PresentedToken → Bool
  | .signed _ => false
  | .other text => text == ""

/-- The two parts of an authorization header that are looked at. -/
structure Authorization where
  type : String
  token : Option PresentedToken
  deriving DecidableEq, Repr

structure Request where
  authorization : Option Authorization
  deriving DecidableEq, Repr

def extractTokenFromHeader (request : Request) : Option PresentedToken :=
  match request.authorization with
  | some authorization => if authorization.type = "Bearer" then authorization.token else none
  | none => none

/-- Signed tokens are accepted until they expire. -/
def verifyAsync (token : PresentedToken) : TokenScript Jwt :=
  match token with
  | .other _ => .fail .jsonWebToken
  | .signed token => .ask .now fun now =>
    if token.expired now then .fail .jsonWebToken else .done token

/-- The part of the guard inside its try block. -/
def TokenQueueAuthGuard.check (token : PresentedToken) : TokenScript Unit := do
  let payload ← verifyAsync token
  match payload.userId with
  | none => .fail .typeError
  | some userId =>
    let tokenQueue ← TokenQueueService.getActiveToken userId
    match tokenQueue with
    | none => .fail (.custom .tokenExpired)
    | some _ => pure ()

def TokenQueueAuthGuard.canActivate (request : Request) : TokenScript Bool :=
  match extractTokenFromHeader request with
  | none => .fail (.custom .tokenNotProvided)
  | some token =>
    if token.isEmpty then .fail (.custom .tokenNotProvided) else do
      (TokenQueueAuthGuard.check token).tryCatch fun _ => .fail (.custom .invalidToken)
      pure true

inductive TokenCall where
  | enqueue (userId : Int)
  | scan (userId : Int)
  | activate
  | expire (id : Int)
  | guard (request : Request)
  deriving DecidableEq, Repr

inductive TokenResult where
  | queue (queue : TokenQueue)
  | allowed (allowed : Bool)
  | none
  deriving DecidableEq, Repr

def TokenCall.handle : TokenCall → TokenScript TokenResult
  | .enqueue userId => do
    let queue ← EnqueueTokenQueueUseCase.execute userId
    pure (.queue queue)
  | .scan userId => do
    let queue ← ScanTokenQueueUseCase.execute userId
    pure (.queue queue)
  | .activate => do
    ActivateTokenQueuesUseCase.execute
    pure .none
  | .expire id => do
    TokenQueueService.expire id
    pure .none
  | .guard request => do
    let allowed ← TokenQueueAuthGuard.canActivate request
    pure (.allowed allowed)

end HighVolumeBooking
