import HighVolumeBooking.Common.JsonParse
import HighVolumeBooking.Domain.Listing
import HighVolumeBooking.Infrastructure.Schema
import HighVolumeBooking.Interleaving.Pool

namespace HighVolumeBooking

open ReadCommitted (Table)
open Interleaving (Service)

structure ConcertEntity where
  id : RowId
  title : String
  description : Option String
  deriving DecidableEq, Repr

/-- A schedule entity with its relation property. -/
structure ListedScheduleEntity extends ConcertScheduleEntity where
  concert : Relation ConcertEntity
  deriving DecidableEq, Repr

namespace ConcertMapper

def toDomain (entity : ConcertEntity) : Concert := ⟨entity.id, entity.title, entity.description⟩

def toEntity (domain : Concert) : ConcertEntity := ⟨domain.id, domain.title, domain.description⟩

end ConcertMapper

namespace ListedScheduleMapper

def toDomain (entity : ListedScheduleEntity) : ListedSchedule :=
  ⟨⟨entity.id, entity.concertId, entity.bookingStartAt, entity.bookingEndAt, entity.startAt,
    entity.endAt⟩, entity.concert.map ConcertMapper.toDomain⟩

def toEntity (domain : ListedSchedule) : ListedScheduleEntity :=
  ⟨⟨domain.id, domain.concertId, domain.bookingStartAt, domain.bookingEndAt, domain.startAt,
    domain.endAt⟩, domain.concert.map ConcertMapper.toEntity⟩

end ListedScheduleMapper

/-- The two tables, the cache and the clock. A cache entry has no TTL and stays
until it is deleted. -/
structure ListingStore where
  concerts : Table ConcertEntity.id
  schedules : Table ConcertScheduleEntity.id
  cache : String → Option String
  now : Int

namespace ListingStore

def setNow (st : ListingStore) (t : Int) : ListingStore := { st with now := t }

def exists? (st : ListingStore) (id : RowId) : Bool := (st.concerts.find? id).isSome

/-- The row joined with its concert: null where there is none. -/
def join (st : ListingStore) (row : ConcertScheduleEntity) : ListedScheduleEntity :=
  ⟨row, (st.concerts.find? row.concertId).elim .null .loaded⟩

end ListingStore

/-- The range filter of the query: LessThanOrEqual(date) and MoreThan(date). -/
def ConcertScheduleEntity.openAt (row : ConcertScheduleEntity) (date : Int) : Bool :=
  row.bookingStartAt ≤ date ∧ row.bookingEndAt > date

inductive ListingOp where
  | existsConcert (id : RowId)
  | findConcerts
  | insertConcert (entity : ConcertEntity)
  | updateConcert (entity : ConcertEntity)
  | insertSchedule (entity : ListedScheduleEntity)
  | updateSchedule (entity : ListedScheduleEntity)
  | findSchedules (concertId : RowId) (date : Int)
  | newDate
  | get (key : String)
  | set (key : String) (text : String)
  | del (key : String)
  deriving DecidableEq, Repr

inductive ListingEvent where
  | quiet
  | issued (id : RowId)
  | tick (t : Int)
  deriving DecidableEq, Repr

namespace ListingOp

@[reducible] def Reply : ListingOp → Type
  | .existsConcert _ => Bool
  | .findConcerts => List ConcertEntity
  | .insertConcert _ => ConcertEntity
  | .insertSchedule _ => ListedScheduleEntity
  | .findSchedules _ _ => List ListedScheduleEntity
  | .newDate => Int
  | .get _ => Option String
  | _ => Unit

/-- An INSERT takes the next key of the sequence, which starts at 1, and writes
the columns of the entity, not its relation. -/
def exec (st : ListingStore) : (o : ListingOp) → ListingEvent → Option (o.Reply × ListingStore)
  | .existsConcert id, .quiet => some (st.exists? id, st)
  | .findConcerts, .quiet => some (st.concerts.rows, st)
  | .insertConcert entity, .issued id =>
    if 0 < id ∧ st.concerts.find? id = none then
      some ({ entity with id := id },
        { st with concerts := st.concerts.put { entity with id := id } })
    else none
  | .updateConcert entity, .quiet => some ((), { st with concerts := st.concerts.put entity })
  | .insertSchedule entity, .issued id =>
    if 0 < id ∧ st.schedules.find? id = none then
      some ({ entity with id := id },
        { st with schedules := st.schedules.put { entity.toConcertScheduleEntity with id := id } })
    else none
  | .updateSchedule entity, .quiet =>
    some ((), { st with schedules := st.schedules.put entity.toConcertScheduleEntity })
  | .findSchedules concertId date, .quiet =>
    some ((st.schedules.rows.filter fun row =>
      row.concertId == concertId && row.openAt date).map st.join, st)
  | .newDate, .quiet => some (st.now, st)
  | .get key, .quiet => some (st.cache key, st)
  | .set key text, .quiet =>
    some ((), { st with cache := Function.update st.cache key (some text) })
  | .del key, .quiet => some ((), { st with cache := Function.update st.cache key none })
  | _, _ => none

end ListingOp

/-- The database, the cache and the clock behind the concert listings. -/
abbrev listingService : Service where
  State := ListingStore
  Op := ListingOp
  Reply := ListingOp.Reply
  Event := ListingEvent
  exec := ListingOp.exec
  env st
    | .tick t => if st.now ≤ t then some (st.setNow t) else none
    | _ => none

inductive ListingError where
  | custom (code : ErrorCode)
  | syntaxError
  deriving DecidableEq, Repr

abbrev Lister := Interleaving.Script listingService ListingError

/-! The cache store keeps JSON texts; what is not there is undefined. -/

namespace CacheManager

def get (key : String) : Lister (Option Json) :=
  .call (.get key) fun text =>
    match text with
    | none => .done none
    | some text =>
      match Json.parse text with
      | some v => .done (some v)
      | none => .fail .syntaxError

def set (key : String) (value : Json) : Lister Unit := .call (.set key value.stringify) .done

def del (key : String) : Lister Unit := .call (.del key) .done

end CacheManager

namespace ConcertRepository

/-- An entity with the id 0 is new. -/
def save (concert : Concert) : Lister Concert :=
  let entity := ConcertMapper.toEntity concert
  if entity.id = 0 then
    .call (.insertConcert entity) fun entity => .done (ConcertMapper.toDomain entity)
  else .call (.updateConcert entity) fun _ => .done (ConcertMapper.toDomain entity)

def findAll : Lister (List Concert) :=
  .call .findConcerts fun entities => .done (entities.map ConcertMapper.toDomain)

def existsById (id : RowId) : Lister Bool := .call (.existsConcert id) .done

end ConcertRepository

namespace ConcertScheduleRepository

def save (concertSchedule : ListedSchedule) : Lister ListedSchedule :=
  let entity := ListedScheduleMapper.toEntity concertSchedule
  if entity.id = 0 then
    .call (.insertSchedule entity) fun entity => .done (ListedScheduleMapper.toDomain entity)
  else .call (.updateSchedule entity) fun _ => .done (ListedScheduleMapper.toDomain entity)

def findAllBookableByConcertId (concertId : RowId) : Lister (List ListedSchedule) :=
  .ask .newDate fun currentDate =>
    .call (.findSchedules concertId currentDate) fun entities =>
      .done (entities.map ListedScheduleMapper.toDomain)

end ConcertScheduleRepository

namespace ConcertService

def create (dto : CreateConcertDTO) : Lister Concert := ConcertRepository.save (Concert.create dto)

def scanConcerts : Lister (List Concert) := ConcertRepository.findAll

def createSchedule (dto : CreateConcertScheduleDTO) : Lister ListedSchedule := do
  let concertExists ← ConcertRepository.existsById dto.concertId
  if concertExists then ConcertScheduleRepository.save (ListedSchedule.create dto)
  else .fail (.custom .concertNotFound)

def scanBookableSchedueles (concertId : RowId) : Lister (List ListedSchedule) := do
  let concertExists ← ConcertRepository.existsById concertId
  if concertExists then ConcertScheduleRepository.findAllBookableByConcertId concertId
  else .fail (.custom .concertNotFound)

end ConcertService

/-- What a listing returns: the loaded objects, or what the cache has kept of
them. -/
inductive Listed (α : Type) where
  | loaded (items : List α)
  | cached (value : Json)

/-- A list as the JSON values of its items. -/
def Listed.items {α : Type} (toJson : α → Json) : Listed α → Option (List Json)
  | .loaded items => some (items.map toJson)
  | .cached (.arr items) => some items
  | .cached _ => none

/-- Whether a condition takes the value for true. -/
def Json.truthy : Json → Bool
  | .null => false
  | .bool b => b
  | .num n => n != 0
  | .str s => s != ""
  | .arr _ => true
  | .obj _ => true

def CreateConcertUseCase.getEvictionCacheKey : String := "concerts"

def CreateConcertUseCase.execute (dto : CreateConcertDTO) : Lister Concert := do
  let concert ← ConcertService.create dto
  CacheManager.del getEvictionCacheKey
  pure concert

def ScanConcertsUseCase.getCacheKey : String := "concerts"

def ScanConcertsUseCase.execute : Lister (Listed Concert) := do
  let concerts ← CacheManager.get getCacheKey
  match concerts.filter Json.truthy with
  | some concerts => pure (.cached concerts)
  | none =>
    let concerts ← ConcertService.scanConcerts
    CacheManager.set getCacheKey (.arr (concerts.map Concert.toJson))
    pure (.loaded concerts)

def CreateConcertScheduleUseCase.getEvictionCacheKey (concertId : RowId) : String :=
  "concerts:" ++ toString concertId ++ ":bookable_schedules"

def CreateConcertScheduleUseCase.execute (dto : CreateConcertScheduleDTO) :
    Lister ListedSchedule := do
  let schedule ← ConcertService.createSchedule dto
  CacheManager.del (getEvictionCacheKey dto.concertId)
  pure schedule

def ScanBookableSchedulesUseCase.getCacheKey (concertId : RowId) : String :=
  "concerts:" ++ toString concertId ++ ":bookable_schedules"

def ScanBookableSchedulesUseCase.execute (concertId : RowId) : Lister (Listed ListedSchedule) := do
  let bookableSchedules ← CacheManager.get (getCacheKey concertId)
  match bookableSchedules.filter Json.truthy with
  | some bookableSchedules => pure (.cached bookableSchedules)
  | none =>
    let bookableSchedules ← ConcertService.scanBookableSchedueles concertId
    CacheManager.set (getCacheKey concertId) (.arr (bookableSchedules.map ListedSchedule.toJson))
    pure (.loaded bookableSchedules)

inductive ListingCall where
  | createConcert (dto : CreateConcertDTO)
  | scanConcerts
  | createConcertSchedule (dto : CreateConcertScheduleDTO)
  | scanBookableSchedules (concertId : RowId)
  deriving DecidableEq, Repr

inductive ListingResult where
  | concert (concert : Concert)
  | concerts (concerts : Listed Concert)
  | schedule (schedule : ListedSchedule)
  | schedules (schedules : Listed ListedSchedule)

def ListingCall.handle : ListingCall → Lister ListingResult
  | .createConcert dto => do
    let concert ← CreateConcertUseCase.execute dto
    pure (.concert concert)
  | .scanConcerts => do
    let concerts ← ScanConcertsUseCase.execute
    pure (.concerts concerts)
  | .createConcertSchedule dto => do
    let schedule ← CreateConcertScheduleUseCase.execute dto
    pure (.schedule schedule)
  | .scanBookableSchedules concertId => do
    let schedules ← ScanBookableSchedulesUseCase.execute concertId
    pure (.schedules schedules)

end HighVolumeBooking
