import HighVolumeBooking.Application.UseCase

namespace HighVolumeBooking

open ReadCommitted

/-- The outbox table as it is seen outside of any transaction. -/
abbrev OutboxTable := Table OutboxEntity.id

namespace OutboxRepository

variable (table : OutboxTable)

/-- The outbox was loaded before, so this updates its row. -/
def saveLoaded (outbox : Outbox) : OutboxTable :=
  match table.find? outbox.id with
  | some entity => table.put (OutboxMapper.toEntity outbox entity.createdAt)
  | none => table

def findOneById (id : RowId) : Option Outbox := (table.find? id).map OutboxMapper.toDomain

def findInitCreatedBefore (date : Int) : List Outbox :=
  (table.rows.filter fun entity => entity.status = .init ∧ entity.createdAt < date).map
    OutboxMapper.toDomain

def removePublishedCreatedBefore (date : Int) : OutboxTable :=
  table.keep fun entity => ¬ (entity.status = .published ∧ entity.createdAt < date)

end OutboxRepository

namespace OutboxService

variable (table : OutboxTable)

def toPublished (id : RowId) : Except ErrorCode OutboxTable :=
  match OutboxRepository.findOneById table id with
  | none => .error .outboxNotFound
  | some outbox => .ok (OutboxRepository.saveLoaded table outbox.toPublished)

def findFailed (now : Int) : List Outbox :=
  OutboxRepository.findInitCreatedBefore table (now - 1000 * 60 * 3)

def removeOldPublishedOutboxes (now : Int) : OutboxTable :=
  OutboxRepository.removePublishedCreatedBefore table (now - 1000 * 60 * 60 * 24 * 10)

end OutboxService

/-- A message to the broker. Its value is sent as JSON and parsed again before
a consumer sees it. -/
structure Message where
  topic : String
  value : Outbox
  deriving DecidableEq, Repr

def OutboxEntity.toMessage (o : OutboxEntity) : Message := ⟨o.topic, OutboxMapper.toDomain o⟩

def BookingCompletedHandler.handle (event : BookingCompletedEvent) : Message :=
  ⟨event.outbox.topic, event.outbox⟩

def PaymentCompletedHandler.handle (event : PaymentCompletedEvent) : Message :=
  ⟨event.outbox.topic, event.outbox⟩

/-- What the event handlers send after the commit of a call. -/
def Response.publish : Response → List Message
  | .booked b => [BookingCompletedHandler.handle b.event]
  | .paid p => [PaymentCompletedHandler.handle p.event]
  | .charged _ => []

def HandleFailedOutboxesUseCase.execute (table : OutboxTable) (now : Int) : List Message :=
  (OutboxService.findFailed table now).map fun outbox => ⟨outbox.topic, outbox⟩

def RemoveOldPublishedOutboxesUseCase.execute (table : OutboxTable) (now : Int) : OutboxTable :=
  OutboxService.removeOldPublishedOutboxes table now

def OutboxBookingConsumer.handleOutboxStatus (table : OutboxTable) (data : Message) :
    Except ErrorCode OutboxTable :=
  OutboxService.toPublished table data.value.id

def OutboxPaymentConsumer.handleOutboxStatus (table : OutboxTable) (data : Message) :
    Except ErrorCode OutboxTable :=
  OutboxService.toPublished table data.value.id

/-- The outbox consumers, each subscribed to its topic. A consumer that throws
has changed nothing. -/
def handleOutboxStatus (table : OutboxTable) (data : Message) : OutboxTable :=
  let handled :=
    if data.topic = "booking.completed" then OutboxBookingConsumer.handleOutboxStatus table data
    else if data.topic = "payment.completed" then
      OutboxPaymentConsumer.handleOutboxStatus table data
    else .ok table
  match handled with
  | .ok table => table
  | .error _ => table

section Rows

variable {table : OutboxTable} {m : Message} {row : OutboxEntity} {now : Int}

theorem mem_toPublished {id : RowId} {table' : OutboxTable}
    (h : OutboxService.toPublished table id = .ok table') :
    row ∈ table'.rows ↔ (row ∈ table.rows ∧ row.id ≠ id) ∨
      ∃ old ∈ table.rows, old.id = id ∧ row = { old with status := .published } := by
  unfold OutboxService.toPublished OutboxRepository.findOneById at h
  cases hf : table.find? id with
  | none => simp [hf] at h
  | some old =>
    obtain ⟨hmem, hid⟩ := Table.find?_eq_some.mp hf
    simp only [hf, Option.map_some, Except.ok.injEq] at h
    have hput : table' = table.put { old with status := .published } := by
      rw [← h]
      have hload : table.find? (OutboxMapper.toDomain old).toPublished.id = some old :=
        Table.find?_of_mem hmem
      simp only [OutboxRepository.saveLoaded, hload]
      rfl
    rw [hput, Table.mem_put]
    constructor
    · intro hp
      rcases hp with rfl | ⟨hrow, hne⟩
      · exact Or.inr ⟨old, hmem, hid, rfl⟩
      · exact Or.inl ⟨hrow, fun he => hne (he.trans hid.symm)⟩
    · intro hq
      rcases hq with ⟨hrow, hne⟩ | ⟨x, hx, hxid, rfl⟩
      · exact Or.inr ⟨hrow, fun he => hne (he.trans hid)⟩
      · have hxold : x = old := Option.some.inj ((Table.find?_of_mem hx).symm.trans (hxid ▸ hf))
        exact Or.inl (hxold ▸ rfl)

theorem toPublished_error {id : RowId} {e : ErrorCode}
    (h : OutboxService.toPublished table id = .error e) : ∀ row ∈ table.rows, row.id ≠ id := by
  unfold OutboxService.toPublished OutboxRepository.findOneById at h
  cases hf : table.find? id with
  | none => exact Table.find?_eq_none.mp hf
  | some old => simp [hf] at h

/-- A delivery publishes the row that the message names, if it is there. -/
theorem mem_handleOutboxStatus
    (htopic : m.topic = "booking.completed" ∨ m.topic = "payment.completed") :
    row ∈ (handleOutboxStatus table m).rows ↔ (row ∈ table.rows ∧ row.id ≠ m.value.id) ∨
      ∃ old ∈ table.rows, old.id = m.value.id ∧ row = { old with status := .published } := by
  have hhandled : handleOutboxStatus table m =
      match OutboxService.toPublished table m.value.id with
      | .ok table' => table'
      | .error _ => table := by
    rcases htopic with h | h
    · simp only [handleOutboxStatus, h, if_true]
      rfl
    · simp only [handleOutboxStatus, h, String.reduceEq, if_false, if_true]
      rfl
  rw [hhandled]
  cases hp : OutboxService.toPublished table m.value.id with
  | ok table' => exact mem_toPublished hp
  | error e =>
    have hne := toPublished_error hp
    constructor
    · intro hrow
      exact Or.inl ⟨hrow, hne row hrow⟩
    · intro hx
      rcases hx with ⟨hrow, _⟩ | ⟨old, hold, hid, _⟩
      · exact hrow
      · exact absurd hid (hne old hold)

theorem mem_removeOld : row ∈ (RemoveOldPublishedOutboxesUseCase.execute table now).rows ↔
    row ∈ table.rows ∧
      ¬ (row.status = .published ∧ row.createdAt < now - 1000 * 60 * 60 * 24 * 10) := by
  refine Table.mem_keep.trans ?_
  rw [decide_eq_true_iff]

theorem mem_findFailed {outbox : Outbox} : outbox ∈ OutboxService.findFailed table now ↔
    ∃ row ∈ table.rows, row.status = .init ∧ row.createdAt < now - 1000 * 60 * 3 ∧
      OutboxMapper.toDomain row = outbox := by
  simp [OutboxService.findFailed, OutboxRepository.findInitCreatedBefore, and_assoc]

end Rows

end HighVolumeBooking
