import HighVolumeBooking.Application.DataPlatform
import HighVolumeBooking.Common.JsValue

namespace HighVolumeBooking

/-! The objects as JavaScript values. -/

def ConcertBooking.toJs (booking : ConcertBooking) : JsValue :=
  .obj [("id", .num booking.id), ("userId", .num booking.userId),
    ("concertId", .num booking.concertId), ("concertScheduleId", .num booking.concertScheduleId),
    ("concertSeatId", .num booking.concertSeatId), ("price", .num booking.price),
    ("isPaid", .bool booking.isPaid), ("expiresAt", .date booking.expiresAt),
    ("version", booking.version.elim .undefined fun v => .num v)]

def ConcertPayment.toJs (payment : ConcertPayment) : JsValue :=
  .obj [("id", .num payment.id), ("userId", .num payment.userId),
    ("concertId", .num payment.concertId), ("concertScheduleId", .num payment.concertScheduleId),
    ("concertSeatId", .num payment.concertSeatId),
    ("concertBookingId", .num payment.concertBookingId), ("price", .num payment.price),
    ("type", .str payment.type.text)]

def OutboxStatus.text : OutboxStatus → String
  | .init => "INIT"
  | .published => "PUBLISHED"

def Outbox.toJs (outbox : Outbox) : JsValue :=
  .obj [("id", .num outbox.id), ("topic", .str outbox.topic), ("message", .str outbox.message),
    ("status", .str outbox.status.text)]

theorem ConcertBooking.toJson_toJs (booking : ConcertBooking) :
    booking.toJs.toJson = some booking.toJson := by
  cases hv : booking.version <;>
    simp [toJs, toJson, hv, JsValue.toJson, JsValue.toJsonMembers]

theorem ConcertPayment.toJson_toJs (payment : ConcertPayment) :
    payment.toJs.toJson = some payment.toJson := rfl

/-- What a client emits to the broker; the value is a text. -/
structure Emitted where
  topic : String
  value : Option String
  deriving DecidableEq, Repr

def emit (topic : String) (outbox : Outbox) : Emitted := ⟨topic, outbox.toJs.stringify⟩

def BookingKafkaMessageSender.sendMessage (topic : String) (outbox : Outbox) : Emitted :=
  emit topic outbox

def PaymentKafkaMessageSender.sendMessage (topic : String) (outbox : Outbox) : Emitted :=
  emit topic outbox

/-- What the handlers of the topic expect the transport to hand to them: the
message with its value in it. -/
def Emitted.received (m : Emitted) : Option JsValue :=
  (m.value.bind JsValue.parse).map fun value => .obj [("value", value)]

/-- What JSON.parse makes of the message of the outbox. -/
def parsedMessage (data : JsValue) : Option JsValue := do
  let value ← data.get "value"
  let message ← value.get "message"
  match message with
  | .str text => JsValue.parse text
  | _ => none

def DataPlatformBookingConsumer.booking (data : JsValue) : Option JsValue := parsedMessage data

def DataPlatformPaymentConsumer.payment (data : JsValue) : Option JsValue := parsedMessage data

namespace Message

/-- What the event handler of the topic sends. -/
def emitted (m : Message) : Option Emitted :=
  if m.topic = "booking.completed" then some (BookingKafkaMessageSender.sendMessage m.topic m.value)
  else if m.topic = "payment.completed" then
    some (PaymentKafkaMessageSender.sendMessage m.topic m.value)
  else none

/-- What the data platform consumer of the topic passes on. -/
def delivered (m : Message) : Option JsValue := do
  let data ← m.emitted.bind Emitted.received
  if m.topic = "booking.completed" then DataPlatformBookingConsumer.booking data
  else DataPlatformPaymentConsumer.payment data

/-- The outbox itself comes through as it was sent. -/
theorem received_emit (m : Message) :
    (emit m.topic m.value).received = some (.obj [("value", m.value.toJs)]) := by
  have hplain : m.value.toJs.plain = true := rfl
  have hjson := JsValue.ofJson_of_plain _ hplain
  obtain ⟨j, hj, _⟩ := Option.map_eq_some_iff.mp hjson
  have htext : m.value.toJs.stringify = some j.stringify := by rw [JsValue.stringify, hj]; rfl
  rw [Emitted.received, emit, htext, Option.bind_some, JsValue.parse_stringify htext, hjson]
  rfl

theorem parsedMessage_value (outbox : Outbox) :
    parsedMessage (.obj [("value", outbox.toJs)]) = JsValue.parse outbox.message := rfl

/-- What is passed on is what the message of the outbox says. -/
theorem delivered_eq {m : Message}
    (h : m.topic = "booking.completed" ∨ m.topic = "payment.completed") :
    m.delivered = JsValue.parse m.value.message := by
  have hemitted : m.emitted = some (emit m.topic m.value) := by
    rcases h with h | h <;> simp [emitted, h, BookingKafkaMessageSender.sendMessage,
      PaymentKafkaMessageSender.sendMessage]
  have hdata : m.emitted.bind Emitted.received = some (.obj [("value", m.value.toJs)]) := by
    rw [hemitted, Option.bind_some]
    exact m.received_emit
  have hparsed := parsedMessage_value m.value
  rw [delivered, hdata]
  rcases h with h | h
  · simpa [h, DataPlatformBookingConsumer.booking] using hparsed
  · simpa [h, DataPlatformPaymentConsumer.payment] using hparsed

end Message

end HighVolumeBooking
