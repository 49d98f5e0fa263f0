import HighVolumeBooking.Application.Execution
import HighVolumeBooking.Application.Transport
import HighVolumeBooking.Guarantees.DataPlatform
import HighVolumeBooking.Guarantees.Records
import HighVolumeBooking.Interleaving.Waiting

namespace HighVolumeBooking

open ReadCommitted
open Interleaving (leads_call leads_done leads_fail)

/-- A record that a call commits. -/
inductive CommittedRecord where
  | booking (b : ConcertBooking)
  | payment (p : ConcertPayment)

namespace CommittedRecord

def toJs : CommittedRecord → JsValue
  | .booking b => b.toJs
  | .payment p => p.toJs

def isPayment : CommittedRecord → Bool
  | .booking _ => false
  | .payment _ => true

/-- A payment has numbers and strings only, a booking has a date. -/
theorem plain_toJs (record : CommittedRecord) : record.toJs.plain = record.isPayment := by
  cases record with
  | booking b =>
    simp [toJs, isPayment, ConcertBooking.toJs, JsValue.plain, JsValue.plainMembers]
  | payment p => rfl

def toJson : CommittedRecord → Json
  | .booking b => b.toJson
  | .payment p => p.toJson

theorem toJson_toJs (record : CommittedRecord) : record.toJs.toJson = some record.toJson := by
  cases record with
  | booking b => exact b.toJson_toJs
  | payment p => exact p.toJson_toJs

end CommittedRecord

/-- The rows that the call has added. -/
inductive CommittedBy (db db' : Database) : CommittedRecord → Prop where
  | booking (row : ConcertBookingEntity) (hnew : db.booking? row.id = none)
      (h : db'.booking? row.id = some row) :
      CommittedBy db db' (.booking (ConcertBookingMapper.toDomain row))
  | payment (row : ConcertPaymentEntity) (hnew : db.find Tab.concertPaymentHistories row.id = none)
      (h : db'.find Tab.concertPaymentHistories row.id = some row) :
      CommittedBy db db' (.payment (ConcertPaymentMapper.toDomain row))

/-- The outbox row of the call brings the record to the data platform as it is. -/
def DeliveredIntact (db db' : Database) (res : Response) (record : CommittedRecord) : Prop :=
  ∃ row, db.find Tab.outbox row.id = none ∧ db'.find Tab.outbox row.id = some row ∧
    res.publish = [row.toMessage] ∧ row.toMessage.delivered = some record.toJs

section Calls

variable {zone : TimeZone} {call : Call} {db db' : Database} {cs : List Choice} {res : Response}
  {record : CommittedRecord}

/-- The outbox row of a call says what record the call committed. -/
theorem outbox_of_committed (h : exec (execute zone call) db cs = some (.ok res, db'))
    (hrecord : CommittedBy db db' record) :
    ∃ row, db.find Tab.outbox row.id = none ∧ db'.find Tab.outbox row.id = some row ∧
      res.publish = [row.toMessage] ∧
      (row.topic = "booking.completed" ∨ row.topic = "payment.completed") ∧
      row.message = record.toJson.stringify := by
  cases call with
  | book dto =>
    obtain ⟨r, hr, _, rfl, rfl⟩ := exec_book.mp h
    refine ⟨r.outbox zone dto, hr.freshOutbox, Table.find?_put_self .., rfl, Or.inl rfl, ?_⟩
    cases hrecord with
    | booking row hnew hrow =>
      obtain rfl := Table.eq_of_find?_put hnew hrow
      rfl
    | payment row hnew hrow =>
      cases hnew.symm.trans hrow
  | pay dto =>
    obtain ⟨r, hr, _, rfl, rfl⟩ := exec_pay.mp h
    refine ⟨r.outbox dto, hr.freshOutbox, Table.find?_put_self .., rfl, Or.inr rfl, ?_⟩
    cases hrecord with
    | booking row hnew hrow =>
      obtain rfl := Table.eq_of_find?_put hnew hrow
      cases hnew.symm.trans hr.replaced_booking
    | payment row hnew hrow =>
      obtain rfl := Table.eq_of_find?_put hnew hrow
      rfl
  | charge dto =>
    obtain ⟨r, _, _, rfl, rfl⟩ := exec_charge.mp h
    cases hrecord with
    | booking row hnew hrow =>
      cases hnew.symm.trans hrow
    | payment row hnew hrow =>
      cases hnew.symm.trans hrow

/-- JSON has no dates: what is delivered is the record where the record has none. -/
theorem delivered_intact_iff_plain (h : exec (execute zone call) db cs = some (.ok res, db'))
    (hrecord : CommittedBy db db' record) :
    DeliveredIntact db db' res record ↔ record.toJs.plain = true := by
  obtain ⟨row, hnew, hrow, hpublish, htopic, hmessage⟩ := outbox_of_committed h hrecord
  have hdelivered : row.toMessage.delivered = record.toJs.toJson.map JsValue.ofJson := by
    rw [Message.delivered_eq htopic]
    change JsValue.parse row.message = _
    rw [hmessage, JsValue.parse, Json.parse_stringify, record.toJson_toJs]
  rw [← JsValue.ofJson_toJson_iff, ← hdelivered]
  constructor
  · intro hd
    obtain ⟨row', _, _, hpublish', hd⟩ := hd
    rw [List.singleton_inj.mp (hpublish.symm.trans hpublish')]
    exact hd
  · intro hd
    exact ⟨row, hnew, hrow, hpublish, hd⟩

theorem delivered_intact_iff (h : exec (execute zone call) db cs = some (.ok res, db'))
    (hrecord : CommittedBy db db' record) :
    DeliveredIntact db db' res record ↔ record.isPayment = true := by
  rw [delivered_intact_iff_plain h hrecord, record.plain_toJs]

end Calls

/-- A payment of the booking made at 0. -/
theorem delivered_intact_payment : ∃ db db' res record,
    exec (execute .utc (.pay ⟨1, 1⟩)) db (paymentAt 200000 1 1 1 2) = some (.ok res, db') ∧
    CommittedBy db db' record ∧
    (DeliveredIntact db db' res record ↔ record.isPayment = true) ∧ record.isPayment = true := by
  have hrun : ((exec (execute .utc (.book ⟨1, 1, 1⟩)) smallHall (bookingAt 0 1 1)).bind fun r =>
      (exec (execute .utc (.pay ⟨1, 1⟩)) r.2 (paymentAt 200000 1 1 1 2)).map fun r => r.1.isOk) =
      some true := by
    decide +kernel
  obtain ⟨⟨_, db⟩, _, hpay⟩ := Option.bind_eq_some_iff.mp hrun
  obtain ⟨⟨res, db'⟩, hexec, hok⟩ := Option.map_eq_some_iff.mp hpay
  cases res with
  | error e => simp [Except.isOk, Except.toBool] at hok
  | ok res =>
    obtain ⟨r, hr, _, _, hdb'⟩ := exec_pay.mp hexec
    have hrecord : CommittedBy db db'
        (.payment (ConcertPaymentMapper.toDomain (r.payment ⟨1, 1⟩))) := by
      rw [hdb']
      exact .payment _ hr.freshPayment (Table.find?_put_self ..)
    exact ⟨db, db', res, _, hexec, hrecord, delivered_intact_iff hexec hrecord, rfl⟩

/-- The deadline of a booking arrives as a string. -/
theorem booking_not_intact : ∃ db' res record,
    exec (execute .utc (.book ⟨1, 1, 1⟩)) smallHall (bookingAt 0 1 1) = some (.ok res, db') ∧
    CommittedBy smallHall db' record ∧ ¬ DeliveredIntact smallHall db' res record := by
  have hrun : (exec (execute .utc (.book ⟨1, 1, 1⟩)) smallHall (bookingAt 0 1 1)).map
      (fun r => r.1.isOk) = some true := by
    decide +kernel
  obtain ⟨⟨res, db'⟩, hexec, hok⟩ := Option.map_eq_some_iff.mp hrun
  cases res with
  | error e => simp [Except.isOk, Except.toBool] at hok
  | ok res =>
    obtain ⟨r, hr, _, _, hdb'⟩ := exec_book.mp hexec
    have hrecord : CommittedBy smallHall db'
        (.booking (ConcertBookingMapper.toDomain (r.booking .utc ⟨1, 1, 1⟩))) := by
      rw [hdb']
      exact .booking _ hr.freshBooking (Table.find?_put_self ..)
    refine ⟨db', res, _, hexec, hrecord, ?_⟩
    rw [delivered_intact_iff_plain hexec hrecord, CommittedRecord.plain_toJs]
    simp [CommittedRecord.isPayment]

/-- Of a booking everything but the date comes through. -/
theorem booking_delivered (booking : ConcertBooking) (version : Nat)
    (hversion : booking.version = some version) :
    booking.toJs.toJson.map JsValue.ofJson = some (.obj [("id", .num booking.id),
      ("userId", .num booking.userId), ("concertId", .num booking.concertId),
      ("concertScheduleId", .num booking.concertScheduleId),
      ("concertSeatId", .num booking.concertSeatId), ("price", .num booking.price),
      ("isPaid", .bool booking.isPaid), ("expiresAt", .str (toISOString booking.expiresAt)),
      ("version", .num version)]) := by
  rw [booking.toJson_toJs, ConcertBooking.toJson, hversion]
  rfl

/-- Settling a message hands nothing over. -/
theorem settle_leads {row : ProcessedEntity} {as : List (Interleaving.Answer dataPlatform)}
    {q : Handler Unit} {result : DataPlatformResult} {u : Unit}
    (h : (Delivery.settle row).Leads as q) : ⟨.send result, u⟩ ∉ as := by
  intro hsend
  by_cases hid : row.id = 0
  · simp only [Delivery.settle, ProcessedService.toSuccess, ProcessedRepository.save,
      Processed.toSuccess, ProcessedMapper.toDomain, ProcessedMapper.toEntity, hid, if_true,
      Interleaving.Script.bind_eq, Interleaving.Script.call_bind, leads_call] at h
    rcases h with ⟨rfl, _⟩ | ⟨saved, rest, rfl, h⟩
    · contradiction
    · cases saved with
      | none =>
        obtain ⟨rfl, _⟩ := leads_fail.mp h
        simp at hsend
      | some row =>
        obtain ⟨rfl, _⟩ := leads_done.mp h
        simp at hsend
  · rw [Delivery.settle_eq hid, leads_call] at h
    rcases h with ⟨rfl, _⟩ | ⟨_, rest, rfl, h⟩
    · contradiction
    · obtain ⟨rfl, _⟩ := leads_done.mp h
      simp at hsend

/-- The consumers hand over what was delivered to them, and nothing else. -/
theorem handed_over {d : Delivery} {as : List (Interleaving.Answer dataPlatform)} {q : Handler Unit}
    {result : DataPlatformResult} {u : Unit} (h : d.handle.Leads as q)
    (hsend : ⟨.send result, u⟩ ∈ as) :
    ∃ j, result = d.result j ∧ Json.parse d.data.value.message = some j := by
  rw [Delivery.handle_eq] at h
  cases hj : Json.parse d.data.value.message with
  | none =>
    rw [hj] at h
    obtain ⟨rfl, _⟩ := leads_fail.mp h
    contradiction
  | some j =>
    refine ⟨j, ?_, rfl⟩
    simp only [hj, Delivery.record, leads_call] at h
    rcases h with ⟨rfl, _⟩ | ⟨saved, rest, rfl, h⟩
    · contradiction
    · cases saved with
      | none =>
        obtain ⟨rfl, _⟩ := leads_fail.mp h
        simp at hsend
      | some row =>
        simp only [Delivery.hand, leads_call] at h
        rcases h with ⟨rfl, _⟩ | ⟨_, rest, rfl, h⟩
        · simp at hsend
        · simp only [Delivery.await, leads_call] at h
          rcases h with ⟨rfl, _⟩ | ⟨outcome, rest, rfl, h⟩
          · simpa using hsend
          · simp only [List.mem_cons, settle_leads h, or_false] at hsend
            simpa using hsend

end HighVolumeBooking
