import HighVolumeBooking.Guarantees.Delivered
import HighVolumeBooking.Guarantees.Encoding
import HighVolumeBooking.Guarantees.HandOver
import HighVolumeBooking.Guarantees.Outbox
import HighVolumeBooking.Machine.Coupled

namespace HighVolumeBooking

open ReadCommitted
open Interleaving (Pool)

/-! From the commit of a call to the data platform: the transactions, the
outbox and the broker on one side, the consumers of the platform on the other. -/

/-- The topic that the consumer is subscribed to. -/
def Delivery.subscription : Delivery → String
  | .booking _ => "booking.completed"
  | .payment _ => "payment.completed"

/-- The broker hands a consumer of its topic any message that was ever sent, as
often and as late as it likes. -/
def EventServer.offers (s : EventServer) : HandlerAct → Bool
  | .start _ d => decide (d.data ∈ s.sent) && d.data.topic == d.subscription
  | _ => true

abbrev Pipeline := EventServer × Consumers

def Pipeline.step (zone : TimeZone) : Pipeline → EventAct ⊕ HandlerAct → Option Pipeline :=
  Machine.coupled (EventServer.step zone) consume (fun _ _ => true) EventServer.offers

def Pipeline.init (start : Database) : Pipeline := (EventServer.init start, Consumers.init)

/-- The record that a call answers its client with. -/
def Response.record? : Response → Option CommittedRecord
  | .booked b => some (.booking b.booking)
  | .paid p => some (.payment p.payment)
  | .charged _ => none

/-- The record as the data platform gets it: what JSON.parse makes of its JSON
encoding, in which a date has become a text. -/
def CommittedRecord.handed : CommittedRecord → DataPlatformResult
  | .booking b => .booking b.toJson
  | .payment p => .payment p.toJson

/-- The event of a committed call tells of its record, on the topic for it. -/
structure LogEntry.Tells (e : LogEntry) (m : Message) (record : CommittedRecord) : Prop where
  answered : e.result.record? = some record
  publish : e.result.publish = [m]
  message : m.value.message = record.toJson.stringify
  topic : m.topic = if record.isPayment then "payment.completed" else "booking.completed"

section Sent

variable {zone : TimeZone} {start db : Database} {log : List LogEntry} {s s' : EventServer}

/-- Every outbox row was created by a committed call, for the record that the
call answered with. -/
theorem told_by_log (hempty : start.outboxes = []) (h : Serial (execute zone) start log db) :
    ∀ o ∈ db.outboxes, ∃ e ∈ log, ∃ record, LogEntry.Tells e o.toMessage record := by
  refine h.invariant (fun log db => ∀ o ∈ Database.outboxes db, ∃ e ∈ log, ∃ record,
    LogEntry.Tells e o.toMessage record) (by simp [hempty]) ?_
  intro log e m m' _ hm he o ho
  have hold (ho : o ∈ Database.outboxes m) :
      ∃ x ∈ log ++ [e], ∃ record, LogEntry.Tells x o.toMessage record := by
    obtain ⟨x, hx, htells⟩ := hm o ho
    exact ⟨x, List.mem_append_left _ hx, htells⟩
  obtain ⟨call, choices, result⟩ := e
  cases call with
  | book dto =>
    obtain ⟨r, _, _, rfl, rfl⟩ := exec_book.mp he
    rcases Table.mem_put.mp ho with rfl | ⟨ho, _⟩
    · exact ⟨_, List.mem_append_right _ (List.mem_singleton.mpr rfl), _, rfl, rfl, rfl, rfl⟩
    · exact hold ho
  | pay dto =>
    obtain ⟨r, _, _, rfl, rfl⟩ := exec_pay.mp he
    rcases Table.mem_put.mp ho with rfl | ⟨ho, _⟩
    · exact ⟨_, List.mem_append_right _ (List.mem_singleton.mpr rfl), _, rfl, rfl, rfl, rfl⟩
    · exact hold ho
  | charge dto =>
    obtain ⟨r, _, _, _, rfl⟩ := exec_charge.mp he
    exact hold ho

/-- What was sent once counts as sent for ever. -/
theorem EventServer.sent_step {a : EventAct} (hs : EventServer.step zone s a = some s') :
    s.sent ⊆ s'.sent := by
  cases a with
  | transact a =>
    obtain ⟨server, _, ⟨t, _, rfl⟩ | ⟨_, rfl⟩⟩ := step_transact hs
    · exact List.Subset.refl _
    · exact List.Subset.refl _
  | send i =>
    obtain ⟨m, _, rfl⟩ := Option.map_eq_some_iff.mp hs
    exact List.subset_append_left _ _
  | swallow i =>
    obtain ⟨m, _, rfl⟩ := Option.map_eq_some_iff.mp hs
    exact List.Subset.refl _
  | handleFailed now =>
    obtain rfl := Option.some.inj hs
    exact List.Subset.refl _
  | removeOld now =>
    obtain rfl := Option.some.inj hs
    exact List.Subset.refl _
  | deliver i =>
    obtain ⟨m, _, rfl⟩ := Option.map_eq_some_iff.mp hs
    exact List.Subset.refl _
  | lose i =>
    obtain ⟨m, _, rfl⟩ := Option.map_eq_some_iff.mp hs
    exact List.Subset.refl _

end Sent

/-- What a delivery is about, if it is one. -/
def HandlerAct.Offered (s : EventServer) : HandlerAct → Prop
  | .start _ d => d.data ∈ s.sent ∧ d.data.topic = d.subscription
  | _ => True

namespace Pipeline

variable {zone : TimeZone} {start : Database} {p : Pipeline} {acts : List (EventAct ⊕ HandlerAct)}

/-- Every handler was started with a message of its topic that was sent. -/
theorem offered (h : Machine.run (step zone) (init start) acts = some p) {i : Interleaving.CallId}
    {r : HandlerRun} (hr : p.2.calls i = some r) :
    r.label.data ∈ p.1.sent ∧ r.label.data.topic = r.label.subscription := by
  have hstart := Pool.started (Machine.run_coupled h).2 hr
  refine Machine.vouched HandlerAct.Offered ?_ ?_ h (.start i r.label) hstart
  · intro s a ha
    cases a with
    | start j d => simpa [EventServer.offers, HandlerAct.Offered] using ha
    | _ => trivial
  · intro s a t b hs hb
    cases b with
    | start j d => exact ⟨EventServer.sent_step hs hb.1, hb.2⟩
    | _ => trivial

end Pipeline

/-- The platform is called with the encoding of the record that the message
tells of. -/
theorem LogEntry.Tells.handed {e : LogEntry} {d : Delivery} {record : CommittedRecord}
    {result : DataPlatformResult} {j : Json} (h : LogEntry.Tells e d.data record)
    (htopic : d.data.topic = d.subscription) (hparse : Json.parse d.data.value.message = some j)
    (hresult : result = d.result j) : result = record.handed := by
  rw [h.message, Json.parse_stringify] at hparse
  obtain rfl := Option.some.inj hparse
  have hkind := h.topic.symm.trans htopic
  cases record with
  | booking b =>
    cases d with
    | booking m => exact hresult
    | payment m => simp [CommittedRecord.isPayment, Delivery.subscription] at hkind
  | payment p =>
    cases d with
    | booking m => simp [CommittedRecord.isPayment, Delivery.subscription] at hkind
    | payment m => exact hresult

theorem Response.publish_eq (r : Response) : r.publish = [] ∨ ∃ m, r.publish = [m] := by
  cases r with
  | booked b => exact Or.inr ⟨_, rfl⟩
  | paid p => exact Or.inr ⟨_, rfl⟩
  | charged b => exact Or.inl rfl

/-- The platform is called once at most for the event of a call. -/
theorem sends_of_event {s : Consumers} (h : Machine.Reachable consume Consumers.init s)
    (r : Response) : (s.log.countP fun x =>
      decide (x.label.data ∈ r.publish) && isSend x.answer) ≤ 1 := by
  rcases r.publish_eq with hr | ⟨m, hr⟩
  · have hnone : (s.log.countP fun x =>
        decide (x.label.data ∈ r.publish) && isSend x.answer) = 0 := by
      simp [hr]
    rw [hnone]
    exact Nat.zero_le 1
  · refine Nat.le_trans ?_ (sends_le h m.value.id)
    refine List.countP_mono_left fun x _ hx => ?_
    simp only [hr, List.mem_singleton, Bool.and_eq_true, decide_eq_true_eq] at hx
    obtain ⟨hm, hsend⟩ := hx
    simp [Delivery.outboxId, hm, hsend]

/-- The data platform hears of committed calls only. Every call of it, in any
run, hands over the JSON encoding of the record that some committed booking or
payment answered its client with, and no committed call is told of twice. -/
theorem hears_of_commits_once {zone : TimeZone} {start : Database} {p : Pipeline}
    (hstart : Unsold start) (hempty : start.outboxes = [])
    (h : Machine.Reachable (Pipeline.step zone) (Pipeline.init start) p) :
    (∀ x ∈ p.2.log, ∀ result u, x.answer = ⟨.send result, u⟩ → ∃ e ∈ p.1.server.log, ∃ record,
      e.result.record? = some record ∧ e.result.publish = [x.label.data] ∧
        result = record.handed) ∧
    ∀ e ∈ p.1.server.log, (p.2.log.countP fun x =>
      decide (x.label.data ∈ e.result.publish) && isSend x.answer) ≤ 1 := by
  obtain ⟨acts, hacts⟩ := h
  obtain ⟨hevents, hconsumers⟩ := Machine.run_coupled hacts
  have hreach : Machine.Reachable consume Consumers.init p.2 := ⟨_, hconsumers⟩
  constructor
  · intro x hx result u hanswer
    obtain ⟨i, r, hr, hlabel, hmem⟩ := Pool.logged_answered handle_waits hreach x hx
    have hleads := ((Pool.waiting handle_waits).reachable hreach i r hr).2
    rw [hanswer] at hmem
    obtain ⟨j, hresult, hparse⟩ := handed_over hleads hmem
    obtain ⟨hsent, htopic⟩ := Pipeline.offered hacts hr
    have hmailed := EventServer.Mailed.run (Announced.of_unsold hstart hempty) hempty hevents
    obtain ⟨o, ho, hom⟩ := hmailed.kept.subset.2 hsent
    have hserial := serializable (execute_guarded zone) (EventServer.server_run hevents)
    obtain ⟨e, he, record, htells⟩ := told_by_log hempty hserial o ho
    rw [hom] at htells
    refine ⟨e, he, record, htells.answered, ?_, htells.handed htopic hparse hresult⟩
    rw [htells.publish, hlabel]
  · intro e _
    exact sends_of_event hreach e.result

/-- The message of the booking that bookingAt 0 1 1 makes in the small hall. -/
def bookingMessage : Message :=
  ⟨"booking.completed", ⟨1, "booking.completed",
    (ConcertBooking.mk 1 1 1 1 1 100 false 300000 (some 0)).toJson.stringify, .init⟩⟩

/-- A booking and its payment commit while the message of the booking is under
way. It is delivered twice, before and after that of the payment. -/
def bothToldOf : List (EventAct ⊕ HandlerAct) :=
  (undisturbed 1 (.book ⟨1, 1, 1⟩) (bookingAt 0 1 1)).map (fun a => .inl (.transact a)) ++
  [.inl (.send 0), .inr (.start 0 (.booking bookingMessage)), .inr (.answer 0 (.issued 1))] ++
  (undisturbed 2 (.pay ⟨1, 1⟩) (paymentAt 170000 1 1 1 2)).map (fun a => .inl (.transact a)) ++
  [.inl (.send 0), .inr (.start 1 (.payment (paymentMessage 2))), .inr (.answer 0 .quiet),
    .inr (.start 2 (.booking bookingMessage)), .inr (.answer 1 (.issued 2)),
    .inr (.answer 2 (.issued 3)), .inr (.answer 1 .quiet)]

theorem hears_of_commits_once_bothToldOf :
    ∃ p, Machine.run (Pipeline.step .utc) (Pipeline.init smallHall) bothToldOf = some p ∧
      (p.2.log.countP fun x => isSend x.answer) = 2 ∧
      (∀ x ∈ p.2.log, ∀ result u, x.answer = ⟨.send result, u⟩ → ∃ e ∈ p.1.server.log,
        ∃ record, e.result.record? = some record ∧ e.result.publish = [x.label.data] ∧
          result = record.handed) ∧
      ∀ e ∈ p.1.server.log, (p.2.log.countP fun x =>
        decide (x.label.data ∈ e.result.publish) && isSend x.answer) ≤ 1 := by
  have h : (Machine.run (Pipeline.step .utc) (Pipeline.init smallHall) bothToldOf).map
      (fun p => p.2.log.countP fun x => isSend x.answer) = some 2 := by
    decide +kernel
  obtain ⟨p, hp, hsends⟩ := Option.map_eq_some_iff.mp h
  exact ⟨p, hp, hsends, hears_of_commits_once smallHall_unsold rfl ⟨_, hp⟩⟩

end HighVolumeBooking
