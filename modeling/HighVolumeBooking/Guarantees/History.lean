import HighVolumeBooking.Guarantees.Holder
import HighVolumeBooking.Guarantees.Points

namespace HighVolumeBooking

open ReadCommitted

/-! What a later state of the tables can be. -/

/-- A seat changes its hold, its flag and its version, and nothing more once it
is paid. -/
structure ConcertSeatEntity.Turns (old new : ConcertSeatEntity) : Prop where
  kept : new = { old with
    isPaid := new.isPaid
    reservedUntil := new.reservedUntil
    version := new.version }
  final : old.isPaid = true → new = old
  version : old.version ≤ new.version

theorem ConcertSeatEntity.Turns.refl (seat : ConcertSeatEntity) : seat.Turns seat :=
  ⟨rfl, fun _ => rfl, Nat.le_refl _⟩

theorem ConcertSeatEntity.Turns.trans (a b c : ConcertSeatEntity) (h : a.Turns b) (h' : b.Turns c) :
    a.Turns c := by
  refine ⟨?_, ?_, Nat.le_trans h.version h'.version⟩
  · rw [h'.kept, h.kept]
  · intro hpaid
    obtain rfl := h.final hpaid
    exact h'.final hpaid

/-- A booking is paid once, and then stays as it is. -/
structure ConcertBookingEntity.Turns (old new : ConcertBookingEntity) : Prop where
  kept : new = { old with
    isPaid := new.isPaid
    version := new.version }
  final : old.isPaid = true → new = old
  version : old.version ≤ new.version

theorem ConcertBookingEntity.Turns.refl (booking : ConcertBookingEntity) : booking.Turns booking :=
  ⟨rfl, fun _ => rfl, Nat.le_refl _⟩

theorem ConcertBookingEntity.Turns.trans (a b c : ConcertBookingEntity) (h : a.Turns b)
    (h' : b.Turns c) : a.Turns c := by
  refine ⟨?_, ?_, Nat.le_trans h.version h'.version⟩
  · rw [h'.kept, h.kept]
  · intro hpaid
    obtain rfl := h.final hpaid
    exact h'.final hpaid

/-- Nothing is deleted, the histories only grow, and no row changes what it
says of the past. -/
structure Evolves (db db' : Database) : Prop where
  schedules : db' Tab.concertSchedules = db Tab.concertSchedules
  seatIds : db'.seats.map ConcertSeatEntity.id = db.seats.map ConcertSeatEntity.id
  seats : Table.Carried ConcertSeatEntity.Turns (db Tab.concertSeats) (db' Tab.concertSeats)
  bookings : Table.Carried ConcertBookingEntity.Turns (db Tab.concertBookings)
    (db' Tab.concertBookings)
  points : db'.points.map (fun p => (p.id, p.userId)) = db.points.map fun p => (p.id, p.userId)
  payments : db.payments <+: db'.payments
  histories : db.histories <+: db'.histories
  outboxes : db.outboxes <+: db'.outboxes

namespace Evolves

variable {zone : TimeZone} {db db' db'' : Database}

theorem refl (db : Database) : Evolves db db where
  schedules := rfl
  seatIds := rfl
  seats := .refl ConcertSeatEntity.Turns.refl _
  bookings := .refl ConcertBookingEntity.Turns.refl _
  points := rfl
  payments := List.prefix_rfl
  histories := List.prefix_rfl
  outboxes := List.prefix_rfl

theorem trans (h : Evolves db db') (h' : Evolves db' db'') : Evolves db db'' where
  schedules := h'.schedules.trans h.schedules
  seatIds := h'.seatIds.trans h.seatIds
  seats := h.seats.trans ConcertSeatEntity.Turns.trans h'.seats
  bookings := h.bookings.trans ConcertBookingEntity.Turns.trans h'.bookings
  points := h'.points.trans h.points
  payments := h.payments.trans h'.payments
  histories := h.histories.trans h'.histories
  outboxes := h.outboxes.trans h'.outboxes

theorem book {dto : BookConcertSeatUseCaseDTO} {r : BookRun} (hr : r.On dto db) :
    Evolves db (Db.apply db (r.writes zone dto)) where
  schedules := rfl
  seatIds := Table.map_put ConcertSeatEntity.id hr.replaced_seat rfl
  seats := by
    refine Table.carried_put ConcertSeatEntity.Turns.refl hr.replaced_seat ⟨rfl, ?_, ?_⟩
    · simp [hr.unpaid]
    · exact Nat.le_succ _
  bookings := Table.carried_put_fresh ConcertBookingEntity.Turns.refl hr.freshBooking
  points := rfl
  payments := List.prefix_rfl
  histories := List.prefix_rfl
  outboxes := Table.prefix_put_fresh hr.freshOutbox

theorem pay {dto : PayConcertBookingUseCaseDTO} {r : PayRun} (hr : r.On dto db) :
    Evolves db (Db.apply db (r.writes dto)) where
  schedules := rfl
  seatIds := Table.map_put ConcertSeatEntity.id hr.replaced_seat rfl
  seats := by
    refine Table.carried_put ConcertSeatEntity.Turns.refl hr.replaced_seat ⟨rfl, ?_, ?_⟩
    · simp [hr.unsold]
    · exact Nat.le_succ _
  bookings := by
    refine Table.carried_put ConcertBookingEntity.Turns.refl hr.replaced_booking ⟨rfl, ?_, ?_⟩
    · simp [hr.unpaid]
    · exact Nat.le_succ _
  points := Table.map_put (fun p : PointEntity => (p.id, p.userId)) (r := r.chargedPoint) hr.point
    rfl
  payments := Table.prefix_put_fresh hr.freshPayment
  histories := Table.prefix_put_fresh hr.freshHistory
  outboxes := Table.prefix_put_fresh hr.freshOutbox

theorem charge {dto : ChargePointUseCaseDTO} {r : ChargeRun} (hr : r.On dto db) :
    Evolves db (Db.apply db (r.writes dto)) where
  schedules := rfl
  seatIds := rfl
  seats := .refl ConcertSeatEntity.Turns.refl _
  bookings := .refl ConcertBookingEntity.Turns.refl _
  points := Table.map_put (fun p : PointEntity => (p.id, p.userId)) (r := r.chargedPoint dto)
    hr.point rfl
  payments := List.prefix_rfl
  histories := Table.prefix_put_fresh hr.freshHistory
  outboxes := List.prefix_rfl

theorem exec {call : Call} {cs : List Choice} {res : Response}
    (h : ReadCommitted.exec (execute zone call) db cs = some (.ok res, db')) : Evolves db db' := by
  cases call with
  | book dto =>
    obtain ⟨r, hr, _, _, rfl⟩ := exec_book.mp h
    exact book hr
  | pay dto =>
    obtain ⟨r, hr, _, _, rfl⟩ := exec_pay.mp h
    exact pay hr
  | charge dto =>
    obtain ⟨r, hr, _, _, rfl⟩ := exec_charge.mp h
    exact charge hr

theorem step {a : Act Call} {start : Database} {m m' : Server}
    (h : Machine.Reachable (serve zone) (Sys.init start) m) (hs : serve zone m a = some m') :
    Evolves m.db m'.db := by
  rcases Sys.committed_or_commit hs with ⟨hdb, _⟩ | ⟨t, rfl⟩
  · rw [show m'.db = m.db from hdb]
    exact refl m.db
  · obtain ⟨past, hpast⟩ := h
    obtain ⟨_, tx, res, _, hexec, _⟩ := (Inv.run (execute_guarded zone) hpast).step_commit hs
    exact exec hexec

end Evolves

/-- Whatever bookings, payments and charges are interleaved, a later committed
state keeps the earlier one: nothing is deleted, histories, payments and events
are only added to, paid seats and paid bookings are final. -/
theorem history_is_kept {zone : TimeZone} {start : Database} {acts more : List (Act Call)}
    {s s' : Server} (h : Machine.run (serve zone) (Sys.init start) acts = some s)
    (hmore : Machine.run (serve zone) s more = some s') : Evolves s.db s'.db :=
  Machine.related_run (fun m m' : Server => Evolves m.db m'.db) (fun m => .refl m.db)
    (fun _ _ _ => .trans) (fun _ _ _ => .step) ⟨acts, h⟩ hmore

theorem history_is_kept_sale :
    ∃ s s' : Server, Machine.run (serve .utc) (Sys.init smallHall)
        (undisturbed 1 (.book ⟨1, 1, 1⟩) (bookingAt 0 1 1)) = some s ∧
      Machine.run (serve .utc) s
        (undisturbed 2 (.pay ⟨1, 1⟩) (paymentAt 200000 1 1 1 2)) = some s' ∧
      s.db.outboxes ≠ s'.db.outboxes ∧ Evolves s.db s'.db := by
  have h : ((Machine.run (serve .utc) (Sys.init smallHall)
      (undisturbed 1 (.book ⟨1, 1, 1⟩) (bookingAt 0 1 1))).bind fun s =>
        (Machine.run (serve .utc) s
          (undisturbed 2 (.pay ⟨1, 1⟩) (paymentAt 200000 1 1 1 2))).map fun s' =>
            decide (s.db.outboxes = s'.db.outboxes)) = some false := by
    decide +kernel
  obtain ⟨s, hs, hmore⟩ := Option.bind_eq_some_iff.mp h
  obtain ⟨s', hs', hgrown⟩ := Option.map_eq_some_iff.mp hmore
  exact ⟨s, s', hs, hs', of_decide_eq_false hgrown, history_is_kept hs hs'⟩

/-! The version columns. -/

/-- The version of a seat counts the committed calls that wrote to it. -/
theorem seat_versions {zone : TimeZone} {start db : Database} {log : List LogEntry}
    (h : Serial (execute zone) start log db) :
    ∀ seat ∈ db.seats, ∃ old ∈ start.seats, old.id = seat.id ∧
      seat.version = old.version + log.countP fun e => e.books seat.id || e.pays seat.id := by
  refine serial_induction (fun log db => ∀ seat ∈ Database.seats db, ∃ old ∈ start.seats,
    old.id = seat.id ∧ seat.version = old.version +
      log.countP fun e => LogEntry.books e seat.id || LogEntry.pays e seat.id)
    (fun seat hseat => ⟨seat, hseat, rfl, rfl⟩) ?_ h
  intro log e m m' _ hm he
  -- a call writes to one seat, the one that it books or pays
  have hput (old new : ConcertSeatEntity) (hold : (m Tab.concertSeats).find? new.id = some old)
      (hversion : new.version = old.version + 1)
      (htouch : ∀ id, (LogEntry.books e id || LogEntry.pays e id) = (new.id == id)) :
      ∀ seat ∈ ((m Tab.concertSeats).put new).rows, ∃ first ∈ start.seats, first.id = seat.id ∧
        seat.version = first.version +
          (log ++ [e]).countP fun e => LogEntry.books e seat.id || LogEntry.pays e seat.id := by
    intro seat hseat
    rw [List.countP_append, List.countP_singleton, htouch]
    rcases Table.mem_put.mp hseat with rfl | ⟨hseat, hne⟩
    · obtain ⟨hmem, hid⟩ := Table.find?_eq_some.mp hold
      obtain ⟨first, hfirst, hfid, hcount⟩ := hm old hmem
      have hsame : old.id = seat.id := hid
      refine ⟨first, hfirst, hfid.trans hsame, ?_⟩
      rw [hversion, hcount, hsame, beq_self_eq_true]
      rfl
    · obtain ⟨first, hfirst, hfid, hcount⟩ := hm seat hseat
      have hother : (new.id == seat.id) = false := beq_false_of_ne (Ne.symm hne)
      exact ⟨first, hfirst, hfid, by simpa [hother] using hcount⟩
  cases hcall : e.call with
  | book dto =>
    obtain ⟨r, hr, _, _, hbooks, hpays, _, rfl⟩ := he.book hcall
    refine hput r.seat r.heldSeat hr.replaced_seat rfl fun id => ?_
    have hid : r.heldSeat.id = dto.concertSeatId := (Table.find?_eq_some.mp hr.seat).2
    rw [hbooks, hpays, hid, Bool.or_false]
  | pay dto =>
    obtain ⟨r, hr, hbooks, hpays, _, rfl⟩ := he.pay hcall
    refine hput r.seat r.paidSeat hr.replaced_seat rfl fun id => ?_
    have hid : r.paidSeat.id = r.booking.concertSeatId := (Table.find?_eq_some.mp hr.seat).2
    rw [hbooks, hpays, hid, Bool.false_or]
  | charge dto =>
    obtain ⟨r, hbooks, hpays, _, rfl⟩ := he.charge hcall
    intro seat hseat
    obtain ⟨first, hfirst, hfid, hcount⟩ := hm seat hseat
    exact ⟨first, hfirst, hfid, by simpa [List.countP_append, hbooks, hpays] using hcount⟩

theorem booking_versions {zone : TimeZone} {start db : Database} {log : List LogEntry}
    (hstart : start.bookings = []) (h : Serial (execute zone) start log db) :
    ∀ booking ∈ db.bookings, booking.version = if booking.isPaid then 1 else 0 := by
  refine serial_induction (fun _ db => ∀ booking ∈ Database.bookings db,
    booking.version = if booking.isPaid then 1 else 0) (by simp [hstart]) ?_ h
  intro log e m m' _ hm he
  cases hcall : e.call with
  | book dto =>
    obtain ⟨r, _, _, _, _, _, _, rfl⟩ := he.book hcall
    intro booking hbooking
    rcases Table.mem_put.mp hbooking with rfl | ⟨hbooking, _⟩
    · rfl
    · exact hm booking hbooking
  | pay dto =>
    obtain ⟨r, hr, _, _, _, rfl⟩ := he.pay hcall
    intro booking hbooking
    rcases Table.mem_put.mp hbooking with rfl | ⟨hbooking, _⟩
    · have hversion := hm r.booking (Table.find?_eq_some.mp hr.booking).1
      simp only [hr.unpaid, Bool.false_eq_true, if_false] at hversion
      simp [PayRun.paidBooking, hversion]
    · exact hm booking hbooking
  | charge dto =>
    obtain ⟨r, _, _, _, rfl⟩ := he.charge hcall
    exact hm

/-- No update is lost. In every committed state of every interleaving the
version of a seat has grown by one for each booking and each payment of it that
committed, and that of a booking by its payment. -/
theorem no_lost_update {zone : TimeZone} {start : Database} {s : Server}
    (hstart : start.bookings = []) (h : Machine.Reachable (serve zone) (Sys.init start) s) :
    (∀ seat ∈ s.db.seats, ∃ old ∈ start.seats, old.id = seat.id ∧ seat.version =
      old.version + s.log.countP fun e => LogEntry.books e seat.id || LogEntry.pays e seat.id) ∧
    ∀ booking ∈ s.db.bookings, booking.version = if booking.isPaid then 1 else 0 := by
  obtain ⟨acts, hacts⟩ := h
  have hserial := serializable (execute_guarded zone) hacts
  exact ⟨seat_versions hserial, booking_versions hstart hserial⟩

theorem no_lost_update_sale :
    ∃ s : Server, Machine.run (serve .utc) (Sys.init smallHall) sale = some s ∧
      s.db.seats.map (·.version) = [2] ∧
      (∀ seat ∈ s.db.seats, ∃ old ∈ smallHall.seats, old.id = seat.id ∧ seat.version =
        old.version + s.log.countP fun e => LogEntry.books e seat.id || LogEntry.pays e seat.id) ∧
      ∀ booking ∈ s.db.bookings, booking.version = if booking.isPaid then 1 else 0 := by
  have h : (Machine.run (serve .utc) (Sys.init smallHall) sale).map
      (fun s => s.db.seats.map (·.version)) = some [2] := by
    decide +kernel
  obtain ⟨s, hs, hversions⟩ := Option.map_eq_some_iff.mp h
  exact ⟨s, hs, hversions, no_lost_update rfl ⟨_, hs⟩⟩

end HighVolumeBooking
