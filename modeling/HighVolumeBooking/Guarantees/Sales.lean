import HighVolumeBooking.Guarantees.Serializability

namespace HighVolumeBooking

open ReadCommitted

/-- Sales have not begun. -/
structure Unsold (db : Database) : Prop where
  seats : ∀ seat ∈ db.seats, seat.isPaid = false
  bookings : db.bookings = []
  payments : db.payments = []

theorem smallHall_unsold : Unsold smallHall := ⟨by decide, rfl, rfl⟩

def paidBookings (db : Database) (seatId : RowId) : Nat :=
  db.bookings.countP fun b => b.isPaid && b.concertSeatId == seatId

def paymentsOf (db : Database) (bookingId : RowId) : Nat :=
  db.payments.countP fun p => p.concertBookingId == bookingId

/-- The sale ledger: each flag counts the rows behind it, and every payment
refers to a booking. -/
structure Balanced (db : Database) : Prop where
  seats : ∀ seat ∈ db.seats, paidBookings db seat.id = if seat.isPaid then 1 else 0
  bookings : ∀ booking ∈ db.bookings, paymentsOf db booking.id = if booking.isPaid then 1 else 0
  refers : ∀ payment ∈ db.payments, ∃ booking ∈ db.bookings, booking.id = payment.concertBookingId

namespace Balanced

variable {zone : TimeZone} {db : Database}

theorem of_unsold (h : Unsold db) : Balanced db where
  seats := fun seat hs => by simp [paidBookings, h.bookings, h.seats seat hs]
  bookings := by simp [h.bookings]
  refers := by simp [h.payments]

theorem no_payments_of_fresh {id : RowId} (h : Balanced db)
    (hid : db.find Tab.concertBookings id = none) : paymentsOf db id = 0 := by
  apply List.countP_eq_zero.mpr
  intro payment hp
  obtain ⟨booking, hb, he⟩ := h.refers payment hp
  have hne := Table.find?_eq_none.mp hid booking hb
  simpa [← he] using hne

theorem book {dto : BookConcertSeatUseCaseDTO} {r : BookRun} (h : Balanced db) (hr : r.On dto db) :
    Balanced (Db.apply db (r.writes zone dto)) := by
  have hseat := Table.find?_eq_some.mp hr.seat
  have hcount : ∀ id, paidBookings (Db.apply db (r.writes zone dto)) id = paidBookings db id := by
    intro id
    have := Table.countP_put_fresh (t := db Tab.concertBookings)
      (fun b : ConcertBookingEntity => b.isPaid && b.concertSeatId == id)
      (r := r.booking zone dto) hr.freshBooking
    simpa [paidBookings, Database.bookings, BookRun.booking] using this
  constructor
  · intro seat hs
    rw [hcount]
    rcases Table.mem_put.mp hs with rfl | ⟨hs, _⟩
    · exact h.seats r.seat hseat.1
    · exact h.seats seat hs
  · intro booking hb
    rcases Table.mem_put.mp hb with rfl | ⟨hb, _⟩
    · exact h.no_payments_of_fresh hr.freshBooking
    · exact h.bookings booking hb
  · intro payment hp
    exact Table.exists_key_put (h.refers payment hp)

/-- A payment raises the counts behind the two flags it sets, from 0 to 1, and
no others. -/
theorem pay {dto : PayConcertBookingUseCaseDTO} {r : PayRun} (h : Balanced db)
    (hr : r.On dto db) : Balanced (Db.apply db (r.writes dto)) := by
  have hseat := Table.find?_eq_some.mp hr.seat
  have hbooking := Table.find?_eq_some.mp hr.booking
  have hpaid : ∀ id, paidBookings (Db.apply db (r.writes dto)) id =
      paidBookings db id + if r.booking.concertSeatId = id then 1 else 0 := by
    intro id
    have := Table.countP_put
      (fun b : ConcertBookingEntity => b.isPaid && b.concertSeatId == id) (r := r.paidBooking)
      hr.replaced_booking
    simpa [paidBookings, Database.bookings, PayRun.paidBooking, hr.unpaid] using this
  have hpayments : ∀ id, paymentsOf (Db.apply db (r.writes dto)) id =
      paymentsOf db id + if r.booking.id = id then 1 else 0 := by
    intro id
    have := Table.countP_put_fresh (t := db Tab.concertPaymentHistories)
      (fun p : ConcertPaymentEntity => p.concertBookingId == id)
      (r := r.payment dto) hr.freshPayment
    simpa [paymentsOf, Database.payments, PayRun.payment, ← hbooking.2] using this
  constructor
  · intro seat hs
    rw [hpaid]
    rcases Table.mem_put.mp hs with rfl | ⟨hs, hne⟩
    · have := h.seats r.seat hseat.1
      simp only [hr.unsold, Bool.false_eq_true, if_false] at this
      have hid : r.booking.concertSeatId = r.seat.id := hseat.2.symm
      simp [PayRun.paidSeat, this, hid]
    · have hid : r.booking.concertSeatId ≠ seat.id := by
        rw [← hseat.2]
        exact Ne.symm hne
      simp [h.seats seat hs, hid]
  · intro booking hb
    rw [hpayments]
    rcases Table.mem_put.mp hb with rfl | ⟨hb, hne⟩
    · have := h.bookings r.booking hbooking.1
      simp only [hr.unpaid, Bool.false_eq_true, if_false] at this
      simp [PayRun.paidBooking, this]
    · have hid : r.booking.id ≠ booking.id := Ne.symm hne
      simp [h.bookings booking hb, hid]
  · intro payment hp
    apply Table.exists_key_put (r := r.paidBooking)
    rcases Table.mem_put.mp hp with rfl | ⟨hp, _⟩
    · exact ⟨r.booking, hbooking.1, hbooking.2⟩
    · exact h.refers payment hp

theorem charge {dto : ChargePointUseCaseDTO} {r : ChargeRun} (h : Balanced db) :
    Balanced (Db.apply db (r.writes dto)) where
  seats := h.seats
  bookings := h.bookings
  refers := h.refers

theorem serial {start : Database} {log : List LogEntry} (h : Unsold start)
    (hs : Serial (execute zone) start log db) : Balanced db := by
  refine hs.invariant (fun _ db => Balanced db) (of_unsold h) ?_
  intro log e m m' _ hm he
  obtain ⟨call, choices, result⟩ := e
  cases call with
  | book dto =>
    obtain ⟨r, hr, _, _, rfl⟩ := exec_book.mp he
    exact hm.book hr
  | pay dto =>
    obtain ⟨r, hr, _, _, rfl⟩ := exec_pay.mp he
    exact hm.pay hr
  | charge dto =>
    obtain ⟨r, _, _, _, rfl⟩ := exec_charge.mp he
    exact hm.charge

end Balanced

/-- No double sale: in every committed state of every interleaving a seat has
at most one paid booking, the paid flags of seats and bookings tell the truth,
and each paid booking has exactly one payment row. -/
theorem no_double_sale {zone : TimeZone} {start : Database} {s : Server} (hstart : Unsold start)
    (h : Machine.Reachable (serve zone) (Sys.init start) s) :
    (∀ seat ∈ s.db.seats, paidBookings s.db seat.id ≤ 1 ∧
      (seat.isPaid = true ↔ paidBookings s.db seat.id = 1)) ∧
    ∀ booking ∈ s.db.bookings,
      (booking.isPaid = true ↔ paymentsOf s.db booking.id = 1) := by
  obtain ⟨acts, hacts⟩ := h
  have hb := Balanced.serial hstart (serializable (execute_guarded zone) hacts)
  constructor
  · intro seat hs
    rw [hb.seats seat hs]
    cases seat.isPaid <;> simp
  · intro booking hbooking
    rw [hb.bookings booking hbooking]
    cases booking.isPaid <;> simp

/-- A booking and its payment. -/
def sale : List (Act Call) :=
  undisturbed 1 (.book ⟨1, 1, 1⟩) (bookingAt 0 1 1) ++
  undisturbed 2 (.pay ⟨1, 1⟩) (paymentAt 200000 1 1 1 2)

/-- Two users ask for a seat at once, and one of them gets it. Then his payment is
sent twice, and the second one misses. -/
def paidTwice : List (Act Call) :=
  turnedAway ++ [.abort 2, .start 3 (.pay ⟨1, 1⟩), .start 4 (.pay ⟨1, 1⟩), .stmt 3 (.clock 9),
    .stmt 4 (.clock 9), .stmt 3 .quiet, .stmt 4 .quiet, .stmt 3 (.clock 10), .stmt 4 (.clock 10),
    .stmt 3 .quiet, .stmt 3 .quiet, .stmt 3 (.clock 11), .stmt 3 .quiet, .stmt 3 (.picked (some 1)),
    .stmt 3 .quiet, .stmt 3 (.clock 12), .stmt 3 (.issued 1), .stmt 3 (.issued 1),
    .stmt 3 (.issued 3), .commit 3, .stmt 4 .quiet]

theorem no_double_sale_paidTwice :
    ∃ s : Server, Machine.run (serve .utc) (Sys.init smallHall) paidTwice = some s ∧
      s.log.map (·.call) = [.book ⟨1, 1, 1⟩, .pay ⟨1, 1⟩] ∧
      ((s.running 4).bind fun tx => tx.frame.prog.error?) = some .optimisticLockConflict ∧
      (∀ seat ∈ s.db.seats, paidBookings s.db seat.id ≤ 1 ∧
        (seat.isPaid = true ↔ paidBookings s.db seat.id = 1)) ∧
      ∀ booking ∈ s.db.bookings,
        (booking.isPaid = true ↔ paymentsOf s.db booking.id = 1) := by
  have h : (Machine.run (serve .utc) (Sys.init smallHall) paidTwice).map (fun s =>
      (s.log.map (·.call), (s.running 4).bind fun tx => tx.frame.prog.error?)) =
      some ([.book ⟨1, 1, 1⟩, .pay ⟨1, 1⟩], some .optimisticLockConflict) := by
    decide +kernel
  obtain ⟨s, hs, h⟩ := Option.map_eq_some_iff.mp h
  obtain ⟨hlog, hfail⟩ := Prod.mk.inj h
  exact ⟨s, hs, hlog, hfail, no_double_sale smallHall_unsold ⟨_, hs⟩⟩

end HighVolumeBooking
