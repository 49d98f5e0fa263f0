import HighVolumeBooking.Guarantees.Sales

namespace HighVolumeBooking

open ReadCommitted

/-- Each booking repeats its seat, and each payment its booking. -/
structure RecordsAgree (db : Database) : Prop where
  bookings : ∀ booking ∈ db.bookings, ∃ seat ∈ db.seats, seat.id = booking.concertSeatId ∧
    booking.concertId = seat.concertId ∧ booking.concertScheduleId = seat.concertScheduleId ∧
    booking.price = seat.price
  payments : ∀ payment ∈ db.payments, ∃ booking ∈ db.bookings,
    booking.id = payment.concertBookingId ∧ payment.userId = booking.userId ∧
    payment.concertId = booking.concertId ∧
    payment.concertScheduleId = booking.concertScheduleId ∧
    payment.concertSeatId = booking.concertSeatId ∧ payment.price = booking.price

instance (db : Database) : Decidable (RecordsAgree db) :=
  decidable_of_iff (_ ∧ _) ⟨fun h => ⟨h.1, h.2⟩, fun h => ⟨h.bookings, h.payments⟩⟩

/-- The committed bookings asked for their seat under its own schedule. -/
def SeatsMatchSchedules (start : Database) (log : List LogEntry) : Prop :=
  ∀ e ∈ log, ∀ dto, e.call = .book dto → ∀ seat ∈ start.seats, seat.id = dto.concertSeatId →
    seat.concertScheduleId = dto.concertScheduleId

structure ConcertSeatEntity.Kept (old new : ConcertSeatEntity) : Prop where
  id : new.id = old.id
  concertId : new.concertId = old.concertId
  concertScheduleId : new.concertScheduleId = old.concertScheduleId
  price : new.price = old.price

/-- What every run guarantees, whatever the requests say: the schedule of a
booking is the requested one, all else is copied from the seat. -/
structure Recorded (start : Database) (log : List LogEntry) (db : Database) : Prop where
  seats : ∀ seat ∈ db.seats, ∃ old ∈ start.seats, old.Kept seat
  bookings : ∀ booking ∈ db.bookings, ∃ seat ∈ db.seats, seat.id = booking.concertSeatId ∧
    booking.concertId = seat.concertId ∧ booking.price = seat.price
  requested : ∀ booking ∈ db.bookings, ∃ e ∈ log, ∃ dto, e.call = .book dto ∧
    dto.concertSeatId = booking.concertSeatId ∧
    dto.concertScheduleId = booking.concertScheduleId
  stored : ∀ e ∈ log, ∀ dto, e.call = .book dto → ∃ booking ∈ db.bookings,
    booking.concertSeatId = dto.concertSeatId ∧
    booking.concertScheduleId = dto.concertScheduleId
  payments : ∀ payment ∈ db.payments, ∃ booking ∈ db.bookings,
    booking.id = payment.concertBookingId ∧ payment.userId = booking.userId ∧
    payment.concertId = booking.concertId ∧
    payment.concertScheduleId = booking.concertScheduleId ∧
    payment.concertSeatId = booking.concertSeatId ∧ payment.price = booking.price

namespace Recorded

variable {zone : TimeZone} {start db : Database} {log : List LogEntry}

theorem init (h : Unsold start) : Recorded start [] start where
  seats := fun seat hs => ⟨seat, hs, rfl, rfl, rfl, rfl⟩
  bookings := by simp [h.bookings]
  requested := by simp [h.bookings]
  stored := by simp
  payments := by simp [h.payments]

theorem book {dto : BookConcertSeatUseCaseDTO} {r : BookRun} {e : LogEntry}
    (h : Recorded start log db) (hr : r.On dto db) (he : e.call = .book dto) :
    Recorded start (log ++ [e]) (Db.apply db (r.writes zone dto)) := by
  have hseat := Table.find?_eq_some.mp hr.seat
  refine ⟨?_, ?_, ?_, ?_, ?_⟩
  · intro seat hs
    rcases Table.mem_put.mp hs with rfl | ⟨hs, _⟩
    · obtain ⟨old, hold, hk⟩ := h.seats r.seat hseat.1
      exact ⟨old, hold, hk.id, hk.concertId, hk.concertScheduleId, hk.price⟩
    · exact h.seats seat hs
  · intro booking hb
    rcases Table.mem_put.mp hb with rfl | ⟨hb, _⟩
    · exact ⟨r.heldSeat, Table.mem_put.mpr (Or.inl rfl), hseat.2, rfl, rfl⟩
    · apply Table.exists_put ?_ (h.bookings booking hb)
      intro old hold hp
      obtain rfl := Option.some.inj (hold.symm.trans hr.replaced_seat)
      exact hp
  · intro booking hb
    rcases Table.mem_put.mp hb with rfl | ⟨hb, _⟩
    · exact ⟨e, by simp, dto, he, rfl, rfl⟩
    · obtain ⟨e', he', hdto⟩ := h.requested booking hb
      exact ⟨e', List.mem_append_left _ he', hdto⟩
  · intro e' he' dto' hcall
    rcases mem_snoc.mp he' with he' | rfl
    · exact Table.exists_put_fresh hr.freshBooking (h.stored e' he' dto' hcall)
    · obtain rfl := Call.book.inj (he.symm.trans hcall)
      exact ⟨r.booking zone dto, Table.mem_put.mpr (Or.inl rfl), rfl, rfl⟩
  · intro payment hp
    exact Table.exists_put_fresh hr.freshBooking (h.payments payment hp)

theorem pay {dto : PayConcertBookingUseCaseDTO} {r : PayRun} {e : LogEntry}
    (h : Recorded start log db) (hr : r.On dto db) (he : e.call = .pay dto) :
    Recorded start (log ++ [e]) (Db.apply db (r.writes dto)) := by
  have hseat := Table.find?_eq_some.mp hr.seat
  have hbooking := Table.find?_eq_some.mp hr.booking
  refine ⟨?_, ?_, ?_, ?_, ?_⟩
  · intro seat hs
    rcases Table.mem_put.mp hs with rfl | ⟨hs, _⟩
    · obtain ⟨old, hold, hk⟩ := h.seats r.seat hseat.1
      exact ⟨old, hold, hk.id, hk.concertId, hk.concertScheduleId, hk.price⟩
    · exact h.seats seat hs
  · intro booking hb
    have hrow : ∃ seat ∈ db.seats, seat.id = booking.concertSeatId ∧
        booking.concertId = seat.concertId ∧ booking.price = seat.price := by
      rcases Table.mem_put.mp hb with rfl | ⟨hb, _⟩
      · exact h.bookings r.booking hbooking.1
      · exact h.bookings booking hb
    apply Table.exists_put ?_ hrow
    intro old hold hp
    obtain rfl := Option.some.inj (hold.symm.trans hr.replaced_seat)
    exact hp
  · intro booking hb
    have hlog : ∃ e ∈ log, ∃ dto, e.call = .book dto ∧
        dto.concertSeatId = booking.concertSeatId ∧
        dto.concertScheduleId = booking.concertScheduleId := by
      rcases Table.mem_put.mp hb with rfl | ⟨hb, _⟩
      · exact h.requested r.booking hbooking.1
      · exact h.requested booking hb
    obtain ⟨e', he', hdto⟩ := hlog
    exact ⟨e', List.mem_append_left _ he', hdto⟩
  · intro e' he' dto' hcall
    rcases mem_snoc.mp he' with he' | rfl
    · apply Table.exists_put ?_ (h.stored e' he' dto' hcall)
      intro old ho hp
      obtain rfl := Option.some.inj (ho.symm.trans hr.replaced_booking)
      exact hp
    · rw [he] at hcall
      contradiction
  · intro payment hp
    rcases Table.mem_put.mp hp with rfl | ⟨hp, _⟩
    · exact ⟨r.paidBooking, Table.mem_put.mpr (Or.inl rfl), hbooking.2, hr.user.symm, rfl, rfl,
        rfl, rfl⟩
    · apply Table.exists_put ?_ (h.payments payment hp)
      intro old ho hrow
      obtain rfl := Option.some.inj (ho.symm.trans hr.replaced_booking)
      exact hrow

theorem charge {dto : ChargePointUseCaseDTO} {r : ChargeRun} {e : LogEntry}
    (h : Recorded start log db) (he : e.call = .charge dto) :
    Recorded start (log ++ [e]) (Db.apply db (r.writes dto)) where
  seats := h.seats
  bookings := h.bookings
  requested := by
    intro booking hb
    obtain ⟨e', he', hdto⟩ := h.requested booking hb
    exact ⟨e', List.mem_append_left _ he', hdto⟩
  stored := by
    intro e' he' dto' hcall
    rcases mem_snoc.mp he' with he' | rfl
    · exact h.stored e' he' dto' hcall
    · rw [he] at hcall
      contradiction
  payments := h.payments

theorem serial (h : Unsold start) (hs : Serial (execute zone) start log db) :
    Recorded start log db := by
  refine hs.invariant (Recorded start) (init h) ?_
  intro log e m m' _ hm he
  obtain ⟨call, choices, result⟩ := e
  cases call with
  | book dto =>
    obtain ⟨r, hr, _, _, rfl⟩ := exec_book.mp he
    exact hm.book hr rfl
  | pay dto =>
    obtain ⟨r, hr, _, _, rfl⟩ := exec_pay.mp he
    exact hm.pay hr rfl
  | charge dto =>
    obtain ⟨r, _, _, _, rfl⟩ := exec_charge.mp he
    exact hm.charge rfl

/-- The requests decide whether the records agree. -/
theorem agree_iff (h : Recorded start log db) :
    RecordsAgree db ↔ SeatsMatchSchedules start log := by
  constructor
  · intro ha e he dto hcall old hold hid
    obtain ⟨booking, hb, hseatId, hscheduleId⟩ := h.stored e he dto hcall
    obtain ⟨seat, hs, hsid, _, hsched, _⟩ := ha.bookings booking hb
    obtain ⟨old', hold', hk⟩ := h.seats seat hs
    have hsame : old' = old := Table.eq_of_key hold' hold
      (hk.id.symm.trans (hsid.trans (hseatId.trans hid.symm)))
    rw [← hscheduleId, hsched, hk.concertScheduleId, hsame]
  · intro hm
    refine ⟨?_, h.payments⟩
    intro booking hb
    obtain ⟨seat, hs, hsid, hconcert, hprice⟩ := h.bookings booking hb
    obtain ⟨e, he, dto, hcall, hseatId, hscheduleId⟩ := h.requested booking hb
    obtain ⟨old, hold, hk⟩ := h.seats seat hs
    have hold' : old.id = dto.concertSeatId := hk.id.symm.trans (hsid.trans hseatId.symm)
    have hsched := hm e he dto hcall old hold hold'
    exact ⟨seat, hs, hsid, hconcert,
      hscheduleId.symm.trans (hsched.symm.trans hk.concertScheduleId.symm), hprice⟩

end Recorded

/-- Booking and payment records agree with the seat in every state of a run
exactly when all its committed bookings named the schedule of their seat. -/
theorem records_agree_iff {zone : TimeZone} {start : Database} {acts : List (Act Call)}
    {s : Server} (hstart : Unsold start)
    (h : Machine.run (serve zone) (Sys.init start) acts = some s) :
    (∀ done rest (m : Server), acts = done ++ rest →
      Machine.run (serve zone) (Sys.init start) done = some m → RecordsAgree m.db) ↔
      SeatsMatchSchedules start s.log := by
  have hserial := fun {as : List (Act Call)} {m : Server}
    (hm : Machine.run (serve zone) (Sys.init start) as = some m) =>
      Recorded.serial hstart (serializable (execute_guarded zone) hm)
  constructor
  · intro ha
    exact (hserial h).agree_iff.mp (ha acts [] s (by simp) h)
  · intro hmatch done rest m hacts hm
    refine (hserial hm).agree_iff.mpr ?_
    subst hacts
    obtain ⟨m', hm', hrest⟩ := Machine.run_append.mp h
    obtain rfl := Option.some.inj (hm'.symm.trans hm)
    intro e he
    exact hmatch e ((Sys.log_prefix hrest).subset he)

/-- Two schedules of one concert, the first of which was open until 10 only;
seat 1 belongs to it. -/
def twoSchedules : Database
  | .concertSchedules =>
    ⟨[⟨1, 1, 0, 10, 20000000, 30000000⟩, ⟨2, 1, 0, 10000000, 20000000, 30000000⟩], by decide⟩
  | .concertSeats => .single _ ⟨1, 1, 1, 100, 1, false, none, 0⟩
  | .concertBookings => .empty _
  | .concertPaymentHistories => .empty _
  | .points => .single _ ⟨1, 1, 1000⟩
  | .pointHistories => .empty _
  | .outbox => .empty _

theorem twoSchedules_unsold : Unsold twoSchedules := ⟨by decide, rfl, rfl⟩

theorem records_agree_iff_smallHall :
    ∃ s : Server, Machine.run (serve .utc) (Sys.init smallHall)
        (undisturbed 1 (.book ⟨1, 1, 1⟩) (bookingAt 5 1 1)) = some s ∧
      ((∀ done rest (m : Server),
        undisturbed 1 (.book ⟨1, 1, 1⟩) (bookingAt 5 1 1) = done ++ rest →
        Machine.run (serve .utc) (Sys.init smallHall) done = some m → RecordsAgree m.db) ↔
        SeatsMatchSchedules smallHall s.log) ∧ RecordsAgree s.db := by
  have h : (Machine.run (serve .utc) (Sys.init smallHall)
      (undisturbed 1 (.book ⟨1, 1, 1⟩) (bookingAt 5 1 1))).map
        (fun s => decide (RecordsAgree s.db)) = some true := by
    decide +kernel
  obtain ⟨s, hs, hagree⟩ := Option.map_eq_some_iff.mp h
  exact ⟨s, hs, records_agree_iff smallHall_unsold hs, of_decide_eq_true hagree⟩

/-- A booking of seat 1 under schedule 2 is stored under schedule 2. -/
theorem records_disagree :
    ∃ s : Server, Machine.run (serve .utc) (Sys.init twoSchedules)
        (undisturbed 1 (.book ⟨1, 2, 1⟩) (bookingAt 1000 1 1)) = some s ∧
      Unsold twoSchedules ∧ ¬ RecordsAgree s.db := by
  have h : (Machine.run (serve .utc) (Sys.init twoSchedules)
      (undisturbed 1 (.book ⟨1, 2, 1⟩) (bookingAt 1000 1 1))).map
        (fun s => decide (RecordsAgree s.db)) = some false := by
    decide +kernel
  obtain ⟨s, hs, hagree⟩ := Option.map_eq_some_iff.mp h
  exact ⟨s, hs, twoSchedules_unsold, of_decide_eq_false hagree⟩

end HighVolumeBooking
