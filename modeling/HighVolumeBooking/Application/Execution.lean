import HighVolumeBooking.Application.UseCase
import HighVolumeBooking.ReadCommitted.Execution

namespace HighVolumeBooking

open ReadCommitted

variable {γ : Type} {db : Database} {began : Option Int} {ws out : List (Cell schema)}
  {cs : List Choice} {b : γ}

/-! What the domain methods demand and change when they do not throw. -/

theorem ConcertSchedule.validateBookable_ends {schedule : ConcertSchedule}
    {f : Unit → Script γ} :
    Ends db (schedule.validateBookable.bind f) began ws cs b out ↔
      ∃ opened closed cs', cs = .clock opened :: .clock closed :: cs' ∧
        schedule.bookingStartAt ≤ opened ∧ closed ≤ schedule.bookingEndAt ∧
        Ends db (f ()) began ws cs' b out := by
  simp only [validateBookable, Prog.bind_eq, Prog.newDate_bind, Prog.now_bind, Prog.ite_bind,
    Prog.fail_bind, Prog.throwIf_bind, ends_now, ends_guard, Int.not_lt]
  constructor
  · intro h
    obtain ⟨opened, _, rfl, hopened, closed, cs', rfl, hclosed, he⟩ := h
    exact ⟨opened, closed, cs', rfl, hopened, hclosed, he⟩
  · intro h
    obtain ⟨opened, closed, cs', rfl, hopened, hclosed, he⟩ := h
    exact ⟨opened, _, rfl, hopened, closed, cs', rfl, hclosed, he⟩

/-- The seat is not reserved at the reading check; there is none when the seat
has no reservation to compare it with. -/
def FreeAt (reservedUntil check : Option Int) : Prop :=
  match reservedUntil, check with
  | none, none => True
  | some u, some t => u ≤ t
  | _, _ => False

theorem ConcertSeat.book_ends {seat : ConcertSeat} {f : ConcertSeat → Script γ} :
    Ends db (seat.book.bind f) began ws cs b out ↔
      ∃ check hold cs', cs = (check.map Choice.clock).toList ++ .clock hold :: cs' ∧
        FreeAt seat.reservedUntil check ∧ seat.isPaid = false ∧
        Ends db (f { seat with reservedUntil := some (hold + 5 * 60 * 1000) }) began ws cs' b
          out := by
  cases h : seat.reservedUntil with
  | none =>
    simp only [book, h, Prog.bind_eq, Prog.newDate_bind, Prog.now_bind, Prog.ite_bind,
      Prog.fail_bind, Prog.throwIf_bind, Prog.pure_eq, Prog.done_bind, ends_now, ends_guard]
    constructor
    · intro hx
      obtain ⟨_, hpaid, hold, cs', rfl, he⟩ := hx
      exact ⟨none, hold, cs', rfl, True.intro, by simpa using hpaid, he⟩
    · intro hp
      obtain ⟨check, hold, cs', rfl, hfree, hpaid, he⟩ := hp
      cases check with
      | none => exact ⟨by simp, by simp [hpaid], hold, cs', rfl, he⟩
      | some t => exact hfree.elim
  | some u =>
    simp only [book, h, Prog.bind_eq, Prog.newDate_bind, Prog.now_bind, Prog.ite_bind,
      Prog.fail_bind, Prog.throwIf_bind,
      Prog.pure_eq, Prog.done_bind, ends_now, ends_guard, decide_eq_true_eq, Int.not_lt]
    constructor
    · intro hq
      obtain ⟨t, _, rfl, hfree, hpaid, hold, cs', rfl, he⟩ := hq
      exact ⟨some t, hold, cs', rfl, hfree, by simpa using hpaid, he⟩
    · intro hex
      obtain ⟨check, hold, cs', rfl, hfree, hpaid, he⟩ := hex
      cases check with
      | none => exact hfree.elim
      | some t => exact ⟨t, _, rfl, hfree, by simp [hpaid], hold, cs', rfl, he⟩

theorem ConcertSeat.pay_ends {seat : ConcertSeat} {f : ConcertSeat → Script γ} :
    Ends db (seat.pay.bind f) began ws cs b out ↔
      ∃ u check cs', cs = .clock check :: cs' ∧ seat.isPaid = false ∧
        seat.reservedUntil = some u ∧ check ≤ u ∧
        Ends db (f { seat with isPaid := true }) began ws cs' b out := by
  cases h : seat.reservedUntil with
  | none =>
    simp only [pay, h, Prog.bind_eq, Prog.ite_bind, Prog.fail_bind, Prog.throwIf_bind, Prog.pure_eq,
      Prog.done_bind, ends_guard]
    simp
  | some u =>
    simp only [pay, h, Prog.bind_eq, Prog.newDate_bind, Prog.now_bind, Prog.ite_bind,
      Prog.fail_bind, Prog.throwIf_bind,
      Prog.pure_eq, Prog.done_bind, ends_now, ends_guard, decide_eq_true_eq, Int.not_lt]
    constructor
    · intro hx
      obtain ⟨hpaid, check, cs', rfl, hle, he⟩ := hx
      exact ⟨u, check, cs', rfl, by simpa using hpaid, rfl, hle, he⟩
    · intro hp
      obtain ⟨_, check, cs', rfl, hpaid, hu, hle, he⟩ := hp
      obtain rfl := Option.some.inj hu
      exact ⟨by simp [hpaid], check, cs', rfl, hle, he⟩

theorem ConcertBooking.pay_ends {booking : ConcertBooking} {userId : RowId}
    {f : ConcertBooking → Script γ} :
    Ends db ((booking.pay userId).bind f) began ws cs b out ↔
      ∃ check cs', cs = .clock check :: cs' ∧ booking.userId = userId ∧
        booking.isPaid = false ∧ check ≤ booking.expiresAt ∧
        Ends db (f { booking with isPaid := true }) began ws cs' b out := by
  simp only [pay, Prog.bind_eq, Prog.newDate_bind, Prog.now_bind, Prog.ite_bind,
    Prog.fail_bind, Prog.throwIf_bind,
    Prog.pure_eq, Prog.done_bind, ends_now, ends_guard, Int.not_lt, ne_eq, Decidable.not_not]
  constructor
  · intro h
    obtain ⟨huser, hpaid, check, cs', rfl, hle, he⟩ := h
    exact ⟨check, cs', rfl, huser, by simpa using hpaid, hle, he⟩
  · intro h
    obtain ⟨check, cs', rfl, huser, hpaid, hle, he⟩ := h
    exact ⟨huser, by simp [hpaid], check, cs', rfl, hle, he⟩

theorem Point.charge_ends {point : Point} {amount : Int} {f : Point → Script γ} :
    Ends db ((point.charge amount).bind f) began ws cs b out ↔
      0 < amount ∧
        Ends db (f { point with amount := point.amount + amount }) began ws cs b out := by
  simp [charge, ends_guard]

theorem Point.use_ends {point : Point} {amount : Int} {f : Point → Script γ} :
    Ends db ((point.use amount).bind f) began ws cs b out ↔
      0 < amount ∧ amount ≤ point.amount ∧
        Ends db (f { point with amount := point.amount - amount }) began ws cs b out := by
  simp [use, ends_guard]

/-! The same for the services, with the statements around the methods. -/

theorem ConcertService.validateScheduleIsBookable_ends {id : RowId} {f : Unit → Script γ} :
    Ends db ((validateScheduleIsBookable id).bind f) began ws cs b out ↔
      ∃ (schedule : ConcertScheduleEntity) (opened closed : Int) (cs' : List Choice),
        cs = .quiet :: .clock opened :: .clock closed :: cs' ∧
        (db.apply ws).find Tab.concertSchedules id = some schedule ∧
        schedule.bookingStartAt ≤ opened ∧ closed ≤ schedule.bookingEndAt ∧
        Ends db (f ()) began ws cs' b out := by
  rw [validateScheduleIsBookable_bind]
  constructor
  · intro h
    obtain ⟨schedule, _, rfl, hr, h⟩ := (ends_find (by exact True.intro)).mp h
    obtain ⟨opened, closed, cs', rfl, hopened, hclosed, h⟩ :=
      ConcertSchedule.validateBookable_ends.mp h
    exact ⟨schedule, opened, closed, cs', rfl, hr, hopened, hclosed, h⟩
  · intro hx
    obtain ⟨schedule, opened, closed, cs', rfl, hr, hopened, hclosed, h⟩ := hx
    refine (ends_find (by exact True.intro)).mpr ⟨schedule, _, rfl, hr, ?_⟩
    exact ConcertSchedule.validateBookable_ends.mpr
      ⟨opened, closed, cs', rfl, hopened, hclosed, h⟩

theorem ConcertService.bookSeat_ends {id : RowId} {f : ConcertSeat → Script γ} :
    Ends db ((bookSeat id).bind f) began ws cs b out ↔
      ∃ (seat : ConcertSeatEntity) (check : Option Int) (hold : Int) (cs' : List Choice),
        cs = .quiet :: ((check.map Choice.clock).toList ++ .clock hold :: .quiet :: cs') ∧
        (db.apply ws).find Tab.concertSeats id = some seat ∧
        FreeAt seat.reservedUntil check ∧ seat.isPaid = false ∧
        Ends db (f (ConcertSeatMapper.toDomain
            { seat with reservedUntil := some (hold + 5 * 60 * 1000) })) began
          (ws ++ [⟨Tab.concertSeats, { seat with
            reservedUntil := some (hold + 5 * 60 * 1000), version := seat.version + 1 }⟩])
          cs' b out := by
  rw [bookSeat_bind]
  constructor
  · intro h
    obtain ⟨seat, _, rfl, hr, h⟩ := (ends_find (by exact True.intro)).mp h
    obtain ⟨check, hold, _, rfl, hfree, hpaid, h⟩ := ConcertSeat.book_ends.mp h
    obtain ⟨_, cs', rfl, _, _, h⟩ := (ends_update (by exact True.intro)).mp h
    exact ⟨seat, check, hold, cs', rfl, hr, hfree, hpaid, h⟩
  · intro hx
    obtain ⟨seat, check, hold, cs', rfl, hr, hfree, hpaid, h⟩ := hx
    refine (ends_find (by exact True.intro)).mpr ⟨seat, _, rfl, hr, ?_⟩
    refine ConcertSeat.book_ends.mpr ⟨check, hold, _, rfl, hfree, hpaid, ?_⟩
    refine (ends_update (by exact True.intro)).mpr ⟨seat, cs', rfl, ?_, rfl, h⟩
    obtain rfl : seat.id = id := Table.key_of_find? hr
    exact hr

theorem ConcertService.paySeat_ends {id : RowId} {f : ConcertSeat → Script γ} :
    Ends db ((paySeat id).bind f) began ws cs b out ↔
      ∃ (seat : ConcertSeatEntity) (u check : Int) (cs' : List Choice),
        cs = .quiet :: .clock check :: .quiet :: cs' ∧
        (db.apply ws).find Tab.concertSeats id = some seat ∧
        seat.isPaid = false ∧ seat.reservedUntil = some u ∧ check ≤ u ∧
        Ends db (f (ConcertSeatMapper.toDomain { seat with isPaid := true })) began
          (ws ++ [⟨Tab.concertSeats, { seat with isPaid := true, version := seat.version + 1 }⟩])
          cs' b out := by
  rw [paySeat_bind]
  constructor
  · intro h
    obtain ⟨seat, _, rfl, hr, h⟩ := (ends_find (by exact True.intro)).mp h
    obtain ⟨u, check, _, rfl, hpaid, hu, hle, h⟩ := ConcertSeat.pay_ends.mp h
    obtain ⟨_, cs', rfl, _, _, h⟩ := (ends_update (by exact True.intro)).mp h
    exact ⟨seat, u, check, cs', rfl, hr, hpaid, hu, hle, h⟩
  · intro hx
    obtain ⟨seat, u, check, cs', rfl, hr, hpaid, hu, hle, h⟩ := hx
    refine (ends_find (by exact True.intro)).mpr ⟨seat, _, rfl, hr, ?_⟩
    refine ConcertSeat.pay_ends.mpr ⟨u, check, _, rfl, hpaid, hu, hle, ?_⟩
    refine (ends_update (by exact True.intro)).mpr ⟨seat, cs', rfl, ?_, rfl, h⟩
    obtain rfl : seat.id = id := Table.key_of_find? hr
    exact hr

theorem ConcertService.payBooking_ends {userId id : RowId} {f : ConcertBooking → Script γ} :
    Ends db ((payBooking ⟨userId, id⟩).bind f) began ws cs b out ↔
      ∃ (booking : ConcertBookingEntity) (check : Int) (cs' : List Choice),
        cs = .quiet :: .clock check :: .quiet :: cs' ∧
        (db.apply ws).find Tab.concertBookings id = some booking ∧
        booking.userId = userId ∧ booking.isPaid = false ∧ check ≤ booking.expiresAt ∧
        Ends db (f (ConcertBookingMapper.toDomain { booking with isPaid := true })) began
          (ws ++ [⟨Tab.concertBookings,
            { booking with isPaid := true, version := booking.version + 1 }⟩]) cs' b out := by
  rw [payBooking_bind]
  constructor
  · intro h
    obtain ⟨booking, _, rfl, hr, h⟩ := (ends_find (by exact True.intro)).mp h
    obtain ⟨check, _, rfl, huser, hpaid, hle, h⟩ := ConcertBooking.pay_ends.mp h
    obtain ⟨_, cs', rfl, _, _, h⟩ := (ends_update (by exact True.intro)).mp h
    exact ⟨booking, check, cs', rfl, hr, huser, hpaid, hle, h⟩
  · intro hx
    obtain ⟨booking, check, cs', rfl, hr, huser, hpaid, hle, h⟩ := hx
    refine (ends_find (by exact True.intro)).mpr ⟨booking, _, rfl, hr, ?_⟩
    refine ConcertBooking.pay_ends.mpr ⟨check, _, rfl, huser, hpaid, hle, ?_⟩
    refine (ends_update (by exact True.intro)).mpr ⟨booking, cs', rfl, ?_, rfl, h⟩
    obtain rfl : booking.id = id := Table.key_of_find? hr
    exact hr

section Inserts

variable {t : Int}

theorem BookingService.createBooking_ends {zone : TimeZone} {dto : CreateConcertBookingDTO}
    {f : ConcertBooking → Script γ} :
    Ends db ((createBooking zone dto).bind f) (some t) ws cs b out ↔
      ∃ (expiry : Int) (id : RowId) (cs' : List Choice), cs = .clock expiry :: .issued id :: cs' ∧
        (db.apply ws).find Tab.concertBookings id = none ∧
        let booking : ConcertBookingEntity := ⟨id, dto.userId, dto.concertId,
          dto.concertScheduleId, dto.concertSeatId, dto.price, false,
          ConcertBooking.calculateExpiryTime zone expiry, 0⟩
        Ends db (f (ConcertBookingMapper.toDomain booking)) (some t)
          (ws ++ [⟨Tab.concertBookings, booking⟩]) cs' b out := by
  constructor
  · intro h
    obtain ⟨expiry, _, rfl, h⟩ := ends_now.mp h
    obtain ⟨id, cs', rfl, hn, h⟩ := ends_insert.mp h
    exact ⟨expiry, id, cs', rfl, hn, h⟩
  · intro hx
    obtain ⟨expiry, id, cs', rfl, hn, h⟩ := hx
    exact ends_now.mpr ⟨expiry, _, rfl, ends_insert.mpr ⟨id, cs', rfl, hn, h⟩⟩

theorem PaymentService.create_ends {dto : CreatePaymentDTO} {f : ConcertPayment → Script γ} :
    Ends db ((create dto).bind f) (some t) ws cs b out ↔
      ∃ (id : RowId) (cs' : List Choice), cs = .issued id :: cs' ∧
        (db.apply ws).find Tab.concertPaymentHistories id = none ∧
        let payment : ConcertPaymentEntity := ⟨id, dto.userId, dto.concertId,
          dto.concertScheduleId, dto.concertSeatId, dto.concertBookingId, dto.price, dto.type⟩
        Ends db (f (ConcertPaymentMapper.toDomain payment)) (some t)
          (ws ++ [⟨Tab.concertPaymentHistories, payment⟩]) cs' b out :=
  ends_insert

/-- The row gets the instant of the BEGIN. -/
theorem OutboxService.create_ends {dto : CreateOutboxDTO} {f : Outbox → Script γ} :
    Ends db ((create dto).bind f) (some t) ws cs b out ↔
      ∃ (id : RowId) (cs' : List Choice), cs = .issued id :: cs' ∧
        (db.apply ws).find Tab.outbox id = none ∧
        let outbox : OutboxEntity := ⟨id, dto.topic, dto.message, .init, t⟩
        Ends db (f (OutboxMapper.toDomain outbox)) (some t)
          (ws ++ [⟨Tab.outbox, outbox⟩]) cs' b out :=
  ends_insert

theorem PointService.createHistory_ends {dto : CreatePointHistoryDTO}
    {f : PointHistory → Script γ} :
    Ends db ((createHistory dto).bind f) (some t) ws cs b out ↔
      0 < dto.amount ∧ ∃ (recordedAt : Int) (id : RowId) (cs' : List Choice),
        cs = .clock recordedAt :: .issued id :: cs' ∧
        (db.apply ws).find Tab.pointHistories id = none ∧
        let history : PointHistoryEntity :=
          ⟨id, dto.userId, dto.pointId, dto.amount, dto.transactionType, recordedAt⟩
        Ends db (f (PointHistoryMapper.toDomain history)) (some t)
          (ws ++ [⟨Tab.pointHistories, history⟩]) cs' b out := by
  simp only [createHistory, PointHistory.create, Prog.bind_eq, Prog.throwIf_bind,
    Prog.newDate_bind, Prog.ite_bind, Prog.fail_bind, Prog.now_bind, Prog.pure_eq,
    Prog.done_bind, ends_guard, Int.not_le]
  refine and_congr_right fun _ => ?_
  constructor
  · intro h
    obtain ⟨recordedAt, _, rfl, h⟩ := ends_now.mp h
    obtain ⟨id, cs', rfl, hn, h⟩ := ends_insert.mp h
    exact ⟨recordedAt, id, cs', rfl, hn, h⟩
  · intro hx
    obtain ⟨recordedAt, id, cs', rfl, hn, h⟩ := hx
    exact ends_now.mpr ⟨recordedAt, _, rfl, ends_insert.mpr ⟨id, cs', rfl, hn, h⟩⟩

/-- A change of a balance that ok allows, and that leads to the amount next. -/
theorem PointService.changePoint_ends {userId : RowId} {change : Point → Script Point}
    {amount : Int} {type : PointTransactionType} {f : Point → Script γ} (ok : Int → Prop)
    (next : Int → Int) (hpos : ∀ a, ok a → 0 < amount)
    (hchange : ∀ (point : Point) (g : Point → Script γ) (began ws cs), Ends db
      ((change point).bind g) began ws cs b out ↔ ok point.amount ∧
        Ends db (g { point with amount := next point.amount }) began ws cs b out) :
    Ends db (changePoint userId change amount type f) (some t) ws cs b out ↔
      ∃ (point : PointEntity) (recordedAt : Int) (id : RowId) (cs' : List Choice),
        cs = .picked (some point.id) :: .quiet :: .clock recordedAt :: .issued id :: cs' ∧
        (db.apply ws).find Tab.points point.id = some point ∧ point.userId = userId ∧
        ok point.amount ∧
        (db.apply (ws ++ [⟨Tab.points, { point with amount := next point.amount }⟩])).find
          Tab.pointHistories id = none ∧
        let history : PointHistoryEntity := ⟨id, userId, point.id, amount, type, recordedAt⟩
        Ends db (f (PointMapper.toDomain { point with amount := next point.amount })) (some t)
          (ws ++ [⟨Tab.points, { point with amount := next point.amount }⟩] ++
            [⟨Tab.pointHistories, history⟩]) cs' b out := by
  constructor
  · intro h
    obtain ⟨point, _, rfl, hr, huser, h⟩ := (ends_findForUpdate (by exact True.intro)).mp h
    obtain ⟨hok, h⟩ := (hchange _ _ _ _ _).mp h
    obtain ⟨_, rfl, h⟩ := ends_save.mp h
    obtain ⟨_, recordedAt, id, cs', rfl, hn, h⟩ := createHistory_ends.mp h
    exact ⟨point, recordedAt, id, cs', rfl, hr, by simpa using huser, hok, hn, h⟩
  · intro hx
    obtain ⟨point, recordedAt, id, cs', rfl, hr, huser, hok, hn, h⟩ := hx
    refine (ends_findForUpdate (by exact True.intro)).mpr
      ⟨point, _, rfl, hr, by simpa using huser, ?_⟩
    refine (hchange _ _ _ _ _).mpr ⟨hok, ends_save.mpr ⟨_, rfl, ?_⟩⟩
    exact createHistory_ends.mpr ⟨hpos _ hok, recordedAt, id, cs', rfl, hn, h⟩

theorem PointService.charge_ends {userId : RowId} {amount : Int} {f : Point → Script γ} :
    Ends db ((charge ⟨userId, amount⟩).bind f) (some t) ws cs b out ↔
      ∃ (point : PointEntity) (recordedAt : Int) (id : RowId) (cs' : List Choice),
        cs = .picked (some point.id) :: .quiet :: .clock recordedAt :: .issued id :: cs' ∧
        (db.apply ws).find Tab.points point.id = some point ∧ point.userId = userId ∧
        0 < amount ∧
        (db.apply (ws ++ [⟨Tab.points, { point with amount := point.amount + amount }⟩])).find
          Tab.pointHistories id = none ∧
        let history : PointHistoryEntity := ⟨id, userId, point.id, amount, .charge, recordedAt⟩
        Ends db (f (PointMapper.toDomain { point with amount := point.amount + amount })) (some t)
          (ws ++ [⟨Tab.points, { point with amount := point.amount + amount }⟩] ++
            [⟨Tab.pointHistories, history⟩]) cs' b out := by
  rw [charge_bind]
  exact changePoint_ends (fun _ => 0 < amount) (fun a => a + amount) (fun _ h => h)
    fun point g began ws cs => Point.charge_ends

theorem PointService.use_ends {userId : RowId} {amount : Int} {f : Point → Script γ} :
    Ends db ((use ⟨userId, amount⟩).bind f) (some t) ws cs b out ↔
      ∃ (point : PointEntity) (recordedAt : Int) (id : RowId) (cs' : List Choice),
        cs = .picked (some point.id) :: .quiet :: .clock recordedAt :: .issued id :: cs' ∧
        (db.apply ws).find Tab.points point.id = some point ∧ point.userId = userId ∧
        (0 < amount ∧ amount ≤ point.amount) ∧
        (db.apply (ws ++ [⟨Tab.points, { point with amount := point.amount - amount }⟩])).find
          Tab.pointHistories id = none ∧
        let history : PointHistoryEntity := ⟨id, userId, point.id, amount, .use, recordedAt⟩
        Ends db (f (PointMapper.toDomain { point with amount := point.amount - amount })) (some t)
          (ws ++ [⟨Tab.points, { point with amount := point.amount - amount }⟩] ++
            [⟨Tab.pointHistories, history⟩]) cs' b out := by
  rw [use_bind]
  refine changePoint_ends (fun a => 0 < amount ∧ amount ≤ a) (fun a => a - amount)
    (fun _ h => h.1) fun point g began ws cs => ?_
  rw [Point.use_ends, and_assoc]

end Inserts

/-! A committed run of each use case as a record of what it read and of what it
took from the clock and the sequences. -/

/-- A booking: the schedule and seat it found, its readings of the clock in
order, and the keys it was given. -/
structure BookRun where
  schedule : ConcertScheduleEntity
  seat : ConcertSeatEntity
  opened : Int
  closed : Int
  began : Int
  check : Option Int
  hold : Int
  expiry : Int
  bookingId : RowId
  outboxId : RowId

namespace BookRun

variable {zone : TimeZone} {dto : BookConcertSeatUseCaseDTO}

def choices (r : BookRun) : List Choice :=
  [.quiet, .clock r.opened, .clock r.closed, .clock r.began, .quiet] ++
    (r.check.map Choice.clock).toList ++
    [.clock r.hold, .quiet, .clock r.expiry, .issued r.bookingId, .issued r.outboxId]

def heldSeat (r : BookRun) : ConcertSeatEntity :=
  { r.seat with
    reservedUntil := some (r.hold + 5 * 60 * 1000)
    version := r.seat.version + 1 }

def booking (r : BookRun) (zone : TimeZone) (dto : BookConcertSeatUseCaseDTO) :
    ConcertBookingEntity :=
  ⟨r.bookingId, dto.userId, r.seat.concertId, dto.concertScheduleId, dto.concertSeatId,
    r.seat.price, false, ConcertBooking.calculateExpiryTime zone r.expiry, 0⟩

def outbox (r : BookRun) (zone : TimeZone) (dto : BookConcertSeatUseCaseDTO) : OutboxEntity :=
  ⟨r.outboxId, "booking.completed",
    (ConcertBookingMapper.toDomain (r.booking zone dto)).toJson.stringify, .init, r.began⟩

def writes (r : BookRun) (zone : TimeZone) (dto : BookConcertSeatUseCaseDTO) :
    List (Cell schema) :=
  [⟨Tab.concertSeats, r.heldSeat⟩, ⟨Tab.concertBookings, r.booking zone dto⟩,
    ⟨Tab.outbox, r.outbox zone dto⟩]

def result (r : BookRun) (zone : TimeZone) (dto : BookConcertSeatUseCaseDTO) : Booked :=
  ⟨ConcertBookingMapper.toDomain (r.booking zone dto),
    ⟨OutboxMapper.toDomain (r.outbox zone dto), .concertBookingCompleted⟩⟩

section Writes

variable (r : BookRun) (zone : TimeZone) (dto : BookConcertSeatUseCaseDTO) (db : Database)

@[simp] theorem apply_concertSchedules :
    Db.apply db (r.writes zone dto) Tab.concertSchedules = db Tab.concertSchedules := rfl

@[simp] theorem apply_concertSeats : Db.apply db (r.writes zone dto) Tab.concertSeats =
    (db Tab.concertSeats).put r.heldSeat := rfl

@[simp] theorem apply_concertBookings : Db.apply db (r.writes zone dto) Tab.concertBookings =
    (db Tab.concertBookings).put (r.booking zone dto) := rfl

@[simp] theorem apply_concertPaymentHistories :
    Db.apply db (r.writes zone dto) Tab.concertPaymentHistories =
      db Tab.concertPaymentHistories := rfl

@[simp] theorem apply_points :
    Db.apply db (r.writes zone dto) Tab.points = db Tab.points := rfl

@[simp] theorem apply_pointHistories :
    Db.apply db (r.writes zone dto) Tab.pointHistories = db Tab.pointHistories := rfl

@[simp] theorem apply_outbox : Db.apply db (r.writes zone dto) Tab.outbox =
    (db Tab.outbox).put (r.outbox zone dto) := rfl

end Writes

/-- The run is one on db. -/
structure On (r : BookRun) (dto : BookConcertSeatUseCaseDTO) (db : Database) : Prop where
  schedule : db.find Tab.concertSchedules dto.concertScheduleId = some r.schedule
  started : r.schedule.bookingStartAt ≤ r.opened
  notPassed : r.closed ≤ r.schedule.bookingEndAt
  seat : db.find Tab.concertSeats dto.concertSeatId = some r.seat
  free : FreeAt r.seat.reservedUntil r.check
  unpaid : r.seat.isPaid = false
  freshBooking : db.find Tab.concertBookings r.bookingId = none
  freshOutbox : db.find Tab.outbox r.outboxId = none

/-- The row that a booking updates. -/
theorem On.replaced_seat {r : BookRun} {db : Database} (h : r.On dto db) :
    (db Tab.concertSeats).find? r.heldSeat.id = some r.seat :=
  Table.find?_of_mem (Table.find?_eq_some.mp h.seat).1

end BookRun

theorem ends_book {zone : TimeZone} {dto : BookConcertSeatUseCaseDTO} {res : Response} :
    Ends db (execute zone (.book dto)) none [] cs res out ↔
      ∃ r : BookRun, r.On dto db ∧ cs = r.choices ∧ res = .booked (r.result zone dto) ∧
        out = r.writes zone dto := by
  rw [execute_book]
  constructor
  · intro h
    obtain ⟨schedule, opened, closed, _, rfl, hschedule, hstarted, hpassed, h⟩ :=
      ConcertService.validateScheduleIsBookable_ends.mp h
    obtain ⟨began, _, rfl, h⟩ := ends_begin.mp h
    obtain ⟨seat, check, hold, _, rfl, hseat, hfree, hpaid, h⟩ := ConcertService.bookSeat_ends.mp h
    obtain ⟨expiry, bookingId, _, rfl, hbooking, h⟩ := BookingService.createBooking_ends.mp h
    obtain ⟨outboxId, _, rfl, houtbox, h⟩ := OutboxService.create_ends.mp h
    obtain ⟨rfl, rfl, rfl⟩ := ends_done.mp h
    rw [Db.find_apply_other (by simp)] at hbooking houtbox
    exact ⟨⟨schedule, seat, opened, closed, began, check, hold, expiry, bookingId, outboxId⟩,
      ⟨hschedule, hstarted, hpassed, hseat, hfree, hpaid, hbooking, houtbox⟩,
      by simp [BookRun.choices], rfl, rfl⟩
  · intro hx
    obtain ⟨r, h, rfl, rfl, rfl⟩ := hx
    refine ConcertService.validateScheduleIsBookable_ends.mpr
      ⟨r.schedule, r.opened, r.closed, _, rfl, h.schedule, h.started, h.notPassed, ?_⟩
    refine ends_begin.mpr ⟨r.began, _, rfl, ?_⟩
    refine ConcertService.bookSeat_ends.mpr
      ⟨r.seat, r.check, r.hold, _, by simp; rfl, h.seat, h.free, h.unpaid, ?_⟩
    refine BookingService.createBooking_ends.mpr ⟨r.expiry, r.bookingId, _, rfl, ?_, ?_⟩
    · rw [Db.find_apply_other (by simp)]
      exact h.freshBooking
    refine OutboxService.create_ends.mpr ⟨r.outboxId, _, rfl, ?_, ends_done.mpr ⟨rfl, rfl, rfl⟩⟩
    rw [Db.find_apply_other (by simp)]
    exact h.freshOutbox

theorem exec_book {zone : TimeZone} {dto : BookConcertSeatUseCaseDTO} {db' : Database}
    {res : Response} :
    exec (execute zone (.book dto)) db cs = some (.ok res, db') ↔
      ∃ r : BookRun, r.On dto db ∧ cs = r.choices ∧ res = .booked (r.result zone dto) ∧
        db' = Db.apply db (r.writes zone dto) := by
  rw [exec_ok_iff_ends]
  constructor
  · intro hx
    obtain ⟨_, h, rfl⟩ := hx
    obtain ⟨r, hr, hc, hres, rfl⟩ := ends_book.mp h
    exact ⟨r, hr, hc, hres, rfl⟩
  · intro h
    obtain ⟨r, hr, hc, hres, rfl⟩ := h
    exact ⟨_, ends_book.mpr ⟨r, hr, hc, hres, rfl⟩, rfl⟩

/-- A payment: the booking, seat and points row it found, its readings of the
clock in order, and the keys it was given. -/
structure PayRun where
  booking : ConcertBookingEntity
  seat : ConcertSeatEntity
  point : PointEntity
  reservedUntil : Int
  began : Int
  bookingCheck : Int
  seatCheck : Int
  recordedAt : Int
  historyId : RowId
  paymentId : RowId
  outboxId : RowId

namespace PayRun

def choices (r : PayRun) : List Choice :=
  [.clock r.began, .quiet, .clock r.bookingCheck, .quiet, .quiet, .clock r.seatCheck, .quiet,
    .picked (some r.point.id), .quiet, .clock r.recordedAt, .issued r.historyId,
    .issued r.paymentId, .issued r.outboxId]

def paidBooking (r : PayRun) : ConcertBookingEntity :=
  { r.booking with
    isPaid := true
    version := r.booking.version + 1 }

def paidSeat (r : PayRun) : ConcertSeatEntity :=
  { r.seat with
    isPaid := true
    version := r.seat.version + 1 }

def chargedPoint (r : PayRun) : PointEntity :=
  { r.point with amount := r.point.amount - r.booking.price }

def history (r : PayRun) (dto : PayConcertBookingUseCaseDTO) : PointHistoryEntity :=
  ⟨r.historyId, dto.userId, r.point.id, r.booking.price, .use, r.recordedAt⟩

def payment (r : PayRun) (dto : PayConcertBookingUseCaseDTO) : ConcertPaymentEntity :=
  ⟨r.paymentId, dto.userId, r.booking.concertId, r.booking.concertScheduleId,
    r.booking.concertSeatId, dto.concertBookingId, r.booking.price, .buy⟩

def outbox (r : PayRun) (dto : PayConcertBookingUseCaseDTO) : OutboxEntity :=
  ⟨r.outboxId, "payment.completed",
    (ConcertPaymentMapper.toDomain (r.payment dto)).toJson.stringify, .init, r.began⟩

def writes (r : PayRun) (dto : PayConcertBookingUseCaseDTO) : List (Cell schema) :=
  [⟨Tab.concertBookings, r.paidBooking⟩, ⟨Tab.concertSeats, r.paidSeat⟩,
    ⟨Tab.points, r.chargedPoint⟩, ⟨Tab.pointHistories, r.history dto⟩,
    ⟨Tab.concertPaymentHistories, r.payment dto⟩, ⟨Tab.outbox, r.outbox dto⟩]

def result (r : PayRun) (dto : PayConcertBookingUseCaseDTO) : Paid :=
  ⟨ConcertPaymentMapper.toDomain (r.payment dto),
    ⟨OutboxMapper.toDomain (r.outbox dto), .concertPaymentCompleted⟩, dto.userId⟩

section Writes

variable (r : PayRun) (dto : PayConcertBookingUseCaseDTO) (db : Database)

@[simp] theorem apply_concertSchedules :
    Db.apply db (r.writes dto) Tab.concertSchedules = db Tab.concertSchedules := rfl

@[simp] theorem apply_concertSeats : Db.apply db (r.writes dto) Tab.concertSeats =
    (db Tab.concertSeats).put r.paidSeat := rfl

@[simp] theorem apply_concertBookings : Db.apply db (r.writes dto) Tab.concertBookings =
    (db Tab.concertBookings).put r.paidBooking := rfl

@[simp] theorem apply_concertPaymentHistories :
    Db.apply db (r.writes dto) Tab.concertPaymentHistories =
      (db Tab.concertPaymentHistories).put (r.payment dto) := rfl

@[simp] theorem apply_points : Db.apply db (r.writes dto) Tab.points =
    (db Tab.points).put r.chargedPoint := rfl

@[simp] theorem apply_pointHistories : Db.apply db (r.writes dto) Tab.pointHistories =
    (db Tab.pointHistories).put (r.history dto) := rfl

@[simp] theorem apply_outbox : Db.apply db (r.writes dto) Tab.outbox =
    (db Tab.outbox).put (r.outbox dto) := rfl

end Writes

structure On (r : PayRun) (dto : PayConcertBookingUseCaseDTO) (db : Database) : Prop where
  booking : db.find Tab.concertBookings dto.concertBookingId = some r.booking
  user : r.booking.userId = dto.userId
  unpaid : r.booking.isPaid = false
  unexpired : r.bookingCheck ≤ r.booking.expiresAt
  seat : db.find Tab.concertSeats r.booking.concertSeatId = some r.seat
  unsold : r.seat.isPaid = false
  reserved : r.seat.reservedUntil = some r.reservedUntil
  inTime : r.seatCheck ≤ r.reservedUntil
  point : db.find Tab.points r.point.id = some r.point
  owner : r.point.userId = dto.userId
  positive : 0 < r.booking.price
  enough : r.booking.price ≤ r.point.amount
  freshHistory : db.find Tab.pointHistories r.historyId = none
  freshPayment : db.find Tab.concertPaymentHistories r.paymentId = none
  freshOutbox : db.find Tab.outbox r.outboxId = none

section Replaced

variable {r : PayRun} {dto : PayConcertBookingUseCaseDTO} {db : Database}

/-! The rows that a payment updates. -/

theorem On.replaced_booking (h : r.On dto db) :
    (db Tab.concertBookings).find? r.paidBooking.id = some r.booking :=
  Table.find?_of_mem (Table.find?_eq_some.mp h.booking).1

theorem On.replaced_seat (h : r.On dto db) :
    (db Tab.concertSeats).find? r.paidSeat.id = some r.seat :=
  Table.find?_of_mem (Table.find?_eq_some.mp h.seat).1

end Replaced

end PayRun

theorem ends_pay {zone : TimeZone} {dto : PayConcertBookingUseCaseDTO} {res : Response} :
    Ends db (execute zone (.pay dto)) none [] cs res out ↔
      ∃ r : PayRun, r.On dto db ∧ cs = r.choices ∧ res = .paid (r.result dto) ∧
        out = r.writes dto := by
  rw [execute_pay]
  constructor
  · intro h
    obtain ⟨began, _, rfl, h⟩ := ends_begin.mp h
    obtain ⟨booking, bookingCheck, _, rfl, hbooking, huser, hpaid, hexpires, h⟩ :=
      ConcertService.payBooking_ends.mp h
    obtain ⟨seat, u, seatCheck, _, rfl, hseat, hsold, hu, hle, h⟩ :=
      ConcertService.paySeat_ends.mp h
    obtain ⟨point, recordedAt, historyId, _, rfl, hpoint, howner, hok, hhistory, h⟩ :=
      PointService.use_ends.mp h
    obtain ⟨paymentId, _, rfl, hpayment, h⟩ := PaymentService.create_ends.mp h
    obtain ⟨outboxId, _, rfl, houtbox, h⟩ := OutboxService.create_ends.mp h
    obtain ⟨rfl, rfl, rfl⟩ := ends_done.mp h
    rw [Db.find_apply_other (by simp)] at hseat hpoint hhistory hpayment houtbox
    exact ⟨⟨booking, seat, point, u, began, bookingCheck, seatCheck, recordedAt, historyId,
      paymentId, outboxId⟩, ⟨hbooking, huser, hpaid, hexpires, hseat, hsold, hu, hle, hpoint,
      howner, hok.1, hok.2, hhistory, hpayment, houtbox⟩, rfl, rfl, rfl⟩
  · intro hx
    obtain ⟨r, h, rfl, rfl, rfl⟩ := hx
    refine ends_begin.mpr ⟨r.began, _, rfl, ?_⟩
    refine ConcertService.payBooking_ends.mpr
      ⟨r.booking, r.bookingCheck, _, rfl, h.booking, h.user, h.unpaid, h.unexpired, ?_⟩
    refine ConcertService.paySeat_ends.mpr
      ⟨r.seat, r.reservedUntil, r.seatCheck, _, rfl, ?_, h.unsold, h.reserved, h.inTime, ?_⟩
    · rw [Db.find_apply_other (by simp)]
      exact h.seat
    refine PointService.use_ends.mpr
      ⟨r.point, r.recordedAt, r.historyId, _, rfl, ?_, h.owner, ⟨h.positive, h.enough⟩, ?_, ?_⟩
    · rw [Db.find_apply_other (by simp)]
      exact h.point
    · rw [Db.find_apply_other (by simp)]
      exact h.freshHistory
    refine PaymentService.create_ends.mpr ⟨r.paymentId, _, rfl, ?_, ?_⟩
    · rw [Db.find_apply_other (by simp)]
      exact h.freshPayment
    refine OutboxService.create_ends.mpr ⟨r.outboxId, _, rfl, ?_, ends_done.mpr ⟨rfl, rfl, rfl⟩⟩
    rw [Db.find_apply_other (by simp)]
    exact h.freshOutbox

theorem exec_pay {zone : TimeZone} {dto : PayConcertBookingUseCaseDTO} {db' : Database}
    {res : Response} :
    exec (execute zone (.pay dto)) db cs = some (.ok res, db') ↔
      ∃ r : PayRun, r.On dto db ∧ cs = r.choices ∧ res = .paid (r.result dto) ∧
        db' = Db.apply db (r.writes dto) := by
  rw [exec_ok_iff_ends]
  constructor
  · intro hx
    obtain ⟨_, h, rfl⟩ := hx
    obtain ⟨r, hr, hc, hres, rfl⟩ := ends_pay.mp h
    exact ⟨r, hr, hc, hres, rfl⟩
  · intro h
    obtain ⟨r, hr, hc, hres, rfl⟩ := h
    exact ⟨_, ends_pay.mpr ⟨r, hr, hc, hres, rfl⟩, rfl⟩

structure ChargeRun where
  point : PointEntity
  began : Int
  recordedAt : Int
  historyId : RowId

namespace ChargeRun

def choices (r : ChargeRun) : List Choice :=
  [.clock r.began, .picked (some r.point.id), .quiet, .clock r.recordedAt, .issued r.historyId]

def chargedPoint (r : ChargeRun) (dto : ChargePointUseCaseDTO) : PointEntity :=
  { r.point with amount := r.point.amount + dto.amount }

def history (r : ChargeRun) (dto : ChargePointUseCaseDTO) : PointHistoryEntity :=
  ⟨r.historyId, dto.userId, r.point.id, dto.amount, .charge, r.recordedAt⟩

def writes (r : ChargeRun) (dto : ChargePointUseCaseDTO) : List (Cell schema) :=
  [⟨Tab.points, r.chargedPoint dto⟩, ⟨Tab.pointHistories, r.history dto⟩]

section Writes

variable (r : ChargeRun) (dto : ChargePointUseCaseDTO) (db : Database)

@[simp] theorem apply_points : Db.apply db (r.writes dto) Tab.points =
    (db Tab.points).put (r.chargedPoint dto) := rfl

@[simp] theorem apply_pointHistories : Db.apply db (r.writes dto) Tab.pointHistories =
    (db Tab.pointHistories).put (r.history dto) := rfl

/-- A charge touches no other table. -/
theorem apply_other {τ : Tab} (hp : τ ≠ .points) (hh : τ ≠ .pointHistories) :
    Db.apply db (r.writes dto) τ = db τ :=
  Db.apply_other (by simp [writes, hp.symm, hh.symm])

end Writes

structure On (r : ChargeRun) (dto : ChargePointUseCaseDTO) (db : Database) : Prop where
  point : db.find Tab.points r.point.id = some r.point
  owner : r.point.userId = dto.userId
  positive : 0 < dto.amount
  freshHistory : db.find Tab.pointHistories r.historyId = none

end ChargeRun

theorem ends_charge {zone : TimeZone} {dto : ChargePointUseCaseDTO} {res : Response} :
    Ends db (execute zone (.charge dto)) none [] cs res out ↔
      ∃ r : ChargeRun, r.On dto db ∧ cs = r.choices ∧
        res = .charged (PointMapper.toDomain (r.chargedPoint dto)) ∧ out = r.writes dto := by
  rw [execute_charge]
  constructor
  · intro h
    obtain ⟨began, _, rfl, h⟩ := ends_begin.mp h
    obtain ⟨point, recordedAt, historyId, _, rfl, hpoint, howner, hok, hhistory, h⟩ :=
      PointService.charge_ends.mp h
    obtain ⟨rfl, rfl, rfl⟩ := ends_done.mp h
    rw [Db.find_apply_other (by simp)] at hhistory
    exact ⟨⟨point, began, recordedAt, historyId⟩, ⟨hpoint, howner, hok, hhistory⟩, rfl, rfl, rfl⟩
  · intro hx
    obtain ⟨r, h, rfl, rfl, rfl⟩ := hx
    refine ends_begin.mpr ⟨r.began, _, rfl, ?_⟩
    refine PointService.charge_ends.mpr ⟨r.point, r.recordedAt, r.historyId, _, rfl, h.point,
      h.owner, h.positive, ?_, ends_done.mpr ⟨rfl, rfl, rfl⟩⟩
    rw [Db.find_apply_other (by simp)]
    exact h.freshHistory

theorem exec_charge {zone : TimeZone} {dto : ChargePointUseCaseDTO} {db' : Database}
    {res : Response} :
    exec (execute zone (.charge dto)) db cs = some (.ok res, db') ↔
      ∃ r : ChargeRun, r.On dto db ∧ cs = r.choices ∧
        res = .charged (PointMapper.toDomain (r.chargedPoint dto)) ∧
        db' = Db.apply db (r.writes dto) := by
  rw [exec_ok_iff_ends]
  constructor
  · intro hx
    obtain ⟨_, h, rfl⟩ := hx
    obtain ⟨r, hr, hc, hres, rfl⟩ := ends_charge.mp h
    exact ⟨r, hr, hc, hres, rfl⟩
  · intro h
    obtain ⟨r, hr, hc, hres, rfl⟩ := h
    exact ⟨_, ends_charge.mpr ⟨r, hr, hc, hres, rfl⟩, rfl⟩

end HighVolumeBooking
