import HighVolumeBooking.Guarantees.Rivals
import HighVolumeBooking.ReadCommitted.Explained

namespace HighVolumeBooking

open ReadCommitted

variable {γ : Type}

/-- What an error of a call says of the tables, and of clock readings of the call. -/
def Call.Because (db : Database) (clock : List Int) : Call → ErrorCode → Prop
  | .book dto, .scheduleNotFound => db.find .concertSchedules dto.concertScheduleId = none
  | .book dto, .bookingNotStarted => ∃ schedule ∈ db.schedules,
      schedule.id = dto.concertScheduleId ∧ ∃ now ∈ clock, now < schedule.bookingStartAt
  | .book dto, .bookingAlreadyPassed => ∃ schedule ∈ db.schedules,
      schedule.id = dto.concertScheduleId ∧ ∃ now ∈ clock, schedule.bookingEndAt < now
  | .book dto, .seatNotFound => db.seat? dto.concertSeatId = none
  | .book dto, .seatAlreadyBooked => ∃ seat, db.seat? dto.concertSeatId = some seat ∧
      ∃ reservedUntil, seat.reservedUntil = some reservedUntil ∧ ∃ now ∈ clock, now < reservedUntil
  | .book dto, .seatAlreadySold => ∃ seat, db.seat? dto.concertSeatId = some seat ∧
      seat.isPaid = true
  | .pay dto, .bookingNotFound => db.booking? dto.concertBookingId = none
  | .pay dto, .unauthorizedConcertPayment => ∃ booking,
      db.booking? dto.concertBookingId = some booking ∧ booking.userId ≠ dto.userId
  | .pay dto, .paymentAlreadyProcessed => ∃ booking,
      db.booking? dto.concertBookingId = some booking ∧ booking.isPaid = true
  | .pay dto, .paymentExpired => ∃ booking, db.booking? dto.concertBookingId = some booking ∧
      ∃ now ∈ clock, booking.expiresAt < now
  | .pay dto, .seatNotFound => ∃ booking, db.booking? dto.concertBookingId = some booking ∧
      db.seat? booking.concertSeatId = none
  | .pay dto, .seatAlreadySold => ∃ booking seat,
      db.booking? dto.concertBookingId = some booking ∧
      db.seat? booking.concertSeatId = some seat ∧ seat.isPaid = true
  | .pay dto, .seatNotReserved => ∃ booking seat,
      db.booking? dto.concertBookingId = some booking ∧
      db.seat? booking.concertSeatId = some seat ∧
      ∀ reservedUntil, seat.reservedUntil = some reservedUntil → ∃ now ∈ clock, reservedUntil < now
  | .pay dto, .pointNotFound => ∀ point ∈ db.points, point.userId ≠ dto.userId
  | .pay dto, .minimumPaymentAmount => ∃ booking,
      db.booking? dto.concertBookingId = some booking ∧ booking.price ≤ 0
  | .pay dto, .insufficientPoint => ∃ booking, db.booking? dto.concertBookingId = some booking ∧
      ∃ point ∈ db.points, point.userId = dto.userId ∧ point.amount < booking.price
  | .charge dto, .pointNotFound => ∀ point ∈ db.points, point.userId ≠ dto.userId
  | .charge dto, .minimumChargeAmount => dto.amount ≤ 0
  | _, _ => False

/-- An optimistic conflict, or an error that the tables account for. -/
def Call.Excused (call : Call) (db : Database) (clock : List Int) (e : ErrorCode) : Prop :=
  e = .optimisticLockConflict ∨ call.Because db clock e

/-- A call finds its booking again, for the same seat and at the same price. -/
theorem Evolves.booking {db db' : Database} {i : RowId} {booking : ConcertBookingEntity}
    (h : Evolves db db') (hb : db.booking? i = some booking) :
    ∃ b, db'.booking? i = some b ∧ b.concertSeatId = booking.concertSeatId ∧
      b.price = booking.price := by
  obtain ⟨hmem, hkey⟩ := Table.find?_eq_some.mp hb
  obtain ⟨b, hb', hid, hturns⟩ := h.bookings booking hmem
  refine ⟨b, Table.find?_eq_some.mpr ⟨hb', hid.trans hkey⟩, ?_, ?_⟩
  · rw [hturns.kept]
  · rw [hturns.kept]

/-! Each domain method throws for the reasons that its row gives. -/

section Methods

variable {R : Database → Database → Prop} {cause : Database → List Int → ErrorCode → Prop}
  {db : Database} {clock : List Int} {written : List Tab}

theorem ConcertSchedule.validateBookable_explains {schedule : ConcertSchedule}
    {f : Unit → Script γ}
    (hearly : ∀ clock, (∃ now ∈ clock, now < schedule.bookingStartAt) →
      cause db clock .bookingNotStarted)
    (hlate : ∀ clock, (∃ now ∈ clock, schedule.bookingEndAt < now) →
      cause db clock .bookingAlreadyPassed)
    (hf : ∀ clock, Explains R cause db clock written (f ())) :
    Explains R cause db clock written (schedule.validateBookable.bind f) := by
  simp only [validateBookable, Prog.bind_eq, Prog.bind_assoc, Prog.newDate_bind, Prog.now_bind]
  intro opened
  refine .throwIf (fun h => hearly _ ⟨opened, by simp, h⟩) fun _ => ?_
  intro closed
  exact .throwIf (fun h => hlate _ ⟨closed, by simp, h⟩) fun _ => hf _

theorem ConcertSeat.book_explains {seat : ConcertSeat} {f : ConcertSeat → Script γ}
    (hbooked : ∀ clock u, seat.reservedUntil = some u → (∃ now ∈ clock, now < u) →
      cause db clock .seatAlreadyBooked)
    (hsold : ∀ clock, seat.isPaid = true → cause db clock .seatAlreadySold)
    (hf : ∀ clock seat, Explains R cause db clock written (f seat)) :
    Explains R cause db clock written (seat.book.bind f) := by
  have hunsold : ∀ clock, Explains R cause db clock written
      ((Prog.throwIf (seat.isPaid = true) ErrorCode.seatAlreadySold).bind fun _ =>
        .now fun now => f { seat with reservedUntil := some (now + 5 * 60 * 1000) }) :=
    fun clock => .throwIf (hsold clock) fun _ now => hf _ _
  cases hu : seat.reservedUntil with
  | none =>
    simp only [book, hu, Prog.bind_eq, Prog.bind_assoc, Prog.pure_eq, Prog.done_bind,
      Prog.newDate_bind]
    exact .throwIf (by simp) fun _ => hunsold _
  | some u =>
    simp only [book, hu, Prog.bind_eq, Prog.bind_assoc, Prog.pure_eq, Prog.done_bind,
      Prog.newDate_bind, Prog.now_bind, decide_eq_true_eq]
    intro now
    exact .throwIf (fun h => hbooked _ u hu ⟨now, by simp, h⟩) fun _ => hunsold _

theorem ConcertSeat.pay_explains {seat : ConcertSeat} {f : ConcertSeat → Script γ}
    (hsold : seat.isPaid = true → cause db clock .seatAlreadySold)
    (hlapsed : ∀ clock, (∀ u, seat.reservedUntil = some u → ∃ now ∈ clock, u < now) →
      cause db clock .seatNotReserved)
    (hf : ∀ clock seat, Explains R cause db clock written (f seat)) :
    Explains R cause db clock written (seat.pay.bind f) := by
  cases hu : seat.reservedUntil with
  | none =>
    simp only [pay, hu, Prog.bind_eq, Prog.bind_assoc, Prog.pure_eq, Prog.done_bind]
    refine .throwIf hsold fun _ => .throwIf (fun _ => hlapsed _ ?_) fun _ => hf _ _
    simp [hu]
  | some u =>
    simp only [pay, hu, Prog.bind_eq, Prog.bind_assoc, Prog.pure_eq, Prog.done_bind,
      Prog.newDate_bind, Prog.now_bind, decide_eq_true_eq]
    refine .throwIf hsold fun _ now => .throwIf (fun h => hlapsed _ ?_) fun _ => hf _ _
    intro u' hu'
    obtain rfl := Option.some.inj (hu.symm.trans hu')
    exact ⟨now, by simp, h⟩

theorem ConcertBooking.pay_explains {booking : ConcertBooking} {userId : RowId}
    {f : ConcertBooking → Script γ}
    (huser : booking.userId ≠ userId → cause db clock .unauthorizedConcertPayment)
    (hpaid : booking.isPaid = true → cause db clock .paymentAlreadyProcessed)
    (hlate : ∀ clock, (∃ now ∈ clock, booking.expiresAt < now) → cause db clock .paymentExpired)
    (hf : ∀ clock, Explains R cause db clock written (f { booking with isPaid := true })) :
    Explains R cause db clock written ((booking.pay userId).bind f) := by
  simp only [pay, Prog.bind_eq, Prog.bind_assoc, Prog.pure_eq, Prog.done_bind, Prog.newDate_bind,
    Prog.now_bind]
  refine .throwIf huser fun _ => .throwIf hpaid fun _ now => ?_
  exact .throwIf (fun h => hlate _ ⟨now, by simp, h⟩) fun _ => hf _

theorem Point.use_explains {point : Point} {amount : Int} {f : Point → Script γ}
    (hmin : amount ≤ 0 → cause db clock .minimumPaymentAmount)
    (hpoor : point.amount < amount → cause db clock .insufficientPoint)
    (hf : ∀ point, 0 < amount → Explains R cause db clock written (f point)) :
    Explains R cause db clock written ((point.use amount).bind f) := by
  simp only [use, Prog.bind_eq, Prog.bind_assoc, Prog.pure_eq, Prog.done_bind]
  exact .throwIf hmin fun hpos => .throwIf hpoor fun _ => hf _ (by omega)

theorem Point.charge_explains {point : Point} {amount : Int} {f : Point → Script γ}
    (hmin : amount ≤ 0 → cause db clock .minimumChargeAmount)
    (hf : ∀ point, 0 < amount → Explains R cause db clock written (f point)) :
    Explains R cause db clock written ((point.charge amount).bind f) := by
  simp only [charge, Prog.bind_eq, Prog.bind_assoc, Prog.pure_eq, Prog.done_bind]
  exact .throwIf hmin fun hpos => hf _ (by omega)

end Methods

/-! Each service fails for a reason that the tables give when it looks at them. -/

section Services

variable {cause : Database → List Int → ErrorCode → Prop} {db : Database} {clock : List Int}
  {written : List Tab}

theorem ConcertService.changeSeat_explains {id : RowId} {change : ConcertSeat → Script ConcertSeat}
    {f : ConcertSeat → Script γ} (hfirst : Tab.concertSeats ∉ written)
    (hconflict : ∀ db clock, cause db clock .optimisticLockConflict)
    (hmissing : ∀ db', Evolves db db' → db'.seat? id = none → cause db' [] .seatNotFound)
    (hchange : ∀ db' entity (g : ConcertSeat → Script γ), Evolves db db' →
      db'.seat? id = some entity → (∀ clock seat, Explains Evolves cause db' clock written (g seat)) →
      Explains Evolves cause db' [] written ((change (ConcertSeatMapper.toDomain entity)).bind g))
    (hf : ∀ db' clock seat, Evolves db db' →
      Explains Evolves cause db' clock (Tab.concertSeats :: written) (f seat)) :
    Explains Evolves cause db clock written (changeSeat id change f) := by
  refine .find hfirst (fun db' hev hnone => hmissing db' hev hnone) fun db' entity hev hseat => ?_
  refine hchange db' entity _ hev hseat fun clock seat => ?_
  exact ⟨hconflict db' clock, hf db' clock seat hev⟩

theorem ConcertService.payBooking_explains {dto : PayConcertBookingDTO}
    {f : ConcertBooking → Script γ}
    (hconflict : ∀ db clock, cause db clock .optimisticLockConflict)
    (hmissing : ∀ db' : Database, db'.booking? dto.concertBookingId = none →
      cause db' [] .bookingNotFound)
    (hpay : ∀ (db' : Database) entity (g : ConcertBooking → Script γ),
      db'.booking? dto.concertBookingId = some entity →
      (∀ clock, Explains Evolves cause db' clock []
        (g { ConcertBookingMapper.toDomain entity with isPaid := true })) →
      Explains Evolves cause db' [] []
        (((ConcertBookingMapper.toDomain entity).pay dto.userId).bind g))
    (hf : ∀ (db' : Database) entity clock, db'.booking? dto.concertBookingId = some entity →
      Explains Evolves cause db' clock [Tab.concertBookings]
        (f { ConcertBookingMapper.toDomain entity with isPaid := true })) :
    Explains Evolves cause db clock [] ((payBooking dto).bind f) := by
  rw [payBooking_bind]
  refine .find List.not_mem_nil (fun db' _ hnone => hmissing db' hnone)
    fun db' entity _ hbooking => ?_
  refine hpay db' entity _ hbooking fun clock => ?_
  exact ⟨hconflict db' clock, hf db' entity clock hbooking⟩

/-- The record of a positive amount is not refused. -/
theorem PointService.createHistory_explains {dto : CreatePointHistoryDTO}
    {f : PointHistory → Script γ} (hpos : 0 < dto.amount)
    (hf : ∀ clock history, Explains Evolves cause db clock (Tab.pointHistories :: written)
      (f history)) :
    Explains Evolves cause db clock written ((createHistory dto).bind f) := by
  simp only [createHistory, PointHistory.create, Prog.bind_eq, Prog.bind_assoc, Prog.newDate_bind,
    Prog.now_bind]
  refine .throwIf (fun h => absurd h (Int.not_le.mpr hpos)) fun _ now => ?_
  exact fun i t => hf _ _

theorem PointService.changePoint_explains {userId : RowId} {change : Point → Script Point}
    {amount : Int} {type : PointTransactionType} {f : Point → Script γ}
    (hfirst : Tab.points ∉ written)
    (hmissing : ∀ db', Evolves db db' → (∀ point ∈ db'.points, point.userId ≠ userId) →
      cause db' [] .pointNotFound)
    (hchange : ∀ db' (entity : PointEntity) (g : Point → Script γ), Evolves db db' →
      entity ∈ db'.points → entity.userId = userId →
      (∀ point, 0 < amount → Explains Evolves cause db' [] written (g point)) →
      Explains Evolves cause db' [] written ((change (PointMapper.toDomain entity)).bind g))
    (hf : ∀ db' clock point, Explains Evolves cause db' clock
      (Tab.pointHistories :: Tab.points :: written) (f point)) :
    Explains Evolves cause db clock written (changePoint userId change amount type f) := by
  refine ⟨hfirst, ?_⟩
  intro db' hev
  constructor
  · intro hnone
    refine hmissing db' hev fun point hpoint huser => ?_
    simpa [huser] using List.any_eq_false.mp hnone point hpoint
  · intro entity hentity huser
    refine hchange db' entity _ hev hentity (eq_of_beq huser) fun point hpos => ?_
    exact createHistory_explains hpos fun clock _ => hf db' clock point

end Services

theorem Call.excused_conflict (call : Call) (db : Database) (clock : List Int) :
    call.Excused db clock .optimisticLockConflict :=
  Or.inl rfl

theorem execute_explains (zone : TimeZone) (call : Call) (db : Database) :
    Explains Evolves call.Excused db [] [] (execute zone call) := by
  cases call with
  | book dto =>
    rw [execute_book, ConcertService.validateScheduleIsBookable_bind]
    refine .find List.not_mem_nil (fun _ _ hnone => Or.inr hnone)
      fun db' schedule _ hschedule => ?_
    obtain ⟨hmem, hid⟩ := Table.find?_eq_some.mp hschedule
    refine ConcertSchedule.validateBookable_explains
      (fun clock h => Or.inr ⟨schedule, hmem, hid, h⟩)
      (fun clock h => Or.inr ⟨schedule, hmem, hid, h⟩) fun clock => ?_
    show Explains _ _ _ _ _ (Prog.bind _ _)
    rw [ConcertService.bookSeat_bind]
    refine ConcertService.changeSeat_explains List.not_mem_nil (Call.excused_conflict _)
      (fun _ _ hmissing => Or.inr hmissing) ?_ fun _ _ _ _ _ _ _ _ _ => True.intro
    intro db'' seat g _ hseat hg
    exact ConcertSeat.book_explains
      (fun clock u hu h => Or.inr ⟨seat, hseat, u, hu, h⟩)
      (fun clock hpaid => Or.inr ⟨seat, hseat, hpaid⟩) hg
  | pay dto =>
    rw [execute_pay]
    show Explains _ _ _ [] _ (Prog.bind _ _)
    refine ConcertService.payBooking_explains (Call.excused_conflict _) (fun _ h => Or.inr h) ?_ ?_
    · intro db' booking g hbooking hg
      exact ConcertBooking.pay_explains (fun h => Or.inr ⟨booking, hbooking, h⟩)
        (fun h => Or.inr ⟨booking, hbooking, h⟩)
        (fun clock h => Or.inr ⟨booking, hbooking, h⟩) hg
    intro db₁ booking clock hbooking
    rw [ConcertService.paySeat_bind]
    refine ConcertService.changeSeat_explains (by simp) (Call.excused_conflict _) ?_ ?_ ?_
    · intro db' hev hmissing
      obtain ⟨b, hb, hseat, _⟩ := hev.booking hbooking
      exact Or.inr ⟨b, hb, hseat ▸ hmissing⟩
    · intro db' seat g hev hseat hg
      obtain ⟨b, hb, hsame, _⟩ := hev.booking hbooking
      have hfind : db'.seat? b.concertSeatId = some seat := hsame ▸ hseat
      exact ConcertSeat.pay_explains (fun h => Or.inr ⟨b, seat, hb, hfind, h⟩)
        (fun clock h => Or.inr ⟨b, seat, hb, hfind, h⟩) hg
    intro db₂ clock seat hev
    rw [PointService.use_bind]
    refine PointService.changePoint_explains (by simp) (fun _ _ h => Or.inr h) ?_
      fun _ _ _ _ _ _ _ => True.intro
    intro db' point g hev' hpoint huser hg
    obtain ⟨b, hb, _, hprice⟩ := (hev.trans hev').booking hbooking
    refine Point.use_explains (fun h => Or.inr ⟨b, hb, ?_⟩)
      (fun h => Or.inr ⟨b, hb, point, hpoint, huser, ?_⟩) hg
    · exact hprice ▸ h
    · exact hprice ▸ h
  | charge dto =>
    rw [execute_charge]
    show Explains _ _ _ _ _ (Prog.bind _ _)
    rw [PointService.charge_bind]
    refine PointService.changePoint_explains List.not_mem_nil (fun _ _ h => Or.inr h) ?_
      fun _ _ _ => True.intro
    intro db' point g _ _ _ hg
    exact Point.charge_explains (fun h => Or.inr h) hg

/-- Errors are truthful: whatever is interleaved, a call that is turned away with
an error, an optimistic conflict apart, was open in a state whose tables gave
that reason at a clock reading that the call took from then on. -/
theorem errors_are_truthful {zone : TimeZone} {start : Database} {m s : Server}
    {acts : List (Act Call)} {t : TxId} {tx : Tx schema ErrorCode Response Call} {e : ErrorCode}
    (h : Machine.Reachable (serve zone) (Sys.init start) m) (hnew : m.running t = none)
    (hmore : Machine.run (serve zone) m acts = some s) (hr : s.running t = some tx)
    (hfail : tx.frame.prog = .fail e) :
    e = .optimisticLockConflict ∨ ∃ (u : Server) (clock : List Int),
      Sys.OpenSince (execute zone) m acts t tx.call u clock ∧ tx.call.Because u.db clock e := by
  obtain ⟨u, clock, hopen, hexcused⟩ := Sys.cause_of_failed Evolves.refl
    (fun _ _ _ => Evolves.trans) (fun _ _ _ => Evolves.step) (execute_explains zone) h hnew hmore
    hr hfail
  exact hexcused.imp_right fun hbecause => ⟨u, clock, hopen, hbecause⟩

/-- A seat is booked, and another user asks for it a little later. -/
def seatTaken : List (Act Call) :=
  undisturbed 1 (.book ⟨1, 1, 1⟩) (bookingAt 3 1 1) ++ [.start 2 (.book ⟨2, 1, 1⟩),
    .stmt 2 .quiet, .stmt 2 (.clock 4), .stmt 2 (.clock 4), .stmt 2 (.clock 4), .stmt 2 .quiet,
    .stmt 2 (.clock 4)]

theorem errors_are_truthful_seatTaken :
    ∃ s : Server, Machine.run (serve .utc) (Sys.init smallHall) seatTaken = some s ∧
      ∃ tx, s.running 2 = some tx ∧ tx.frame.prog = .fail .seatAlreadyBooked ∧
        (ErrorCode.seatAlreadyBooked = .optimisticLockConflict ∨
          ∃ (u : Server) (clock : List Int),
            Sys.OpenSince (execute .utc) (Sys.init smallHall) seatTaken 2 tx.call u clock ∧
            tx.call.Because u.db clock .seatAlreadyBooked) := by
  have h : (Machine.run (serve .utc) (Sys.init smallHall) seatTaken).map (fun s =>
      (s.running 2).map fun tx => tx.frame.prog.error?) = some (some (some .seatAlreadyBooked)) := by
    decide +kernel
  obtain ⟨s, hs, htx⟩ := Option.map_eq_some_iff.mp h
  obtain ⟨tx, hr, hfail⟩ := Option.map_eq_some_iff.mp htx
  have hfail := Prog.error?_eq_some.mp hfail
  exact ⟨s, hs, tx, hr, hfail, errors_are_truthful ⟨[], rfl⟩ rfl hs hr hfail⟩

end HighVolumeBooking
