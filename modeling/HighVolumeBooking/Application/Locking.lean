import HighVolumeBooking.Application.UseCase
import HighVolumeBooking.ReadCommitted.LockOrder

namespace HighVolumeBooking

open ReadCommitted

variable {γ : Type} {held : List (Key schema)}

/-! The domain methods touch nothing but the clock, and keep the identity and
the version of what they change. -/

section Domain

attribute [local simp] ClockOnly

theorem ConcertSchedule.validateBookable_clockOnly (schedule : ConcertSchedule) :
    ClockOnly (fun _ => True) (schedule.validateBookable : Script Unit) := by
  simp [validateBookable, Prog.throwIf]

def ConcertSeat.Same (seat seat' : ConcertSeat) : Prop :=
  seat'.id = seat.id ∧ seat'.version = seat.version

theorem ConcertSeat.book_clockOnly (seat : ConcertSeat) :
    ClockOnly seat.Same (seat.book : Script ConcertSeat) := by
  cases h : seat.reservedUntil with
  | none => simp [book, h, Same]
  | some u => simp [book, h, Same]

theorem ConcertSeat.pay_clockOnly (seat : ConcertSeat) :
    ClockOnly seat.Same (seat.pay : Script ConcertSeat) := by
  cases h : seat.reservedUntil with
  | none => simp [pay, h]
  | some u => simp [pay, h, Same]

def ConcertBooking.Same (booking booking' : ConcertBooking) : Prop :=
  booking'.id = booking.id ∧ booking'.version = booking.version

theorem ConcertBooking.pay_clockOnly (booking : ConcertBooking) (userId : RowId) :
    ClockOnly booking.Same (booking.pay userId : Script ConcertBooking) := by
  simp [pay, Same]

theorem Point.charge_clockOnly (point : Point) (amount : Int) :
    ClockOnly (fun p => p.id = point.id) (point.charge amount : Script Point) := by
  simp [charge]

theorem Point.use_clockOnly (point : Point) (amount : Int) :
    ClockOnly (fun p => p.id = point.id) (point.use amount : Script Point) := by
  simp [use]

theorem PointHistory.create_clockOnly (dto : CreatePointHistoryDTO) :
    ClockOnly (fun _ => True) (create dto : Script PointHistory) := by
  simp [create]

theorem ConcertBooking.create_clockOnly (zone : TimeZone) (dto : CreateConcertBookingDTO) :
    ClockOnly (fun _ => True) (create zone dto : Script ConcertBooking) := by
  simp [create]

end Domain

/-! Each service keeps the read and write discipline, given that what follows
it does. -/

theorem ConcertService.changeSeat_guarded {id : RowId} {change : ConcertSeat → Script ConcertSeat}
    {f : ConcertSeat → Script γ} (hchange : ∀ seat, ClockOnly seat.Same (change seat))
    (hheld : (Tab.concertSeats, id) ∉ held)
    (hf : ∀ seat, Guarded ((Tab.concertSeats, id) :: held) [] (f seat)) :
    Guarded held [] (changeSeat id change f) := by
  refine ⟨hheld, by simp, True.intro, ?_⟩
  intro entity h
  subst h
  refine Guarded.bind_clockOnly (hchange _) ?_
  intro seat ⟨hid, hversion⟩
  obtain ⟨sid, concertId, concertScheduleId, price, number, isPaid, reservedUntil, version⟩ := seat
  obtain rfl : sid = entity.id := hid
  obtain rfl : version = some entity.version := hversion
  exact Guarded.update_read rfl rfl True.intro (hf _)

theorem ConcertService.payBooking_guarded {dto : PayConcertBookingDTO}
    {f : ConcertBooking → Script γ} (hheld : (Tab.concertBookings, dto.concertBookingId) ∉ held)
    (hf : ∀ booking,
      Guarded ((Tab.concertBookings, dto.concertBookingId) :: held) [] (f booking)) :
    Guarded held [] ((payBooking dto).bind f) := by
  obtain ⟨userId, concertBookingId⟩ := dto
  rw [payBooking_bind]
  refine ⟨hheld, by simp, True.intro, ?_⟩
  intro entity h
  subst h
  refine Guarded.bind_clockOnly (ConcertBooking.pay_clockOnly _ _) ?_
  intro booking ⟨hid, hversion⟩
  obtain ⟨bid, uid, concertId, concertScheduleId, concertSeatId, price, isPaid, expiresAt,
    version⟩ := booking
  obtain rfl : bid = entity.id := hid
  obtain rfl : version = some entity.version := hversion
  exact Guarded.update_read rfl rfl True.intro (hf _)

theorem PointService.createHistory_insertOnly {dto : CreatePointHistoryDTO}
    {f : PointHistory → Script γ} (hf : ∀ history, InsertOnly (f history)) :
    InsertOnly ((createHistory dto).bind f) := by
  unfold createHistory
  rw [Prog.bind_eq, Prog.bind_assoc]
  refine InsertOnly.bind_clockOnly (PointHistory.create_clockOnly dto) ?_
  intro history _
  exact ⟨by simp, fun i t => hf _⟩

theorem PointService.changePoint_guarded {userId : RowId} {change : Point → Script Point}
    {amount : Int} {type : PointTransactionType} {f : Point → Script γ}
    (hchange : ∀ point, ClockOnly (fun p => p.id = point.id) (change point))
    (hf : ∀ point, InsertOnly (f point)) :
    Guarded held [] (changePoint userId change amount type f) := by
  refine ⟨rfl, True.intro, ?_⟩
  intro entity hentity
  refine Guarded.bind_clockOnly (hchange _) ?_
  intro point hid
  obtain ⟨pid, uid, amount'⟩ := point
  obtain rfl : pid = entity.id := hid
  refine ⟨rfl, List.mem_cons_self, ?_⟩
  exact (createHistory_insertOnly fun _ => hf _).guarded

theorem BookingService.createBooking_insertOnly {zone : TimeZone} {dto : CreateConcertBookingDTO}
    {f : ConcertBooking → Script γ} (hf : ∀ booking, InsertOnly (f booking)) :
    InsertOnly ((createBooking zone dto).bind f) := by
  unfold createBooking
  rw [Prog.bind_eq, Prog.bind_assoc]
  refine InsertOnly.bind_clockOnly (ConcertBooking.create_clockOnly zone dto) ?_
  intro booking _
  exact ⟨by simp, fun i t => hf _⟩

theorem PaymentService.create_insertOnly {dto : CreatePaymentDTO}
    {f : ConcertPayment → Script γ} (hf : ∀ payment, InsertOnly (f payment)) :
    InsertOnly ((create dto).bind f) :=
  ⟨by simp, fun _ _ => hf _⟩

theorem OutboxService.create_insertOnly {dto : CreateOutboxDTO} {f : Outbox → Script γ}
    (hf : ∀ outbox, InsertOnly (f outbox)) : InsertOnly ((create dto).bind f) :=
  ⟨by simp, fun _ _ => hf _⟩

/-- Every use case reads and locks before it inserts, and covers all it read
by a version check or a lock. -/
theorem execute_guarded (zone : TimeZone) (call : Call) : Guarded [] [] (execute zone call) := by
  cases call with
  | book dto =>
    rw [execute_book, ConcertService.validateScheduleIsBookable_bind]
    intro schedule
    cases schedule with
    | none => exact True.intro
    | some schedule =>
      refine Guarded.bind_clockOnly (ConcertSchedule.validateBookable_clockOnly _) ?_
      intro _ _
      show Guarded [] [] (Prog.bind _ _)
      rw [ConcertService.bookSeat_bind]
      refine ConcertService.changeSeat_guarded ConcertSeat.book_clockOnly (by simp) ?_
      intro seat
      refine InsertOnly.guarded (BookingService.createBooking_insertOnly fun booking => ?_)
      exact OutboxService.create_insertOnly fun _ => True.intro
  | pay dto =>
    rw [execute_pay]
    refine ConcertService.payBooking_guarded (by simp) fun booking => ?_
    rw [ConcertService.paySeat_bind]
    refine ConcertService.changeSeat_guarded ConcertSeat.pay_clockOnly (by simp) fun seat => ?_
    rw [PointService.use_bind]
    refine PointService.changePoint_guarded (fun _ => Point.use_clockOnly _ _) fun point => ?_
    refine PaymentService.create_insertOnly fun payment => ?_
    exact OutboxService.create_insertOnly fun _ => True.intro
  | charge dto =>
    rw [execute_charge]
    show Guarded [] [] (Prog.bind _ _)
    rw [PointService.charge_bind]
    exact PointService.changePoint_guarded (fun _ => Point.charge_clockOnly _ _)
      fun _ => True.intro

/-! The lock order: bookings before seats before points. -/

def lockRank : Tab → Nat
  | .concertBookings => 0
  | .concertSeats => 1
  | .points => 2
  | _ => 3

theorem ConcertService.changeSeat_ordered {n : Nat} {id : RowId}
    {change : ConcertSeat → Script ConcertSeat} {f : ConcertSeat → Script γ}
    (hchange : ∀ seat, ClockOnly seat.Same (change seat)) (hn : n ≤ 1)
    (hf : ∀ seat held, Ordered lockRank 2 held (f seat)) :
    Ordered lockRank n held (changeSeat id change f) := by
  intro entity
  cases entity with
  | none => exact True.intro
  | some entity =>
    refine Ordered.bind_clockOnly (hchange _) fun seat _ => ?_
    exact ⟨hn, True.intro, hf seat _⟩

theorem ConcertService.payBooking_ordered {dto : PayConcertBookingDTO}
    {f : ConcertBooking → Script γ} (hf : ∀ booking held, Ordered lockRank 1 held (f booking)) :
    Ordered lockRank 0 held ((payBooking dto).bind f) := by
  rw [payBooking_bind]
  intro entity
  cases entity with
  | none => exact True.intro
  | some entity =>
    refine Ordered.bind_clockOnly (ConcertBooking.pay_clockOnly _ _) fun booking _ => ?_
    exact ⟨Nat.le_refl _, True.intro, hf booking _⟩

theorem PointService.changePoint_ordered {n : Nat} {userId : RowId}
    {change : Point → Script Point} {amount : Int} {type : PointTransactionType}
    {f : Point → Script γ} (hchange : ∀ point, ClockOnly (fun p => p.id = point.id) (change point))
    (hn : n ≤ 2) (hf : ∀ point, InsertOnly (f point)) :
    Ordered lockRank n held (changePoint userId change amount type f) := by
  refine ⟨hn, True.intro, ?_⟩
  intro entity
  refine Ordered.bind_clockOnly (hchange _) ?_
  intro point hid
  obtain ⟨pid, uid, amount'⟩ := point
  obtain rfl : pid = entity.id := hid
  exact ⟨List.mem_cons_self, (createHistory_insertOnly fun _ => hf _).ordered⟩

theorem execute_ordered (zone : TimeZone) (call : Call) :
    Ordered lockRank 0 [] (execute zone call) := by
  cases call with
  | book dto =>
    rw [execute_book, ConcertService.validateScheduleIsBookable_bind]
    intro schedule
    cases schedule with
    | none => exact True.intro
    | some schedule =>
      refine Ordered.bind_clockOnly (ConcertSchedule.validateBookable_clockOnly _) ?_
      intro _ _
      show Ordered (S := schema) lockRank 0 [] (Prog.bind _ _)
      rw [ConcertService.bookSeat_bind]
      refine ConcertService.changeSeat_ordered ConcertSeat.book_clockOnly (Nat.zero_le _) ?_
      intro seat _
      refine InsertOnly.ordered (BookingService.createBooking_insertOnly fun booking => ?_)
      exact OutboxService.create_insertOnly fun _ => True.intro
  | pay dto =>
    rw [execute_pay]
    refine ConcertService.payBooking_ordered fun booking _ => ?_
    rw [ConcertService.paySeat_bind]
    refine ConcertService.changeSeat_ordered ConcertSeat.pay_clockOnly (Nat.le_refl _) ?_
    intro seat _
    rw [PointService.use_bind]
    refine PointService.changePoint_ordered (fun _ => Point.use_clockOnly _ _) (Nat.le_refl _) ?_
    intro point
    refine PaymentService.create_insertOnly fun payment => ?_
    exact OutboxService.create_insertOnly fun _ => True.intro
  | charge dto =>
    rw [execute_charge]
    show Ordered (S := schema) lockRank 0 [] (Prog.bind _ _)
    rw [PointService.charge_bind]
    exact PointService.changePoint_ordered (fun _ => Point.charge_clockOnly _ _) (Nat.zero_le _)
      fun _ => True.intro

end HighVolumeBooking
