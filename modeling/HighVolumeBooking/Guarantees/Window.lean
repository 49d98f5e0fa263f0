import HighVolumeBooking.Guarantees.Records

namespace HighVolumeBooking

open ReadCommitted

variable {zone : TimeZone} {db : Database} {dto : BookConcertSeatUseCaseDTO} {t : Int}

def OpenAt (db : Database) (scheduleId : RowId) (t : Int) : Prop :=
  ∃ schedule, db.find Tab.concertSchedules scheduleId = some schedule ∧
    schedule.bookingStartAt ≤ t ∧ t ≤ schedule.bookingEndAt

def ConcertSeatEntity.BookableAt (seat : ConcertSeatEntity) (t : Int) : Prop :=
  seat.isPaid = false ∧ ∀ u, seat.reservedUntil = some u → u ≤ t

/-- With the clock standing at t the request can succeed only inside the
booking window of the seat's own schedule. -/
def InOwnWindow (zone : TimeZone) (db : Database) (dto : BookConcertSeatUseCaseDTO) (t : Int) :
    Prop :=
  ∀ cs res db', (∀ u ∈ cs.filterMap Choice.clock?, u = t) →
    exec (execute zone (.book dto)) db cs = some (.ok res, db') →
    ∃ seat, db.seat? dto.concertSeatId = some seat ∧ OpenAt db seat.concertScheduleId t

/-- The request names an open schedule for a bookable seat whose own schedule
is not open. -/
def Misdirected (db : Database) (dto : BookConcertSeatUseCaseDTO) (t : Int) : Prop :=
  OpenAt db dto.concertScheduleId t ∧ ∃ seat, db.seat? dto.concertSeatId = some seat ∧
    seat.BookableAt t ∧ ¬ OpenAt db seat.concertScheduleId t

theorem FreeAt.bookable {reservedUntil check : Option Int} (h : FreeAt reservedUntil check)
    (hc : ∀ u, check = some u → u = t) : ∀ u, reservedUntil = some u → u ≤ t := by
  intro u hu
  subst hu
  cases check with
  | none => exact h.elim
  | some c =>
    obtain rfl := hc c rfl
    exact h

/-- A call that succeeds with the clock at t was accepted by the schedule it
named and by the seat. -/
theorem accepted_of_exec {cs : List Choice} {res : Response} {db' : Database}
    (hcs : ∀ u ∈ cs.filterMap Choice.clock?, u = t)
    (h : exec (execute zone (.book dto)) db cs = some (.ok res, db')) :
    OpenAt db dto.concertScheduleId t ∧ ∃ seat, db.seat? dto.concertSeatId = some seat ∧
      seat.BookableAt t := by
  obtain ⟨r, hr, rfl, _, _⟩ := exec_book.mp h
  have hopened : r.opened = t := hcs _ (by simp [BookRun.choices, Choice.clock?])
  have hclosed : r.closed = t := hcs _ (by simp [BookRun.choices, Choice.clock?])
  have hcheck : ∀ u, r.check = some u → u = t := by
    intro u hu
    exact hcs u (by simp [BookRun.choices, Choice.clock?, hu])
  refine ⟨⟨r.schedule, hr.schedule, hopened ▸ hr.started, hclosed ▸ hr.notPassed⟩, r.seat, hr.seat,
    hr.unpaid, hr.free.bookable hcheck⟩

/-- Conversely such a request does succeed, with any free keys. -/
theorem exec_of_accepted {seat : ConcertSeatEntity} (hopen : OpenAt db dto.concertScheduleId t)
    (hseat : db.seat? dto.concertSeatId = some seat) (hbookable : seat.BookableAt t) :
    ∃ cs res db', (∀ u ∈ cs.filterMap Choice.clock?, u = t) ∧
      exec (execute zone (.book dto)) db cs = some (.ok res, db') := by
  obtain ⟨schedule, hschedule, hstart, hend⟩ := hopen
  obtain ⟨bookingId, _, hbooking⟩ := (db Tab.concertBookings).exists_fresh
  obtain ⟨outboxId, _, houtbox⟩ := (db Tab.outbox).exists_fresh
  let r : BookRun := ⟨schedule, seat, t, t, t, seat.reservedUntil.map fun _ => t, t, t, bookingId,
    outboxId⟩
  have hfree : FreeAt seat.reservedUntil (seat.reservedUntil.map fun _ => t) := by
    cases hu : seat.reservedUntil with
    | none => exact True.intro
    | some u => exact hbookable.2 u hu
  have hon : r.On dto db :=
    ⟨hschedule, hstart, hend, hseat, hfree, hbookable.1, hbooking, houtbox⟩
  refine ⟨r.choices, _, _, ?_, exec_book.mpr ⟨r, hon, rfl, rfl, rfl⟩⟩
  intro u hu
  cases hres : seat.reservedUntil <;> simp [r, BookRun.choices, Choice.clock?, hres] at hu <;> omega

theorem in_own_window_iff (zone : TimeZone) (db : Database) (dto : BookConcertSeatUseCaseDTO)
    (t : Int) : InOwnWindow zone db dto t ↔ ¬ Misdirected db dto t := by
  constructor
  · intro h ⟨hopen, seat, hseat, hbookable, hclosed⟩
    obtain ⟨cs, res, db', hcs, hexec⟩ := exec_of_accepted hopen hseat hbookable
    obtain ⟨seat', hseat', hown⟩ := h cs res db' hcs hexec
    obtain rfl := Option.some.inj (hseat.symm.trans hseat')
    exact hclosed hown
  · intro h cs res db' hcs hexec
    obtain ⟨hopen, seat, hseat, hbookable⟩ := accepted_of_exec hcs hexec
    by_contra hno
    exact h ⟨hopen, seat, hseat, hbookable, fun hown => hno ⟨seat, hseat, hown⟩⟩

/-- At 1000 seat 1 is booked under schedule 2 although its own schedule 1
closed at 10. -/
theorem booked_outside_window : ¬ InOwnWindow .utc twoSchedules ⟨1, 2, 1⟩ 1000 := by
  intro h
  have hexec : (exec (execute .utc (.book ⟨1, 2, 1⟩)) twoSchedules (bookingAt 1000 1 1)).map
      (fun r => r.1.isOk) = some true := by
    decide +kernel
  obtain ⟨⟨res, db'⟩, hr, hok⟩ := Option.map_eq_some_iff.mp hexec
  cases res with
  | error e => simp [Except.isOk, Except.toBool] at hok
  | ok res =>
    obtain ⟨seat, hseat, schedule, hschedule, _, hend⟩ := h _ _ _ (by decide) hr
    have hseat' : twoSchedules.seat? 1 = some ⟨1, 1, 1, 100, 1, false, none, 0⟩ := by decide
    obtain rfl := Option.some.inj (hseat'.symm.trans hseat)
    have hschedule' : twoSchedules.find Tab.concertSchedules 1 =
        some ⟨1, 1, 0, 10, 20000000, 30000000⟩ := by decide
    obtain rfl := Option.some.inj (hschedule'.symm.trans hschedule)
    simp at hend

end HighVolumeBooking
