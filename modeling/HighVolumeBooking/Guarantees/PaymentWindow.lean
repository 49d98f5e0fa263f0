import HighVolumeBooking.Application.Outbox
import HighVolumeBooking.Guarantees.Holder
import HighVolumeBooking.Guarantees.Payable
import HighVolumeBooking.Guarantees.Records
import HighVolumeBooking.ReadCommitted.NeverFails

namespace HighVolumeBooking

open ReadCommitted

/-- The choices of a call that runs at the instant t and is given the points
row found. -/
def GivenAt (t : Int) (found : Option PointEntity) : Choice → Prop
  | .clock u => u = t
  | .picked i => i = found.map PointEntity.id
  | _ => True

/-- The call run alone at t, given the points row found, ends with outcome and
leaves db'. -/
def EndsAt (zone : TimeZone) (db : Database) (call : Call) (t : Int) (found : Option PointEntity)
    (outcome : Except ErrorCode Response) (db' : Database) : Prop :=
  ∃ cs, (∀ c ∈ cs, GivenAt t found c) ∧ exec (execute zone call) db cs = some (outcome, db')

/-- What a call sends to the broker once it has ended: nothing when its
transaction threw. -/
def published : Except ErrorCode Response → List Message
  | .ok res => res.publish
  | .error _ => []

/-- The users whose queue token it expires then. -/
def expiredUsers : Except ErrorCode Response → List RowId
  | .ok (.paid p) => [p.expire]
  | _ => []

/-- A row that a query for the points of the user can find. -/
def Finds (db : Database) (userId : RowId) : Option PointEntity → Prop
  | some point => db.find Tab.points point.id = some point ∧ point.userId = userId
  | none => ∀ point ∈ db.points, point.userId ≠ userId

/-- By its own row, its customer and the points found, the booking is payable
at t. -/
structure Due (db : Database) (dto : PayConcertBookingUseCaseDTO) (t : Int)
    (found : Option PointEntity) (booking : ConcertBookingEntity) : Prop where
  row : db.booking? dto.concertBookingId = some booking
  user : booking.userId = dto.userId
  payable : booking.payableAt t = true
  enough : ∃ point, found = some point ∧ booking.price ≤ point.amount

/-- A payment at t succeeds exactly when the booking is due, and leaves no
trace when it does not succeed. -/
def PaidWhenDue (zone : TimeZone) (db : Database) (dto : PayConcertBookingUseCaseDTO) (t : Int) :
    Prop :=
  ∀ found, Finds db dto.userId found →
    ((∃ booking, Due db dto t found booking) →
      ∃ res db', EndsAt zone db (.pay dto) t found (.ok res) db') ∧
    ∀ outcome db', EndsAt zone db (.pay dto) t found outcome db' →
      ((∃ res, outcome = .ok res) ↔ ∃ booking, Due db dto t found booking) ∧
      ((¬ ∃ res, outcome = .ok res) → db' = db ∧ published outcome = [] ∧ expiredUsers outcome = [])

/-- The row of the seat lets it be paid at t. -/
def SeatHeld (db : Database) (seatId : RowId) (t : Int) : Prop :=
  ∃ seat u, db.seat? seatId = some seat ∧ seat.isPaid = false ∧ seat.reservedUntil = some u ∧ t ≤ u

/-- No payment of the seat has committed, and the hold of the last booking of
it that has is not over at t. -/
def HoldStands (log : List LogEntry) (seatId : RowId) (t : Int) : Prop :=
  (∀ e ∈ log, e.pays seatId = false) ∧ ∃ c, lastClock seatId log = some c ∧ t ≤ c.reservedUntil

section Services

variable {ok : Choice → Prop} {db : Database} {began : Option Int} {ws : List (Cell schema)}
  {γ : Type}

/-! The domain methods and services of a payment that meets no obstacle. -/

theorem ConcertBooking.pay_neverFails {booking : ConcertBooking} {f : ConcertBooking → Script γ}
    (hunpaid : booking.isPaid = false) (hnow : ∀ u, ok (.clock u) → u ≤ booking.expiresAt)
    (h : NeverFails ok db (f { booking with isPaid := true }) began ws) :
    NeverFails ok db ((booking.pay booking.userId).bind f) began ws := by
  simp only [pay, hunpaid, Prog.bind_eq, Prog.newDate_bind, Prog.now_bind, Prog.ite_bind,
    Prog.fail_bind, Prog.throwIf_bind, Prog.pure_eq, Prog.done_bind, ne_eq, not_true_eq_false,
    if_false, Bool.false_eq_true]
  refine neverFails_now fun u hu => ?_
  rw [if_neg (Int.not_lt.mpr (hnow u hu))]
  exact h

theorem ConcertSeat.pay_neverFails {seat : ConcertSeat} {u : Int} {f : ConcertSeat → Script γ}
    (hunsold : seat.isPaid = false) (hreserved : seat.reservedUntil = some u)
    (hnow : ∀ t, ok (.clock t) → t ≤ u)
    (h : NeverFails ok db (f { seat with isPaid := true }) began ws) :
    NeverFails ok db (seat.pay.bind f) began ws := by
  simp only [pay, hunsold, hreserved, Prog.bind_eq, Prog.newDate_bind, Prog.now_bind,
    Prog.ite_bind, Prog.fail_bind, Prog.throwIf_bind, Prog.pure_eq, Prog.done_bind, if_false,
    Bool.false_eq_true]
  refine neverFails_now fun t ht => ?_
  rw [if_neg (by simpa using hnow t ht), ← hreserved]
  exact h

theorem Point.use_neverFails {point : Point} {amount : Int} {f : Point → Script γ}
    (hpositive : 0 < amount) (henough : amount ≤ point.amount)
    (h : NeverFails ok db (f { point with amount := point.amount - amount }) began ws) :
    NeverFails ok db ((point.use amount).bind f) began ws := by
  simpa [use, Int.not_le.mpr hpositive, Int.not_lt.mpr henough] using h

theorem PointService.createHistory_neverFails {dto : CreatePointHistoryDTO}
    {f : PointHistory → Script γ} (hpositive : 0 < dto.amount)
    (h : ∀ history began, NeverFails ok db (f (PointHistoryMapper.toDomain history)) (some began)
      (ws ++ [⟨Tab.pointHistories, history⟩])) :
    NeverFails ok db ((createHistory dto).bind f) began ws := by
  simp only [createHistory, PointHistory.create, Prog.bind_eq, Prog.throwIf_bind,
    Prog.newDate_bind, Prog.now_bind, Prog.pure_eq, Prog.done_bind,
    if_neg (Int.not_le.mpr hpositive)]
  exact neverFails_now fun t _ => neverFails_insert fun i began => h _ began

theorem ConcertService.payBooking_neverFails {id : RowId} {booking : ConcertBookingEntity}
    {f : ConcertBooking → Script γ}
    (hbooking : (db.apply ws).find Tab.concertBookings id = some booking)
    (hunpaid : booking.isPaid = false) (hnow : ∀ u, ok (.clock u) → u ≤ booking.expiresAt)
    (h : NeverFails ok db (f (ConcertBookingMapper.toDomain { booking with isPaid := true })) began
      (ws ++ [⟨Tab.concertBookings,
        { booking with isPaid := true, version := booking.version + 1 }⟩])) :
    NeverFails ok db ((payBooking ⟨booking.userId, id⟩).bind f) began ws := by
  obtain rfl : booking.id = id := Table.key_of_find? hbooking
  rw [payBooking_bind]
  refine neverFails_find hbooking ?_
  exact ConcertBooking.pay_neverFails hunpaid hnow (neverFails_update hbooking rfl h)

theorem ConcertService.paySeat_neverFails {id : RowId} {seat : ConcertSeatEntity} {u : Int}
    {f : ConcertSeat → Script γ}
    (hseat : (db.apply ws).find Tab.concertSeats id = some seat)
    (hunsold : seat.isPaid = false) (hreserved : seat.reservedUntil = some u)
    (hnow : ∀ t, ok (.clock t) → t ≤ u)
    (h : NeverFails ok db (f (ConcertSeatMapper.toDomain { seat with isPaid := true })) began
      (ws ++ [⟨Tab.concertSeats, { seat with isPaid := true, version := seat.version + 1 }⟩])) :
    NeverFails ok db ((paySeat id).bind f) began ws := by
  obtain rfl : seat.id = id := Table.key_of_find? hseat
  rw [paySeat_bind]
  refine neverFails_find hseat ?_
  exact ConcertSeat.pay_neverFails hunsold hreserved hnow (neverFails_update hseat rfl h)

theorem PointService.use_neverFails {userId : RowId} {amount : Int} {point : PointEntity}
    {f : Point → Script γ} (hpick : ∀ i, ok (.picked i) → i = some point.id)
    (hpoint : (db.apply ws).find Tab.points point.id = some point)
    (hpositive : 0 < amount) (henough : amount ≤ point.amount)
    (h : ∀ began history, NeverFails ok db
      (f (PointMapper.toDomain { point with amount := point.amount - amount })) began
      (ws ++ [⟨Tab.points, { point with amount := point.amount - amount }⟩] ++
        [⟨Tab.pointHistories, history⟩])) :
    NeverFails ok db ((use ⟨userId, amount⟩).bind f) began ws := by
  rw [use_bind]
  refine neverFails_findForUpdate (r := point) hpick hpoint ?_
  refine Point.use_neverFails hpositive henough (neverFails_save ?_)
  exact createHistory_neverFails hpositive fun history began => h (some began) history

end Services

section Calls

variable {zone : TimeZone} {db : Database} {dto : PayConcertBookingUseCaseDTO} {t : Int}
  {r : PayRun}

/-- What one payment can do at the instant t, none given the same points row
can fail to do. -/
theorem PayRun.On.neverFails (h : r.On dto db) (hbooking : t ≤ r.booking.expiresAt)
    (hseat : t ≤ r.reservedUntil) :
    NeverFails (GivenAt t (some r.point)) db (execute zone (.pay dto)) none [] := by
  have hnow : ∀ u, GivenAt t (some r.point) (.clock u) → u = t := fun _ hu => hu
  have hpick : ∀ i, GivenAt t (some r.point) (.picked i) → i = some r.point.id := fun _ hi => hi
  obtain ⟨userId, id⟩ := dto
  obtain rfl : r.booking.userId = userId := h.user
  rw [execute_pay]
  refine neverFails_begin fun began => ?_
  refine ConcertService.payBooking_neverFails h.booking h.unpaid ?_ ?_
  · intro u hu
    rw [hnow u hu]
    exact hbooking
  refine ConcertService.paySeat_neverFails ?_ h.unsold h.reserved ?_ ?_
  · rw [Db.find_apply_other (by simp)]
    exact h.seat
  · intro u hu
    rw [hnow u hu]
    exact hseat
  refine PointService.use_neverFails hpick ?_ h.positive h.enough ?_
  · rw [Db.find_apply_other (by simp)]
    exact h.point
  intro began history
  exact neverFails_insert fun _ _ => neverFails_insert fun _ _ => neverFails_done

/-- The run of a payment at t, with keys that are free. -/
theorem PayRun.exists_at {booking : ConcertBookingEntity} {point : PointEntity}
    (hdue : Due db dto t (some point) booking) (hfinds : Finds db dto.userId (some point))
    (hprice : 0 < booking.price) (hheld : SeatHeld db booking.concertSeatId t) :
    ∃ r : PayRun, r.On dto db ∧ r.point = point ∧ t ≤ r.booking.expiresAt ∧ t ≤ r.reservedUntil ∧
      ∀ c ∈ r.choices, GivenAt t (some point) c := by
  obtain ⟨seat, u, hseat, hunsold, hreserved, hle⟩ := hheld
  obtain ⟨historyId, _, hhistory⟩ := (db Tab.pointHistories).exists_fresh
  obtain ⟨paymentId, _, hpayment⟩ := (db Tab.concertPaymentHistories).exists_fresh
  obtain ⟨outboxId, _, houtbox⟩ := (db Tab.outbox).exists_fresh
  have hpayable := hdue.payable
  simp only [ConcertBookingEntity.payableAt, Bool.and_eq_true, Bool.not_eq_true',
    decide_eq_false_iff_not, Int.not_lt] at hpayable
  obtain ⟨_, hpoint, henough⟩ := hdue.enough
  obtain rfl := Option.some.inj hpoint
  refine ⟨⟨booking, seat, point, u, t, t, t, t, historyId, paymentId, outboxId⟩, ?_, rfl,
    hpayable.2, hle, ?_⟩
  · exact ⟨hdue.row, hdue.user, hpayable.1, hpayable.2, hseat, hunsold, hreserved, hle, hfinds.1,
      hfinds.2, hprice, henough, hhistory, hpayment, houtbox⟩
  · simp [PayRun.choices, GivenAt]

/-- A payment that succeeds at t was due, and its seat held. -/
theorem PayRun.of_endsAt {found : Option PointEntity} {res : Response} {db' : Database}
    (hfinds : Finds db dto.userId found)
    (h : EndsAt zone db (.pay dto) t found (.ok res) db') :
    ∃ booking, Due db dto t found booking ∧ SeatHeld db booking.concertSeatId t := by
  obtain ⟨cs, hcs, he⟩ := h
  obtain ⟨r, hr, rfl, _, _⟩ := exec_pay.mp he
  have hbooking : r.bookingCheck = t := hcs (.clock r.bookingCheck) (by simp [PayRun.choices])
  have hseat : r.seatCheck = t := hcs (.clock r.seatCheck) (by simp [PayRun.choices])
  have hpicked : some r.point.id = found.map PointEntity.id :=
    hcs (.picked (some r.point.id)) (by simp [PayRun.choices])
  cases found with
  | none => contradiction
  | some point =>
    have hid : r.point.id = point.id := Option.some.inj hpicked
    have hrow := hr.point
    rw [hid, hfinds.1] at hrow
    obtain rfl := Option.some.inj hrow
    have hpayable : r.booking.payableAt t = true := by
      simp [ConcertBookingEntity.payableAt, hr.unpaid, ← hbooking, hr.unexpired]
    exact ⟨r.booking, ⟨hr.booking, hr.user, hpayable, _, rfl, hr.enough⟩, r.seat,
      r.reservedUntil, hr.seat, hr.unsold, hr.reserved, hseat ▸ hr.inTime⟩

theorem EndsAt.error {call : Call} {found : Option PointEntity} {e : ErrorCode} {db' : Database}
    (h : EndsAt zone db call t found (.error e) db') : db' = db := by
  obtain ⟨cs, _, he⟩ := h
  exact exec_error he

/-- The payment of a booking whose seat is held at t goes by what is due. -/
theorem paidWhenDue_iff (hprice : ∀ booking ∈ db.bookings, 0 < booking.price) :
    PaidWhenDue zone db dto t ↔
      ∀ found, Finds db dto.userId found → ∀ booking, Due db dto t found booking →
        SeatHeld db booking.concertSeatId t := by
  constructor
  · intro h found hfinds booking hdue
    obtain ⟨res, db', hends⟩ := (h found hfinds).1 ⟨booking, hdue⟩
    obtain ⟨booking', hdue', hheld⟩ := PayRun.of_endsAt hfinds hends
    obtain rfl := Option.some.inj (hdue.row.symm.trans hdue'.row)
    exact hheld
  · intro h found hfinds
    have hrun : ∀ booking, Due db dto t found booking → ∃ r : PayRun, r.On dto db ∧
        found = some r.point ∧ t ≤ r.booking.expiresAt ∧ t ≤ r.reservedUntil ∧
        ∀ c ∈ r.choices, GivenAt t found c := by
      intro booking hdue
      have hheld := h found hfinds booking hdue
      have hpos := hprice booking (Table.find?_eq_some.mp hdue.row).1
      obtain ⟨point, rfl, _⟩ := hdue.enough
      obtain ⟨r, hr, rfl, hexpires, hinTime, hcs⟩ :=
        PayRun.exists_at hdue hfinds hpos hheld
      exact ⟨r, hr, rfl, hexpires, hinTime, hcs⟩
    refine ⟨?_, ?_⟩
    · intro hdue
      obtain ⟨booking, hdue⟩ := hdue
      obtain ⟨r, hr, _, _, _, hcs⟩ := hrun booking hdue
      exact ⟨_, _, r.choices, hcs, exec_pay.mpr ⟨r, hr, rfl, rfl, rfl⟩⟩
    · intro outcome db' hends
      refine ⟨⟨?_, ?_⟩, ?_⟩
      · intro hok
        obtain ⟨res, rfl⟩ := hok
        obtain ⟨booking, hdue, _⟩ := PayRun.of_endsAt hfinds hends
        exact ⟨booking, hdue⟩
      · intro hdue
        obtain ⟨booking, hdue⟩ := hdue
        obtain ⟨r, hr, rfl, hexpires, hinTime, _⟩ := hrun booking hdue
        obtain ⟨cs, hcs, he⟩ := hends
        exact (hr.neverFails hexpires hinTime).exec_ok hcs he
      · intro hno
        cases outcome with
        | ok res => exact absurd ⟨res, rfl⟩ hno
        | error e => exact ⟨hends.error, rfl, rfl⟩

end Calls

section Histories

variable {zone : TimeZone} {start db : Database} {log : List LogEntry} {t : Int}

/-- A seat that is sold was paid by a call of the log. -/
theorem paid_of_sold (hstart : Unsold start) (h : Serial (execute zone) start log db) :
    ∀ seat ∈ db.seats, seat.isPaid = true → ∃ e ∈ log, e.pays seat.id = true := by
  refine serial_induction (fun log db => ∀ seat ∈ db.seats, seat.isPaid = true →
    ∃ e ∈ log, e.pays seat.id = true) ?_ ?_ h
  · intro seat hseat hpaid
    rw [hstart.seats seat hseat] at hpaid
    contradiction
  intro log e m m' _ hm he seat hseat hpaid
  have hold : seat ∈ Database.seats m → ∃ x ∈ log ++ [e], LogEntry.pays x seat.id = true := by
    intro hmem
    obtain ⟨x, hx, hpays⟩ := hm seat hmem hpaid
    exact ⟨x, List.mem_append_left _ hx, hpays⟩
  cases hcall : e.call with
  | book dto =>
    obtain ⟨r, hr, _, _, _, _, _, rfl⟩ := he.book hcall
    rcases Table.mem_put.mp hseat with rfl | ⟨hseat, _⟩
    · rw [show r.heldSeat.isPaid = r.seat.isPaid from rfl, hr.unpaid] at hpaid
      contradiction
    · exact hold hseat
  | pay dto =>
    obtain ⟨r, hr, _, hpays, _, rfl⟩ := he.pay hcall
    rcases Table.mem_put.mp hseat with rfl | ⟨hseat, _⟩
    · refine ⟨e, by simp, ?_⟩
      rw [hpays, beq_iff_eq]
      exact (Table.key_of_find? hr.seat).symm
    · exact hold hseat
  | charge dto =>
    obtain ⟨r, _, _, _, rfl⟩ := he.charge hcall
    exact hold hseat

/-- The row of a seat that was booked tells how its history ends. -/
theorem seatHeld_iff (hstart : Unsold start) (h : Serial (execute zone) start log db)
    {booking : ConcertBookingEntity} (hbooking : booking ∈ db.bookings) :
    SeatHeld db booking.concertSeatId t ↔ HoldStands log booking.concertSeatId t := by
  obtain ⟨seat, hmem, hid, _⟩ := (Recorded.serial hstart h).bookings booking hbooking
  have hheld := Held.serial h
  rw [← hid]
  have hseat : db.seat? seat.id = some seat := Table.find?_of_mem hmem
  obtain ⟨e, he, _, hbooks⟩ := (Created.serial hstart.bookings h).entry booking hbooking
  rw [← hid] at hbooks
  obtain ⟨_, _, c, _, _, hc⟩ := exists_last h (List.mem_filter.mpr ⟨he, hbooks⟩)
  have huntil := hheld.last seat hmem c hc
  constructor
  · intro hrow
    obtain ⟨seat', u, hseat', hunsold, hu, hle⟩ := hrow
    obtain rfl := Option.some.inj (hseat.symm.trans hseat')
    refine ⟨?_, c, hc, ?_⟩
    · intro x hx
      rw [← Bool.not_eq_true]
      intro hpays
      rw [hheld.paid x hx seat hmem hpays] at hunsold
      contradiction
    · rw [huntil] at hu
      exact Option.some.inj hu ▸ hle
  · intro hstands
    obtain ⟨hunpaid, c', hc', hle⟩ := hstands
    obtain rfl := Option.some.inj (hc.symm.trans hc')
    refine ⟨seat, _, hseat, ?_, huntil, hle⟩
    rw [← Bool.not_eq_true]
    intro hsold
    obtain ⟨x, hx, hpays⟩ := paid_of_sold hstart h seat hmem hsold
    rw [hunpaid x hx] at hpays
    contradiction

/-- Every booking costs what its seat cost at the start. -/
theorem price_positive (hstart : Unsold start) (hprice : ∀ seat ∈ start.seats, 0 < seat.price)
    (h : Serial (execute zone) start log db) : ∀ booking ∈ db.bookings, 0 < booking.price := by
  intro booking hbooking
  obtain ⟨seat, hseat, _, _, heq⟩ := (Recorded.serial hstart h).bookings booking hbooking
  obtain ⟨old, hold, hkept⟩ := (Recorded.serial hstart h).seats seat hseat
  rw [heq, hkept.price]
  exact hprice old hold

end Histories

/-- In every state reached by whole calls, a payment at t goes by the deadline
of the booking exactly when a booking that is due still has its seat: nobody
paid for the seat, and its last hold is not over. -/
theorem paid_when_due_iff {zone : TimeZone} {start : Database} {attempts : List (Attempt Call)}
    {d : Desk schema Response Call} (hstart : Unsold start)
    (hprice : ∀ seat ∈ start.seats, 0 < seat.price)
    (h : Machine.run (serveAlone zone) (Desk.init start) attempts = some d)
    (dto : PayConcertBookingUseCaseDTO) (t : Int) :
    PaidWhenDue zone d.db dto t ↔
      ∀ found, Finds d.db dto.userId found → ∀ booking, Due d.db dto t found booking →
        HoldStands d.log booking.concertSeatId t := by
  have hserial := Desk.serial h
  rw [paidWhenDue_iff (price_positive hstart hprice hserial)]
  have hrow : ∀ found booking, Due d.db dto t found booking →
      (SeatHeld d.db booking.concertSeatId t ↔ HoldStands d.log booking.concertSeatId t) :=
    fun found booking hdue => seatHeld_iff hstart hserial (Table.find?_eq_some.mp hdue.row).1
  constructor
  · intro hheld found hfinds booking hdue
    exact (hrow found booking hdue).mp (hheld found hfinds booking hdue)
  · intro hstands found hfinds booking hdue
    exact (hrow found booking hdue).mpr (hstands found hfinds booking hdue)

/-- A booking whose clock moves on by one millisecond before the deadline of
the booking is computed. -/
def bookingOver (hold expiry : Int) (bookingId outboxId : RowId) : List Choice :=
  [.quiet, .clock hold, .clock hold, .clock hold, .quiet, .clock hold, .quiet, .clock expiry,
    .issued bookingId, .issued outboxId]

def bookedOver : List (Attempt Call) := [⟨.book ⟨1, 1, 1⟩, bookingOver 0 1 1 1⟩]

/-- In the last instant of the hold the booking is paid when it is due. -/
theorem paid_when_due_iff_bookedOver :
    ∃ d, Machine.run (serveAlone .utc) (Desk.init smallHall) bookedOver = some d ∧
      (Database.booking? d.db 1).isSome = true ∧ PaidWhenDue .utc d.db ⟨1, 1⟩ 300000 := by
  have h : (Machine.run (serveAlone .utc) (Desk.init smallHall) bookedOver).map
      (fun d => (Database.booking? d.db 1, d.log.all fun e => !LogEntry.pays e 1,
        lastClock 1 d.log)) =
      some (some ⟨1, 1, 1, 1, 1, 100, false, 300001, 0⟩, true, some ⟨0, 0, 0, none, 0, 1⟩) := by
    decide +kernel
  obtain ⟨d, hd, hrows⟩ := Option.map_eq_some_iff.mp h
  obtain ⟨hbooking, hrest⟩ := Prod.mk.inj hrows
  obtain ⟨hpays, hclock⟩ := Prod.mk.inj hrest
  refine ⟨d, hd, by simp [hbooking], ?_⟩
  refine (paid_when_due_iff smallHall_unsold (by decide) hd ⟨1, 1⟩ 300000).mpr ?_
  intro found _ booking hdue
  obtain rfl := Option.some.inj (hbooking.symm.trans hdue.row)
  refine ⟨?_, _, hclock, by decide⟩
  intro e he
  simpa using List.all_eq_true.mp hpays e he

/-- A millisecond later the payment is refused, as the seat is not reserved any
more, though the customer was promised that millisecond too. -/
theorem refused_when_due :
    (bookedOver.flatMap Attempt.clocks).Pairwise (· ≤ ·) ∧
    ∃ d, Machine.run (serveAlone .utc) (Desk.init smallHall) bookedOver = some d ∧
      (Database.booking? d.db 1).map ConcertBookingEntity.expiresAt = some 300001 ∧
      ¬ PaidWhenDue .utc d.db ⟨1, 1⟩ 300001 := by
  let refusal : List Choice :=
    [.clock 300001, .quiet, .clock 300001, .quiet, .quiet, .clock 300001]
  have h : (Machine.run (serveAlone .utc) (Desk.init smallHall) bookedOver).map
      (fun d => (Database.booking? d.db 1, d.db.find Tab.points 1,
        (exec (execute .utc (.pay ⟨1, 1⟩)) d.db refusal).map fun r => r.1)) =
      some (some ⟨1, 1, 1, 1, 1, 100, false, 300001, 0⟩, some ⟨1, 1, 1000⟩,
        some (.error .seatNotReserved)) := by
    decide +kernel
  obtain ⟨d, hd, hrows⟩ := Option.map_eq_some_iff.mp h
  obtain ⟨hbooking, hrest⟩ := Prod.mk.inj hrows
  obtain ⟨hpoint, hexec⟩ := Prod.mk.inj hrest
  obtain ⟨⟨outcome, db'⟩, he, rfl⟩ := Option.map_eq_some_iff.mp hexec
  refine ⟨by decide, d, hd, by simp [hbooking], ?_⟩
  intro hpaid
  have hfinds : Finds d.db 1 (some ⟨1, 1, 1000⟩) := ⟨hpoint, rfl⟩
  have hends : EndsAt .utc d.db (.pay ⟨1, 1⟩) 300001 (some ⟨1, 1, 1000⟩)
      (.error .seatNotReserved) db' := ⟨refusal, by simp [refusal, GivenAt], he⟩
  obtain ⟨_, hok⟩ := ((hpaid _ hfinds).2 _ _ hends).1.mpr
    ⟨_, hbooking, rfl, by decide, _, rfl, by decide⟩
  contradiction

end HighVolumeBooking
