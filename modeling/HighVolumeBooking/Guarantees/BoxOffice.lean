import HighVolumeBooking.Guarantees.Holds
import HighVolumeBooking.Guarantees.Points
import HighVolumeBooking.Guarantees.Records
import HighVolumeBooking.Trading.Office
import Mathlib.Algebra.Order.Group.Int

namespace HighVolumeBooking

open ReadCommitted

/-! The tables as a box office: what the customers get to see of them. -/

abbrev SeatOffice := Trading.Office RowId RowId Int Int

abbrev SaleEvent := Trading.Event RowId RowId Int Int

namespace Database

def price (db : Database) (seatId : RowId) : Int :=
  (db.seat? seatId).elim 0 ConcertSeatEntity.price

/-- Who has a payment for the seat. -/
def buyer? (db : Database) (seatId : RowId) : Option RowId :=
  (db.payments.find? fun p => p.concertSeatId == seatId).map ConcertPaymentEntity.userId

def balance (db : Database) (userId : RowId) : Int :=
  (db.points.find? fun p => p.userId == userId).elim 0 PointEntity.amount

def office (db : Database) : SeatOffice where
  heldUntil seatId := (db.seat? seatId).bind ConcertSeatEntity.reservedUntil
  owner := db.buyer?
  wallet := db.balance

end Database

/-- What a logged call did at the box office. The third reading of a payment
is the one that it compares with the reservation of the seat. -/
def LogEntry.event (e : LogEntry) : Option SaleEvent :=
  match e.call with
  | .book dto =>
    e.bookClock.map fun c => .hold dto.concertSeatId (c.check.getD c.hold) c.reservedUntil
  | .pay dto =>
    match e.result with
    | .paid p => e.clocks[2]?.map fun check => .sell p.payment.concertSeatId dto.userId check
    | _ => none
  | .charge dto => some (.deposit dto.userId dto.amount)

section Tables

variable {zone : TimeZone} {start db db' : Database} {log : List LogEntry} {e : LogEntry}

theorem Database.balance_eq (h : OnePointEach db) {p : PointEntity} (hp : p ∈ db.points) :
    db.balance p.userId = p.amount := by
  cases hf : db.points.find? fun q => q.userId == p.userId with
  | none => exact absurd (by simp) (List.find?_eq_none.mp hf p hp)
  | some q =>
    have huser : q.userId = p.userId := by simpa using List.find?_some hf
    rw [Database.balance, hf, h.unique q (List.mem_of_find?_eq_some hf) p hp huser]
    rfl

/-- A new amount in one row is a new balance of its user and of nobody else. -/
theorem Database.balance_put (h : OnePointEach db) (h' : OnePointEach db') {point : PointEntity}
    {amount : Int} (hpoint : point ∈ db.points)
    (hpoints : db' Tab.points = (db Tab.points).put { point with amount := amount }) :
    db'.balance = Function.update db.balance point.userId amount := by
  have hmem (q : PointEntity) : q ∈ db'.points ↔
      q = { point with amount := amount } ∨ q ∈ db.points ∧ q.id ≠ point.id := by
    rw [Database.points, hpoints]
    exact Table.mem_put
  funext u
  by_cases hu : u = point.userId
  · rw [hu, Function.update_self]
    exact Database.balance_eq h' ((hmem _).mpr (Or.inl rfl))
  rw [Function.update_of_ne hu]
  cases hf : db.points.find? fun q => q.userId == u with
  | some q =>
    have hq := List.mem_of_find?_eq_some hf
    have huser : q.userId = u := by simpa using List.find?_some hf
    have hne : q.id ≠ point.id := by
      intro hid
      exact hu (huser.symm.trans (congrArg _ (Table.eq_of_key hq hpoint hid)))
    rw [← huser, Database.balance_eq h hq]
    exact Database.balance_eq h' ((hmem q).mpr (Or.inr ⟨hq, hne⟩))
  | none =>
    have hnone : (db'.points.find? fun q => q.userId == u) = none := by
      rw [List.find?_eq_none] at hf ⊢
      intro q hq
      rcases (hmem q).mp hq with rfl | ⟨hq, _⟩
      · simpa using Ne.symm hu
      · exact hf q hq
    rw [Database.balance, Database.balance, hf, hnone]

/-- Nobody has a payment for a seat that is not paid. -/
theorem Database.buyer?_of_unpaid (hb : Balanced db) (hr : Recorded start log db)
    {seat : ConcertSeatEntity} (hseat : seat ∈ db.seats) (hunpaid : seat.isPaid = false) :
    db.buyer? seat.id = none := by
  rw [Database.buyer?, Option.map_eq_none_iff, List.find?_eq_none]
  intro payment hpayment hid
  obtain ⟨booking, hbooking, hbid, _, _, _, hseatId, _⟩ := hr.payments payment hpayment
  have hpaid := hb.bookings booking hbooking
  have hcount : 0 < paymentsOf db booking.id :=
    List.countP_pos_iff.mpr ⟨payment, hpayment, by simp [hbid]⟩
  have hsold := hb.seats seat hseat
  have hpaidBooking : booking.isPaid = true := by
    cases hp : booking.isPaid with
    | true => rfl
    | false => simp [hp] at hpaid; omega
  have hseatSold : 0 < paidBookings db seat.id :=
    List.countP_pos_iff.mpr ⟨booking, hbooking, by simp_all⟩
  simp [hunpaid] at hsold
  omega

theorem Database.seat?_put {new : ConcertSeatEntity}
    (hseats : db' Tab.concertSeats = (db Tab.concertSeats).put new) (i : RowId) :
    db'.seat? i = if new.id = i then some new else db.seat? i := by
  rw [Database.seat?, Db.find, hseats]
  exact Table.find?_put _ _ _

/-- A write to a seat that keeps its price keeps all prices. -/
theorem Database.price_put {old new : ConcertSeatEntity}
    (hseats : db' Tab.concertSeats = (db Tab.concertSeats).put new)
    (hold : db.seat? new.id = some old) (hprice : new.price = old.price) :
    db'.price = db.price := by
  funext i
  rw [Database.price, Database.price, Database.seat?_put hseats]
  split
  · rename_i hi
    rw [← hi, hold]
    exact hprice
  · rfl

/-- Prices never change. -/
theorem price_kept (h : Serial (execute zone) start log db) : db.price = start.price := by
  refine serial_induction (fun _ db => Database.price db = start.price) rfl ?_ h
  intro log e m m' _ hm he
  cases hcall : e.call with
  | book dto =>
    obtain ⟨r, hr, _, _, _, _, _, rfl⟩ := he.book hcall
    exact (Database.price_put rfl hr.replaced_seat rfl).trans hm
  | pay dto =>
    obtain ⟨r, hr, _, _, _, rfl⟩ := he.pay hcall
    exact (Database.price_put rfl hr.replaced_seat rfl).trans hm
  | charge dto =>
    obtain ⟨r, _, _, _, rfl⟩ := he.charge hcall
    exact hm

theorem office_book {dto : BookConcertSeatUseCaseDTO} (hb : Balanced db)
    (hr : Recorded start log db) (he : Ran zone db e db') (hcall : e.call = .book dto) :
    ∃ event, e.event = some event ∧
      Trading.Office.step start.price db.office event = some db'.office := by
  obtain ⟨r, hon, hclock, _, _, _, _, rfl⟩ := he.book hcall
  obtain ⟨hmem, hid⟩ := Table.find?_eq_some.mp hon.seat
  refine ⟨.hold dto.concertSeatId (r.check.getD r.hold) r.clock.reservedUntil, ?_, ?_⟩
  · simp [LogEntry.event, hcall, hclock, BookRun.clock]
  refine Trading.Office.step_hold.mpr ⟨⟨?_, ?_⟩, ?_⟩
  · rw [← hid]
    exact Database.buyer?_of_unpaid hb hr hmem hon.unpaid
  · intro u hu
    have hreserved : r.seat.reservedUntil = some u := by
      simpa [Database.office, hon.seat] using hu
    have hfree := hon.free
    rw [hreserved] at hfree
    cases hcheck : r.check with
    | none => simp [hcheck, FreeAt] at hfree
    | some check => simpa [hcheck, FreeAt] using hfree
  · simp only [Database.office, Trading.Office.mk.injEq]
    refine ⟨?_, rfl, rfl⟩
    funext i
    rw [Database.seat?_put (r.apply_concertSeats zone dto db)]
    by_cases hi : i = dto.concertSeatId
    · rw [hi, Function.update_self, if_pos (by exact hid)]
      rfl
    · rw [Function.update_of_ne hi, if_neg fun h => hi (h.symm.trans hid)]

theorem office_pay {dto : PayConcertBookingUseCaseDTO} (hs : Serial (execute zone) start log db)
    (hb : Balanced db) (hr : Recorded start log db) (hp : OnePointEach db)
    (hp' : OnePointEach db') (he : Ran zone db e db') (hcall : e.call = .pay dto) :
    ∃ event, e.event = some event ∧
      Trading.Office.step start.price db.office event = some db'.office := by
  obtain ⟨call, choices, result⟩ := e
  obtain rfl : call = .pay dto := hcall
  obtain ⟨r, hon, hc, hres, rfl⟩ := exec_pay.mp he
  obtain rfl : choices = r.choices := hc
  obtain rfl : result = .paid (r.result dto) := hres
  obtain ⟨hmem, hid⟩ := Table.find?_eq_some.mp hon.seat
  have hpoint := (Table.find?_eq_some.mp hon.point).1
  obtain ⟨seat, hseat, hsid, _, hprice⟩ :=
    hr.bookings r.booking (Table.find?_eq_some.mp hon.booking).1
  obtain rfl := Table.eq_of_key hseat hmem (hsid.trans hid.symm)
  have hrow : db.seat? r.booking.concertSeatId = some r.seat := hon.seat
  have hunsold : db.buyer? r.booking.concertSeatId = none := by
    rw [← hsid]
    exact Database.buyer?_of_unpaid hb hr hmem hon.unsold
  have hcost : start.price r.booking.concertSeatId = r.booking.price := by
    rw [← price_kept hs, Database.price, hrow, hprice]
    rfl
  have hbalance : db.balance dto.userId = r.point.amount := by
    rw [← hon.owner]
    exact Database.balance_eq hp hpoint
  refine ⟨.sell r.booking.concertSeatId dto.userId r.seatCheck, rfl, ?_⟩
  refine Trading.Office.step_sell.mpr ⟨⟨⟨hunsold, ?_⟩, ?_, ?_⟩, ?_⟩
  · exact ⟨r.reservedUntil, by simp [Database.office, hon.seat, hon.reserved], hon.inTime⟩
  · rw [hcost]
    exact hon.positive
  · rw [hcost, show db.office.wallet dto.userId = r.point.amount from hbalance]
    exact hon.enough
  · simp only [Database.office, Trading.Office.mk.injEq]
    refine ⟨?_, ?_, ?_⟩
    · funext i
      rw [Database.seat?_put (r.apply_concertSeats dto db)]
      split
      · rename_i hi
        rw [show i = r.booking.concertSeatId from hi.symm.trans hsid, hrow]
        rfl
      · rfl
    · funext i
      have hrows : Database.payments (Db.apply db (r.writes dto)) =
          db.payments ++ [r.payment dto] := Table.rows_put_fresh hon.freshPayment
      rw [Database.buyer?, hrows, List.find?_append]
      by_cases hi : i = r.booking.concertSeatId
      · rw [hi, Function.update_self, Option.map_eq_none_iff.mp hunsold]
        simp [PayRun.payment]
      · rw [Function.update_of_ne hi, Database.buyer?]
        have hother : (r.payment dto).concertSeatId ≠ i := Ne.symm hi
        simp [hother]
    · rw [Database.balance_put hp hp' hpoint rfl, hon.owner, hbalance, hcost]

theorem office_charge {dto : ChargePointUseCaseDTO} (hp : OnePointEach db)
    (hp' : OnePointEach db') (he : Ran zone db e db') (hcall : e.call = .charge dto) :
    ∃ event, e.event = some event ∧
      Trading.Office.step start.price db.office event = some db'.office := by
  rw [Ran, hcall] at he
  obtain ⟨r, hon, _, _, rfl⟩ := exec_charge.mp he
  have hpoint := (Table.find?_eq_some.mp hon.point).1
  have hbalance : db.balance dto.userId = r.point.amount := by
    rw [← hon.owner]
    exact Database.balance_eq hp hpoint
  refine ⟨.deposit dto.userId dto.amount, by rw [LogEntry.event, hcall], ?_⟩
  refine Trading.Office.step_deposit.mpr ⟨hon.positive, ?_⟩
  simp only [Database.office, Trading.Office.mk.injEq]
  refine ⟨rfl, rfl, ?_⟩
  rw [Database.balance_put hp hp' hpoint rfl, hon.owner, hbalance]

/-- The log, call by call, is a run of the box office. -/
theorem office_run (hstart : Unsold start) (hpoints : OnePointEach start)
    (h : Serial (execute zone) start log db) :
    ∃ events, log.map LogEntry.event = events.map some ∧
      Machine.run (Trading.Office.step start.price) start.office events = some db.office := by
  refine serial_induction (fun log db => ∃ events, log.map LogEntry.event = events.map some ∧
    Machine.run (Trading.Office.step start.price) start.office events =
      some (Database.office db)) ⟨[], rfl, rfl⟩ ?_ h
  intro log e m m' hs hm he
  obtain ⟨events, hevents, hrun⟩ := hm
  have hb := Balanced.serial hstart hs
  have hr := Recorded.serial hstart hs
  obtain ⟨_, hconserved⟩ := Conserved.serial hpoints hs
  obtain ⟨_, hconserved'⟩ := Conserved.serial hpoints (hs.snoc he)
  have hstep : ∃ event, e.event = some event ∧
      Trading.Office.step start.price (Database.office m) event = some (Database.office m') := by
    cases hcall : e.call with
    | book dto => exact office_book hb hr he hcall
    | pay dto => exact office_pay hs hb hr hconserved.each hconserved'.each he hcall
    | charge dto => exact office_charge hconserved.each hconserved'.each he hcall
  obtain ⟨event, hevent, hstep⟩ := hstep
  refine ⟨events ++ [event], by simp [hevents, hevent], ?_⟩
  exact Machine.run_concat.mpr ⟨_, hrun, hstep⟩

/-- The seat that a logged event is about is the one booked or paid. -/
theorem event_concerns (h : Serial (execute zone) start log db) :
    ∀ e ∈ log, ∀ event, LogEntry.event e = some event → ∀ i,
      event.concerns i = (LogEntry.books e i || LogEntry.pays e i) := by
  refine serial_induction (fun log _ => ∀ e ∈ log, ∀ event, LogEntry.event e = some event → ∀ i,
    event.concerns i = (LogEntry.books e i || LogEntry.pays e i)) (by simp) ?_ h
  intro log e m m' _ hm he x hx event hevent i
  rcases mem_snoc.mp hx with hx | rfl
  · exact hm x hx event hevent i
  cases hcall : x.call with
  | book dto =>
    obtain ⟨r, _, hclock, _, hbooks, hpays, _, _⟩ := he.book hcall
    simp only [LogEntry.event, hcall, hclock, Option.map_some, Option.some.injEq] at hevent
    rw [← hevent, hbooks, hpays]
    simp [Trading.Event.concerns]
  | pay dto =>
    obtain ⟨r, _, hbooks, hpays, _, _⟩ := he.pay hcall
    rw [hbooks, hpays]
    obtain ⟨call, choices, result⟩ := x
    obtain rfl : call = .pay dto := hcall
    obtain ⟨r', _, hc, hres, _⟩ := exec_pay.mp he
    obtain rfl : choices = r'.choices := hc
    obtain rfl : result = .paid (r'.result dto) := hres
    obtain rfl := Option.some.inj hevent
    exact (Bool.false_or _).symm ▸ hpays i
  | charge dto =>
    obtain ⟨r, hbooks, hpays, _, _⟩ := he.charge hcall
    simp only [LogEntry.event, hcall, Option.some.injEq] at hevent
    rw [← hevent, hbooks, hpays]
    rfl

/-- A seat with a buyer is one of the seats. -/
theorem Database.seat_of_buyer? (hr : Recorded start log db) {i u : RowId}
    (h : db.buyer? i = some u) : ∃ seat ∈ db.seats, seat.id = i := by
  obtain ⟨payment, hfind, _⟩ := Option.map_eq_some_iff.mp h
  have hid : payment.concertSeatId = i := by simpa using List.find?_some hfind
  obtain ⟨booking, hbooking, _, _, _, _, hseatId, _⟩ :=
    hr.payments payment (List.mem_of_find?_eq_some hfind)
  obtain ⟨seat, hseat, hsid, _⟩ := hr.bookings booking hbooking
  exact ⟨seat, hseat, hsid.trans (hseatId.symm.trans hid)⟩

end Tables

/-- What the call charged the user with. -/
def LogEntry.charged (userId : RowId) (e : LogEntry) : Int :=
  match e.call with
  | .charge dto => if dto.userId = userId then dto.amount else 0
  | _ => 0

theorem deposited_event {e : LogEntry} {event : SaleEvent} (h : e.event = some event)
    (userId : RowId) : Trading.Office.deposited userId event = e.charged userId := by
  cases hcall : e.call with
  | book dto =>
    simp only [LogEntry.event, hcall] at h
    obtain ⟨c, _, rfl⟩ := Option.map_eq_some_iff.mp h
    simp [LogEntry.charged, hcall, Trading.Office.deposited]
  | pay dto =>
    simp only [LogEntry.event, hcall] at h
    split at h
    · obtain ⟨c, _, rfl⟩ := Option.map_eq_some_iff.mp h
      simp [LogEntry.charged, hcall, Trading.Office.deposited]
    · contradiction
  | charge dto =>
    simp only [LogEntry.event, hcall, Option.some.injEq] at h
    rw [← h]
    simp [LogEntry.charged, hcall, Trading.Office.deposited]

theorem deposited_events {log : List LogEntry} {events : List SaleEvent}
    (h : log.map LogEntry.event = events.map some) (userId : RowId) :
    events.map (Trading.Office.deposited userId) = log.map (LogEntry.charged userId) := by
  induction log generalizing events with
  | nil =>
    obtain rfl := List.map_eq_nil_iff.mp h.symm
    rfl
  | cons e log ih =>
    cases events with
    | nil => contradiction
    | cons event events =>
      obtain ⟨hevent, hrest⟩ := List.cons.inj h
      rw [List.map_cons, List.map_cons, deposited_event hevent, ih hrest]

section Served

variable {zone : TimeZone} {start : Database} {s s' : Server}

/-- The server is a box office. Whatever the interleaving, its tables are those
that the office gets to by the events of the committed calls, one after another
and one for each call. -/
theorem serves_box_office (hstart : Unsold start) (hpoints : OnePointEach start)
    (h : Machine.Reachable (serve zone) (Sys.init start) s) :
    ∃ events, s.log.map LogEntry.event = events.map some ∧
      Machine.run (Trading.Office.step start.price) start.office events = some s.db.office := by
  obtain ⟨acts, hacts⟩ := h
  exact office_run hstart hpoints (serializable (execute_guarded zone) hacts)

theorem serves_box_office_sale :
    ∃ s : Server, Machine.run (serve .utc) (Sys.init smallHall) sale = some s ∧
      (s.db.buyer? 1, s.db.balance 1) = (some 1, 900) ∧
      ∃ events, s.log.map LogEntry.event = events.map some ∧
        Machine.run (Trading.Office.step smallHall.price) smallHall.office events =
          some s.db.office := by
  have h : (Machine.run (serve .utc) (Sys.init smallHall) sale).map
      (fun s => (s.db.buyer? 1, s.db.balance 1)) = some (some 1, 900) := by
    decide +kernel
  obtain ⟨s, hs, hsold⟩ := Option.map_eq_some_iff.mp h
  exact ⟨s, hs, hsold, serves_box_office smallHall_unsold smallHall_onePointEach ⟨_, hs⟩⟩

/-- A sale is final: once a seat has a payment, it stays with that user, and no
call that commits later books it or pays for it. -/
theorem sold_for_good {acts more : List (Act Call)} (hstart : Unsold start)
    (hpoints : OnePointEach start) (h : Machine.run (serve zone) (Sys.init start) acts = some s)
    (hmore : Machine.run (serve zone) s more = some s') {seatId userId : RowId}
    (hsold : s.db.buyer? seatId = some userId) :
    s'.db.buyer? seatId = some userId ∧ ∃ later, s'.log = s.log ++ later ∧
      ∀ e ∈ later, LogEntry.books e seatId = false ∧ LogEntry.pays e seatId = false := by
  have hserial := serializable (execute_guarded zone) h
  have hserial' := serializable (execute_guarded zone)
    (Machine.run_append.mpr ⟨s, h, hmore⟩)
  obtain ⟨later, hlog⟩ := Sys.log_prefix hmore
  obtain ⟨events, hevents, hrun⟩ := office_run hstart hpoints hserial
  obtain ⟨all, hall, hrun'⟩ := office_run hstart hpoints hserial'
  rw [← hlog, List.map_append] at hall
  obtain ⟨before, after, rfl, hbefore, hafter⟩ := List.map_eq_append_iff.mp hall.symm
  obtain rfl : before = events :=
    List.map_injective_iff.mpr (Option.some_injective _) (hbefore.trans hevents)
  obtain ⟨m, hm, hrest⟩ := Machine.run_append.mp hrun'
  obtain rfl := Option.some.inj (hrun.symm.trans hm)
  obtain ⟨howner, hquiet⟩ := Trading.Office.owner_run hrest hsold
  refine ⟨howner, later, hlog.symm, ?_⟩
  intro e he
  have hmem : LogEntry.event e ∈ after.map some :=
    hafter ▸ List.mem_map.mpr ⟨e, he, rfl⟩
  obtain ⟨event, hevent, hsome⟩ := List.mem_map.mp hmem
  have hconcerns := event_concerns hserial' e (hlog ▸ List.mem_append_right _ he) event
    hsome.symm seatId
  rw [hquiet event hevent] at hconcerns
  simpa using hconcerns.symm

/-- The buyer charges points after the sale. -/
def chargedAfterSale : List (Act Call) :=
  undisturbed 3 (.charge ⟨1, 50⟩)
    [.clock 210000, .picked (some 1), .quiet, .clock 210000, .issued 2]

theorem sold_for_good_sale : ∃ s s' : Server,
    Machine.run (serve .utc) (Sys.init smallHall) sale = some s ∧
    Machine.run (serve .utc) s chargedAfterSale = some s' ∧ s.log.length < s'.log.length ∧
    s'.db.buyer? 1 = some 1 ∧ ∃ later, s'.log = s.log ++ later ∧
      ∀ e ∈ later, LogEntry.books e 1 = false ∧ LogEntry.pays e 1 = false := by
  have h : ((Machine.run (serve .utc) (Sys.init smallHall) sale).bind fun s =>
      (Machine.run (serve .utc) s chargedAfterSale).map fun s' =>
        (s.db.buyer? 1, decide (s.log.length < s'.log.length))) = some (some 1, true) := by
    decide +kernel
  obtain ⟨s, hs, hmore⟩ := Option.bind_eq_some_iff.mp h
  obtain ⟨s', hs', hresult⟩ := Option.map_eq_some_iff.mp hmore
  obtain ⟨hsold, hlength⟩ := Prod.mk.inj hresult
  exact ⟨s, s', hs, hs', of_decide_eq_true hlength,
    sold_for_good smallHall_unsold smallHall_onePointEach hs hs' hsold⟩

/-- Every balance is accounted for: what a user has left and the prices of the
seats that are theirs make up what they had and what they charged. -/
theorem balances_reconcile (hstart : Unsold start) (hpoints : OnePointEach start)
    (h : Machine.Reachable (serve zone) (Sys.init start) s) (userId : RowId) :
    0 ≤ s.db.balance userId ∧
    s.db.balance userId + (∑ seatId ∈ (s.db.seats.map ConcertSeatEntity.id).toFinset with
        s.db.buyer? seatId = some userId, s.db.price seatId) =
      start.balance userId + (s.log.map (LogEntry.charged userId)).sum := by
  obtain ⟨acts, hacts⟩ := h
  have hserial := serializable (execute_guarded zone) hacts
  have hr := Recorded.serial hstart hserial
  obtain ⟨events, hevents, hrun⟩ := office_run hstart hpoints hserial
  constructor
  · refine Trading.Office.wallet_nonneg ?_ hrun userId
    intro u
    cases hf : start.points.find? fun p => p.userId == u with
    | none => simp [Database.office, Database.balance, hf]
    | some p =>
      have hp := hpoints.nonneg p (List.mem_of_find?_eq_some hf)
      simpa [Database.office, Database.balance, hf] using hp
  · have hnone : ∀ i, start.office.owner i = none := by
      intro i
      simp [Database.office, Database.buyer?, hstart.payments]
    have hitems : ∀ i u, s.db.office.owner i = some u →
        i ∈ (s.db.seats.map ConcertSeatEntity.id).toFinset := by
      intro i u hi
      rw [List.mem_toFinset, List.mem_map]
      exact Database.seat_of_buyer? hr hi
    have hpaid := Trading.Office.paid_run hnone hrun userId _ hitems
    have hwallet := Trading.Office.wallet_run hrun userId
    rw [hpaid, deposited_events hevents] at hwallet
    rw [show s.db.price = start.price from price_kept hserial]
    exact hwallet

theorem balances_reconcile_sale :
    ∃ s : Server, Machine.run (serve .utc) (Sys.init smallHall) (sale ++ chargedAfterSale) =
        some s ∧ s.db.balance 1 = 950 ∧ 0 ≤ s.db.balance 1 ∧
      s.db.balance 1 + (∑ seatId ∈ (s.db.seats.map ConcertSeatEntity.id).toFinset with
          s.db.buyer? seatId = some 1, s.db.price seatId) =
        smallHall.balance 1 + (s.log.map (LogEntry.charged 1)).sum := by
  have h : (Machine.run (serve .utc) (Sys.init smallHall) (sale ++ chargedAfterSale)).map
      (fun s => s.db.balance 1) = some 950 := by
    decide +kernel
  obtain ⟨s, hs, hleft⟩ := Option.map_eq_some_iff.mp h
  exact ⟨s, hs, hleft, balances_reconcile smallHall_unsold smallHall_onePointEach ⟨_, hs⟩ 1⟩

end Served

end HighVolumeBooking
