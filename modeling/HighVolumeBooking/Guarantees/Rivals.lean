import HighVolumeBooking.Guarantees.History
import HighVolumeBooking.ReadCommitted.Footprint

namespace HighVolumeBooking

open ReadCommitted

variable {γ : Type}

/-! What a call is for. -/

/-- The seat of a payment is that of its booking. -/
def Call.seat? (db : Database) : Call → Option RowId
  | .book dto => some dto.concertSeatId
  | .pay dto => (db.booking? dto.concertBookingId).map ConcertBookingEntity.concertSeatId
  | .charge _ => none

def Call.booking? : Call → Option RowId
  | .pay dto => some dto.concertBookingId
  | _ => none

/-- The user whose points a call changes. -/
def Call.pointsOf? : Call → Option RowId
  | .book _ => none
  | .pay dto => some dto.userId
  | .charge dto => some dto.userId

/-- Two calls for one seat or for one booking. -/
def Call.Contends (db : Database) (call other : Call) : Prop :=
  (∃ seatId, call.seat? db = some seatId ∧ other.seat? db = some seatId) ∨
  ∃ bookingId, call.booking? = some bookingId ∧ other.booking? = some bookingId

/-- Two calls for one seat, for one booking, or on the points of one user. -/
def Call.Rivals (db : Database) (call other : Call) : Prop :=
  call.Contends db other ∨
    ∃ userId, call.pointsOf? = some userId ∧ other.pointsOf? = some userId

/-- The rows a call may lock, as the tables of db have them. -/
def Call.Locks (db : Database) (call : Call) (k : Key schema) : Prop :=
  match k.1 with
  | .concertSeats => call.seat? db = some k.2
  | .concertBookings => call.booking? = some k.2
  | .points => ∃ p ∈ db.points, p.id = k.2 ∧ call.pointsOf? = some p.userId
  | _ => False

theorem Call.rivals_of_locks {db : Database} {call other : Call} {k : Key schema}
    (h : call.Locks db k) (h' : other.Locks db k) : call.Rivals db other := by
  obtain ⟨τ, i⟩ := k
  cases τ with
  | concertSeats => exact Or.inl (Or.inl ⟨i, h, h'⟩)
  | concertBookings => exact Or.inl (Or.inr ⟨i, h, h'⟩)
  | points =>
    obtain ⟨p, hp, hid, huser⟩ := h
    obtain ⟨p', hp', hid', huser'⟩ := h'
    obtain rfl : p = p' := Table.eq_of_key hp hp' (hid.trans hid'.symm)
    exact Or.inr ⟨p.userId, huser, huser'⟩
  | concertSchedules => exact h.elim
  | concertPaymentHistories => exact h.elim
  | pointHistories => exact h.elim
  | outbox => exact h.elim

/-- In db the row is still there, for the same seat or the same user. -/
def Database.Has (db : Database) : (τ : Tab) → τ.Row → Prop
  | .concertBookings, booking =>
    ∃ b ∈ db.bookings, b.id = booking.id ∧ b.concertSeatId = booking.concertSeatId
  | .points, point => ∃ p ∈ db.points, p.id = point.id ∧ p.userId = point.userId
  | _, _ => True

theorem Evolves.has {db db' : Database} (h : Evolves db db') : Db.Each db'.Has db := by
  intro τ r hr
  cases τ with
  | concertBookings =>
    obtain ⟨b, hb, hid, hturns⟩ := h.bookings r hr
    exact ⟨b, hb, hid, by rw [hturns.kept]⟩
  | points =>
    have hmem := List.mem_map_of_mem (f := fun p : PointEntity => (p.id, p.userId)) hr
    rw [← h.points] at hmem
    obtain ⟨p, hp, heq⟩ := List.mem_map.mp hmem
    obtain ⟨hid, huser⟩ := Prod.mk.inj heq
    exact ⟨p, hp, hid, huser⟩
  | concertSchedules => trivial
  | concertSeats => trivial
  | concertPaymentHistories => trivial
  | pointHistories => trivial
  | outbox => trivial

/-! Each service locks rows of its call only, given that what follows it does. -/

section Services

variable {K : Key schema → Prop} {P : (τ : Tab) → τ.Row → Prop} {db : Database}
  {written : List Tab}

theorem ConcertService.changeSeat_within {id : RowId} {change : ConcertSeat → Script ConcertSeat}
    {f : ConcertSeat → Script γ} (hchange : ∀ seat, ClockOnly seat.Same (change seat))
    (hfirst : Tab.concertSeats ∉ written) (hK : K (Tab.concertSeats, id))
    (hf : ∀ seat, Within K P (Tab.concertSeats :: written) (f seat)) :
    Within K P written (changeSeat id change f) := by
  refine ⟨hfirst, True.intro, ?_⟩
  intro entity hentity hid
  refine Within.bind_clockOnly (hchange _) ?_
  intro seat hsame
  obtain ⟨sid, concertId, concertScheduleId, price, number, isPaid, reservedUntil, version⟩ := seat
  obtain rfl : sid = id := hsame.1.trans hid
  obtain rfl : version = some entity.version := hsame.2
  exact ⟨rfl, hfirst, hK, ⟨entity, hentity, hid, rfl⟩, True.intro, hf _⟩

/-- A booking that is paid keeps its seat. -/
theorem ConcertBooking.pay_keeps (booking : ConcertBooking) (userId : RowId) :
    ClockOnly (fun b => booking.Same b ∧ b.concertSeatId = booking.concertSeatId)
      (booking.pay userId : Script ConcertBooking) := by
  simp [pay, ClockOnly, Same]

theorem ConcertService.payBooking_within {dto : PayConcertBookingDTO}
    {f : ConcertBooking → Script γ} (hP : ∀ τ r, P τ r → db.Has τ r)
    (hK : K (Tab.concertBookings, dto.concertBookingId))
    (hf : ∀ booking, (∃ b ∈ db.bookings, b.id = dto.concertBookingId ∧
        b.concertSeatId = booking.concertSeatId) →
      Within K P [Tab.concertBookings] (f booking)) :
    Within K P [] ((payBooking dto).bind f) := by
  rw [payBooking_bind]
  refine ⟨List.not_mem_nil, True.intro, ?_⟩
  intro entity hentity hid
  refine Within.bind_clockOnly (ConcertBooking.pay_keeps _ _) ?_
  intro booking hkeeps
  obtain ⟨hsame, hseat⟩ := hkeeps
  obtain ⟨b, hb, hbid, hbseat⟩ := hP _ _ hentity
  obtain ⟨bid, uid, concertId, concertScheduleId, concertSeatId, price, isPaid, expiresAt,
    version⟩ := booking
  obtain rfl : bid = dto.concertBookingId := hsame.1.trans hid
  obtain rfl : version = some entity.version := hsame.2
  refine ⟨rfl, List.not_mem_nil, hK, ⟨entity, hentity, hid, rfl⟩, True.intro, ?_⟩
  exact hf _ ⟨b, hb, hbid.trans hid, hbseat.trans hseat.symm⟩

theorem PointService.changePoint_within {userId : RowId} {change : Point → Script Point}
    {amount : Int} {type : PointTransactionType} {f : Point → Script γ}
    (hchange : ∀ point, ClockOnly (fun p => p.id = point.id) (change point))
    (hP : ∀ τ r, P τ r → db.Has τ r) (hfirst : Tab.points ∉ written)
    (hK : ∀ p ∈ db.points, p.userId = userId → K (Tab.points, p.id))
    (hf : ∀ point, InsertOnly (f point)) :
    Within K P written (changePoint userId change amount type f) := by
  refine ⟨hfirst, True.intro, ?_⟩
  intro entity hentity huser
  obtain ⟨p, hp, hid, hsame⟩ := hP _ _ hentity
  have hlock : K (Tab.points, entity.id) :=
    hid ▸ hK p hp (hsame.trans (eq_of_beq huser))
  refine ⟨hlock, Within.bind_clockOnly (hchange _) ?_⟩
  intro point hpoint
  obtain ⟨pid, uid, amount'⟩ := point
  obtain rfl : pid = entity.id := hpoint
  exact ⟨hlock, (createHistory_insertOnly fun _ => hf _).within⟩

theorem execute_within (zone : TimeZone) (hP : ∀ τ r, P τ r → db.Has τ r) (call : Call) :
    Within (call.Locks db) P [] (execute zone call) := by
  have hpoints : ∀ userId, call.pointsOf? = some userId → ∀ p ∈ db.points, p.userId = userId →
      call.Locks db (Tab.points, p.id) := by
    intro userId hcall p hp huser
    exact ⟨p, hp, rfl, huser ▸ hcall⟩
  cases call with
  | book dto =>
    rw [execute_book, ConcertService.validateScheduleIsBookable_bind]
    refine ⟨List.not_mem_nil, True.intro, ?_⟩
    intro schedule _ _
    refine Within.bind_clockOnly (ConcertSchedule.validateBookable_clockOnly _) ?_
    intro _ _
    show Within _ _ [] (Prog.bind _ _)
    rw [ConcertService.bookSeat_bind]
    refine ConcertService.changeSeat_within ConcertSeat.book_clockOnly List.not_mem_nil rfl ?_
    intro seat
    refine InsertOnly.within (BookingService.createBooking_insertOnly fun booking => ?_)
    exact OutboxService.create_insertOnly fun _ => True.intro
  | pay dto =>
    rw [execute_pay]
    refine ConcertService.payBooking_within hP rfl fun booking hbooking => ?_
    rw [ConcertService.paySeat_bind]
    have hseat : (Call.pay dto).Locks db (Tab.concertSeats, booking.concertSeatId) := by
      obtain ⟨b, hb, hid, hsame⟩ := hbooking
      have hfind : db.booking? dto.concertBookingId = some b := Table.find?_eq_some.mpr ⟨hb, hid⟩
      show (db.booking? dto.concertBookingId).map _ = _
      rw [hfind, Option.map_some, hsame]
    refine ConcertService.changeSeat_within ConcertSeat.pay_clockOnly (by simp) hseat fun seat => ?_
    rw [PointService.use_bind]
    refine PointService.changePoint_within (fun _ => Point.use_clockOnly _ _) hP (by simp)
      (hpoints _ rfl) fun point => ?_
    refine PaymentService.create_insertOnly fun payment => ?_
    exact OutboxService.create_insertOnly fun _ => True.intro
  | charge dto =>
    rw [execute_charge]
    show Within _ _ [] (Prog.bind _ _)
    rw [PointService.charge_bind]
    exact PointService.changePoint_within (fun _ => Point.charge_clockOnly _ _) hP
      List.not_mem_nil (hpoints _ rfl) fun _ => True.intro

end Services

/-- What a state of a run has stored, the last one still has. -/
theorem Evolves.throughout {zone : TimeZone} {start : Database} {m s : Server}
    {acts : List (Act Call)} (h : Machine.Reachable (serve zone) (Sys.init start) m)
    (hmore : Machine.run (serve zone) m acts = some s) :
    Machine.Throughout (serve zone) (fun u => Evolves u.db s.db) m acts := by
  rintro past u ⟨rest, rfl⟩ hu
  obtain ⟨u', hu', hrest⟩ := Machine.run_append.mp hmore
  obtain rfl := Option.some.inj (hu.symm.trans hu')
  obtain ⟨before, hm⟩ := h
  exact Machine.related_run (fun u u' : Server => Evolves u.db u'.db) (fun u => .refl u.db)
    (fun _ _ _ => .trans) (fun _ _ _ => .step)
    ⟨before ++ past, Machine.run_append.mpr ⟨m, hm, hu⟩⟩ hrest

/-- A call only ever waits for a rival: when its next statement cannot run for a
lock, another open call is for the same seat, for the same booking, or on the
points of the same user. -/
theorem only_rivals_wait {zone : TimeZone} {start : Database} {s : Server} {t : TxId}
    {tx : Tx schema ErrorCode Response Call} {c : Choice}
    {o : ReadCommitted.Outcome schema ErrorCode Response}
    (h : Machine.Reachable (serve zone) (Sys.init start) s) (hr : s.running t = some tx)
    (ho : tx.frame.step s.committed c = some o) (hblocked : s.free t o.locks = false) :
    ∃ u other, u ≠ t ∧ s.running u = some other ∧ tx.call.Rivals s.db other.call := by
  obtain ⟨acts, hrun⟩ := h
  have hstored : Machine.Throughout (serve zone) (fun u => Db.Each s.db.Has u.committed)
      (Sys.init start) acts :=
    (Evolves.throughout .refl hrun).imp fun _ _ hu => hu.has
  have hlocks := LocksWithin.run (T := fun _ => True) (.of_unopened (by simp [Sys.init])
    (by simp [Sys.init])) (execute_within zone fun _ _ hr => hr) hrun hstored
  obtain ⟨u, other, k, hne, hu, hmine, htheirs⟩ :=
    hlocks.of_blocked (Evolves.has (.refl s.db)) hr ho hblocked
  exact ⟨u, other, hne, hu, Call.rivals_of_locks hmine htheirs⟩

/-- The second booking of the contended seat waits for the first. -/
theorem only_rivals_wait_seatContention :
    ∃ s : Server, Machine.run (serve .utc) (Sys.init smallHall) seatContention = some s ∧
      ∃ tx o, s.running 2 = some tx ∧ tx.frame.step s.committed .quiet = some o ∧
        s.free 2 o.locks = false ∧
        ∃ u other, u ≠ 2 ∧ s.running u = some other ∧ tx.call.Rivals s.db other.call := by
  have h : (Machine.run (serve .utc) (Sys.init smallHall) seatContention).map (fun s =>
      (s.running 2).bind fun tx => (tx.frame.step s.committed .quiet).map fun o =>
        s.free 2 o.locks) = some (some false) := by
    decide +kernel
  obtain ⟨s, hs, htx⟩ := Option.map_eq_some_iff.mp h
  obtain ⟨tx, hr, ho⟩ := Option.bind_eq_some_iff.mp htx
  obtain ⟨o, ho, hblocked⟩ := Option.map_eq_some_iff.mp ho
  exact ⟨s, hs, tx, o, hr, ho, hblocked, only_rivals_wait ⟨_, hs⟩ hr ho hblocked⟩

end HighVolumeBooking
