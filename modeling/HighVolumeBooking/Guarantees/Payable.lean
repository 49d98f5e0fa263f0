import HighVolumeBooking.Guarantees.Holds
import HighVolumeBooking.ReadCommitted.OneByOne

namespace HighVolumeBooking

open ReadCommitted

/-- The booking can still be paid at the instant t by its own rule. -/
def ConcertBookingEntity.payableAt (booking : ConcertBookingEntity) (t : Int) : Bool :=
  !booking.isPaid && !decide (booking.expiresAt < t)

def liveBookings (db : Database) (seatId : RowId) (t : Int) : Nat :=
  db.bookings.countP fun b => b.concertSeatId == seatId && b.payableAt t

/-- The seat a booking call booked and the deadline it computed. -/
def LogEntry.deadline (zone : TimeZone) (e : LogEntry) : Option (RowId × Int) :=
  match e.call with
  | .book dto => e.bookClock.map fun c =>
      (dto.concertSeatId, ConcertBooking.calculateExpiryTime zone c.expiry)
  | _ => none

/-- Of two bookings of a seat the later one computed its deadline after that of
the earlier one, or computed one that had already passed. -/
def Apart (zone : TimeZone) (e e' : LogEntry) : Prop :=
  ∀ seatId c c', e.books seatId = true → e'.books seatId = true → e.bookClock = some c →
    e'.bookClock = some c' →
    ConcertBooking.calculateExpiryTime zone c.expiry < c'.expiry ∨
      ConcertBooking.calculateExpiryTime zone c'.expiry < c'.expiry

/-- The reading for the deadline is the last one of a booking. -/
theorem BookClock.expiry_last {readings : List Int} {c : BookClock}
    (hc : BookClock.ofReadings readings = some c) :
    ∃ earlier, readings = earlier ++ [c.expiry] := by
  unfold ofReadings at hc
  split at hc
  · rename_i opened closed began hold expiry
    obtain rfl := Option.some.inj hc
    exact ⟨[opened, closed, began, hold], rfl⟩
  · rename_i opened closed began check hold expiry
    obtain rfl := Option.some.inj hc
    exact ⟨[opened, closed, began, check, hold], rfl⟩
  · contradiction

section Deadlines

variable {zone : TimeZone} {start db db' : Database} {log : List LogEntry} {e : LogEntry}
  {seatId : RowId}

theorem deadline_eq_some {x : RowId × Int} :
    e.deadline zone = some x ↔ ∃ c, e.books x.1 = true ∧ e.bookClock = some c ∧
      x.2 = ConcertBooking.calculateExpiryTime zone c.expiry := by
  obtain ⟨seatId, u⟩ := x
  cases hcall : e.call with
  | book dto =>
    simp only [LogEntry.deadline, LogEntry.books, hcall, Option.map_eq_some_iff, Prod.mk.injEq,
      beq_iff_eq]
    constructor
    · intro h
      obtain ⟨c, hc, rfl, rfl⟩ := h
      exact ⟨c, rfl, hc, rfl⟩
    · intro h
      obtain ⟨c, rfl, hc, rfl⟩ := h
      exact ⟨c, hc, rfl, rfl⟩
  | pay dto => simp [LogEntry.deadline, LogEntry.books, hcall]
  | charge dto => simp [LogEntry.deadline, LogEntry.books, hcall]

/-- The bookings carry the deadlines that the log computed, in its order. -/
theorem deadlines_eq (hstart : start.bookings = []) (h : Serial (execute zone) start log db) :
    db.bookings.map (fun b => (b.concertSeatId, b.expiresAt)) =
      log.filterMap (LogEntry.deadline zone) := by
  refine serial_induction (fun log db => db.bookings.map (fun b => (b.concertSeatId, b.expiresAt)) =
    log.filterMap (LogEntry.deadline zone)) (by simp [hstart]) ?_ h
  intro log e m m' _ hm he
  rw [List.filterMap_append, ← hm]
  cases hcall : e.call with
  | book dto =>
    obtain ⟨r, hr, hclock, _, _, _, _, rfl⟩ := he.book hcall
    have hd : e.deadline zone =
        some (dto.concertSeatId, ConcertBooking.calculateExpiryTime zone r.expiry) := by
      simp [LogEntry.deadline, hcall, hclock, BookRun.clock]
    rw [List.filterMap_cons_some hd]
    exact Table.map_put_fresh _ hr.freshBooking
  | pay dto =>
    obtain ⟨r, hr, _, _, _, rfl⟩ := he.pay hcall
    have hd : e.deadline zone = none := by simp [LogEntry.deadline, hcall]
    rw [List.filterMap_cons_none hd, List.filterMap_nil, List.append_nil]
    exact Table.map_put _ hr.replaced_booking rfl
  | charge dto =>
    obtain ⟨r, _, _, _, rfl⟩ := he.charge hcall
    have hd : e.deadline zone = none := by simp [LogEntry.deadline, hcall]
    rw [List.filterMap_cons_none hd, List.filterMap_nil, List.append_nil]
    rfl

/-- In a zone whose offset never changes the deadlines lie apart when more than
five minutes lie between the readings they were computed from. -/
theorem apart_fixed (hzone : zone.transitions = []) {e' : LogEntry} :
    Apart zone e e' ↔ ∀ seatId c c', e.books seatId = true → e'.books seatId = true →
      e.bookClock = some c → e'.bookClock = some c' → c.expiry + 5 * 60 * 1000 < c'.expiry := by
  have hdeadline : ∀ t, ConcertBooking.calculateExpiryTime zone t = t + 5 * 60 * 1000 := by
    intro t
    unfold ConcertBooking.calculateExpiryTime
    rw [setMinutes_fixed hzone]
    rfl
  constructor
  · intro h seatId c c' hb hb' hc hc'
    have hor := h seatId c c' hb hb' hc hc'
    rw [hdeadline, hdeadline] at hor
    omega
  · intro h seatId c c' hb hb' hc hc'
    rw [hdeadline]
    exact Or.inl (h seatId c c' hb hb' hc hc')

theorem countP_le_one {α : Type} {p : α → Bool} {xs : List α}
    (h : xs.Pairwise fun x y => ¬ (p x = true ∧ p y = true)) : xs.countP p ≤ 1 := by
  induction xs with
  | nil => simp
  | cons x xs ih =>
    obtain ⟨hx, hxs⟩ := List.pairwise_cons.mp h
    rw [List.countP_cons]
    by_cases hp : p x = true
    · have hz : xs.countP p = 0 := List.countP_eq_zero.mpr fun y hy hpy => hx y hy ⟨hp, hpy⟩
      simp [hp, hz]
    · simpa [hp] using ih hxs

/-- Bookings whose deadlines lie apart are not live together. -/
theorem live_le_one (hstart : start.bookings = []) (h : Serial (execute zone) start log db)
    (hapart : log.Pairwise (Apart zone)) {t : Int} (ht : ∀ e ∈ log, ∀ u ∈ e.clocks, u ≤ t) :
    liveBookings db seatId t ≤ 1 := by
  let live : RowId × Int → Bool := fun x => x.1 == seatId && decide (t ≤ x.2)
  have hle : liveBookings db seatId t ≤
      (db.bookings.map fun b => (b.concertSeatId, b.expiresAt)).countP live := by
    rw [List.countP_map]
    apply List.countP_mono_left
    intro b _ hb
    simp only [ConcertBookingEntity.payableAt, Bool.and_eq_true, Bool.not_eq_true',
      decide_eq_false_iff_not, Int.not_lt] at hb
    simp [live, hb.1, hb.2.2]
  refine hle.trans ?_
  rw [deadlines_eq hstart h]
  apply countP_le_one
  rw [List.pairwise_filterMap]
  refine hapart.imp_of_mem ?_
  intro e e' _ he' hr x hx y hy ⟨hpx, hpy⟩
  simp only [live, Bool.and_eq_true, beq_iff_eq, decide_eq_true_eq] at hpx hpy
  obtain ⟨c, hbook, hc, hx⟩ := deadline_eq_some.mp hx
  obtain ⟨c', hbook', hc', hy⟩ := deadline_eq_some.mp hy
  rw [hpx.1] at hbook
  rw [hpy.1] at hbook'
  obtain ⟨earlier, hclocks⟩ := BookClock.expiry_last hc'
  have hnow := ht e' he' c'.expiry (by simp [hclocks])
  rcases hr seatId c c' hbook hbook' hc hc' with hlt | hlt
  · omega
  · omega

/-- A seat that is booked has only unpaid bookings. -/
theorem unpaid_of_books (hstart : Unsold start) (h : Serial (execute zone) start log db)
    (he : Ran zone db e db') (hb : e.books seatId = true) :
    ∀ booking ∈ db.bookings, booking.concertSeatId = seatId → booking.isPaid = false := by
  intro booking hbooking hseat
  obtain ⟨dto, hcall, rfl⟩ := call_of_books hb
  obtain ⟨r, hr, _⟩ := he.book hcall
  obtain ⟨hmem, hid⟩ := Table.find?_eq_some.mp hr.seat
  have hcount := (Balanced.serial hstart h).seats r.seat hmem
  rw [hr.unpaid] at hcount
  have hzero := List.countP_eq_zero.mp hcount booking hbooking
  have hkey : booking.concertSeatId = r.seat.id := hseat.trans hid.symm
  simpa [hkey] using hzero

/-- If the deadlines of two bookings of a seat do not lie apart, both are live
at the instant when the later one computed its own. -/
theorem two_live (hstart : Unsold start) (h : Serial (execute zone) start log db)
    (he : Ran zone db e db') {x : LogEntry} (hx : x ∈ log) {c c' : BookClock}
    (hbx : x.books seatId = true) (hbe : e.books seatId = true) (hcx : x.bookClock = some c)
    (hce : e.bookClock = some c')
    (hlive : c'.expiry ≤ ConcertBooking.calculateExpiryTime zone c.expiry)
    (hown : c'.expiry ≤ ConcertBooking.calculateExpiryTime zone c'.expiry) :
    1 < liveBookings db' seatId c'.expiry := by
  have hmem : (seatId, ConcertBooking.calculateExpiryTime zone c.expiry) ∈
      db.bookings.map fun b => (b.concertSeatId, b.expiresAt) := by
    rw [deadlines_eq hstart.bookings h, List.mem_filterMap]
    exact ⟨x, hx, deadline_eq_some.mpr ⟨c, hbx, hcx, rfl⟩⟩
  obtain ⟨b, hb, hbd⟩ := List.mem_map.mp hmem
  obtain ⟨hseat, hexpires⟩ := Prod.mk.inj hbd
  have hunpaid := unpaid_of_books hstart h he hbe b hb hseat
  have hold : 0 < liveBookings db seatId c'.expiry := by
    refine List.countP_pos_iff.mpr ⟨b, hb, ?_⟩
    simp [hseat, ConcertBookingEntity.payableAt, hunpaid, hexpires, hlive]
  obtain ⟨dto, hcall, rfl⟩ := call_of_books hbe
  obtain ⟨r, hr, hclock, _, _, _, _, rfl⟩ := he.book hcall
  obtain rfl := Option.some.inj (hclock.symm.trans hce)
  have hpayable : (r.booking zone dto).payableAt r.clock.expiry = true := by
    simp only [ConcertBookingEntity.payableAt, Bool.and_eq_true, Bool.not_eq_true',
      decide_eq_false_iff_not, Int.not_lt]
    exact ⟨rfl, hown⟩
  have hnew : liveBookings (Db.apply db (r.writes zone dto)) dto.concertSeatId r.clock.expiry =
      liveBookings db dto.concertSeatId r.clock.expiry + 1 := by
    refine (Table.countP_put_fresh (r := r.booking zone dto) _ hr.freshBooking).trans ?_
    rw [if_pos]
    · rfl
    · rw [hpayable]
      simp [BookRun.booking]
  omega

end Deadlines

def serveAlone (zone : TimeZone) : Desk schema Response Call → Attempt Call →
    Option (Desk schema Response Call) := Desk.step (execute zone)

/-- In every state of the run a seat has at most one live booking, at every
instant that is not before a reading made so far. -/
def OneLiveBooking (zone : TimeZone) (start : Database) (attempts : List (Attempt Call)) : Prop :=
  ∀ past m, past <+: attempts → Machine.run (serveAlone zone) (Desk.init start) past = some m →
    ∀ t, (∀ u ∈ past.flatMap Attempt.clocks, u ≤ t) → ∀ seatId, liveBookings m.db seatId t ≤ 1

section Runs

variable {zone : TimeZone} {start : Database} {attempts : List (Attempt Call)}
  {d : Desk schema Response Call}

/-- A booking reads the clock for its deadline last of all. -/
theorem readings_le_expiry {a : Attempt Call} {e : LogEntry} {c : BookClock}
    (hclock : ((attempts ++ [a]).flatMap Attempt.clocks).Pairwise (· ≤ ·))
    (ha : Entry.clocks e = a.clocks) (hc : e.bookClock = some c) :
    ∀ u ∈ (attempts ++ [a]).flatMap Attempt.clocks, u ≤ c.expiry := by
  obtain ⟨earlier, hlast⟩ := BookClock.expiry_last hc
  rw [List.flatMap_append, List.flatMap_singleton, ← ha, hlast, ← List.append_assoc] at hclock ⊢
  intro u hu
  rcases mem_snoc.mp hu with hu | rfl
  · exact (List.pairwise_append.mp hclock).2.2 u hu _ (by simp)
  · exact Int.le_refl _

theorem apart_of_one_live (hstart : Unsold start)
    (h : Machine.run (serveAlone zone) (Desk.init start) attempts = some d)
    (hclock : (attempts.flatMap Attempt.clocks).Pairwise (· ≤ ·))
    (hlive : OneLiveBooking zone start attempts) : d.log.Pairwise (Apart zone) := by
  revert hclock hlive
  refine Machine.run_induction (fun attempts d =>
    (attempts.flatMap Attempt.clocks).Pairwise (· ≤ ·) → OneLiveBooking zone start attempts →
      d.log.Pairwise (Apart zone)) (fun _ _ => List.Pairwise.nil) ?_ h
  intro as m a d' hrun ih hs hclock hlive
  have hbefore : (as.flatMap Attempt.clocks).Pairwise (· ≤ ·) := by
    rw [List.flatMap_append] at hclock
    exact (List.pairwise_append.mp hclock).1
  have hold := ih hbefore fun past m hp => hlive past m (hp.trans (List.prefix_append _ _))
  rcases Desk.step_cases hs with rfl | ⟨e, he, hlog, hclocks⟩
  · exact hold
  · rw [hlog]
    refine List.pairwise_append.mpr ⟨hold, List.pairwise_singleton _ _, ?_⟩
    intro x hx y hy seatId c c' hbx hby hcx hcy
    obtain rfl := List.mem_singleton.mp hy
    by_contra hnot
    rw [not_or, Int.not_lt, Int.not_lt] at hnot
    have htwo := two_live hstart (Desk.serial hrun) he hx hbx hby hcx hcy hnot.1 hnot.2
    have hone := hlive _ d' List.prefix_rfl (Machine.run_concat.mpr ⟨m, hrun, hs⟩) c'.expiry
      (readings_le_expiry hclock hclocks hcy) seatId
    omega

/-- A seat never has two live bookings exactly when the deadlines of its
bookings lie apart. -/
theorem one_live_booking_iff (hstart : Unsold start)
    (h : Machine.run (serveAlone zone) (Desk.init start) attempts = some d)
    (hclock : (attempts.flatMap Attempt.clocks).Pairwise (· ≤ ·)) :
    OneLiveBooking zone start attempts ↔ d.log.Pairwise (Apart zone) := by
  constructor
  · exact apart_of_one_live hstart h hclock
  · intro hapart past m hp hm t ht seatId
    obtain ⟨rest, rfl⟩ := hp
    obtain ⟨m', hm', hrest⟩ := Machine.run_append.mp h
    obtain rfl := Option.some.inj (hm.symm.trans hm')
    have hlog := (Desk.log_prefix hrest).sublist
    exact live_le_one hstart.bookings (Desk.serial hm) (hapart.sublist hlog)
      fun e he u hu => ht u (Desk.mem_clocks hm e he u hu)

end Runs

/-- The second booking comes after the deadline of the first, and is paid. -/
def rebookedInTime : List (Attempt Call) :=
  [⟨.book ⟨1, 1, 1⟩, bookingAt 0 1 1⟩, ⟨.book ⟨2, 1, 1⟩, rebookingAt 300001 300001 2 2⟩,
    ⟨.pay ⟨2, 2⟩, paymentAt 300002 2 1 1 3⟩]

theorem one_live_booking_iff_rebookedInTime :
    ∃ d, Machine.run (serveAlone .utc) (Desk.init smallHall) rebookedInTime = some d ∧
      (Database.bookings d.db).map (fun b => (b.isPaid, b.expiresAt)) =
        [(false, 300000), (true, 600001)] ∧
      (OneLiveBooking .utc smallHall rebookedInTime ↔ d.log.Pairwise (Apart .utc)) := by
  have h : (Machine.run (serveAlone .utc) (Desk.init smallHall) rebookedInTime).map
      (fun d => (Database.bookings d.db).map fun b => (b.isPaid, b.expiresAt)) =
      some [(false, 300000), (true, 600001)] := by
    decide +kernel
  obtain ⟨d, hd, hbookings⟩ := Option.map_eq_some_iff.mp h
  exact ⟨d, hd, hbookings, one_live_booking_iff smallHall_unsold hd (by decide)⟩

/-- The second booking comes in the last millisecond of the first. -/
def rebookedAtDeadline : List (Attempt Call) :=
  [⟨.book ⟨1, 1, 1⟩, bookingAt 0 1 1⟩, ⟨.book ⟨2, 1, 1⟩, rebookingAt 300000 300000 2 2⟩]

theorem two_live_bookings :
    (rebookedAtDeadline.flatMap Attempt.clocks).Pairwise (· ≤ ·) ∧
      ¬ OneLiveBooking .utc smallHall rebookedAtDeadline := by
  refine ⟨by decide, ?_⟩
  intro hlive
  have h : (Machine.run (serveAlone .utc) (Desk.init smallHall) rebookedAtDeadline).map
      (fun d => liveBookings d.db 1 300000) = some 2 := by
    decide +kernel
  obtain ⟨d, hd, htwo⟩ := Option.map_eq_some_iff.mp h
  have hone := hlive _ d List.prefix_rfl hd 300000 (by decide) 1
  omega

end HighVolumeBooking
