import HighVolumeBooking.Guarantees.Sales
import Mathlib.Data.List.Chain

namespace HighVolumeBooking

open ReadCommitted

/-- The readings of a booking call in the order it made them. -/
structure BookClock where
  opened : Int
  closed : Int
  began : Int
  check : Option Int
  hold : Int
  expiry : Int
  deriving DecidableEq, Repr

/-- A booking of a seat that had no reservation makes no reading for the
check. -/
def BookClock.ofReadings : List Int → Option BookClock
  | [opened, closed, began, hold, expiry] => some ⟨opened, closed, began, none, hold, expiry⟩
  | [opened, closed, began, check, hold, expiry] =>
    some ⟨opened, closed, began, some check, hold, expiry⟩
  | _ => none

/-- The deadline that the booking wrote to its seat. -/
def BookClock.reservedUntil (c : BookClock) : Int := c.hold + 5 * 60 * 1000

def BookRun.clock (r : BookRun) : BookClock :=
  ⟨r.opened, r.closed, r.began, r.check, r.hold, r.expiry⟩

theorem BookRun.clocks (r : BookRun) : r.choices.filterMap Choice.clock? =
    [r.opened, r.closed, r.began] ++ r.check.toList ++ [r.hold, r.expiry] := by
  cases h : r.check with
  | none => simp only [choices, h]; rfl
  | some t => simp only [choices, h]; rfl

theorem BookRun.ofReadings (r : BookRun) :
    BookClock.ofReadings (r.choices.filterMap Choice.clock?) = some r.clock := by
  rw [r.clocks]
  cases h : r.check with
  | none => simp only [clock, h]; rfl
  | some t => simp only [clock, h]; rfl

namespace LogEntry

def books (e : LogEntry) (seatId : RowId) : Bool :=
  match e.call with
  | .book dto => dto.concertSeatId == seatId
  | _ => false

def pays (e : LogEntry) (seatId : RowId) : Bool :=
  match e.result with
  | .paid p => p.payment.concertSeatId == seatId
  | _ => false

def bookingId? (e : LogEntry) : Option RowId :=
  match e.result with
  | .booked b => some b.booking.id
  | _ => none

def bookClock (e : LogEntry) : Option BookClock := BookClock.ofReadings e.clocks

end LogEntry

def bookingsOf (seatId : RowId) (log : List LogEntry) : List LogEntry :=
  log.filter fun e => e.books seatId

/-- The most recently committed booking of the seat. -/
def lastBooking (seatId : RowId) (log : List LogEntry) : Option RowId :=
  (bookingsOf seatId log).getLast?.bind LogEntry.bookingId?

def lastClock (seatId : RowId) (log : List LogEntry) : Option BookClock :=
  (bookingsOf seatId log).getLast?.bind LogEntry.bookClock

/-- The readings of the call that created the booking. -/
def clockOf (bookingId : RowId) (log : List LogEntry) : Option BookClock :=
  (log.find? fun e => e.bookingId? == some bookingId).bind LogEntry.bookClock

section Logs

variable {seatId : RowId} {log : List LogEntry} {e : LogEntry}

theorem bookingsOf_snoc (h : e.books seatId = true) :
    bookingsOf seatId (log ++ [e]) = bookingsOf seatId log ++ [e] := by
  simp [bookingsOf, List.filter_append, h]

theorem bookingsOf_snoc_other (h : e.books seatId = false) :
    bookingsOf seatId (log ++ [e]) = bookingsOf seatId log := by
  simp [bookingsOf, List.filter_append, h]

theorem lastClock_snoc (h : e.books seatId = true) :
    lastClock seatId (log ++ [e]) = e.bookClock := by
  simp [lastClock, bookingsOf_snoc h]

theorem lastClock_snoc_other (h : e.books seatId = false) :
    lastClock seatId (log ++ [e]) = lastClock seatId log := by
  simp [lastClock, bookingsOf_snoc_other h]

end Logs

/-! What a logged call tells about itself. -/

section Entries

variable {zone : TimeZone} {db db' : Database} {e : LogEntry}

/-- The logged call is one that succeeded on db. -/
def Ran (zone : TimeZone) (db : Database) (e : LogEntry) (db' : Database) : Prop :=
  exec (execute zone e.call) db e.choices = some (.ok e.result, db')

theorem Ran.book {dto : BookConcertSeatUseCaseDTO} (h : Ran zone db e db')
    (hcall : e.call = .book dto) : ∃ r : BookRun, r.On dto db ∧ e.bookClock = some r.clock ∧
      e.clocks = [r.opened, r.closed, r.began] ++ r.check.toList ++ [r.hold, r.expiry] ∧
      (∀ id, e.books id = (dto.concertSeatId == id)) ∧ (∀ id, e.pays id = false) ∧
      e.bookingId? = some r.bookingId ∧ db' = Db.apply db (r.writes zone dto) := by
  obtain ⟨call, choices, result⟩ := e
  obtain rfl : call = .book dto := hcall
  obtain ⟨r, hr, hc, hres, rfl⟩ := exec_book.mp h
  obtain rfl : choices = r.choices := hc
  obtain rfl : result = .booked (r.result zone dto) := hres
  exact ⟨r, hr, r.ofReadings, r.clocks, fun _ => rfl, fun _ => rfl, rfl, rfl⟩

theorem Ran.pay {dto : PayConcertBookingUseCaseDTO} (h : Ran zone db e db')
    (hcall : e.call = .pay dto) : ∃ r : PayRun, r.On dto db ∧ (∀ id, e.books id = false) ∧
      (∀ id, e.pays id = (r.booking.concertSeatId == id)) ∧ e.bookingId? = none ∧
      db' = Db.apply db (r.writes dto) := by
  obtain ⟨call, choices, result⟩ := e
  obtain rfl : call = .pay dto := hcall
  obtain ⟨r, hr, _, hres, rfl⟩ := exec_pay.mp h
  obtain rfl : result = .paid (r.result dto) := hres
  exact ⟨r, hr, fun _ => rfl, fun _ => rfl, rfl, rfl⟩

theorem Ran.charge {dto : ChargePointUseCaseDTO} (h : Ran zone db e db')
    (hcall : e.call = .charge dto) : ∃ r : ChargeRun, (∀ id, e.books id = false) ∧
      (∀ id, e.pays id = false) ∧ e.bookingId? = none ∧ db' = Db.apply db (r.writes dto) := by
  obtain ⟨call, choices, result⟩ := e
  obtain rfl : call = .charge dto := hcall
  obtain ⟨r, _, _, hres, rfl⟩ := exec_charge.mp h
  obtain rfl := hres
  exact ⟨r, fun _ => rfl, fun _ => rfl, rfl, rfl⟩

theorem serial_induction {start : Database} {log : List LogEntry}
    (P : List LogEntry → Database → Prop) (base : P [] start)
    (ind : ∀ log (e : LogEntry) m m', Serial (execute zone) start log m → P log m →
      Ran zone m e m' → P (log ++ [e]) m')
    (h : Serial (execute zone) start log db) : P log db :=
  h.invariant P base ind

end Entries

/-- The row of a seat follows the log: its reservation is the one its latest
booking wrote, and a payment of it is remembered. -/
structure Held (log : List LogEntry) (db : Database) : Prop where
  last : ∀ seat ∈ db.seats, ∀ c, lastClock seat.id log = some c →
    seat.reservedUntil = some c.reservedUntil
  paid : ∀ e ∈ log, ∀ seat ∈ db.seats, e.pays seat.id = true → seat.isPaid = true

namespace Held

variable {zone : TimeZone} {db db' : Database} {log : List LogEntry} {e : LogEntry}

theorem book {dto : BookConcertSeatUseCaseDTO} (h : Held log db) (he : Ran zone db e db')
    (hcall : e.call = .book dto) : Held (log ++ [e]) db' := by
  obtain ⟨r, hr, hclock, _, hbooks, hpays, _, rfl⟩ := he.book hcall
  have hseat := Table.find?_eq_some.mp hr.seat
  have hid : dto.concertSeatId = r.seat.id := hseat.2.symm
  constructor
  · intro seat hs c hc
    rcases Table.mem_put.mp hs with rfl | ⟨hs, hne⟩
    · rw [lastClock_snoc (by simp [hbooks, hid, BookRun.heldSeat]), hclock] at hc
      obtain rfl := Option.some.inj hc
      rfl
    · have hother : dto.concertSeatId ≠ seat.id := by
        rw [hid]
        exact Ne.symm hne
      rw [lastClock_snoc_other (by simp [hbooks, hother])] at hc
      exact h.last seat hs c hc
  · intro e' he' seat hs hp
    rcases mem_snoc.mp he' with he' | rfl
    · rcases Table.mem_put.mp hs with rfl | ⟨hs, _⟩
      · exact h.paid e' he' r.seat hseat.1 hp
      · exact h.paid e' he' seat hs hp
    · rw [hpays] at hp
      contradiction

theorem pay {dto : PayConcertBookingUseCaseDTO} (h : Held log db) (he : Ran zone db e db')
    (hcall : e.call = .pay dto) : Held (log ++ [e]) db' := by
  obtain ⟨r, hr, hbooks, hpays, _, rfl⟩ := he.pay hcall
  have hseat := Table.find?_eq_some.mp hr.seat
  constructor
  · intro seat hs c hc
    rw [lastClock_snoc_other (hbooks _)] at hc
    rcases Table.mem_put.mp hs with rfl | ⟨hs, _⟩
    · exact h.last r.seat hseat.1 c hc
    · exact h.last seat hs c hc
  · intro e' he' seat hs hp
    rcases Table.mem_put.mp hs with rfl | ⟨hs, hne⟩
    · rfl
    · rcases mem_snoc.mp he' with he' | rfl
      · exact h.paid e' he' seat hs hp
      · rw [hpays, beq_iff_eq] at hp
        exact absurd (hp.symm.trans hseat.2.symm) hne

theorem charge {dto : ChargePointUseCaseDTO} (h : Held log db) (he : Ran zone db e db')
    (hcall : e.call = .charge dto) : Held (log ++ [e]) db' := by
  obtain ⟨r, hbooks, hpays, _, rfl⟩ := he.charge hcall
  constructor
  · intro seat hs c hc
    rw [lastClock_snoc_other (hbooks _)] at hc
    exact h.last seat hs c hc
  · intro e' he' seat hs hp
    rcases mem_snoc.mp he' with he' | rfl
    · exact h.paid e' he' seat hs hp
    · rw [hpays] at hp
      contradiction

theorem serial {start : Database} (h : Serial (execute zone) start log db) : Held log db := by
  refine serial_induction Held ⟨by simp [lastClock, bookingsOf], by simp⟩ ?_ h
  intro log e m m' _ hm he
  cases hcall : e.call with
  | book dto => exact hm.book he hcall
  | pay dto => exact hm.pay he hcall
  | charge dto => exact hm.charge he hcall

end Held

/-- The reservation check of the later booking came no earlier than the
deadline that the earlier one wrote. -/
def Respects (e e' : LogEntry) : Prop :=
  ∃ c c' t, e.bookClock = some c ∧ e'.bookClock = some c' ∧ c'.check = some t ∧
    c.reservedUntil ≤ t

section Holds

variable {zone : TimeZone} {start db db' : Database} {log : List LogEntry} {e : LogEntry}
  {seatId : RowId}

theorem call_of_books (h : e.books seatId = true) :
    ∃ dto, e.call = .book dto ∧ dto.concertSeatId = seatId := by
  unfold LogEntry.books at h
  split at h
  · rename_i dto hcall
    exact ⟨dto, hcall, by simpa using h⟩
  · contradiction

theorem bookClock_of_books (he : Ran zone db e db') (hb : e.books seatId = true) :
    ∃ c, e.bookClock = some c := by
  obtain ⟨dto, hcall, _⟩ := call_of_books hb
  obtain ⟨r, _, hclock, _⟩ := he.book hcall
  exact ⟨_, hclock⟩

/-- A booking that succeeds checked against the deadline of the latest one. -/
theorem Held.check (h : Held log db) (he : Ran zone db e db') (hb : e.books seatId = true)
    {c : BookClock} (hc : lastClock seatId log = some c) :
    ∃ c' t, e.bookClock = some c' ∧ c'.check = some t ∧ c.reservedUntil ≤ t := by
  obtain ⟨dto, hcall, rfl⟩ := call_of_books hb
  obtain ⟨r, hr, hclock, _⟩ := he.book hcall
  have hseat := Table.find?_eq_some.mp hr.seat
  have hid : r.seat.id = dto.concertSeatId := hseat.2
  have hlast := h.last r.seat hseat.1 c (hid ▸ hc)
  have hfree := hr.free
  rw [hlast] at hfree
  cases hcheck : r.check with
  | none =>
    rw [hcheck] at hfree
    exact hfree.elim
  | some t =>
    rw [hcheck] at hfree
    exact ⟨r.clock, t, hclock, hcheck, hfree⟩

theorem lastClock_of_getLast {log : List LogEntry} {x : LogEntry}
    (hx : (bookingsOf seatId log).getLast? = some x) : lastClock seatId log = x.bookClock := by
  simp [lastClock, hx]

/-- Consecutive bookings of a seat, whatever the clock does. -/
theorem respects_chain (seatId : RowId) (h : Serial (execute zone) start log db) :
    (bookingsOf seatId log).IsChain Respects ∧
      ∀ e ∈ bookingsOf seatId log, ∃ c, e.bookClock = some c := by
  refine serial_induction (fun log _ => (bookingsOf seatId log).IsChain Respects ∧
    ∀ e ∈ bookingsOf seatId log, ∃ c, e.bookClock = some c)
    ⟨by simp [bookingsOf], by simp [bookingsOf]⟩ ?_ h
  intro log e m m' hs ⟨hchain, hclocks⟩ he
  cases hb : e.books seatId with
  | false =>
    rw [bookingsOf_snoc_other hb]
    exact ⟨hchain, hclocks⟩
  | true =>
    rw [bookingsOf_snoc hb]
    constructor
    · refine List.isChain_append.mpr ⟨hchain, by simp, ?_⟩
      intro x hx y hy
      obtain rfl : e = y := by simpa using hy
      have hlast := lastClock_of_getLast hx
      obtain ⟨c, hc⟩ := hclocks x (List.mem_of_getLast? hx)
      obtain ⟨c', t, hc', hcheck, hle⟩ := (Held.serial hs).check he hb (hlast.trans hc)
      exact ⟨c, c', t, hc, hc', hcheck, hle⟩
    · intro x hx
      rcases mem_snoc.mp hx with hx | rfl
      · exact hclocks x hx
      · exact bookClock_of_books he hb

/-- A seat that was booked has a last booking. -/
theorem exists_last (h : Serial (execute zone) start log db) (he : e ∈ bookingsOf seatId log) :
    ∃ earlier x c, bookingsOf seatId log = earlier ++ [x] ∧ x.bookClock = some c ∧
      lastClock seatId log = some c := by
  obtain ⟨earlier, x, hx⟩ : ∃ earlier x, bookingsOf seatId log = earlier ++ [x] :=
    List.eq_nil_or_concat' _ |>.resolve_left (List.ne_nil_of_mem he)
  obtain ⟨c, hc⟩ := (respects_chain seatId h).2 x (by simp [hx])
  exact ⟨earlier, x, c, hx, hc, (lastClock_of_getLast (by simp [hx])).trans hc⟩

/-- The same for a later booking that did not read its clock backwards
between its check and its hold. -/
def RespectsInTime (e e' : LogEntry) : Prop :=
  ∃ c c' t, e.bookClock = some c ∧ e'.bookClock = some c' ∧ c'.check = some t ∧
    c.reservedUntil ≤ t ∧ t ≤ c'.hold

instance : Trans RespectsInTime RespectsInTime RespectsInTime where
  trans := by
    rintro e e' e'' ⟨c, c', t, hc, hc', _, hle, hhold⟩ ⟨d, d', t', hd, hd', hcheck, hle', hhold'⟩
    obtain rfl := Option.some.inj (hc'.symm.trans hd)
    refine ⟨c, d', t', hc, hd', hcheck, ?_, hhold'⟩
    simp only [BookClock.reservedUntil] at hle hle' ⊢
    omega

theorem BookClock.mem_readings {readings : List Int} {c : BookClock}
    (hc : BookClock.ofReadings readings = some c) :
    c.hold ∈ readings ∧ ∀ t, c.check = some t → t ∈ readings := by
  unfold ofReadings at hc
  split at hc
  · obtain rfl := Option.some.inj hc
    simp
  · obtain rfl := Option.some.inj hc
    simp
  · contradiction

theorem BookClock.check_le_hold {readings : List Int} {c : BookClock} {t : Int}
    (hc : BookClock.ofReadings readings = some c) (ht : c.check = some t)
    (hs : readings.Pairwise (· ≤ ·)) : t ≤ c.hold := by
  unfold ofReadings at hc
  split at hc
  · obtain rfl := Option.some.inj hc
    contradiction
  · obtain rfl := Option.some.inj hc
    obtain rfl := Option.some.inj ht
    simp only [List.pairwise_cons, List.mem_cons] at hs
    exact hs.2.2.2.1 _ (Or.inl rfl)
  · contradiction

theorem respects_pairwise (seatId : RowId) (h : Serial (execute zone) start log db)
    (hsorted : ∀ e ∈ log, e.clocks.Pairwise (· ≤ ·)) :
    (bookingsOf seatId log).Pairwise RespectsInTime := by
  apply List.IsChain.pairwise
  refine (respects_chain seatId h).1.imp_of_mem_imp ?_
  intro e e' _ he' hrespects
  obtain ⟨c, c', t, hc, hc', hcheck, hle⟩ := hrespects
  have hs := hsorted e' (List.mem_filter.mp he').1
  exact ⟨c, c', t, hc, hc', hcheck, hle, BookClock.check_le_hold hc' hcheck hs⟩

theorem no_booking_after_payment (h : Serial (execute zone) start log db) :
    log.Pairwise fun e e' => e.pays seatId = true → e'.books seatId = false := by
  refine serial_induction (fun log _ => log.Pairwise
    fun e e' => e.pays seatId = true → e'.books seatId = false) List.Pairwise.nil ?_ h
  intro log e m m' hs hp he
  refine List.pairwise_append.mpr ⟨hp, List.pairwise_singleton _ _, ?_⟩
  intro x hx y hy hpays
  obtain rfl := List.mem_singleton.mp hy
  by_contra hb
  obtain ⟨dto, hcall, rfl⟩ := call_of_books (by simpa using hb)
  obtain ⟨r, hr, _⟩ := he.book hcall
  have hseat := Table.find?_eq_some.mp hr.seat
  have hid : r.seat.id = dto.concertSeatId := hseat.2
  have hpaid := (Held.serial hs).paid x hx r.seat hseat.1 (hid ▸ hpays)
  rw [hr.unpaid] at hpaid
  contradiction

/-- Bookings whose readings all lie within five minutes cannot follow one
another directly. -/
theorem no_chain_within_window {group : List LogEntry} {t₀ : Int}
    (hchain : group.IsChain Respects)
    (hw : ∀ e ∈ group, ∀ u ∈ e.clocks, t₀ ≤ u ∧ u < t₀ + 5 * 60 * 1000) : group.length ≤ 1 := by
  match group with
  | [] => simp
  | [_] => simp
  | e :: e' :: _ =>
    obtain ⟨c, c', t, hc, hc', hcheck, hle⟩ := (List.isChain_cons_cons.mp hchain).1
    have h₁ := hw e (by simp) _ (BookClock.mem_readings hc).1
    have h₂ := hw e' (by simp) _ ((BookClock.mem_readings hc').2 t hcheck)
    simp only [BookClock.reservedUntil] at hle
    omega

end Holds

/-- Seat holds exclude one another. Of two bookings of a seat that commit one
after the other the later one was checked no earlier than the deadline of the
earlier one, whatever the clock does; if no call reads the clock backwards
this holds of any two, and they hold the seat five minutes apart. Bookings
within a shorter time do not both commit, and none follows a payment. -/
theorem holds_exclusive {zone : TimeZone} {start : Database} {s : Server} (seatId : RowId)
    (h : Machine.Reachable (serve zone) (Sys.init start) s) :
    (bookingsOf seatId s.log).IsChain Respects ∧
    ((∀ e ∈ s.log, e.clocks.Pairwise (· ≤ ·)) → (bookingsOf seatId s.log).Pairwise fun e e' =>
      Respects e e' ∧ ∃ c c', e.bookClock = some c ∧ e'.bookClock = some c' ∧
        c.hold + 5 * 60 * 1000 ≤ c'.hold) ∧
    (∀ t₀ group, group <:+: bookingsOf seatId s.log →
      (∀ e ∈ group, ∀ u ∈ e.clocks, t₀ ≤ u ∧ u < t₀ + 5 * 60 * 1000) → group.length ≤ 1) ∧
    s.log.Pairwise fun (e e' : LogEntry) =>
      e.pays seatId = true → e'.books seatId = false := by
  obtain ⟨acts, hacts⟩ := h
  have hserial := serializable (execute_guarded zone) hacts
  have hchain := (respects_chain seatId hserial).1
  refine ⟨hchain, ?_, ?_, no_booking_after_payment hserial⟩
  · intro hsorted
    refine (respects_pairwise seatId hserial hsorted).imp ?_
    intro e e' hrespects
    obtain ⟨c, c', t, hc, hc', hcheck, hle, hhold⟩ := hrespects
    exact ⟨⟨c, c', t, hc, hc', hcheck, hle⟩, c, c', hc, hc', Int.le_trans hle hhold⟩
  · intro t₀ group hgroup hw
    exact no_chain_within_window ( List.IsChain.infix hchain hgroup) hw

/-- Two users ask for a seat at once, and again five minutes later. Each time one
of them books it, and the other one is turned away. -/
def askedTwice : List (Act Call) :=
  turnedAway ++ [.abort 2, .start 3 (.book ⟨2, 1, 1⟩), .start 4 (.book ⟨1, 1, 1⟩), .stmt 3 .quiet,
    .stmt 4 .quiet] ++
  (List.replicate 3 [.stmt 3 (.clock 300003), .stmt 4 (.clock 300003)]).flatten ++
  [.stmt 3 .quiet, .stmt 4 .quiet, .stmt 4 (.clock 300003), .stmt 4 (.clock 300003),
    .stmt 3 (.clock 300003), .stmt 3 (.clock 300004), .stmt 3 .quiet, .stmt 3 (.clock 300004),
    .stmt 3 (.issued 2), .stmt 3 (.issued 3), .commit 3, .stmt 4 .quiet]

theorem holds_exclusive_askedTwice :
    ∃ s : Server, Machine.run (serve .utc) (Sys.init smallHall) askedTwice = some s ∧
      (bookingsOf 1 s.log).map (·.call) = [.book ⟨1, 1, 1⟩, .book ⟨2, 1, 1⟩] ∧
      ((s.running 4).bind fun tx => tx.frame.prog.error?) = some .optimisticLockConflict ∧
      (bookingsOf 1 s.log).IsChain Respects := by
  have h : (Machine.run (serve .utc) (Sys.init smallHall) askedTwice).map (fun s =>
      ((bookingsOf 1 s.log).map (·.call), (s.running 4).bind fun tx => tx.frame.prog.error?)) =
      some ([.book ⟨1, 1, 1⟩, .book ⟨2, 1, 1⟩], some .optimisticLockConflict) := by
    decide +kernel
  obtain ⟨s, hs, h⟩ := Option.map_eq_some_iff.mp h
  obtain ⟨hcalls, hfail⟩ := Prod.mk.inj h
  exact ⟨s, hs, hcalls, hfail, (holds_exclusive 1 ⟨_, hs⟩).1⟩

/-- Three bookings of a seat; the clock is set back during the second. -/
def setBackDuringBooking : List (Act Call) :=
  undisturbed 1 (.book ⟨1, 1, 1⟩) (bookingAt 1000000 1 1) ++
  undisturbed 2 (.book ⟨2, 1, 1⟩) (rebookingAt 1300000 0 2 2) ++
  undisturbed 3 (.book ⟨1, 1, 1⟩) (rebookingAt 300000 300000 3 3)

/-- The third booking checks the seat long before the deadline of the first. -/
theorem holds_overlap_when_set_back :
    ∃ s : Server, Machine.run (serve .utc) (Sys.init smallHall) setBackDuringBooking = some s ∧
      ¬ (bookingsOf 1 s.log).Pairwise Respects := by
  have h : (Machine.run (serve .utc) (Sys.init smallHall) setBackDuringBooking).map
      (fun s => (bookingsOf 1 s.log).map LogEntry.bookClock) =
      some [some ⟨1000000, 1000000, 1000000, none, 1000000, 1000000⟩,
        some ⟨1300000, 1300000, 1300000, some 1300000, 0, 0⟩,
        some ⟨300000, 300000, 300000, some 300000, 300000, 300000⟩] := by
    decide +kernel
  obtain ⟨s, hs, hclocks⟩ := Option.map_eq_some_iff.mp h
  refine ⟨s, hs, ?_⟩
  intro hp
  have hmap : ((bookingsOf 1 s.log).map LogEntry.bookClock).Pairwise fun o o' =>
      ∃ c c' t, o = some c ∧ o' = some c' ∧ c'.check = some t ∧ c.reservedUntil ≤ t :=
    List.pairwise_map.mpr hp
  rw [hclocks] at hmap
  simp [BookClock.reservedUntil] at hmap

end HighVolumeBooking
