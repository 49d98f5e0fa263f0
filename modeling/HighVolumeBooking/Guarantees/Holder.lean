import HighVolumeBooking.Guarantees.Holds

namespace HighVolumeBooking

open ReadCommitted

/-- Every booking row was created by one call of the log, which booked its
seat. -/
structure Created (log : List LogEntry) (db : Database) : Prop where
  entry : ∀ booking ∈ db.bookings, ∃ e ∈ log, e.bookingId? = some booking.id ∧
    e.books booking.concertSeatId = true
  row : ∀ e ∈ log, ∀ id, e.bookingId? = some id → ∃ booking ∈ db.bookings, booking.id = id
  once : ∀ e ∈ log, ∀ e' ∈ log, ∀ id, e.bookingId? = some id → e'.bookingId? = some id → e = e'

namespace Created

variable {zone : TimeZone} {start db db' : Database} {log : List LogEntry} {e : LogEntry}

theorem book {dto : BookConcertSeatUseCaseDTO} (h : Created log db) (he : Ran zone db e db')
    (hcall : e.call = .book dto) : Created (log ++ [e]) db' := by
  obtain ⟨r, hr, _, _, hbooks, _, hid, rfl⟩ := he.book hcall
  have hnew : ∀ e' ∈ log, e'.bookingId? ≠ some r.bookingId := by
    intro e' he' heq
    obtain ⟨booking, hb, hb'⟩ := h.row e' he' _ heq
    exact Table.find?_eq_none.mp hr.freshBooking booking hb hb'
  refine ⟨?_, ?_, ?_⟩
  · intro booking hb
    rcases Table.mem_put.mp hb with rfl | ⟨hb, _⟩
    · exact ⟨e, by simp, hid, by simp [hbooks, BookRun.booking]⟩
    · obtain ⟨e', he', hb'⟩ := h.entry booking hb
      exact ⟨e', List.mem_append_left _ he', hb'⟩
  · intro e' he' id hid'
    rcases mem_snoc.mp he' with he' | rfl
    · exact Table.exists_put_fresh hr.freshBooking (h.row e' he' id hid')
    · obtain rfl := Option.some.inj (hid.symm.trans hid')
      exact ⟨_, Table.mem_put.mpr (Or.inl rfl), rfl⟩
  · intro x hx y hy id hxid hyid
    rcases mem_snoc.mp hx with hxl | rfl
    · rcases mem_snoc.mp hy with hyl | rfl
      · exact h.once x hxl y hyl id hxid hyid
      · obtain rfl := Option.some.inj (hid.symm.trans hyid)
        exact absurd hxid (hnew x hxl)
    · rcases mem_snoc.mp hy with hyl | rfl
      · obtain rfl := Option.some.inj (hid.symm.trans hxid)
        exact absurd hyid (hnew y hyl)
      · rfl

/-- Calls that create no booking and keep the seats of all bookings. -/
theorem other (h : Created log db) (hid : e.bookingId? = none)
    (hback : ∀ booking ∈ db'.bookings, ∃ old ∈ db.bookings, old.id = booking.id ∧
      old.concertSeatId = booking.concertSeatId)
    (hkept : ∀ booking ∈ db.bookings, ∃ new ∈ db'.bookings, new.id = booking.id) :
    Created (log ++ [e]) db' := by
  refine ⟨?_, ?_, ?_⟩
  · intro booking hb
    obtain ⟨old, hold, hoid, hseat⟩ := hback booking hb
    obtain ⟨e', he', hid', hbooks⟩ := h.entry old hold
    exact ⟨e', List.mem_append_left _ he', hoid ▸ hid', hseat ▸ hbooks⟩
  · intro e' he' id hid'
    rcases mem_snoc.mp he' with he' | rfl
    · obtain ⟨booking, hb, rfl⟩ := h.row e' he' id hid'
      exact hkept booking hb
    · rw [hid] at hid'
      contradiction
  · intro x hx y hy id hxid hyid
    rcases mem_snoc.mp hx with hx | rfl
    · rcases mem_snoc.mp hy with hy | rfl
      · exact h.once x hx y hy id hxid hyid
      · rw [hid] at hyid
        contradiction
    · rw [hid] at hxid
      contradiction

theorem pay {dto : PayConcertBookingUseCaseDTO} (h : Created log db) (he : Ran zone db e db')
    (hcall : e.call = .pay dto) : Created (log ++ [e]) db' := by
  obtain ⟨r, hr, _, _, hid, rfl⟩ := he.pay hcall
  have hbooking := Table.find?_eq_some.mp hr.booking
  refine h.other hid ?_ ?_
  · intro booking hb
    rcases Table.mem_put.mp hb with rfl | ⟨hb, _⟩
    · exact ⟨r.booking, hbooking.1, rfl, rfl⟩
    · exact ⟨booking, hb, rfl, rfl⟩
  · intro booking hb
    exact Table.exists_key_put ⟨booking, hb, rfl⟩

theorem serial (hstart : start.bookings = []) (h : Serial (execute zone) start log db) :
    Created log db := by
  refine serial_induction Created ⟨by simp [hstart], by simp, by simp⟩ ?_ h
  intro log e m m' _ hm he
  cases hcall : e.call with
  | book dto => exact hm.book he hcall
  | pay dto => exact hm.pay he hcall
  | charge dto =>
    obtain ⟨r, _, _, hid, rfl⟩ := he.charge hcall
    exact hm.other hid (fun b hb => ⟨b, hb, rfl, rfl⟩) fun b hb => ⟨b, hb, rfl⟩

theorem clockOf_eq (h : Created log db) {id : RowId} (he : e ∈ log)
    (hid : e.bookingId? = some id) : clockOf id log = e.bookClock := by
  unfold clockOf
  cases hf : log.find? fun e => e.bookingId? == some id with
  | none =>
    have := List.find?_eq_none.mp hf e he
    simp [hid] at this
  | some x =>
    have hx : x.bookingId? = some id := by simpa using List.find?_some hf
    rw [h.once x (List.mem_of_find?_eq_some hf) e he id hx hid]
    rfl

end Created

section Holder

variable {zone : TimeZone} {start db : Database} {log : List LogEntry}

/-- The seat row of a booking shows whether a later booking took the seat. -/
theorem lastBooking_iff (hstart : start.bookings = []) (h : Serial (execute zone) start log db)
    (hsorted : ∀ e ∈ log, e.clocks.Pairwise (· ≤ ·)) {booking : ConcertBookingEntity}
    {seat : ConcertSeatEntity} (hbooking : booking ∈ db.bookings) (hseat : seat ∈ db.seats)
    (hid : seat.id = booking.concertSeatId) :
    ∃ c, clockOf booking.id log = some c ∧
      (lastBooking seat.id log = some booking.id ↔
        seat.reservedUntil = some c.reservedUntil) := by
  have hcreated := Created.serial hstart h
  obtain ⟨e, he, heid, hebooks⟩ := hcreated.entry booking hbooking
  rw [← hid] at hebooks
  have hmem : e ∈ bookingsOf seat.id log := List.mem_filter.mpr ⟨he, hebooks⟩
  obtain ⟨c, hc⟩ := (respects_chain seat.id h).2 e hmem
  refine ⟨c, (hcreated.clockOf_eq he heid).trans hc, ?_⟩
  obtain ⟨earlier, x, l, hx, hl, hclock⟩ := exists_last h hmem
  have hxmem : x ∈ bookingsOf seat.id log := by simp [hx]
  have hreserved := (Held.serial h).last seat hseat l hclock
  have hlb : lastBooking seat.id log = x.bookingId? := by simp [lastBooking, hx]
  rw [hlb, hreserved]
  constructor
  · intro hxid
    have hxe := hcreated.once x (List.mem_filter.mp hxmem).1 e he booking.id hxid heid
    subst hxe
    rw [Option.some.inj (hl.symm.trans hc)]
  · intro heq
    rw [hx] at hmem
    rcases mem_snoc.mp hmem with hearlier | rfl
    · -- e came before x, so x holds the seat for longer
      have hp := respects_pairwise seat.id h hsorted
      rw [hx] at hp
      obtain ⟨d, d', t, hd, hd', _, hle, hhold⟩ :=
        (List.pairwise_append.mp hp).2.2 e hearlier x (by simp)
      obtain rfl := Option.some.inj (hc.symm.trans hd)
      obtain rfl := Option.some.inj (hl.symm.trans hd')
      have huntil := Option.some.inj heq
      simp only [BookClock.reservedUntil] at hle huntil
      omega
    · exact heid

end Holder

/-- A payment that commits goes to the latest booking of its seat exactly when
the seat still has the deadline that the paid booking wrote. -/
theorem paid_by_holder_iff {zone : TimeZone} {start : Database} {acts : List (Act Call)}
    {s s' : Server} {t : TxId} {tx : Tx schema ErrorCode Response Call}
    {dto : PayConcertBookingUseCaseDTO} (hstart : start.bookings = [])
    (h : Machine.run (serve zone) (Sys.init start) acts = some s)
    (hclock : (acts.filterMap Act.clock?).Pairwise (· ≤ ·)) (hrun : s.running t = some tx)
    (hcall : tx.call = .pay dto) (hs : serve zone s (.commit t) = some s') :
    ∃ booking seat c, s.db.booking? dto.concertBookingId = some booking ∧
      s.db.seat? booking.concertSeatId = some seat ∧
      clockOf dto.concertBookingId s.log = some c ∧
      (lastBooking booking.concertSeatId s.log = some dto.concertBookingId ↔
        seat.reservedUntil = some c.reservedUntil) := by
  have hinv := Inv.run (execute_guarded zone) h
  obtain ⟨_, tx', b, hrun', hexec, _⟩ := hinv.step_commit hs
  obtain rfl := Option.some.inj (hrun.symm.trans hrun')
  rw [hcall] at hexec
  obtain ⟨r, hr, _⟩ := exec_pay.mp hexec
  have hbooking := Table.find?_eq_some.mp hr.booking
  have hseat := Table.find?_eq_some.mp hr.seat
  obtain ⟨c, hc, hiff⟩ := lastBooking_iff hstart hinv.serial (clocks_sorted h hclock) hbooking.1
    hseat.1 hseat.2
  have hbid : r.booking.id = dto.concertBookingId := hbooking.2
  have hsid : r.seat.id = r.booking.concertSeatId := hseat.2
  rw [hbid] at hc
  rw [hbid, hsid] at hiff
  exact ⟨r.booking, r.seat, c, hr.booking, hr.seat, hc, hiff⟩

/-- Five minutes after the first booking of a seat a second one takes it, and
the first is paid in the same millisecond, up to its commit. -/
def paidAfterTakeover : List (Act Call) :=
  undisturbed 1 (.book ⟨1, 1, 1⟩) (bookingAt 0 1 1) ++
  undisturbed 2 (.book ⟨2, 1, 1⟩) (rebookingAt 300000 300000 2 2) ++
  .start 3 (.pay ⟨1, 1⟩) :: (paymentAt 300000 1 1 1 3).map (.stmt 3)

def bookedThenPaid : List (Act Call) :=
  undisturbed 1 (.book ⟨1, 1, 1⟩) (bookingAt 0 1 1) ++
  .start 3 (.pay ⟨1, 1⟩) :: (paymentAt 200000 1 1 1 3).map (.stmt 3)

theorem paid_by_holder_iff_bookedThenPaid :
    ∃ s s' : Server, Machine.run (serve .utc) (Sys.init smallHall) bookedThenPaid = some s ∧
      serve .utc s (.commit 3) = some s' ∧ lastBooking 1 s.log = some 1 ∧
      ∃ booking seat c, s.db.booking? 1 = some booking ∧
        s.db.seat? booking.concertSeatId = some seat ∧ clockOf 1 s.log = some c ∧
        (lastBooking booking.concertSeatId s.log = some 1 ↔
          seat.reservedUntil = some c.reservedUntil) := by
  have h : (Machine.run (serve .utc) (Sys.init smallHall) bookedThenPaid).map (fun s =>
      ((s.running 3).map (·.call), (serve .utc s (.commit 3)).isSome, lastBooking 1 s.log)) =
      some (some (.pay ⟨1, 1⟩), true, some 1) := by
    decide +kernel
  obtain ⟨s, hs, hs'⟩ := Option.map_eq_some_iff.mp h
  simp only [Prod.mk.injEq] at hs'
  obtain ⟨htx, hcommit, hlast⟩ := hs'
  obtain ⟨tx, hrun, hcall⟩ := Option.map_eq_some_iff.mp htx
  obtain ⟨s', hs'⟩ := Option.isSome_iff_exists.mp hcommit
  exact ⟨s, s', hs, hs', hlast, paid_by_holder_iff rfl hs (by decide) hrun hcall hs'⟩

/-- The payment of booking 1 commits although booking 2 was the latest. -/
theorem paid_after_takeover :
    (paidAfterTakeover.filterMap Act.clock?).Pairwise (· ≤ ·) ∧
    ∃ s s' : Server, Machine.run (serve .utc) (Sys.init smallHall) paidAfterTakeover = some s ∧
      (s.running 3).map (·.call) = some (.pay ⟨1, 1⟩) ∧
      serve .utc s (.commit 3) = some s' ∧
      (s.db.booking? 1).map (·.concertSeatId) = some 1 ∧ lastBooking 1 s.log = some 2 := by
  refine ⟨by decide, ?_⟩
  have h : (Machine.run (serve .utc) (Sys.init smallHall) paidAfterTakeover).map (fun s =>
      ((s.running 3).map (·.call), (serve .utc s (.commit 3)).isSome,
        (s.db.booking? 1).map (·.concertSeatId), lastBooking 1 s.log)) =
      some (some (.pay ⟨1, 1⟩), true, some 1, some 2) := by
    decide +kernel
  obtain ⟨s, hs, hs'⟩ := Option.map_eq_some_iff.mp h
  simp only [Prod.mk.injEq] at hs'
  obtain ⟨hcall, hcommit, hseat, hlast⟩ := hs'
  obtain ⟨s', hs'⟩ := Option.isSome_iff_exists.mp hcommit
  exact ⟨s, s', hs, hcall, hs', hseat, hlast⟩

end HighVolumeBooking
