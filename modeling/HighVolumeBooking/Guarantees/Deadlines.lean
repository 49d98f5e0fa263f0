import HighVolumeBooking.Common.LocalTime
import HighVolumeBooking.Guarantees.Listing
import HighVolumeBooking.Guarantees.Window
import HighVolumeBooking.Interface.Response

namespace HighVolumeBooking

open ReadCommitted

variable {t : Int}

/-- What p evaluates to while the clock stands at t, where it needs no database. -/
abbrev valueAt {β : Type} (t : Int) (p : Prog schema ErrorCode β) : Option (Except ErrorCode β) :=
  p.clockAt t

/-- A seat without a live hold at t. -/
def ConcertSeat.BookableAt (seat : ConcertSeat) (t : Int) : Prop :=
  seat.isPaid = false ∧ ∀ u, seat.reservedUntil = some u → u ≤ t

theorem ConcertSeat.book_at {seat held : ConcertSeat} :
    valueAt t seat.book = some (.ok held) ↔
      seat.BookableAt t ∧ held = { seat with reservedUntil := some (t + 5 * 60 * 1000) } := by
  unfold BookableAt
  cases hu : seat.reservedUntil with
  | none => cases hp : seat.isPaid <;> simp [book, hu, hp, eq_comm]
  | some u =>
    by_cases hlt : t < u
    · simp [book, hu, hlt]
    · cases hp : seat.isPaid <;> simp [book, hu, hp, hlt, eq_comm]
      omega

theorem ConcertSeat.isAvailable_at (seat : ConcertSeat) (t : Int) :
    ∃ b, valueAt t seat.isAvailable = some (.ok b) ∧ (b = true ↔ seat.BookableAt t) := by
  unfold isAvailable BookableAt
  cases hp : seat.isPaid with
  | true => exact ⟨false, rfl, by simp⟩
  | false =>
    cases hu : seat.reservedUntil with
    | none => exact ⟨true, rfl, by simp⟩
    | some u => exact ⟨!decide (u > t), rfl, by simp⟩

theorem ConcertSchedule.validateBookable_at {schedule : ConcertSchedule} :
    valueAt t schedule.validateBookable = some (.ok ()) ↔
      schedule.bookingStartAt ≤ t ∧ t ≤ schedule.bookingEndAt := by
  by_cases hs : t < schedule.bookingStartAt
  · simp [validateBookable, Prog.throwIf, hs]
  · by_cases he : schedule.bookingEndAt < t <;> simp [validateBookable, Prog.throwIf, hs, he]
    omega

theorem ConcertBooking.create_at (zone : TimeZone) (dto : CreateConcertBookingDTO) (t : Int) :
    ∃ booking, valueAt t (create zone dto) = some (.ok booking) ∧
      booking.expiresAt = calculateExpiryTime zone t :=
  ⟨_, rfl, rfl⟩

/-- The two deadlines of one hold taken at t: the payment deadline of the
booking and the end of the reservation of the seat. -/
def DeadlinesAgree (zone : TimeZone) (t : Int) : Prop :=
  ∀ (dto : CreateConcertBookingDTO) (seat held : ConcertSeat) (booking : ConcertBooking),
    valueAt t (ConcertBooking.create zone dto) = some (.ok booking) →
    valueAt t seat.book = some (.ok held) →
    held.reservedUntil = some booking.expiresAt ∧ booking.expiresAt = t + 300000

theorem calculateExpiryTime_eq (zone : TimeZone) (t : Int) :
    ConcertBooking.calculateExpiryTime zone t = zone.utcOf (zone.localTime t + 300000) :=
  setMinutes_getMinutes_add zone t 5

theorem deadlines_agree_iff (zone : TimeZone) (t : Int) :
    DeadlinesAgree zone t ↔ zone.KeepsTime t 300000 := by
  rw [← TimeZone.utcOf_localTime_add_iff, ← calculateExpiryTime_eq]
  constructor
  · intro h
    let seat : ConcertSeat := ⟨1, 1, 1, 1, 1, false, none, none⟩
    obtain ⟨booking, hcreate, hexpires⟩ := ConcertBooking.create_at zone ⟨1, 1, 1, 1, 1⟩ t
    obtain ⟨_, he⟩ := h _ seat _ _ hcreate (ConcertSeat.book_at.mpr ⟨⟨rfl, by simp [seat]⟩, rfl⟩)
    exact hexpires ▸ he
  · intro h dto seat held booking hcreate hbook
    obtain ⟨_, rfl⟩ := ConcertSeat.book_at.mp hbook
    obtain ⟨booking', hcreate', hexpires⟩ := ConcertBooking.create_at zone dto t
    obtain rfl := Except.ok.inj (Option.some.inj (hcreate.symm.trans hcreate'))
    rw [hexpires, h]
    exact ⟨rfl, rfl⟩

/-- A zone whose clocks go back by an hour at 0. -/
def clocksBack : TimeZone := ⟨3600000, [(0, 0)], by simp⟩

/-- A repeated time is read as its first instant: what is booked at 0 was
payable until 55 minutes before. -/
theorem deadlines_differ : ¬ DeadlinesAgree clocksBack 0 := by
  intro h
  let seat : ConcertSeat := ⟨1, 1, 1, 1, 1, false, none, none⟩
  let booking : ConcertBooking := ⟨0, 1, 1, 1, 1, 1, false, -3300000, none⟩
  obtain ⟨_, he⟩ := h ⟨1, 1, 1, 1, 1⟩ seat { seat with reservedUntil := some 300000 } booking
    (by decide +kernel) (by decide)
  exact absurd he (by decide)

variable {st : ListingStore} {schedule : ConcertScheduleEntity} {seat : ConcertSeatEntity}

/-- What the customers are shown at t: the uncached listing returns the
schedule and the seat is available. -/
def Offered (st : ListingStore) (schedule : ConcertScheduleEntity) (seat : ConcertSeatEntity)
    (t : Int) : Prop :=
  (∃ schedules,
    (ConcertScheduleRepository.findAllBookableByConcertId schedule.concertId).Gives (st.setNow t)
      (.ok schedules) (st.setNow t) ∧
    ListedScheduleMapper.toDomain (st.join schedule) ∈ schedules) ∧
  ∃ response, valueAt t (ConcertSeatResponse.from (ConcertSeatMapper.toDomain seat)) =
    some (.ok response) ∧ response.isAvailable = true

/-- What booking accepts with the clock standing at t. -/
def Accepted (schedule : ConcertScheduleEntity) (seat : ConcertSeatEntity) (t : Int) : Prop :=
  ∃ held, valueAt t ((ConcertScheduleMapper.toDomain schedule).validateBookable.bind fun _ =>
    (ConcertSeatMapper.toDomain seat).book) = some (.ok held)

theorem ListingStore.mem_bookable_iff (h : schedule ∈ st.schedules.rows) (t u : Int) :
    ListedScheduleMapper.toDomain (st.join schedule) ∈
      (st.setNow u).bookable schedule.concertId t ↔ schedule.openAt t = true := by
  simp only [bookable, List.map_map, List.mem_map, List.mem_filter, Bool.and_eq_true]
  constructor
  · intro hm
    obtain ⟨row, ⟨_, _, hopen⟩, he⟩ := hm
    simp only [Function.comp, ListedScheduleMapper.toDomain, join, ListedSchedule.mk.injEq,
      ConcertSchedule.mk.injEq] at he
    simpa only [ConcertScheduleEntity.openAt, he] using hopen
  · intro hopen
    exact ⟨schedule, ⟨h, beq_self_eq_true _, hopen⟩, rfl⟩

theorem offered_iff (h : schedule ∈ st.schedules.rows) :
    Offered st schedule seat t ↔
      (schedule.bookingStartAt ≤ t ∧ t < schedule.bookingEndAt) ∧ seat.BookableAt t := by
  obtain ⟨b, hb, hbookable⟩ := (ConcertSeatMapper.toDomain seat).isAvailable_at t
  have hlisted : schedule.openAt t = true ↔
      schedule.bookingStartAt ≤ t ∧ t < schedule.bookingEndAt := by
    simp [ConcertScheduleEntity.openAt]
  rw [Offered, ← hlisted, ← st.mem_bookable_iff h t t]
  simp only [ConcertScheduleRepository.gives_findAllBookableByConcertId]
  constructor
  · intro ho
    obtain ⟨⟨schedules, ⟨hs, _⟩, hm⟩, response, hr, ha⟩ := ho
    obtain rfl := Except.ok.inj hs
    obtain ⟨b', hb', hr⟩ := Prog.clockAt_bind.mp hr
    obtain rfl := Except.ok.inj (Option.some.inj (hb.symm.trans hb'))
    obtain rfl := Except.ok.inj (Option.some.inj hr)
    exact ⟨hm, hbookable.mp ha⟩
  · intro ho
    obtain ⟨hm, ha⟩ := ho
    exact ⟨⟨_, ⟨rfl, True.intro⟩, hm⟩, _, Prog.clockAt_bind.mpr ⟨b, hb, rfl⟩, hbookable.mpr ha⟩

theorem accepted_iff :
    Accepted schedule seat t ↔
      (schedule.bookingStartAt ≤ t ∧ t ≤ schedule.bookingEndAt) ∧ seat.BookableAt t := by
  simp only [Accepted, valueAt, Prog.clockAt_bind]
  constructor
  · intro h
    obtain ⟨held, ⟨⟩, hv, hb⟩ := h
    exact ⟨ConcertSchedule.validateBookable_at.mp hv, (ConcertSeat.book_at.mp hb).1⟩
  · intro h
    exact ⟨_, (), ConcertSchedule.validateBookable_at.mpr h.1, ConcertSeat.book_at.mpr ⟨h.2, rfl⟩⟩

/-- The listing is right except at the last instant that booking accepts. -/
theorem offered_iff_accepted_iff (h : schedule ∈ st.schedules.rows) (seat : ConcertSeatEntity)
    (t : Int) : (Offered st schedule seat t ↔ Accepted schedule seat t) ↔
      ¬ (t = schedule.bookingEndAt ∧ schedule.bookingStartAt ≤ t ∧ seat.BookableAt t) := by
  rw [offered_iff h, accepted_iff]
  constructor
  · intro hiff hlast
    obtain ⟨he, hs, hb⟩ := hlast
    have := (hiff.mpr ⟨⟨hs, by omega⟩, hb⟩).1.2
    omega
  · intro hnot
    constructor
    · intro ho
      exact ⟨⟨ho.1.1, by omega⟩, ho.2⟩
    · intro ha
      refine ⟨⟨ha.1.1, ?_⟩, ha.2⟩
      have hne : t ≠ schedule.bookingEndAt := fun he => hnot ⟨he, ha.1.1, ha.2⟩
      have := ha.1.2
      omega

/-- One schedule, bookable from 0 to 10. -/
def oneSchedule : ListingStore :=
  ⟨.single _ ⟨1, "", none⟩, .single _ ⟨1, 1, 0, 10, 20, 30⟩, fun _ => none, 0⟩

theorem offered_iff_accepted_at_five :
    (⟨1, 1, 0, 10, 20, 30⟩ : ConcertScheduleEntity) ∈ oneSchedule.schedules.rows ∧
    ((Offered oneSchedule ⟨1, 1, 0, 10, 20, 30⟩ ⟨1, 1, 1, 100, 1, false, none, 0⟩ 5 ↔
      Accepted ⟨1, 1, 0, 10, 20, 30⟩ ⟨1, 1, 1, 100, 1, false, none, 0⟩ 5) ↔
      ¬ ((5 : Int) = 10 ∧ (0 : Int) ≤ 5 ∧
        ConcertSeatEntity.BookableAt ⟨1, 1, 1, 100, 1, false, none, 0⟩ 5)) :=
  ⟨by decide, offered_iff_accepted_iff (by decide) _ _⟩

/-- At 10 the seat can be booked and the schedule is not listed any more. -/
theorem accepted_not_offered :
    ¬ (Offered oneSchedule ⟨1, 1, 0, 10, 20, 30⟩ ⟨1, 1, 1, 100, 1, false, none, 0⟩ 10 ↔
      Accepted ⟨1, 1, 0, 10, 20, 30⟩ ⟨1, 1, 1, 100, 1, false, none, 0⟩ 10) := by
  intro h
  have hbookable : ConcertSeatEntity.BookableAt ⟨1, 1, 1, 100, 1, false, none, 0⟩ 10 :=
    ⟨rfl, by simp⟩
  have hoffered := h.mpr (accepted_iff.mpr ⟨by decide, hbookable⟩)
  have hin : (⟨1, 1, 0, 10, 20, 30⟩ : ConcertScheduleEntity) ∈ oneSchedule.schedules.rows := by decide
  exact absurd ((offered_iff hin).mp hoffered).1.2 (by decide)

end HighVolumeBooking
