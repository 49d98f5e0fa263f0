import HighVolumeBooking.Guarantees.Serializability
import HighVolumeBooking.ReadCommitted.Progress

namespace HighVolumeBooking

open ReadCommitted

section Lengths

variable {γ : Type} {n : Nat} {begun : Bool}

/-! How many statements each method and service takes at most, given that what
follows it ends. -/

theorem throwIf_finishes {c : Prop} [Decidable c] {e : ErrorCode} {f : Unit → Script γ}
    (hf : Finishes begun n (f ())) : Finishes begun n ((Prog.throwIf c e).bind f) := by
  rw [Prog.throwIf_bind]
  split
  · exact .fail e
  · exact hf

theorem ConcertSchedule.validateBookable_finishes (schedule : ConcertSchedule) :
    Finishes begun 2 (schedule.validateBookable : Script Unit) := by
  refine .now fun opened => throwIf_finishes (.now fun closed => ?_)
  simp only [Prog.done_bind, Prog.throwIf]
  split
  · exact .fail _
  · exact .done _

/-- The first reading is there only where a reservation is. -/
theorem ConcertSeat.book_finishes (seat : ConcertSeat) :
    Finishes begun 2 (seat.book : Script ConcertSeat) := by
  unfold book
  cases seat.reservedUntil with
  | none => exact throwIf_finishes (throwIf_finishes (.now fun _ => .done _))
  | some u => exact .now fun _ => throwIf_finishes (throwIf_finishes (.now fun _ => .done _))

theorem ConcertSeat.pay_finishes (seat : ConcertSeat) :
    Finishes begun 1 (seat.pay : Script ConcertSeat) := by
  unfold pay
  cases seat.reservedUntil with
  | none => exact throwIf_finishes (throwIf_finishes (.done _))
  | some u => exact throwIf_finishes (.now fun _ => throwIf_finishes (.done _))

theorem ConcertBooking.pay_finishes (booking : ConcertBooking) (userId : RowId) :
    Finishes begun 1 (booking.pay userId : Script ConcertBooking) :=
  throwIf_finishes (throwIf_finishes (.now fun _ => throwIf_finishes (.done _)))

theorem ConcertService.changeSeat_finishes {m : Nat} {id : RowId}
    {change : ConcertSeat → Script ConcertSeat} {f : ConcertSeat → Script γ}
    (hchange : ∀ seat, Finishes begun m (change seat)) (hf : ∀ seat, Finishes begun n (f seat)) :
    Finishes begun (n + 1 + m + 1) (changeSeat id change f) := by
  refine .find fun entity => ?_
  cases entity with
  | none => exact .fail _
  | some entity =>
    refine (hchange _).bind fun seat => .update fun updated => ?_
    simp only [Prog.done_bind]
    split
    · exact .fail _
    · exact hf seat

theorem ConcertService.payBooking_finishes {dto : PayConcertBookingDTO}
    {f : ConcertBooking → Script γ} (hf : ∀ booking, Finishes begun n (f booking)) :
    Finishes begun (n + 1 + 1 + 1) ((payBooking dto).bind f) := by
  rw [payBooking_bind]
  refine .find fun entity => ?_
  cases entity with
  | none => exact .fail _
  | some entity =>
    refine (ConcertBooking.pay_finishes _ _).bind fun booking => .update fun updated => ?_
    simp only [Prog.done_bind]
    split
    · exact .fail _
    · exact hf booking

theorem PointService.createHistory_finishes {dto : CreatePointHistoryDTO}
    {f : PointHistory → Script γ} (hf : ∀ history, Finishes true n (f history)) :
    Finishes true (n + 1 + 1) ((createHistory dto).bind f) := by
  simp only [createHistory, PointHistory.create, Prog.bind_eq, Prog.bind_assoc]
  exact throwIf_finishes (.now fun recordedAt => .insert (fun _ _ => rfl) fun _ => hf _)

theorem PointService.changePoint_finishes {userId : RowId} {change : Point → Script Point}
    {amount : Int} {type : PointTransactionType} {f : Point → Script γ}
    (hchange : ∀ point, Finishes true 0 (change point)) (hf : ∀ point, Finishes true n (f point)) :
    Finishes true (n + 1 + 1 + 1 + 1) (changePoint userId change amount type f) := by
  refine .findForUpdate fun entity => ?_
  cases entity with
  | none => exact .fail _
  | some entity =>
    exact (hchange _).bind fun point => .save (createHistory_finishes fun _ => hf point)

end Lengths

/-- A call takes at most thirteen statements. -/
theorem execute_finishes (zone : TimeZone) (call : Call) :
    Finishes false 13 (execute zone call) := by
  cases call with
  | book dto =>
    rw [execute_book, ConcertService.validateScheduleIsBookable_bind]
    have hinserts : ∀ seat : ConcertSeat, Finishes true 3 ((BookingService.createBooking zone
        (dto.toCreateConcertBookingDTO seat.concertId seat.price)).bind fun booking =>
          (OutboxService.create (dto.toCreateOutboxDTO booking)).bind fun outbox =>
            (.done (.booked ⟨booking, ⟨outbox, .concertBookingCompleted⟩⟩) : Script Response)) :=
      fun seat => .now fun _ => .insert (fun _ _ => rfl) fun _ =>
        .insert (fun _ _ => rfl) fun _ => .done _
    refine .find fun schedule => ?_
    cases schedule with
    | none => exact .fail _
    | some schedule =>
      refine ((ConcertSchedule.validateBookable_finishes _).bind (n := 8) fun _ => ?_).mono
        (by decide) id
      refine .begin ?_
      rw [ConcertService.bookSeat_bind]
      exact ConcertService.changeSeat_finishes ConcertSeat.book_finishes hinserts
  | pay dto =>
    rw [execute_pay]
    refine .begin (ConcertService.payBooking_finishes fun booking => ?_)
    rw [ConcertService.paySeat_bind]
    refine ConcertService.changeSeat_finishes ConcertSeat.pay_finishes fun seat => ?_
    rw [PointService.use_bind]
    refine PointService.changePoint_finishes (fun point => ?_) fun point => ?_
    · exact throwIf_finishes (throwIf_finishes (.done _))
    · exact .insert (fun _ _ => rfl) fun _ => .insert (fun _ _ => rfl) fun _ => .done _
  | charge dto =>
    rw [execute_charge, PointService.charge_bind]
    refine (Finishes.begin (n := 4) ?_).mono (by decide) id
    refine PointService.changePoint_finishes (fun point => ?_) fun point => .done _
    exact throwIf_finishes (.done _)

/-- No state is stuck. At whatever instant the clock stands, the open
transactions of a reachable state can all be brought to their commit, or to
the rollback of a script that failed, without a timeout, a foreign rollback or
a new call, in at most fourteen steps each; then no row is locked. -/
theorem open_transactions_finish {zone : TimeZone} {start : Database} {s : Server}
    (h : Machine.Reachable (serve zone) (Sys.init start) s) (now : Int) :
    ∃ ts : Finset TxId, (∀ t, t ∈ ts ↔ ∃ tx, s.running t = some tx) ∧
      ∃ acts, ∃ s' : Server, Machine.run (serve zone) s acts = some s' ∧
        acts.length ≤ 14 * ts.card ∧ (∀ t, acts.countP (fun a => a.tx = t) ≤ 14) ∧
        Machine.Along (serve zone) OwnStep s acts ∧
        (∀ a ∈ acts, ∀ t, a.clock? = some t → t = now) ∧
        (∀ t, s'.running t = none) ∧ ∀ k, s'.owner k = none := by
  obtain ⟨ts, hts⟩ := Sys.exists_open h
  have hclosing : Closing s ts fun _ => 14 :=
    ⟨fun t tx hr => (hts t).mpr ⟨tx, hr⟩, Finishes.reachable (execute_finishes zone) h⟩
  have hlocks := LockInv.reachable (execute_ordered zone) h
  obtain ⟨acts, s', hrun, hlen, hcount, halong, hclock, hclosed⟩ :=
    hclosing.drain now hlocks (execute_ordered zone)
  refine ⟨ts, hts, acts, s', hrun, ?_, hcount, halong, hclock, hclosed, ?_⟩
  · rw [Finset.sum_const_nat fun _ _ => rfl, Nat.mul_comm] at hlen
    exact hlen
  · intro k
    obtain ⟨past, hpast⟩ := h
    have hreach : Machine.Reachable (serve zone) (Sys.init start) s' :=
      ⟨past ++ acts, Machine.run_append.mpr ⟨s, hpast, hrun⟩⟩
    by_contra hk
    obtain ⟨t, ht⟩ := Option.ne_none_iff_exists'.mp hk
    obtain ⟨tx, htx⟩ := (LockInv.reachable (execute_ordered zone) hreach).live k t ht
    rw [hclosed t] at htx
    contradiction

/-- From the contention on a seat the bookings go on to their end. -/
theorem open_transactions_finish_seatContention :
    ∃ s : Server, Machine.run (serve .utc) (Sys.init smallHall) seatContention = some s ∧
      serve .utc s (.stmt 2 .quiet) = none ∧
      ∃ ts : Finset TxId, (∀ t, t ∈ ts ↔ ∃ tx, s.running t = some tx) ∧
        ∃ acts, ∃ s' : Server, Machine.run (serve .utc) s acts = some s' ∧
          acts.length ≤ 14 * ts.card ∧ (∀ t, acts.countP (fun a => a.tx = t) ≤ 14) ∧
          Machine.Along (serve .utc) OwnStep s acts ∧
          (∀ a ∈ acts, ∀ t, a.clock? = some t → t = 9) ∧
          (∀ t, s'.running t = none) ∧ ∀ k, s'.owner k = none := by
  have h : (Machine.run (serve .utc) (Sys.init smallHall) seatContention).map (fun s =>
      (serve .utc s (.stmt 2 .quiet)).isNone) = some true := by
    decide +kernel
  obtain ⟨s, hs, hblocked⟩ := Option.map_eq_some_iff.mp h
  exact ⟨s, hs, Option.isNone_iff_eq_none.mp hblocked, open_transactions_finish ⟨_, hs⟩ 9⟩

end HighVolumeBooking
