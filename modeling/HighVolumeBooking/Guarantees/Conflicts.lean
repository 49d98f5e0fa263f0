import HighVolumeBooking.Guarantees.Rivals
import HighVolumeBooking.ReadCommitted.Conflict

namespace HighVolumeBooking

open ReadCommitted

/-! A use case reports a conflict for a missed update only. -/

section Conflicts

variable {γ : Type}

abbrev Conflicting : Script γ → Prop := FailsByUpdate ErrorCode.optimisticLockConflict

theorem throwIf_conflicting {c : Prop} [Decidable c] {e : ErrorCode} {f : Unit → Script γ}
    (he : e ≠ .optimisticLockConflict) (hf : Conflicting (f ())) :
    Conflicting ((Prog.throwIf c e).bind f) := by
  rw [Prog.throwIf_bind]
  split
  · exact he
  · exact hf

theorem ConcertSchedule.validateBookable_conflicting (schedule : ConcertSchedule) :
    Conflicting (schedule.validateBookable : Script Unit) := by
  intro opened
  refine throwIf_conflicting (by decide) fun closed => ?_
  simp only [Prog.done_bind, Prog.throwIf]
  split
  · exact (by decide : ErrorCode.bookingAlreadyPassed ≠ .optimisticLockConflict)
  · exact True.intro

theorem ConcertSeat.book_conflicting (seat : ConcertSeat) :
    Conflicting (seat.book : Script ConcertSeat) := by
  have hfree : ∀ reserved : Bool, Conflicting ((Prog.throwIf (reserved = true)
      ErrorCode.seatAlreadyBooked).bind fun _ => (Prog.throwIf (seat.isPaid = true)
        ErrorCode.seatAlreadySold).bind fun _ => (Prog.newDate.bind fun now =>
          .done { seat with reservedUntil := some (now + 5 * 60 * 1000) } : Script ConcertSeat)) :=
    fun _ => throwIf_conflicting (by decide)
      (throwIf_conflicting (by decide) fun _ => True.intro)
  unfold book
  cases seat.reservedUntil with
  | none => exact hfree false
  | some u => exact fun now => hfree (decide (u > now))

theorem ConcertSeat.pay_conflicting (seat : ConcertSeat) :
    Conflicting (seat.pay : Script ConcertSeat) := by
  unfold pay
  refine throwIf_conflicting (by decide) ?_
  cases seat.reservedUntil with
  | none => exact throwIf_conflicting (by decide) True.intro
  | some u => exact fun now => throwIf_conflicting (by decide) True.intro

theorem ConcertBooking.pay_conflicting (booking : ConcertBooking) (userId : RowId) :
    Conflicting (booking.pay userId : Script ConcertBooking) :=
  throwIf_conflicting (by decide) (throwIf_conflicting (by decide) fun _ =>
    throwIf_conflicting (by decide) True.intro)

theorem ConcertService.changeSeat_conflicting {id : RowId}
    {change : ConcertSeat → Script ConcertSeat} {f : ConcertSeat → Script γ}
    (hchange : ∀ seat, Conflicting (change seat)) (hf : ∀ seat, Conflicting (f seat)) :
    Conflicting (changeSeat id change f) := by
  intro entity
  cases entity with
  | none => exact (by decide : ErrorCode.seatNotFound ≠ .optimisticLockConflict)
  | some entity => exact (hchange _).bind fun seat => hf seat

theorem ConcertService.payBooking_conflicting {dto : PayConcertBookingDTO}
    {f : ConcertBooking → Script γ} (hf : ∀ booking, Conflicting (f booking)) :
    Conflicting ((payBooking dto).bind f) := by
  rw [payBooking_bind]
  intro entity
  cases entity with
  | none => exact (by decide : ErrorCode.bookingNotFound ≠ .optimisticLockConflict)
  | some entity => exact (ConcertBooking.pay_conflicting _ _).bind fun booking => hf booking

theorem PointService.createHistory_conflicting (dto : CreatePointHistoryDTO) :
    Conflicting (createHistory dto) := by
  simp only [createHistory, PointHistory.create, Prog.bind_eq, Prog.bind_assoc]
  exact throwIf_conflicting (by decide) fun _ _ _ => True.intro

theorem PointService.changePoint_conflicting {userId : RowId} {change : Point → Script Point}
    {amount : Int} {type : PointTransactionType} {f : Point → Script γ}
    (hchange : ∀ point, Conflicting (change point)) (hf : ∀ point, Conflicting (f point)) :
    Conflicting (changePoint userId change amount type f) := by
  intro entity
  cases entity with
  | none => exact (by decide : ErrorCode.pointNotFound ≠ .optimisticLockConflict)
  | some entity =>
    exact (hchange _).bind fun point => (createHistory_conflicting _).bind fun _ => hf point

theorem execute_conflicting (zone : TimeZone) (call : Call) : Conflicting (execute zone call) := by
  cases call with
  | book dto =>
    rw [execute_book, ConcertService.validateScheduleIsBookable_bind]
    intro schedule
    cases schedule with
    | none => exact (by decide : ErrorCode.scheduleNotFound ≠ .optimisticLockConflict)
    | some schedule =>
      refine (ConcertSchedule.validateBookable_conflicting _).bind fun _ => ?_
      show Conflicting (Prog.bind _ _)
      rw [ConcertService.bookSeat_bind]
      exact ConcertService.changeSeat_conflicting ConcertSeat.book_conflicting
        fun seat _ _ _ _ _ => True.intro
  | pay dto =>
    rw [execute_pay]
    refine ConcertService.payBooking_conflicting fun booking => ?_
    rw [ConcertService.paySeat_bind]
    refine ConcertService.changeSeat_conflicting ConcertSeat.pay_conflicting fun seat => ?_
    rw [PointService.use_bind]
    refine PointService.changePoint_conflicting (fun point => ?_) fun point _ _ _ _ => True.intro
    exact throwIf_conflicting (by decide) (throwIf_conflicting (by decide) True.intro)
  | charge dto =>
    rw [execute_charge]
    show Conflicting (Prog.bind _ _)
    rw [PointService.charge_bind]
    exact PointService.changePoint_conflicting
      (fun point => throwIf_conflicting (by decide) True.intro) fun point => True.intro

end Conflicts

/-! Whose commit changes a row. -/

section Changes

variable {zone : TimeZone} {db db' : Database} {call : Call} {k : Key schema}

theorem Call.Locks.evolves (h : call.Locks db k) (hev : Evolves db db') : call.Locks db' k := by
  obtain ⟨τ, i⟩ := k
  cases τ with
  | concertSeats =>
    cases call with
    | book dto => exact h
    | pay dto =>
      obtain ⟨b, hb, hseat⟩ := Option.map_eq_some_iff.mp h
      obtain ⟨b', hb', hid, hkept⟩ := hev.has .concertBookings b (Table.find?_eq_some.mp hb).1
      have hfind : db'.booking? dto.concertBookingId = some b' :=
        Table.find?_eq_some.mpr ⟨hb', hid.trans (Table.key_of_find? hb)⟩
      exact Option.map_eq_some_iff.mpr ⟨b', hfind, hkept.trans hseat⟩
    | charge dto => contradiction
  | concertBookings => exact h
  | points =>
    obtain ⟨p, hp, hid, huser⟩ := h
    obtain ⟨p', hp', hid', hkept⟩ := hev.has .points p hp
    exact ⟨p', hp', hid'.trans hid, hkept ▸ huser⟩
  | concertSchedules => exact h.elim
  | concertPaymentHistories => exact h.elim
  | pointHistories => exact h.elim
  | outbox => exact h.elim

/-- A row changes only by a call that locks it. -/
theorem locks_of_changed {cs : List Choice} {res : Response} {τ : Tab} {row : τ.Row}
    (h : exec (execute zone call) db cs = some (.ok res, db')) (hrow : row ∈ (db τ).rows)
    (hchanged : db'.find τ (τ.key row) ≠ some row) : call.Locks db (τ, τ.key row) := by
  have hstored : db.find τ (τ.key row) = some row := Table.find?_of_mem hrow
  have hwritten : ∀ cs : List (Cell schema), (db.apply cs).find τ (τ.key row) ≠ some row →
      ∃ c ∈ cs, c.key = (τ, τ.key row) := by
    intro cs hne
    by_contra hnone
    push Not at hnone
    exact hne ((Db.find_apply_of_ne hnone).trans hstored)
  have hold : ∀ {k : Key schema}, db.find k.1 k.2 = none → k ≠ (τ, τ.key row) := by
    intro k hk he
    rw [he, hstored] at hk
    contradiction
  cases call with
  | book dto =>
    obtain ⟨r, hr, _, _, rfl⟩ := exec_book.mp h
    obtain ⟨c, hc, hkey⟩ := hwritten _ hchanged
    have hid : r.heldSeat.id = dto.concertSeatId := (Table.find?_eq_some.mp hr.seat).2
    simp only [BookRun.writes, List.mem_cons, List.not_mem_nil, or_false] at hc
    rcases hc with rfl | rfl | rfl
    · rw [← hkey]
      exact congrArg some hid.symm
    · exact absurd hkey (hold hr.freshBooking)
    · exact absurd hkey (hold hr.freshOutbox)
  | pay dto =>
    obtain ⟨r, hr, _, _, rfl⟩ := exec_pay.mp h
    obtain ⟨c, hc, hkey⟩ := hwritten _ hchanged
    have hbooking : r.paidBooking.id = dto.concertBookingId :=
      (Table.find?_eq_some.mp hr.booking).2
    have hseat : r.paidSeat.id = r.booking.concertSeatId := (Table.find?_eq_some.mp hr.seat).2
    simp only [PayRun.writes, List.mem_cons, List.not_mem_nil, or_false] at hc
    rcases hc with rfl | rfl | rfl | rfl | rfl | rfl
    · rw [← hkey]
      exact congrArg some hbooking.symm
    · rw [← hkey]
      exact Option.map_eq_some_iff.mpr ⟨r.booking, hr.booking, hseat.symm⟩
    · rw [← hkey]
      exact ⟨r.point, (Table.find?_eq_some.mp hr.point).1, rfl, congrArg some hr.owner.symm⟩
    · exact absurd hkey (hold hr.freshHistory)
    · exact absurd hkey (hold hr.freshPayment)
    · exact absurd hkey (hold hr.freshOutbox)
  | charge dto =>
    obtain ⟨r, hr, _, _, rfl⟩ := exec_charge.mp h
    obtain ⟨c, hc, hkey⟩ := hwritten _ hchanged
    simp only [ChargeRun.writes, List.mem_cons, List.not_mem_nil, or_false] at hc
    rcases hc with rfl | rfl
    · rw [← hkey]
      exact ⟨r.point, (Table.find?_eq_some.mp hr.point).1, rfl, congrArg some hr.owner.symm⟩
    · exact absurd hkey (hold hr.freshHistory)

theorem Evolves.serial {start : Database} {log later : List LogEntry}
    (h : Serial (execute zone) start log db) (h' : Serial (execute zone) start (log ++ later) db') :
    Evolves db db' := by
  induction later using List.reverseRecOn generalizing db' with
  | nil =>
    rw [List.append_nil] at h'
    rw [h.unique h']
    exact .refl db'
  | append_singleton later e ih =>
    rw [← List.append_assoc] at h'
    obtain ⟨m, hm, he⟩ := h'.of_snoc
    exact (ih hm).trans (.exec he)

theorem Call.contends_of_locks {other : Call} {τ : Tab} {i : RowId}
    (hacc : schema.access τ = .optimistic) (h : call.Locks db (τ, i))
    (h' : other.Locks db (τ, i)) : call.Contends db other := by
  cases τ with
  | concertSeats => exact Or.inl ⟨i, h, h'⟩
  | concertBookings => exact Or.inr ⟨i, h, h'⟩
  | concertSchedules => contradiction
  | concertPaymentHistories => contradiction
  | points => contradiction
  | pointHistories => contradiction
  | outbox => contradiction

end Changes

section Missed

variable {zone : TimeZone} {start : Database} {m s : Server} {t : TxId}

/-- The row was stored in some state of the run. -/
def Server.StoredDuring (zone : TimeZone) (m : Server) (acts : List (Act Call)) (τ : Tab)
    (row : τ.Row) : Prop :=
  ∃ past w, past <+: acts ∧ Machine.run (serve zone) m past = some w ∧ row ∈ (w.db τ).rows

/-- The row that a missed update was meant for has been stored since the call was
opened, and is no longer. -/
theorem read_before_miss {u : Server} {tx : Tx schema ErrorCode Response Call}
    {past rest : List (Act Call)} (h : Machine.Reachable (serve zone) (Sys.init start) m)
    (hnew : m.running t = none) (hu : Machine.run (serve zone) m past = some u)
    (hrest : Machine.run (serve zone) u rest = some s) (hr : u.running t = some tx)
    (hmiss : tx.frame.Misses u.committed) :
    ∃ τ row, m.StoredDuring zone past τ row ∧ schema.access τ = .optimistic ∧
      tx.call.Locks s.db (τ, τ.key row) ∧ u.db.find τ (τ.key row) ≠ some row := by
  obtain ⟨τ, v, r, k, hp, hmiss⟩ := hmiss
  have hmore := Machine.run_append.mpr ⟨u, hu, hrest⟩
  have hread : Machine.Throughout (serve zone) (fun w => Db.Each (fun τ row =>
      s.db.Has τ row ∧ m.StoredDuring zone past τ row) w.committed) m past := by
    intro pre w hpre hw τ row hrow
    have hev := Evolves.throughout h hmore pre w (hpre.trans (List.prefix_append _ _)) hw
    exact ⟨hev.has τ row hrow, pre, w, hpre, hw, hrow⟩
  have howner : ∀ k t', t' = t → m.owner k ≠ some t' := by
    intro k t' ht' hk
    subst ht'
    obtain ⟨_, hopen⟩ := (LockInv.reachable (execute_ordered zone) h).live k t' hk
    rw [hnew] at hopen
    contradiction
  have hlocks := LocksWithin.run (T := fun t' => t' = t)
    (.of_unopened (fun t' ht' => ht' ▸ hnew) howner)
    (execute_within zone fun _ _ hread => hread.1) hu hread
  obtain ⟨hacc, hlock, ⟨old, hold, hkey, hversion⟩, hview⟩ :=
    (hlocks.confined t tx rfl hr).update hp
  rw [← hkey] at hlock
  refine ⟨τ, old, hold.2, hacc, hlock, ?_⟩
  intro hfind
  refine hmiss old ?_ hversion
  rw [hview, ← hkey]
  exact hfind

/-- A row that goes away between two states goes by the commit of a call that locks it. -/
theorem committed_between {w u : Server} {gap : List (Act Call)} {τ : Tab} {row : τ.Row}
    (h : Machine.Reachable (serve zone) (Sys.init start) w)
    (hgap : Machine.run (serve zone) w gap = some u) (hrow : row ∈ (w.db τ).rows)
    (hgone : u.db.find τ (τ.key row) ≠ some row) :
    ∃ since : List LogEntry, u.log = w.log ++ since ∧
      ∃ e ∈ since, e.call.Locks u.db (τ, τ.key row) := by
  obtain ⟨before, hw⟩ := h
  obtain ⟨since, hsince⟩ := Sys.log_prefix hgap
  have hserial := serializable (execute_guarded zone) hw
  have hthen : Serial (execute zone) start (w.log ++ since) u.db :=
    hsince ▸ serializable (execute_guarded zone) (Machine.run_append.mpr ⟨w, hw, hgap⟩)
  obtain ⟨done, e, todo, m₁, m₂, rfl, hm₁, hexec, hbefore, hafter⟩ :=
    hserial.exists_end (P := fun db : Database => db.find τ (τ.key row) = some row) hthen
      (Table.find?_of_mem hrow) hgone
  have hlock := locks_of_changed hexec (Table.find?_eq_some.mp hbefore).1 hafter
  rw [← List.append_assoc] at hthen
  exact ⟨_, hsince.symm, e, by simp, hlock.evolves (Evolves.serial hm₁ hthen)⟩

end Missed

/-- An optimistic conflict means progress: a call is only turned away with
OPTIMISTIC_LOCK_CONFLICT when, while it was open, another call for the same seat
or the same booking has committed. -/
theorem conflicts_mean_progress {zone : TimeZone} {start : Database} {m s : Server}
    {acts : List (Act Call)} {t : TxId} {tx : Tx schema ErrorCode Response Call}
    (h : Machine.Reachable (serve zone) (Sys.init start) m) (hnew : m.running t = none)
    (hmore : Machine.run (serve zone) m acts = some s) (hr : s.running t = some tx)
    (hfail : tx.frame.prog = .fail .optimisticLockConflict) :
    ∃ later, s.log = m.log ++ later ∧ ∃ e ∈ later, tx.call.Contends s.db e.call := by
  obtain ⟨past, u, ux, ⟨rest, rfl⟩, hu, hux, hcall, hmiss⟩ :=
    Sys.missed_of_failed (execute_conflicting zone) hnew hmore hr hfail
  obtain ⟨u', hu', hrest⟩ := Machine.run_append.mp hmore
  obtain rfl := Option.some.inj (hu.symm.trans hu')
  obtain ⟨τ, row, ⟨pre, w, ⟨gap, rfl⟩, hw, hrow⟩, hacc, hmine, hgone⟩ :=
    read_before_miss h hnew hu hrest hux hmiss
  obtain ⟨w', hw', hgap⟩ := Machine.run_append.mp hu
  obtain rfl := Option.some.inj (hw.symm.trans hw')
  obtain ⟨before, hm⟩ := h
  have hreach : Machine.Reachable (serve zone) (Sys.init start) w :=
    ⟨before ++ pre, Machine.run_append.mpr ⟨m, hm, hw⟩⟩
  obtain ⟨since, hsince, e, he, htheirs⟩ := committed_between hreach hgap hrow hgone
  obtain ⟨mid, hmid⟩ := Sys.log_prefix hw
  obtain ⟨final, hfinal⟩ := Sys.log_prefix hrest
  have hlater : Evolves u.committed s.committed := Evolves.throughout ⟨before, hm⟩ hmore _ _
    (List.prefix_append _ rest) hu
  rw [hcall] at hmine
  refine ⟨mid ++ since ++ final, ?_, e, by simp [he], ?_⟩
  · rw [← hfinal, hsince, ← hmid]
    simp
  · exact Call.contends_of_locks hacc hmine (htheirs.evolves hlater)

theorem conflicts_mean_progress_turnedAway :
    ∃ s : Server, Machine.run (serve .utc) (Sys.init smallHall) turnedAway = some s ∧
      ∃ tx, s.running 2 = some tx ∧ tx.frame.prog = .fail .optimisticLockConflict ∧
        ∃ later, s.log = [] ++ later ∧ ∃ e ∈ later, tx.call.Contends s.db e.call := by
  have h : (Machine.run (serve .utc) (Sys.init smallHall) turnedAway).map (fun s =>
      (s.running 2).map fun tx => tx.frame.prog.error?) =
      some (some (some .optimisticLockConflict)) := by
    decide +kernel
  obtain ⟨s, hs, htx⟩ := Option.map_eq_some_iff.mp h
  obtain ⟨tx, hr, hfail⟩ := Option.map_eq_some_iff.mp htx
  have hfail := Prog.error?_eq_some.mp hfail
  exact ⟨s, hs, tx, hr, hfail, conflicts_mean_progress ⟨[], rfl⟩ rfl hs hr hfail⟩

end HighVolumeBooking
