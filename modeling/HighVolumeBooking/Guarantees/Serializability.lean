import HighVolumeBooking.Application.Execution
import HighVolumeBooking.Application.Locking
import HighVolumeBooking.ReadCommitted.Serializable

namespace HighVolumeBooking

open ReadCommitted

/-- The server with the three use cases running against it. -/
abbrev Server := Sys schema ErrorCode Response Call

abbrev Server.db (s : Server) : Database := s.committed

abbrev LogEntry := Entry Response Call

def serve (zone : TimeZone) : Server → Act Call → Option Server := Sys.step (execute zone)

/-- One seat of one schedule that is open from 0 to 10 000 000, and two users
with 1000 and 500 points. -/
def smallHall : Database
  | .concertSchedules => ⟨[⟨1, 1, 0, 10000000, 20000000, 30000000⟩], by decide⟩
  | .concertSeats => ⟨[⟨1, 1, 1, 100, 1, false, none, 0⟩], by decide⟩
  | .concertBookings => ⟨[], by decide⟩
  | .concertPaymentHistories => ⟨[], by decide⟩
  | .points => ⟨[⟨1, 1, 1000⟩, ⟨2, 2, 500⟩], by decide⟩
  | .pointHistories => ⟨[], by decide⟩
  | .outbox => ⟨[], by decide⟩

/-- A transaction that runs without interruption. -/
def undisturbed (t : TxId) (call : Call) (choices : List Choice) : List (Act Call) :=
  .start t call :: choices.map (.stmt t) ++ [.commit t]

/-- What a booking of a seat without a reservation does at the instant t. -/
def bookingAt (t : Int) (bookingId outboxId : RowId) : List Choice :=
  [.quiet, .clock t, .clock t, .clock t, .quiet, .clock t, .quiet, .clock t, .issued bookingId,
    .issued outboxId]

/-- What a booking of a reserved seat does: its check is at the instant check
and all later readings at the instant hold. -/
def rebookingAt (check hold : Int) (bookingId outboxId : RowId) : List Choice :=
  [.quiet, .clock check, .clock check, .clock check, .quiet, .clock check, .clock hold, .quiet,
    .clock hold, .issued bookingId, .issued outboxId]

/-- What a payment does, all readings being t. -/
def paymentAt (t : Int) (pointId historyId paymentId outboxId : RowId) : List Choice :=
  [.clock t, .quiet, .clock t, .quiet, .quiet, .clock t, .quiet, .picked (some pointId), .quiet,
    .clock t, .issued historyId, .issued paymentId, .issued outboxId]

/-- The committed database is the one that the committed calls leave when they
run one after another, each with its own readings and keys. -/
theorem committed_is_serial {zone : TimeZone} {start : Database} {acts : List (Act Call)}
    {s : Server} (h : Machine.run (serve zone) (Sys.init start) acts = some s) :
    Serial (execute zone) start s.log s.db ∧
      ∀ db, Serial (execute zone) start s.log db → db = s.db := by
  have hs := serializable (execute_guarded zone) h
  exact ⟨hs, fun db hdb => hdb.unique hs⟩

/-- The interleaving of a charge with a booking by the same user. -/
def chargeDuringBooking : List (Act Call) :=
  [.start 1 (.book ⟨1, 1, 1⟩), .stmt 1 .quiet, .stmt 1 (.clock 5), .start 2 (.charge ⟨1, 50⟩),
    .stmt 2 (.clock 6), .stmt 1 (.clock 7), .stmt 2 (.picked (some 1)), .stmt 1 (.clock 8),
    .stmt 1 .quiet, .stmt 2 .quiet, .stmt 1 (.clock 9), .stmt 2 (.clock 9), .stmt 1 .quiet,
    .stmt 2 (.issued 1), .commit 2, .stmt 1 (.clock 10), .stmt 1 (.issued 1), .stmt 1 (.issued 1),
    .commit 1]

theorem committed_is_serial_chargeDuringBooking :
    ∃ s : Server, Machine.run (serve .utc) (Sys.init smallHall) chargeDuringBooking = some s ∧
      s.log.map (·.call) = [.charge ⟨1, 50⟩, .book ⟨1, 1, 1⟩] ∧
      Serial (execute .utc) smallHall s.log s.db ∧
      ∀ db, Serial (execute .utc) smallHall s.log db → db = s.db := by
  have h : (Machine.run (serve .utc) (Sys.init smallHall) chargeDuringBooking).map
      (fun s => s.log.map (·.call)) = some [.charge ⟨1, 50⟩, .book ⟨1, 1, 1⟩] := by
    decide +kernel
  obtain ⟨s, hs, hlog⟩ := Option.map_eq_some_iff.mp h
  exact ⟨s, hs, hlog, committed_is_serial hs⟩

/-- Transactions that wait for one another's row locks never form a cycle. -/
theorem no_deadlock {zone : TimeZone} {start : Database} {s : Server}
    (h : Machine.Reachable (serve zone) (Sys.init start) s) (t : TxId) :
    ¬ Relation.TransGen (WaitsFor s) t t :=
  (LockInv.reachable (execute_ordered zone) h).acyclic t

/-- Two bookings of one seat, the first of which has locked it. -/
def seatContention : List (Act Call) :=
  [.start 1 (.book ⟨1, 1, 1⟩), .start 2 (.book ⟨2, 1, 1⟩), .stmt 1 .quiet, .stmt 1 (.clock 1),
    .stmt 1 (.clock 1), .stmt 1 (.clock 1), .stmt 1 .quiet, .stmt 2 .quiet, .stmt 2 (.clock 2),
    .stmt 2 (.clock 2), .stmt 2 (.clock 2), .stmt 2 .quiet, .stmt 2 (.clock 2), .stmt 1 (.clock 3),
    .stmt 1 .quiet]

theorem no_deadlock_seatContention :
    ∃ s : Server, Machine.run (serve .utc) (Sys.init smallHall) seatContention = some s ∧
      s.owner (Tab.concertSeats, 1) = some 1 ∧ serve .utc s (.stmt 2 .quiet) = none ∧
      ¬ Relation.TransGen (WaitsFor s) 2 2 := by
  have h : (Machine.run (serve .utc) (Sys.init smallHall) seatContention).map (fun s =>
      (s.owner (Tab.concertSeats, 1), (serve .utc s (.stmt 2 .quiet)).isNone)) =
      some (some 1, true) := by
    decide +kernel
  obtain ⟨s, hs, hs'⟩ := Option.map_eq_some_iff.mp h
  obtain ⟨howner, hblocked⟩ := Prod.mk.inj hs'
  exact ⟨s, hs, howner, Option.isNone_iff_eq_none.mp hblocked, no_deadlock ⟨_, hs⟩ 2⟩

/-- The first booking of the contended seat commits, and the second one misses. -/
def turnedAway : List (Act Call) :=
  seatContention ++ [.stmt 1 (.clock 3), .stmt 1 (.issued 1), .stmt 1 (.issued 2), .commit 1,
    .stmt 2 .quiet]

end HighVolumeBooking
