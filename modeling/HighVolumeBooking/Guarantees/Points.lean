import HighVolumeBooking.Guarantees.Serializability
import Mathlib.Algebra.Ring.Int.Defs

namespace HighVolumeBooking

open ReadCommitted

/-- Sum of the amounts a user's histories of one type record. -/
def recorded (type : PointTransactionType) (userId : RowId) (histories : List PointHistoryEntity) :
    Int :=
  ((histories.filter fun h => h.transactionType = type ∧ h.userId = userId).map (·.amount)).sum

theorem recorded_append {type : PointTransactionType} {userId : RowId}
    {hs hs' : List PointHistoryEntity} :
    recorded type userId (hs ++ hs') = recorded type userId hs + recorded type userId hs' := by
  simp [recorded]

theorem recorded_single {type : PointTransactionType} {userId : RowId} {h : PointHistoryEntity} :
    recorded type userId [h] = if h.transactionType = type ∧ h.userId = userId then h.amount
      else 0 := by
  unfold recorded
  split <;> simp_all

/-- At most one points row per user, and no debts. -/
structure OnePointEach (db : Database) : Prop where
  unique : ∀ p ∈ db.points, ∀ q ∈ db.points, p.userId = q.userId → p = q
  nonneg : ∀ p ∈ db.points, 0 ≤ p.amount

/-- The balances of db follow from those of start and the histories recorded
since. -/
structure Conserved (start db : Database) (recent : List PointHistoryEntity) : Prop where
  histories : db.histories = start.histories ++ recent
  positive : ∀ h ∈ recent, 0 < h.amount
  each : OnePointEach db
  law : ∀ p ∈ db.points, ∃ p₀ ∈ start.points, p₀.id = p.id ∧ p₀.userId = p.userId ∧
    p.amount = p₀.amount + recorded .charge p.userId recent - recorded .use p.userId recent
  kept : ∀ p₀ ∈ start.points, ∃ p ∈ db.points, p.id = p₀.id

namespace Conserved

variable {zone : TimeZone} {start db : Database} {recent : List PointHistoryEntity}

theorem init (h : OnePointEach start) : Conserved start start [] where
  histories := by simp
  positive := by simp
  each := h
  law := fun p hp => ⟨p, hp, rfl, rfl, by simp [recorded]⟩
  kept := fun p hp => ⟨p, hp, rfl⟩

/-- One user's row moves by what one new history records. -/
theorem post {db' : Database} {point : PointEntity} {history : PointHistoryEntity} {amount : Int}
    (h : Conserved start db recent) (hpoint : point ∈ db.points)
    (hpoints : db' Tab.points = (db Tab.points).put { point with amount := amount })
    (hhistories : db'.histories = db.histories ++ [history]) (huser : history.userId = point.userId)
    (hpos : 0 < history.amount) (hnonneg : 0 ≤ amount)
    (hamount : amount = point.amount + recorded .charge point.userId [history] -
      recorded .use point.userId [history]) :
    Conserved start db' (recent ++ [history]) := by
  have hmem : ∀ q ∈ db'.points, q = { point with amount := amount } ∨
      (q ∈ db.points ∧ q.userId ≠ point.userId) := by
    intro q hq
    rw [Database.points, hpoints] at hq
    rcases Table.mem_put.mp hq with he | ⟨hq, hne⟩
    · exact Or.inl he
    · refine Or.inr ⟨hq, ?_⟩
      intro he
      exact hne (congrArg PointEntity.id (h.each.unique q hq point hpoint he))
  refine ⟨?_, ?_, ⟨?_, ?_⟩, ?_, ?_⟩
  · rw [hhistories, h.histories, List.append_assoc]
  · intro x hx
    rcases mem_snoc.mp hx with hx | rfl
    · exact h.positive x hx
    · exact hpos
  · intro p hp q hq he
    rcases hmem p hp with rfl | ⟨hp, hpu⟩ <;> rcases hmem q hq with rfl | ⟨hq, hqu⟩
    · rfl
    · exact absurd he.symm hqu
    · exact absurd he hpu
    · exact h.each.unique p hp q hq he
  · intro p hp
    rcases hmem p hp with rfl | ⟨hp, _⟩
    · exact hnonneg
    · exact h.each.nonneg p hp
  · intro p hp
    rcases hmem p hp with rfl | ⟨hp, hne⟩
    · obtain ⟨p₀, hp₀, hid, hu, hlaw⟩ := h.law point hpoint
      refine ⟨p₀, hp₀, hid, hu, ?_⟩
      simp only [recorded_append]
      omega
    · obtain ⟨p₀, hp₀, hid, hu, hlaw⟩ := h.law p hp
      refine ⟨p₀, hp₀, hid, hu, ?_⟩
      have hother : history.userId ≠ p.userId := by
        rw [huser]
        exact Ne.symm hne
      simp only [recorded_append, recorded_single, hother, and_false, if_false, Int.add_zero]
      exact hlaw
  · intro p₀ hp₀
    obtain ⟨p, hp, hid⟩ := h.kept p₀ hp₀
    rw [Database.points, hpoints]
    exact Table.exists_key_put ⟨p, hp, hid⟩

theorem pay {dto : PayConcertBookingUseCaseDTO} {r : PayRun} (h : Conserved start db recent)
    (hr : r.On dto db) :
    Conserved start (Db.apply db (r.writes dto)) (recent ++ [r.history dto]) := by
  have hmem := (Table.find?_eq_some.mp hr.point).1
  refine h.post hmem rfl (Table.rows_put_fresh hr.freshHistory) hr.owner.symm hr.positive ?_ ?_
  · have := hr.enough
    exact Int.sub_nonneg.mpr this
  · simp [recorded_single, PayRun.history, hr.owner]

theorem charge {dto : ChargePointUseCaseDTO} {r : ChargeRun} (h : Conserved start db recent)
    (hr : r.On dto db) :
    Conserved start (Db.apply db (r.writes dto)) (recent ++ [r.history dto]) := by
  have hmem := (Table.find?_eq_some.mp hr.point).1
  refine h.post hmem rfl (Table.rows_put_fresh hr.freshHistory) hr.owner.symm hr.positive ?_ ?_
  · have hold := h.each.nonneg r.point hmem
    have hpos := hr.positive
    exact Int.add_nonneg hold (Int.le_of_lt hpos)
  · simp [recorded_single, ChargeRun.history, hr.owner]

theorem serial {log : List LogEntry} (h : OnePointEach start)
    (hs : Serial (execute zone) start log db) : ∃ recent, Conserved start db recent := by
  refine hs.invariant (fun _ db => ∃ recent, Conserved start db recent) ⟨[], init h⟩ ?_
  intro log e m m' _ ⟨recent, hm⟩ he
  obtain ⟨call, choices, result⟩ := e
  cases call with
  | book dto =>
    obtain ⟨r, hr, _, _, rfl⟩ := exec_book.mp he
    exact ⟨recent, hm.histories, hm.positive, ⟨hm.each.unique, hm.each.nonneg⟩, hm.law, hm.kept⟩
  | pay dto =>
    obtain ⟨r, hr, _, _, rfl⟩ := exec_pay.mp he
    exact ⟨_, hm.pay hr⟩
  | charge dto =>
    obtain ⟨r, hr, _, _, rfl⟩ := exec_charge.mp he
    exact ⟨_, hm.charge hr⟩

end Conserved

/-- The call is a charge or a payment of this user. -/
def Call.MovesPointsOf (userId : RowId) : Call → Prop
  | .book _ => False
  | .pay dto => dto.userId = userId
  | .charge dto => dto.userId = userId

/-- A committed call changes no amount but that of its own user. -/
theorem amount_of_exec {zone : TimeZone} {call : Call} {db db' : Database} {cs : List Choice}
    {res : Response} (h : exec (execute zone call) db cs = some (.ok res, db'))
    (hu : ∀ p ∈ db.points, ∀ q ∈ db.points, p.userId = q.userId → p = q) {p p' : PointEntity}
    (hp : p ∈ db.points) (hp' : p' ∈ db'.points) (huser : p'.userId = p.userId)
    (hne : p'.amount ≠ p.amount) : call.MovesPointsOf p.userId := by
  have hsame : p' ∉ db.points := fun hmem => hne (congrArg _ (hu p' hmem p hp huser))
  cases call with
  | book dto =>
    obtain ⟨r, _, _, _, rfl⟩ := exec_book.mp h
    exact hsame hp'
  | pay dto =>
    obtain ⟨r, hr, _, _, rfl⟩ := exec_pay.mp h
    rcases Table.mem_put.mp hp' with rfl | ⟨hold, _⟩
    · exact hr.owner.symm.trans huser
    · exact absurd hold hsame
  | charge dto =>
    obtain ⟨r, hr, _, _, rfl⟩ := exec_charge.mp h
    rcases Table.mem_put.mp hp' with rfl | ⟨hold, _⟩
    · exact hr.owner.symm.trans huser
    · exact absurd hold hsame

/-- Points are conserved in every committed state of every interleaving: each
balance is the initial one plus the recorded charges minus the recorded uses
and never negative, and a step that changes a user's balance is the commit of
a charge or a payment of that user. -/
theorem points_conserved {zone : TimeZone} {start : Database} {s : Server}
    (hstart : OnePointEach start) (h : Machine.Reachable (serve zone) (Sys.init start) s) :
    (∃ recent, s.db.histories = start.histories ++ recent ∧ (∀ x ∈ recent, 0 < x.amount) ∧
      (∀ p₀ ∈ start.points, ∃ p ∈ s.db.points, p.id = p₀.id) ∧
      ∀ p ∈ s.db.points, 0 ≤ p.amount ∧ ∃ p₀ ∈ start.points, p₀.id = p.id ∧ p₀.userId = p.userId ∧
        p.amount = p₀.amount + recorded .charge p.userId recent - recorded .use p.userId recent) ∧
    ∀ a (s' : Server), serve zone s a = some s' → ∀ p ∈ s.db.points, ∀ p' ∈ s'.db.points,
      p'.userId = p.userId → p'.amount ≠ p.amount →
      ∃ t tx, a = .commit t ∧ s.running t = some tx ∧ tx.call.MovesPointsOf p.userId := by
  obtain ⟨acts, hacts⟩ := h
  have hinv := Inv.run (execute_guarded zone) hacts
  obtain ⟨recent, hc⟩ := Conserved.serial hstart hinv.serial
  refine ⟨⟨recent, hc.histories, hc.positive, hc.kept, ?_⟩, ?_⟩
  · intro p hp
    exact ⟨hc.each.nonneg p hp, hc.law p hp⟩
  · intro a s' hs p hp p' hp' huser hne
    rcases Sys.committed_or_commit hs with ⟨hdb, _⟩ | ⟨t, rfl⟩
    · rw [Server.db, hdb] at hp'
      exact absurd (congrArg _ (hc.each.unique p' hp' p hp huser)) hne
    · obtain ⟨_, tx, b, hrun, hexec, _⟩ := hinv.step_commit hs
      exact ⟨t, tx, rfl, hrun, amount_of_exec hexec hc.each.unique hp hp' huser hne⟩

theorem smallHall_onePointEach : OnePointEach smallHall := ⟨by decide, by decide⟩

theorem points_conserved_chargeDuringBooking :
    ∃ s : Server, Machine.run (serve .utc) (Sys.init smallHall) chargeDuringBooking = some s ∧
      s.db.points.map (·.amount) = [1050, 500] ∧
      ∃ recent, s.db.histories = smallHall.histories ++ recent ∧ (∀ x ∈ recent, 0 < x.amount) ∧
        ∀ p ∈ s.db.points, ∃ p₀ ∈ smallHall.points, p₀.userId = p.userId ∧
          p.amount = p₀.amount + recorded .charge p.userId recent -
            recorded .use p.userId recent := by
  have h : (Machine.run (serve .utc) (Sys.init smallHall) chargeDuringBooking).map
      (fun s => s.db.points.map (·.amount)) = some [1050, 500] := by
    decide +kernel
  obtain ⟨s, hs, hamounts⟩ := Option.map_eq_some_iff.mp h
  obtain ⟨⟨recent, hrecent, hpos, _, hlaw⟩, _⟩ :=
    points_conserved smallHall_onePointEach ⟨_, hs⟩
  refine ⟨s, hs, hamounts, recent, hrecent, hpos, ?_⟩
  intro p hp
  obtain ⟨_, p₀, hp₀, _, huser, hamount⟩ := hlaw p hp
  exact ⟨p₀, hp₀, huser, hamount⟩

end HighVolumeBooking
