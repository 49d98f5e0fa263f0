import HighVolumeBooking.Application.Outbox
import HighVolumeBooking.Guarantees.Serializability

namespace HighVolumeBooking

open ReadCommitted

/-! The service with the transactions around it and the broker between its
handlers and its consumers. -/

/-- The outbox table of the transaction server keeps every row that was ever
committed; outbox holds the rows there are. Messages wait in unsent until a
handler sends them, and stay in the channel until they are lost; sent and
delivered record what happened. -/
structure EventServer where
  server : Server
  outbox : OutboxTable
  unsent : List Message
  channel : List Message
  sent : List Message
  delivered : List Message

inductive EventAct where
  | transact (a : Act Call)
  | send (i : Nat)
  | swallow (i : Nat)
  | handleFailed (now : Int)
  | removeOld (now : Int)
  | deliver (i : Nat)
  | lose (i : Nat)

def EventAct.act? : EventAct → Option (Act Call)
  | .transact a => some a
  | _ => none

def EventAct.clock? : EventAct → Option Int
  | .transact a => a.clock?
  | .handleFailed now => some now
  | .removeOld now => some now
  | _ => none

namespace EventServer

def init (db : Database) : EventServer := ⟨Sys.init db, db Tab.outbox, [], [], [], []⟩

/-- The committed database. -/
def database (s : EventServer) : Database :=
  Function.update s.server.committed Tab.outbox s.outbox

/-- What a commit adds: the writes of the transaction and its event. -/
def commit (s : EventServer) (t : TxId) : OutboxTable × List Message :=
  match s.server.running t with
  | some tx =>
    match tx.frame.prog with
    | .done response => (Db.apply s.database tx.frame.writes Tab.outbox, response.publish)
    | _ => (s.outbox, [])
  | none => (s.outbox, [])

/-- A message in the channel may be delivered any number of times, in any
order. -/
def step (zone : TimeZone) (s : EventServer) : EventAct → Option EventServer
  | .transact a =>
    match serve zone s.server a with
    | none => none
    | some server =>
      match a with
      | .commit t => some { s with
          server := server
          outbox := (s.commit t).1
          unsent := s.unsent ++ (s.commit t).2 }
      | _ => some { s with server := server }
  | .send i => s.unsent[i]?.map fun m => { s with
      unsent := s.unsent.eraseIdx i
      channel := s.channel ++ [m]
      sent := s.sent ++ [m] }
  | .swallow i => s.unsent[i]?.map fun _ => { s with unsent := s.unsent.eraseIdx i }
  | .handleFailed now => some { s with
      unsent := s.unsent ++ HandleFailedOutboxesUseCase.execute s.outbox now }
  | .removeOld now => some { s with
      outbox := RemoveOldPublishedOutboxesUseCase.execute s.outbox now }
  | .deliver i => s.channel[i]?.map fun m => { s with
      outbox := handleOutboxStatus s.outbox m
      delivered := s.delivered ++ [m] }
  | .lose i => s.channel[i]?.map fun _ => { s with channel := s.channel.eraseIdx i }

variable {zone : TimeZone} {start : Database} {s s' : EventServer}

theorem database_outbox : s.database Tab.outbox = s.outbox := Function.update_self _ _ _

/-! What each kind of step can do. -/

theorem step_transact {a : Act Call} (h : step zone s (.transact a) = some s') :
    ∃ server, serve zone s.server a = some server ∧
      ((∃ t, a = .commit t ∧ s' = { s with
          server := server
          outbox := (s.commit t).1
          unsent := s.unsent ++ (s.commit t).2 }) ∨
        (server.committed = s.server.committed ∧ s' = { s with server := server })) := by
  simp only [step] at h
  split at h
  · contradiction
  · rename_i server hserver
    refine ⟨server, hserver, ?_⟩
    rcases Sys.committed_or_commit hserver with ⟨hsame, _⟩ | ⟨t, rfl⟩
    · cases a with
      | commit t => exact Or.inl ⟨t, rfl, (Option.some.inj h).symm⟩
      | _ => exact Or.inr ⟨hsame, (Option.some.inj h).symm⟩
    · exact Or.inl ⟨t, rfl, (Option.some.inj h).symm⟩

/-- A booking or a payment that commits creates one row and hands its message
to a handler; a charge does neither. -/
theorem commit_cases {t : TxId} {server : Server} (hinv : Inv (execute zone) start s.server)
    (hs : serve zone s.server (.commit t) = some server) :
    (∃ o : OutboxEntity, s.server.db.find Tab.outbox o.id = none ∧ o.status = .init ∧
      server.db Tab.outbox = (s.server.db Tab.outbox).put o ∧
      s.commit t = (s.outbox.put o, [o.toMessage])) ∨
    (server.db Tab.outbox = s.server.db Tab.outbox ∧ s.commit t = (s.outbox, [])) := by
  obtain ⟨tx, b, hr, hp, rfl⟩ := Sys.step_commit hs
  have hends : Ends s.server.committed (execute zone tx.call) none [] tx.choices b
      tx.frame.writes := ⟨tx.frame, hinv.run_of_done hr hp, hp, rfl⟩
  have hcommit : s.commit t = (Db.apply s.database tx.frame.writes Tab.outbox, b.publish) := by
    simp [commit, hr, hp]
  rw [hcommit]
  cases hcall : tx.call with
  | book dto =>
    rw [hcall] at hends
    obtain ⟨r, hon, _, rfl, hwrites⟩ := ends_book.mp hends
    refine Or.inl ⟨r.outbox zone dto, hon.freshOutbox, rfl, ?_, ?_⟩
    · simp only [Server.db, hwrites, BookRun.apply_outbox]
    · rw [hwrites, BookRun.apply_outbox, database_outbox]
      rfl
  | pay dto =>
    rw [hcall] at hends
    obtain ⟨r, hon, _, rfl, hwrites⟩ := ends_pay.mp hends
    refine Or.inl ⟨r.outbox dto, hon.freshOutbox, rfl, ?_, ?_⟩
    · simp only [Server.db, hwrites, PayRun.apply_outbox]
    · rw [hwrites, PayRun.apply_outbox, database_outbox]
      rfl
  | charge dto =>
    rw [hcall] at hends
    obtain ⟨r, _, _, rfl, hwrites⟩ := ends_charge.mp hends
    have hother : ∀ db : Database, Db.apply db (r.writes dto) Tab.outbox = db Tab.outbox :=
      fun db => r.apply_other dto db (by decide) (by decide)
    refine Or.inr ⟨?_, ?_⟩
    · simp only [Server.db, hwrites]
      exact hother _
    · rw [hwrites]
      exact Prod.ext ((hother _).trans database_outbox) rfl

/-- Handlers, schedulers and the broker leave the transactions alone. -/
theorem server_step {a : EventAct} (hs : step zone s a = some s') :
    (∃ b, a.act? = some b ∧ serve zone s.server b = some s'.server) ∨
      (a.act? = none ∧ s'.server = s.server) := by
  cases a with
  | transact a =>
    obtain ⟨server, hserver, ⟨t, rfl, rfl⟩ | ⟨_, rfl⟩⟩ := step_transact hs
    · exact Or.inl ⟨_, rfl, hserver⟩
    · exact Or.inl ⟨_, rfl, hserver⟩
  | send i =>
    obtain ⟨m, _, rfl⟩ := Option.map_eq_some_iff.mp hs
    exact Or.inr ⟨rfl, rfl⟩
  | swallow i =>
    obtain ⟨m, _, rfl⟩ := Option.map_eq_some_iff.mp hs
    exact Or.inr ⟨rfl, rfl⟩
  | handleFailed now =>
    obtain rfl := Option.some.inj hs
    exact Or.inr ⟨rfl, rfl⟩
  | removeOld now =>
    obtain rfl := Option.some.inj hs
    exact Or.inr ⟨rfl, rfl⟩
  | deliver i =>
    obtain ⟨m, _, rfl⟩ := Option.map_eq_some_iff.mp hs
    exact Or.inr ⟨rfl, rfl⟩
  | lose i =>
    obtain ⟨m, _, rfl⟩ := Option.map_eq_some_iff.mp hs
    exact Or.inr ⟨rfl, rfl⟩

theorem server_run {acts : List EventAct} (h : Machine.run (step zone) (init start) acts = some s) :
    Machine.run (serve zone) (Sys.init start) (acts.filterMap EventAct.act?) = some s.server := by
  refine Machine.run_induction (fun acts (s : EventServer) => Machine.run (serve zone)
    (Sys.init start) (acts.filterMap EventAct.act?) = some s.server) rfl ?_ h
  intro acts m a s' _ hm hs
  rw [List.filterMap_append]
  rcases server_step hs with ⟨b, hb, hserver⟩ | ⟨hb, hserver⟩
  · rw [List.filterMap_cons_some hb]
    exact Machine.run_concat.mpr ⟨m.server, hm, hserver⟩
  · rw [List.filterMap_cons_none hb, List.filterMap_nil, List.append_nil, hserver]
    exact hm

end EventServer

end HighVolumeBooking
