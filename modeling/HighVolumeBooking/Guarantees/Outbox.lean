import HighVolumeBooking.Guarantees.EventServer
import HighVolumeBooking.Guarantees.Holds
import HighVolumeBooking.Machine.Relay

namespace HighVolumeBooking

open ReadCommitted

/-- A booking row as it was inserted. -/
def ConcertBookingEntity.inserted (booking : ConcertBookingEntity) : ConcertBookingEntity :=
  { booking with isPaid := false, version := 0 }

/-- Messages of the rows with one topic, in the order of their creation. -/
def messagesOn (topic : String) (outboxes : List OutboxEntity) : List String :=
  (outboxes.filter fun o => o.topic = topic).map (·.message)

def bookingMessages (db : Database) : List String :=
  db.bookings.map fun b => (ConcertBookingMapper.toDomain b.inserted).toJson.stringify

def paymentMessages (db : Database) : List String :=
  db.payments.map fun p => (ConcertPaymentMapper.toDomain p).toJson.stringify

/-- Bookings and payments have one outbox row each, in the same order, with
their JSON as they were inserted, and there are no other rows. -/
structure Announced (db : Database) : Prop where
  bookings : messagesOn "booking.completed" db.outboxes = bookingMessages db
  payments : messagesOn "payment.completed" db.outboxes = paymentMessages db
  topics : ∀ o ∈ db.outboxes, o.topic = "booking.completed" ∨ o.topic = "payment.completed"
  new : ∀ o ∈ db.outboxes, o.status = .init

theorem messagesOn_append {topic : String} {os : List OutboxEntity} {o : OutboxEntity} :
    messagesOn topic (os ++ [o]) =
      messagesOn topic os ++ if o.topic = topic then [o.message] else [] := by
  simp only [messagesOn, List.filter_append, List.map_append]
  by_cases h : o.topic = topic <;> simp [h]

namespace Announced

variable {zone : TimeZone} {db db' : Database}

/-- One more row, for the booking or the payment that came with it. -/
theorem add {o : OutboxEntity} (h : Announced db) (hrows : db'.outboxes = db.outboxes ++ [o])
    (htopic : o.topic = "booking.completed" ∨ o.topic = "payment.completed")
    (hnew : o.status = .init)
    (hbookings : bookingMessages db' =
      bookingMessages db ++ if o.topic = "booking.completed" then [o.message] else [])
    (hpayments : paymentMessages db' =
      paymentMessages db ++ if o.topic = "payment.completed" then [o.message] else []) :
    Announced db' := by
  have hmem : ∀ x ∈ db'.outboxes, x ∈ db.outboxes ∨ x = o := by
    intro x hx
    rw [hrows] at hx
    exact mem_snoc.mp hx
  constructor
  · rw [hrows, messagesOn_append, h.bookings, hbookings]
  · rw [hrows, messagesOn_append, h.payments, hpayments]
  · intro x hx
    rcases hmem x hx with hx | rfl
    · exact h.topics x hx
    · exact htopic
  · intro x hx
    rcases hmem x hx with hx | rfl
    · exact h.new x hx
    · exact hnew

theorem book {dto : BookConcertSeatUseCaseDTO} {r : BookRun} (h : Announced db)
    (hr : r.On dto db) : Announced (Db.apply db (r.writes zone dto)) := by
  refine h.add (Table.rows_put_fresh (r := r.outbox zone dto) hr.freshOutbox) (Or.inl rfl) rfl
    ?_ ?_
  · exact Table.map_put_fresh _ (r := r.booking zone dto) hr.freshBooking
  · exact (List.append_nil _).symm

theorem pay {dto : PayConcertBookingUseCaseDTO} {r : PayRun} (h : Announced db)
    (hr : r.On dto db) : Announced (Db.apply db (r.writes dto)) := by
  refine h.add (Table.rows_put_fresh (r := r.outbox dto) hr.freshOutbox) (Or.inr rfl) rfl ?_ ?_
  · rw [if_neg (by simp [PayRun.outbox]), List.append_nil]
    exact Table.map_put _ hr.replaced_booking rfl
  · exact Table.map_put_fresh _ (r := r.payment dto) hr.freshPayment

theorem serial {start : Database} {log : List LogEntry} (hstart : Announced start)
    (h : Serial (execute zone) start log db) : Announced db := by
  refine serial_induction (fun _ db => Announced db) hstart ?_ h
  intro log e m m' _ hm he
  cases hcall : e.call with
  | book dto =>
    obtain ⟨r, hr, _, _, _, _, _, rfl⟩ := he.book hcall
    exact hm.book hr
  | pay dto =>
    obtain ⟨r, hr, _, _, _, rfl⟩ := he.pay hcall
    exact hm.pay hr
  | charge dto =>
    obtain ⟨r, _, _, _, rfl⟩ := he.charge hcall
    exact ⟨hm.bookings, hm.payments, hm.topics, hm.new⟩

end Announced

/-- The messages of the rows that are not yet published. -/
def waiting (table : OutboxTable) : Set Message :=
  {m | ∃ row ∈ table.rows, row.status = .init ∧ row.toMessage = m}

section Tables

variable {table : OutboxTable} {m : Message} {o row : OutboxEntity} {now : Int}

theorem waiting_put (hfresh : table.find? o.id = none) (hnew : o.status = .init) :
    waiting (table.put o) = insert o.toMessage (waiting table) := by
  ext m
  constructor
  · intro h
    obtain ⟨row, hrow, hinit, rfl⟩ := h
    rcases Table.mem_put.mp hrow with rfl | ⟨hrow, _⟩
    · exact Or.inl rfl
    · exact Or.inr ⟨row, hrow, hinit, rfl⟩
  · intro h
    rcases h with rfl | ⟨row, hrow, hinit, rfl⟩
    · exact ⟨o, Table.mem_put.mpr (Or.inl rfl), hnew, rfl⟩
    · exact ⟨row, Table.mem_put.mpr (Or.inr ⟨hrow, Table.find?_eq_none.mp hfresh row hrow⟩), hinit,
        rfl⟩

theorem waiting_removeOld :
    waiting (RemoveOldPublishedOutboxesUseCase.execute table now) = waiting table := by
  ext m
  constructor
  · intro h
    obtain ⟨row, hrow, hinit, rfl⟩ := h
    exact ⟨row, (mem_removeOld.mp hrow).1, hinit, rfl⟩
  · intro h
    obtain ⟨row, hrow, hinit, rfl⟩ := h
    exact ⟨row, mem_removeOld.mpr ⟨hrow, by simp [hinit]⟩, hinit, rfl⟩

theorem mem_handleFailed (h : m ∈ HandleFailedOutboxesUseCase.execute table now) :
    m ∈ waiting table := by
  obtain ⟨outbox, hf, rfl⟩ := List.mem_map.mp h
  obtain ⟨row, hrow, hinit, _, rfl⟩ := mem_findFailed.mp hf
  exact ⟨row, hrow, hinit, rfl⟩

end Tables

namespace EventServer

abbrev created (s : EventServer) : List OutboxEntity := s.server.db.outboxes

/-- The relay that the outbox is: committing a row records its message, and a
message counts as delivered when an outbox consumer had it. -/
def books (s : EventServer) : Relay.Books Message where
  recorded := {m | ∃ o ∈ s.created, o.toMessage = m}
  sent := {m | m ∈ s.sent}
  delivered := {m | m ∈ s.delivered}

variable {zone : TimeZone} {start : Database} {s s' : EventServer}

/-- The live rows and the messages under way follow the books. -/
structure Mailed (s : EventServer) : Prop where
  kept : Relay.Kept s.books
  waiting : waiting s.outbox = s.books.outstanding
  rows : ∀ row ∈ s.outbox.rows, ∃ o ∈ s.created, row = o ∨ row = { o with status := .published }
  unsent : ∀ m ∈ s.unsent, m ∈ s.books.recorded
  channel : ∀ m ∈ s.channel, m ∈ s.sent

namespace Mailed

variable {m : Message} {now : Int}

theorem init (hstart : start.outboxes = []) : Mailed (init start) where
  kept := by
    have hbooks : (EventServer.init start).books = Relay.Books.empty := by
      simp [books, EventServer.init, created, Server.db, Sys.init, hstart, Relay.Books.empty]
    rw [hbooks]
    exact .refl
  waiting := by
    have hrows : (start Tab.outbox).rows = [] := hstart
    simp [HighVolumeBooking.waiting, EventServer.init, hrows, Relay.Books.outstanding, books,
      created, Server.db, Sys.init]
  rows := by
    have hrows : (start Tab.outbox).rows = [] := hstart
    simp [EventServer.init, hrows]
  unsent := by simp [EventServer.init]
  channel := by simp [EventServer.init]

/-- A live row that waits is as it was created. -/
theorem row_created (h : Mailed s) {row o : OutboxEntity} (hrow : row ∈ s.outbox.rows)
    (hinit : row.status = .init) (ho : o ∈ s.created) (hid : row.id = o.id) : row = o := by
  obtain ⟨x, hx, hxrow⟩ := h.rows row hrow
  rcases hxrow with rfl | rfl
  · exact Table.eq_of_key hx ho hid
  · contradiction

/-- The step of a transaction that leaves the outbox alone. -/
theorem idle {server : Server} (h : Mailed s)
    (hcreated : server.db Tab.outbox = s.server.db Tab.outbox) :
    Mailed { s with server := server } := by
  have hbooks : ({ s with server := server } : EventServer).books = s.books := by
    simp only [books, created, Database.outboxes, hcreated]
  refine ⟨hbooks ▸ h.kept, h.waiting.trans (by rw [hbooks]), ?_, ?_, h.channel⟩
  · simp only [created, Database.outboxes, hcreated]
    exact h.rows
  · rw [hbooks]
    exact h.unsent

theorem record {server : Server} {o : OutboxEntity} (h : Mailed s)
    (hfresh : s.server.db.find Tab.outbox o.id = none) (hnew : o.status = .init)
    (hcreated : server.db Tab.outbox = (s.server.db Tab.outbox).put o) :
    Mailed { s with
      server := server
      outbox := s.outbox.put o
      unsent := s.unsent ++ [o.toMessage] } := by
  have hnone : ∀ x ∈ s.created, x.id ≠ o.id := Table.find?_eq_none.mp hfresh
  have hrows : server.db.outboxes = s.created ++ [o] := by
    rw [Database.outboxes, hcreated]
    exact Table.rows_put_fresh hfresh
  have hlive : s.outbox.find? o.id = none := by
    refine Table.find?_eq_none.mpr ?_
    intro row hrow
    obtain ⟨x, hx, rfl | rfl⟩ := h.rows row hrow
    · exact hnone _ hx
    · exact hnone x hx
  have hundelivered : o.toMessage ∉ s.books.delivered := by
    intro hd
    obtain ⟨x, hx, hxo⟩ := h.kept.subset.2 (h.kept.subset.1 hd)
    exact hnone x hx (congrArg (fun m => m.value.id) hxo)
  have hbooks : ({ s with
      server := server
      outbox := s.outbox.put o
      unsent := s.unsent ++ [o.toMessage] } : EventServer).books =
        { s.books with recorded := insert o.toMessage s.books.recorded } := by
    ext m
    · simp only [books, created, hrows, Set.mem_ofPred_eq, Set.mem_insert_iff, List.mem_append,
        List.mem_singleton, or_and_right, exists_or, exists_eq_left, eq_comm (a := m)]
      exact or_comm
    · rfl
    · rfl
  refine ⟨?_, ?_, ?_, ?_, h.channel⟩
  · rw [hbooks]
    exact h.kept.tail (.record _ _)
  · rw [hbooks, Relay.Books.outstanding_record hundelivered, ← h.waiting]
    exact waiting_put hlive hnew
  · intro row hrow
    rcases Table.mem_put.mp hrow with rfl | ⟨hrow, _⟩
    · exact ⟨row, by simp [created, hrows], Or.inl rfl⟩
    · obtain ⟨x, hx, hxrow⟩ := h.rows row hrow
      exact ⟨x, by simp [created, hrows, hx], hxrow⟩
  · rw [hbooks]
    intro m hm
    rcases mem_snoc.mp hm with hm | rfl
    · exact Set.mem_insert_of_mem _ (h.unsent m hm)
    · exact Set.mem_insert _ _

theorem send {i : Nat} (h : Mailed s) (hm : m ∈ s.unsent) : Mailed { s with
    unsent := s.unsent.eraseIdx i
    channel := s.channel ++ [m]
    sent := s.sent ++ [m] } := by
  have hbooks : ({ s with
      unsent := s.unsent.eraseIdx i
      channel := s.channel ++ [m]
      sent := s.sent ++ [m] } : EventServer).books =
        { s.books with sent := insert m s.books.sent } := by
    ext x
    · rfl
    · simp [books, or_comm]
    · rfl
  refine ⟨?_, ?_, h.rows, ?_, ?_⟩
  · rw [hbooks]
    exact h.kept.tail (.send (h.unsent m hm))
  · rw [hbooks]
    exact h.waiting
  · intro x hx
    exact h.unsent x (List.mem_of_mem_eraseIdx hx)
  · intro x hx
    rcases List.mem_append.mp hx with hx | hx
    · exact List.mem_append_left _ (h.channel x hx)
    · exact List.mem_append_right _ hx

theorem swallow {i : Nat} (h : Mailed s) : Mailed { s with unsent := s.unsent.eraseIdx i } :=
  ⟨h.kept, h.waiting, h.rows, fun x hx => h.unsent x (List.mem_of_mem_eraseIdx hx), h.channel⟩

theorem lose {i : Nat} (h : Mailed s) : Mailed { s with channel := s.channel.eraseIdx i } :=
  ⟨h.kept, h.waiting, h.rows, h.unsent, fun x hx => h.channel x (List.mem_of_mem_eraseIdx hx)⟩

theorem handleFailed (h : Mailed s) : Mailed { s with
    unsent := s.unsent ++ HandleFailedOutboxesUseCase.execute s.outbox now } := by
  refine ⟨h.kept, h.waiting, h.rows, ?_, h.channel⟩
  intro m hm
  rcases List.mem_append.mp hm with hm | hm
  · exact h.unsent m hm
  · have hopen := mem_handleFailed hm
    rw [h.waiting] at hopen
    exact hopen.1

theorem removeOld (h : Mailed s) : Mailed { s with
    outbox := RemoveOldPublishedOutboxesUseCase.execute s.outbox now } := by
  refine ⟨h.kept, waiting_removeOld.trans h.waiting, ?_, h.unsent, h.channel⟩
  intro row hrow
  exact h.rows row (mem_removeOld.mp hrow).1

/-- A delivery closes the one row that the message is about. -/
theorem deliver (h : Mailed s) (hannounced : Announced s.server.db) (hm : m ∈ s.channel) :
    Mailed { s with
      outbox := handleOutboxStatus s.outbox m
      delivered := s.delivered ++ [m] } := by
  obtain ⟨o, ho, rfl⟩ := h.kept.subset.2 (h.channel m hm)
  have hrows : ∀ {row : OutboxEntity}, row ∈ (handleOutboxStatus s.outbox o.toMessage).rows ↔
      (row ∈ s.outbox.rows ∧ row.id ≠ o.id) ∨
        ∃ old ∈ s.outbox.rows, old.id = o.id ∧ row = { old with status := .published } :=
    mem_handleOutboxStatus (hannounced.topics o ho)
  have hbooks : ({ s with
      outbox := handleOutboxStatus s.outbox o.toMessage
      delivered := s.delivered ++ [o.toMessage] } : EventServer).books =
        { s.books with delivered := insert o.toMessage s.books.delivered } := by
    ext x
    · rfl
    · rfl
    · simp [books, or_comm]
  refine ⟨?_, ?_, ?_, h.unsent, h.channel⟩
  · rw [hbooks]
    exact h.kept.tail (.deliver (h.channel _ hm))
  · rw [hbooks, Relay.Books.outstanding_deliver, ← h.waiting]
    ext x
    constructor
    · intro hopen
      obtain ⟨row, hrow, hinit, rfl⟩ := hopen
      rcases hrows.mp hrow with ⟨hrow, hne⟩ | ⟨old, _, _, rfl⟩
      · exact ⟨⟨row, hrow, hinit, rfl⟩, fun he => hne (congrArg (fun m => m.value.id) he)⟩
      · contradiction
    · intro hopen
      obtain ⟨⟨row, hrow, hinit, rfl⟩, hne⟩ := hopen
      refine ⟨row, hrows.mpr (Or.inl ⟨hrow, ?_⟩), hinit, rfl⟩
      intro hid
      exact hne (congrArg OutboxEntity.toMessage (h.row_created hrow hinit ho hid))
  · intro row hrow
    rcases hrows.mp hrow with ⟨hrow, _⟩ | ⟨old, hold, _, rfl⟩
    · exact h.rows row hrow
    · obtain ⟨x, hx, rfl | rfl⟩ := h.rows old hold
      · exact ⟨old, hx, Or.inr rfl⟩
      · exact ⟨x, hx, Or.inr rfl⟩

theorem step {a : EventAct} (h : Mailed s) (hinv : Inv (execute zone) start s.server)
    (hannounced : Announced s.server.db) (hs : EventServer.step zone s a = some s') :
    Mailed s' := by
  cases a with
  | transact a =>
    obtain ⟨server, hserver, ⟨t, rfl, rfl⟩ | ⟨hsame, rfl⟩⟩ := step_transact hs
    · rcases commit_cases hinv hserver with ⟨o, hfresh, hnew, hcreated, hc⟩ | ⟨hcreated, hc⟩
      · rw [hc]
        exact h.record hfresh hnew hcreated
      · rw [hc, List.append_nil]
        exact h.idle hcreated
    · exact h.idle (congrFun hsame _)
  | send i =>
    obtain ⟨m, hm, rfl⟩ := Option.map_eq_some_iff.mp hs
    exact h.send (List.mem_of_getElem? hm)
  | swallow i =>
    obtain ⟨m, _, rfl⟩ := Option.map_eq_some_iff.mp hs
    exact h.swallow
  | handleFailed now =>
    obtain rfl := Option.some.inj hs
    exact h.handleFailed
  | removeOld now =>
    obtain rfl := Option.some.inj hs
    exact h.removeOld
  | deliver i =>
    obtain ⟨m, hm, rfl⟩ := Option.map_eq_some_iff.mp hs
    exact h.deliver hannounced (List.mem_of_getElem? hm)
  | lose i =>
    obtain ⟨m, _, rfl⟩ := Option.map_eq_some_iff.mp hs
    exact h.lose

end Mailed

theorem Mailed.run {acts : List EventAct} (hannounced : Announced start)
    (hempty : start.outboxes = []) (h : Machine.run (EventServer.step zone) (EventServer.init start)
      acts = some s) : Mailed s := by
  refine Machine.run_induction (fun _ s => Mailed s) (Mailed.init hempty) ?_ h
  intro acts m a s' hrun hm hs
  have hinv := Inv.run (execute_guarded zone) (server_run hrun)
  exact hm.step hinv (Announced.serial hannounced hinv.serial) hs

end EventServer

/-- A row is as old as the transaction that created it. -/
theorem createdAt_mem_clocks {zone : TimeZone} {start db : Database} {log : List LogEntry}
    (hempty : start.outboxes = []) (h : Serial (execute zone) start log db) :
    ∀ o ∈ db.outboxes, ∃ e ∈ log, o.createdAt ∈ e.clocks := by
  refine serial_induction (fun (log : List LogEntry) db =>
    ∀ o ∈ db.outboxes, ∃ e ∈ log, o.createdAt ∈ e.clocks) (by simp [hempty]) ?_ h
  intro log e m m' _ hm he o ho
  have hold (ho : o ∈ Database.outboxes m) : ∃ x ∈ log ++ [e], o.createdAt ∈ x.clocks := by
    obtain ⟨x, hx, hclock⟩ := hm o ho
    exact ⟨x, List.mem_append_left _ hx, hclock⟩
  obtain ⟨call, choices, result⟩ := e
  cases call with
  | book dto =>
    obtain ⟨r, _, rfl, _, rfl⟩ := exec_book.mp he
    rcases Table.mem_put.mp ho with rfl | ⟨ho, _⟩
    · refine ⟨_, List.mem_append_right _ (List.mem_singleton.mpr rfl), ?_⟩
      simp [Entry.clocks, r.clocks, BookRun.outbox]
    · exact hold ho
  | pay dto =>
    obtain ⟨r, _, rfl, _, rfl⟩ := exec_pay.mp he
    rcases Table.mem_put.mp ho with rfl | ⟨ho, _⟩
    · refine ⟨_, List.mem_append_right _ (List.mem_singleton.mpr rfl), ?_⟩
      simp [Entry.clocks, PayRun.choices, PayRun.outbox, Choice.clock?]
    · exact hold ho
  | charge dto =>
    obtain ⟨r, _, _, _, rfl⟩ := exec_charge.mp he
    exact hold ho

theorem Announced.of_unsold {db : Database} (h : Unsold db) (hempty : db.outboxes = []) :
    Announced db where
  bookings := by simp [messagesOn, bookingMessages, hempty, h.bookings]
  payments := by simp [messagesOn, paymentMessages, hempty, h.payments]
  topics := by simp [hempty]
  new := by simp [hempty]

theorem Announced.message_mem {db : Database} (h : Announced db) {o : OutboxEntity}
    (ho : o ∈ db.outboxes) :
    (o.topic = "booking.completed" ∧ o.message ∈ bookingMessages db) ∨
      (o.topic = "payment.completed" ∧ o.message ∈ paymentMessages db) := by
  have hmem : ∀ topic, o.topic = topic → o.message ∈ messagesOn topic db.outboxes := by
    intro topic ht
    exact List.mem_map.mpr ⟨o, List.mem_filter.mpr ⟨ho, by simp [ht]⟩, rfl⟩
  rcases h.topics o ho with ht | ht
  · exact Or.inl ⟨ht, h.bookings ▸ hmem _ ht⟩
  · exact Or.inr ⟨ht, h.payments ▸ hmem _ ht⟩

namespace EventServer.Mailed

variable {s : EventServer} {o : OutboxEntity}

/-- A row without a delivery is still there, as it was created. -/
theorem undelivered (h : Mailed s) (ho : o ∈ s.created)
    (hd : ∀ m ∈ s.delivered, m.value.id ≠ o.id) : o ∈ s.outbox.rows ∧ o.status = .init := by
  have hopen : o.toMessage ∈ s.books.outstanding := ⟨⟨o, ho, rfl⟩, fun hm => hd _ hm rfl⟩
  rw [← h.waiting] at hopen
  obtain ⟨row, hrow, hinit, he⟩ := hopen
  obtain rfl := h.row_created hrow hinit ho (congrArg (fun m => m.value.id) he)
  exact ⟨hrow, hinit⟩

theorem delivered_of_published (h : Mailed s) (ho : o ∈ s.created)
    (hp : ∀ row ∈ s.outbox.rows, row.id = o.id → row.status = .published) :
    ∃ m ∈ s.delivered, m.value.id = o.id := by
  by_contra hnone
  simp only [not_exists, not_and] at hnone
  obtain ⟨hmem, hinit⟩ := h.undelivered ho hnone
  have := hp o hmem rfl
  rw [hinit] at this
  contradiction

end EventServer.Mailed

/-- The outbox loses no event and invents none. Bookings and payments have one
row each, created with them, and only their messages are sent. A row that is
published or gone had a message delivered; the others are retried by every
scan that comes more than three minutes after their creation. -/
theorem outbox_complete {zone : TimeZone} {start : Database} {acts : List EventAct}
    {s : EventServer} (hstart : Unsold start) (hempty : start.outboxes = [])
    (h : Machine.run (EventServer.step zone) (EventServer.init start) acts = some s) :
    Announced s.server.db ∧
    (∀ m ∈ s.sent, ∃ o ∈ s.created, o.toMessage = m ∧
      ((m.topic = "booking.completed" ∧ m.value.message ∈ bookingMessages s.server.db) ∨
        (m.topic = "payment.completed" ∧ m.value.message ∈ paymentMessages s.server.db))) ∧
    (∀ o ∈ s.created, (∀ row ∈ s.outbox.rows, row.id = o.id → row.status = .published) →
      ∃ m ∈ s.delivered, m.value.id = o.id) ∧
    ∀ o ∈ s.created, (∀ m ∈ s.delivered, m.value.id ≠ o.id) →
      o ∈ s.outbox.rows ∧ o.status = .init ∧
        (∀ now, o.createdAt + 3 * 60 * 1000 < now →
          OutboxMapper.toDomain o ∈ OutboxService.findFailed s.outbox now) ∧
        o.createdAt ∈ acts.filterMap EventAct.clock? := by
  have hannounced := Announced.of_unsold hstart hempty
  have hm := EventServer.Mailed.run hannounced hempty h
  have hrun := EventServer.server_run h
  have hserial := serializable (execute_guarded zone) hrun
  have ha := Announced.serial hannounced hserial
  refine ⟨ha, ?_, fun o ho => hm.delivered_of_published ho, ?_⟩
  · intro m hsent
    obtain ⟨o, ho, rfl⟩ := hm.kept.subset.2 hsent
    exact ⟨o, ho, rfl, ha.message_mem ho⟩
  · intro o ho hd
    obtain ⟨hmem, hinit⟩ := hm.undelivered ho hd
    refine ⟨hmem, hinit, ?_, ?_⟩
    · intro now hnow
      exact mem_findFailed.mpr ⟨o, hmem, hinit, by omega, rfl⟩
    · obtain ⟨e, he, hclock⟩ := createdAt_mem_clocks hempty hserial o ho
      have hread := ((clocks_sublist hrun).1 e he).subset hclock
      obtain ⟨b, hb, hbt⟩ := List.mem_filterMap.mp hread
      obtain ⟨a, hact, hab⟩ := List.mem_filterMap.mp hb
      refine List.mem_filterMap.mpr ⟨a, hact, ?_⟩
      cases a with
      | transact a =>
        obtain rfl := Option.some.inj hab
        exact hbt
      | _ => contradiction

/-- The message of a booking is lost before it is sent; that of its payment is
delivered twice. -/
def bookingUnsent : List EventAct :=
  (undisturbed 1 (.book ⟨1, 1, 1⟩) (bookingAt 0 1 1)).map .transact ++
  (undisturbed 2 (.pay ⟨1, 1⟩) (paymentAt 170000 1 1 1 2)).map .transact ++
  [.swallow 0, .send 0, .deliver 0, .deliver 0, .removeOld 190000, .handleFailed 190000]

theorem outbox_complete_bookingUnsent :
    ∃ s, Machine.run (EventServer.step .utc) (EventServer.init smallHall) bookingUnsent = some s ∧
      s.outbox.rows.map (fun o => (o.id, o.status)) = [(1, .init), (2, .published)] ∧
      s.unsent.map (·.value.id) = [1] ∧
      Announced s.server.db ∧
      ∀ o ∈ s.created, (∀ m ∈ s.delivered, m.value.id ≠ o.id) →
        ∀ now, o.createdAt + 3 * 60 * 1000 < now →
          OutboxMapper.toDomain o ∈ OutboxService.findFailed s.outbox now := by
  have h : (Machine.run (EventServer.step .utc) (EventServer.init smallHall) bookingUnsent).map
      (fun s => (s.outbox.rows.map fun o => (o.id, o.status), s.unsent.map (·.value.id))) =
      some ([(1, .init), (2, .published)], [1]) := by
    decide +kernel
  obtain ⟨s, hs, hs'⟩ := Option.map_eq_some_iff.mp h
  obtain ⟨hrows, hunsent⟩ := Prod.mk.inj hs'
  obtain ⟨hannounced, _, _, hopen⟩ := outbox_complete smallHall_unsold rfl hs
  exact ⟨s, hs, hrows, hunsent, hannounced, fun o ho hd => (hopen o ho hd).2.2.1⟩

end HighVolumeBooking
