import HighVolumeBooking.Application.Transport
import HighVolumeBooking.Guarantees.Outbox

namespace HighVolumeBooking

open ReadCommitted

/-! What becomes of the outbox depends on what the Kafka transport, which is not
part of the service, hands to a handler. -/

abbrev Transport := Emitted → Option JsValue

/-- The value of the message by itself. -/
def Emitted.parsed : Transport := fun m => m.value.bind JsValue.parse

/-- A transport hands over the message with its value in it, or the value by
itself, or it does not know the handler and hands over nothing. -/
def Transport.Known (transport : Transport) : Prop :=
  transport = Emitted.received ∨ transport = Emitted.parsed ∨ transport = fun _ => none

/-- What both outbox consumers do with what they are handed. Where there is no
value to read the id of, they throw and have changed nothing. -/
def publishHanded (table : OutboxTable) (data : JsValue) : OutboxTable :=
  match (data.get "value").bind fun value => value.get "id" with
  | some (.num id) =>
    match OutboxService.toPublished table id with
    | .ok table => table
    | .error _ => table
  | _ => table

/-- A delivery over the transport. -/
def Transport.deliver (transport : Transport) (table : OutboxTable) (m : Message) : OutboxTable :=
  match m.emitted.bind transport with
  | some data => publishHanded table data
  | none => table

/-- The service with the transport between the broker and the consumers. -/
def EventServer.stepOver (transport : Transport) (zone : TimeZone) (s : EventServer) :
    EventAct → Option EventServer
  | .deliver i => s.channel[i]?.map fun m => { s with
      outbox := transport.deliver s.outbox m
      delivered := s.delivered ++ [m] }
  | a => EventServer.step zone s a

namespace Message

variable {m : Message}

theorem emitted_cases (m : Message) :
    (m.topic = "booking.completed" ∨ m.topic = "payment.completed") ∧
        m.emitted = some (emit m.topic m.value) ∨
      (m.topic ≠ "booking.completed" ∧ m.topic ≠ "payment.completed") ∧ m.emitted = none := by
  by_cases hb : m.topic = "booking.completed"
  · exact Or.inl ⟨Or.inl hb, by simp [emitted, hb, BookingKafkaMessageSender.sendMessage]⟩
  · by_cases hp : m.topic = "payment.completed"
    · exact Or.inl ⟨Or.inr hp, by simp [emitted, hp, PaymentKafkaMessageSender.sendMessage]⟩
    · exact Or.inr ⟨⟨hb, hp⟩, by simp [emitted, hb, hp]⟩

theorem parsed_emit (m : Message) : (emit m.topic m.value).parsed = some m.value.toJs := by
  obtain ⟨v, hv, hobj⟩ := Option.map_eq_some_iff.mp m.received_emit
  cases hobj
  exact hv

end Message

theorem parsed_ne_received : Emitted.parsed ≠ Emitted.received := by
  intro h
  let m : Message := ⟨"booking.completed", 1, "booking.completed", "", .init⟩
  have hm := congrFun h (emit m.topic m.value)
  rw [m.parsed_emit, m.received_emit] at hm
  simp [Outbox.toJs] at hm

theorem publishHanded_value (table : OutboxTable) (outbox : Outbox) :
    publishHanded table (.obj [("value", outbox.toJs)]) =
      match OutboxService.toPublished table outbox.id with
      | .ok table => table
      | .error _ => table := rfl

theorem publishHanded_bare (table : OutboxTable) (outbox : Outbox) :
    publishHanded table outbox.toJs = table := rfl

/-- With the message in hand the consumers do what they were written to do. -/
theorem deliver_received : Transport.deliver Emitted.received = handleOutboxStatus := by
  funext table m
  rcases m.emitted_cases with ⟨htopic, hm⟩ | ⟨⟨hb, hp⟩, hm⟩
  · have hdata : m.emitted.bind Emitted.received = some (.obj [("value", m.value.toJs)]) := by
      rw [hm, Option.bind_some]
      exact m.received_emit
    rw [Transport.deliver, hdata]
    refine (publishHanded_value table m.value).trans ?_
    rcases htopic with h | h
    · simp only [handleOutboxStatus, h, if_true]
      rfl
    · simp only [handleOutboxStatus, h, String.reduceEq, if_false, if_true]
      rfl
  · simp [Transport.deliver, handleOutboxStatus, hm, hb, hp]

/-- With anything else in hand they never get to the table. -/
theorem Transport.Known.deliver_eq {transport : Transport} (h : transport.Known)
    (hne : transport ≠ Emitted.received) (table : OutboxTable) (m : Message) :
    transport.deliver table m = table := by
  rcases h with rfl | rfl | rfl
  · contradiction
  · rcases m.emitted_cases with ⟨_, hm⟩ | ⟨_, hm⟩
    · have hdata : m.emitted.bind Emitted.parsed = some m.value.toJs := by
        rw [hm, Option.bind_some]
        exact m.parsed_emit
      rw [Transport.deliver, hdata]
      exact publishHanded_bare table m.value
    · simp [Transport.deliver, hm]
  · simp [Transport.deliver]

/-- A handler sends its message, or the broker delivers one. -/
def EventAct.relays : EventAct → Bool
  | .send _ => true
  | .deliver _ => true
  | _ => false

namespace OutboxEntity

variable {row : OutboxEntity} {ms ms' : List Message}

/-- The row once the messages ms have been delivered. -/
def publishedBy (ms : List Message) (row : OutboxEntity) : OutboxEntity :=
  if ∃ m ∈ ms, m.value.id = row.id then { row with status := .published } else row

@[simp] theorem publishedBy_nil : row.publishedBy [] = row := by
  simp [publishedBy]

theorem publishedBy_append :
    row.publishedBy (ms ++ ms') = (row.publishedBy ms).publishedBy ms' := by
  by_cases h : ∃ m ∈ ms, m.value.id = row.id <;> by_cases h' : ∃ m ∈ ms', m.value.id = row.id <;>
    simp [publishedBy, List.mem_append, or_and_right, exists_or, h, h']

/-- A row that is published, or whose message is delivered, ends published. -/
theorem publishedBy_eq (h : row.status = .init → row.toMessage ∈ ms) :
    row.publishedBy ms = { row with status := .published } := by
  unfold publishedBy
  split
  · rfl
  · rename_i hnone
    cases hstatus : row.status with
    | init => exact absurd ⟨row.toMessage, h hstatus, rfl⟩ hnone
    | published => rw [← hstatus]

end OutboxEntity

theorem mem_delivered {table : OutboxTable} {m : Message} {row : OutboxEntity}
    (htopic : m.topic = "booking.completed" ∨ m.topic = "payment.completed") :
    row ∈ (handleOutboxStatus table m).rows ↔ ∃ old ∈ table.rows, old.publishedBy [m] = row := by
  rw [mem_handleOutboxStatus htopic]
  constructor
  · intro h
    rcases h with ⟨hrow, hne⟩ | ⟨old, hold, hid, rfl⟩
    · exact ⟨row, hrow, by simp [OutboxEntity.publishedBy, hne.symm]⟩
    · exact ⟨old, hold, by simp [OutboxEntity.publishedBy, hid]⟩
  · intro h
    obtain ⟨old, hold, rfl⟩ := h
    by_cases hid : m.value.id = old.id
    · exact Or.inr ⟨old, hold, hid.symm, by simp [OutboxEntity.publishedBy, hid]⟩
    · have hsame : old.publishedBy [m] = old := by simp [OutboxEntity.publishedBy, hid]
      exact Or.inl ⟨hsame.symm ▸ hold, hsame.symm ▸ Ne.symm hid⟩

namespace EventServer

variable {zone : TimeZone} {start : Database} {s : EventServer}

/-- Every message on its way is of one of the two topics. -/
theorem topics_of_channel {acts : List EventAct} (hstart : Unsold start)
    (hempty : start.outboxes = []) (h : Machine.run (step zone) (init start) acts = some s) :
    ∀ m ∈ s.channel, m.topic = "booking.completed" ∨ m.topic = "payment.completed" := by
  have hannounced := Announced.of_unsold hstart hempty
  have hmailed := Mailed.run hannounced hempty h
  intro m hm
  obtain ⟨o, ho, rfl⟩ := hmailed.kept.subset.2 (hmailed.channel m hm)
  exact (Announced.serial hannounced
    (serializable (execute_guarded zone) (server_run h))).topics o ho

theorem stepOver_received (zone : TimeZone) : stepOver Emitted.received zone = step zone := by
  funext s a
  cases a with
  | deliver i => simp only [stepOver, step, deliver_received]
  | _ => rfl

/-- A transport that keeps the consumers from the table is as good as none. -/
theorem stepOver_unheard {transport : Transport} (zone : TimeZone)
    (hunheard : ∀ table m, transport.deliver table m = table) :
    stepOver transport zone = stepOver (fun _ => none) zone := by
  have hnone : ∀ table m, Transport.deliver (fun _ => none) table m = table := by
    intro table m
    simp [Transport.deliver]
  funext s a
  cases a with
  | deliver i => simp only [stepOver, hunheard, hnone]
  | _ => rfl

/-- What waits to be sent can be sent, one message after another. -/
theorem send_all (transport : Transport) (zone : TimeZone) (s : EventServer) :
    ∃ s', Machine.run (stepOver transport zone) s
        (List.replicate s.unsent.length (.send 0)) = some s' ∧
      s'.outbox = s.outbox ∧ s'.unsent = [] ∧ s'.channel = s.channel ++ s.unsent := by
  generalize hms : s.unsent = ms
  induction ms generalizing s with
  | nil => exact ⟨s, rfl, rfl, hms, (List.append_nil _).symm⟩
  | cons m ms ih =>
    obtain ⟨s', hrun, houtbox, hunsent, hchannel⟩ := ih { s with
      unsent := ms
      channel := s.channel ++ [m]
      sent := s.sent ++ [m] } rfl
    refine ⟨s', Machine.run_cons.mpr ⟨_, ?_, hrun⟩, houtbox, hunsent, ?_⟩
    · simp [stepOver, step, hms]
    · rw [hchannel, List.append_assoc]
      rfl

/-- The first n messages of the channel can be delivered, and publish the rows
that they name. -/
theorem deliver_first (htopics : ∀ m ∈ s.channel,
      m.topic = "booking.completed" ∨ m.topic = "payment.completed") {n : Nat}
    (hn : n ≤ s.channel.length) :
    ∃ s', Machine.run (step zone) s ((List.range n).map .deliver) = some s' ∧
      s'.unsent = s.unsent ∧ s'.channel = s.channel ∧ ∀ row, row ∈ s'.outbox.rows ↔
        ∃ old ∈ s.outbox.rows, old.publishedBy (s.channel.take n) = row := by
  induction n with
  | zero => exact ⟨s, rfl, rfl, rfl, by simp⟩
  | succ n ih =>
    obtain ⟨s', hrun, hunsent, hchannel, hrows⟩ := ih (by omega)
    have hlt : n < s'.channel.length := by
      rw [hchannel]
      omega
    let m := s'.channel[n]
    have hm : m ∈ s.channel := hchannel ▸ List.getElem_mem hlt
    have htake : s.channel.take (n + 1) = s.channel.take n ++ [m] := by
      rw [← hchannel]
      exact List.take_succ_eq_append_getElem hlt
    refine ⟨{ s' with
      outbox := handleOutboxStatus s'.outbox m
      delivered := s'.delivered ++ [m] }, ?_, hunsent, hchannel, ?_⟩
    · rw [List.range_succ, List.map_append]
      refine Machine.run_concat.mpr ⟨s', hrun, ?_⟩
      simp [step, List.getElem?_eq_getElem hlt, m]
    · intro row
      rw [htake, mem_delivered (htopics m hm)]
      constructor
      · intro h
        obtain ⟨mid, hmid, rfl⟩ := h
        obtain ⟨old, hold, rfl⟩ := (hrows mid).mp hmid
        exact ⟨old, hold, OutboxEntity.publishedBy_append⟩
      · intro h
        obtain ⟨old, hold, rfl⟩ := h
        exact ⟨_, (hrows _).mpr ⟨old, hold, rfl⟩, OutboxEntity.publishedBy_append.symm⟩

/-- What a run of the scheduled job and the sends and deliveries after it make of
the backlog: no message waits, all rows there were are published, and ten days
later the other job clears the table. -/
def Clears (transport : Transport) (zone : TimeZone) (s : EventServer) (now : Int)
    (acts : List EventAct) : Prop :=
  acts.all EventAct.relays = true ∧
  ∃ s', Machine.run (stepOver transport zone) s (.handleFailed now :: acts) = some s' ∧
    s'.unsent = [] ∧
    (∀ row, row ∈ s'.outbox.rows ↔
      ∃ old ∈ s.outbox.rows, { old with status := .published } = row) ∧
    (RemoveOldPublishedOutboxesUseCase.execute s'.outbox (now + 10 * 24 * 60 * 60 * 1000)).rows = []

/-- The server after the scheduled job. -/
abbrev retried (s : EventServer) (now : Int) : EventServer :=
  { s with unsent := s.unsent ++ HandleFailedOutboxesUseCase.execute s.outbox now }

theorem run_handleFailed {transport : Transport} {now : Int} {acts : List EventAct}
    {s' : EventServer} :
    Machine.run (stepOver transport zone) s (.handleFailed now :: acts) = some s' ↔
      Machine.run (stepOver transport zone) (s.retried now) acts = some s' := by
  rw [Machine.run_cons]
  constructor
  · intro h
    obtain ⟨m, hm, hrun⟩ := h
    obtain rfl := Option.some.inj hm
    exact hrun
  · intro h
    exact ⟨_, rfl, h⟩

/-- Rows that all are published and old are cleared away. -/
theorem removeOld_all {table : OutboxTable} {rows : List OutboxEntity} {now : Int}
    (hold : ∀ row ∈ rows, row.createdAt + 3 * 60 * 1000 < now)
    (hall : ∀ row, row ∈ table.rows ↔ ∃ old ∈ rows, { old with status := .published } = row) :
    (RemoveOldPublishedOutboxesUseCase.execute table (now + 10 * 24 * 60 * 60 * 1000)).rows =
      [] := by
  refine List.eq_nil_iff_forall_not_mem.mpr fun row hrow => ?_
  obtain ⟨hrow, hkept⟩ := mem_removeOld.mp hrow
  obtain ⟨old, hold', rfl⟩ := (hall row).mp hrow
  have hlate := hold old hold'
  exact hkept ⟨rfl, by simp only; omega⟩

/-- Over a transport that hands over the message, one run of the scheduled job
is enough. -/
theorem clears_received {now : Int} (hstart : Unsold start) (hempty : start.outboxes = [])
    (h : Machine.Reachable (step zone) (init start) s)
    (hold : ∀ row ∈ s.outbox.rows, row.createdAt + 3 * 60 * 1000 < now) :
    ∃ acts, Clears Emitted.received zone s now acts := by
  obtain ⟨past, hpast⟩ := h
  obtain ⟨sent, hsends, houtbox, hunsent, hchannel⟩ :=
    send_all Emitted.received zone (s.retried now)
  have hreach : Machine.run (step zone) (init start) (past ++
      (.handleFailed now :: List.replicate (s.retried now).unsent.length (.send 0))) =
        some sent := by
    rw [stepOver_received] at hsends
    exact Machine.run_append.mpr ⟨s, hpast, Machine.run_cons.mpr ⟨_, rfl, hsends⟩⟩
  obtain ⟨s', hdelivers, hunsent', _, hrows⟩ :=
    deliver_first (topics_of_channel hstart hempty hreach) (le_refl _)
  -- The scan has put the message of every row that is not yet published on its way.
  have hpublished : ∀ old ∈ s.outbox.rows, old.publishedBy sent.channel =
      { old with status := .published } := by
    intro old hrow
    refine OutboxEntity.publishedBy_eq fun hinit => ?_
    have hlate := hold old hrow
    have hfound : old.toMessage ∈ HandleFailedOutboxesUseCase.execute s.outbox now :=
      List.mem_map.mpr ⟨_, mem_findFailed.mpr ⟨old, hrow, hinit, by omega, rfl⟩, rfl⟩
    rw [hchannel]
    exact List.mem_append_right _ (List.mem_append_right _ hfound)
  have hall : ∀ row, row ∈ s'.outbox.rows ↔
      ∃ old ∈ s.outbox.rows, { old with status := .published } = row := by
    intro row
    rw [hrows, List.take_length, houtbox]
    constructor
    · intro h
      obtain ⟨old, hrow, rfl⟩ := h
      exact ⟨old, hrow, (hpublished old hrow).symm⟩
    · intro h
      obtain ⟨old, hrow, rfl⟩ := h
      exact ⟨old, hrow, hpublished old hrow⟩
  refine ⟨List.replicate (s.retried now).unsent.length (.send 0) ++
    (List.range sent.channel.length).map .deliver, ?_, s', ?_, hunsent'.trans hunsent, hall,
    removeOld_all hold hall⟩
  · simp [EventAct.relays, List.all_map, Function.comp_def]
  · rw [run_handleFailed, Machine.run_append]
    refine ⟨sent, hsends, ?_⟩
    rw [stepOver_received]
    exact hdelivers

/-- A table without rows stays as it is when what waits is sent. -/
theorem clears_nil {transport : Transport} {now : Int} (h : s.outbox.rows = []) :
    ∃ acts, Clears transport zone s now acts := by
  obtain ⟨sent, hsends, houtbox, hunsent, _⟩ := send_all transport zone (s.retried now)
  have hall : ∀ row, row ∈ sent.outbox.rows ↔
      ∃ old ∈ s.outbox.rows, { old with status := .published } = row := by
    intro row
    simp [houtbox, h]
  refine ⟨_, ?_, sent, run_handleFailed.mpr hsends, hunsent, hall,
    removeOld_all (by simp [h]) hall⟩
  simp [EventAct.relays]

section Unheard

variable {transport : Transport}

/-- While the consumers do not get to the table, every row stays as it was
created. -/
theorem init_of_unheard (hunheard : ∀ table m, transport.deliver table m = table)
    (hempty : start.outboxes = [])
    (h : Machine.Reachable (stepOver transport zone) (init start) s) :
    ∀ row ∈ s.outbox.rows, row.status = .init := by
  refine (Machine.Reachable.invariant (fun s : EventServer => Inv (execute zone) start s.server ∧
    ∀ row ∈ s.outbox.rows, row.status = .init) ⟨.init, ?_⟩ ?_ h).2
  · intro row hrow
    have hrows : (start Tab.outbox).rows = [] := hempty
    simp [init, hrows] at hrow
  · intro m a t _ hm hs
    obtain ⟨hinv, hrows⟩ := hm
    cases a with
    | transact a =>
      obtain ⟨server, hserver, ⟨tx, rfl, rfl⟩ | ⟨_, rfl⟩⟩ := step_transact hs
      · refine ⟨hinv.step (execute_guarded zone) hserver, ?_⟩
        rcases commit_cases hinv hserver with ⟨o, _, hnew, _, hc⟩ | ⟨_, hc⟩
        · rw [hc]
          intro row hrow
          rcases Table.mem_put.mp hrow with rfl | ⟨hrow, _⟩
          · exact hnew
          · exact hrows row hrow
        · rw [hc]
          exact hrows
      · exact ⟨hinv.step (execute_guarded zone) hserver, hrows⟩
    | send i =>
      obtain ⟨m, _, rfl⟩ := Option.map_eq_some_iff.mp hs
      exact ⟨hinv, hrows⟩
    | swallow i =>
      obtain ⟨m, _, rfl⟩ := Option.map_eq_some_iff.mp hs
      exact ⟨hinv, hrows⟩
    | handleFailed now =>
      obtain rfl := Option.some.inj hs
      exact ⟨hinv, hrows⟩
    | removeOld now =>
      obtain rfl := Option.some.inj hs
      exact ⟨hinv, fun row hrow => hrows row (mem_removeOld.mp hrow).1⟩
    | deliver i =>
      obtain ⟨m, _, rfl⟩ := Option.map_eq_some_iff.mp hs
      refine ⟨hinv, ?_⟩
      simp only [hunheard]
      exact hrows
    | lose i =>
      obtain ⟨m, _, rfl⟩ := Option.map_eq_some_iff.mp hs
      exact ⟨hinv, hrows⟩

/-- Sends and deliveries then leave the table as it is. -/
theorem outbox_of_relays (hunheard : ∀ table m, transport.deliver table m = table)
    {acts : List EventAct} {s' : EventServer} (hrelays : acts.all EventAct.relays = true)
    (h : Machine.run (stepOver transport zone) s acts = some s') : s'.outbox = s.outbox := by
  induction acts generalizing s with
  | nil =>
    obtain rfl := Option.some.inj h
    rfl
  | cons a acts ih =>
    obtain ⟨ha, hrest⟩ := Bool.and_eq_true_iff.mp hrelays
    obtain ⟨m, hm, hrun⟩ := Machine.run_cons.mp h
    refine (ih hrest hrun).trans ?_
    cases a with
    | send i =>
      obtain ⟨_, _, rfl⟩ := Option.map_eq_some_iff.mp hm
      rfl
    | deliver i =>
      obtain ⟨_, _, rfl⟩ := Option.map_eq_some_iff.mp hm
      exact hunheard _ _
    | _ => contradiction

end Unheard

end EventServer

/-- The transport decides over the backlog. Once every row is more than three
minutes old, one run of the scheduled job can be followed by sends and deliveries
that clear it if and only if the consumers are handed the message with its value
in it, or there are no rows. -/
theorem backlog_clears_iff {zone : TimeZone} {start : Database} {s : EventServer} {now : Int}
    {transport : Transport} (hknown : transport.Known) (hstart : Unsold start)
    (hempty : start.outboxes = [])
    (h : Machine.Reachable (EventServer.stepOver transport zone) (EventServer.init start) s)
    (hold : ∀ row ∈ s.outbox.rows, row.createdAt + 3 * 60 * 1000 < now) :
    (∃ acts, EventServer.Clears transport zone s now acts) ↔
      transport = Emitted.received ∨ s.outbox.rows = [] := by
  by_cases hreceived : transport = Emitted.received
  · subst hreceived
    rw [EventServer.stepOver_received] at h
    exact ⟨fun _ => Or.inl rfl, fun _ => EventServer.clears_received hstart hempty h hold⟩
  · have hunheard := hknown.deliver_eq hreceived
    constructor
    · intro hclears
      obtain ⟨acts, hrelays, s', hrun, _, hall, _⟩ := hclears
      rw [EventServer.run_handleFailed] at hrun
      have hsame := EventServer.outbox_of_relays hunheard hrelays hrun
      refine Or.inr (List.eq_nil_iff_forall_not_mem.mpr fun row hrow => ?_)
      have hrow' := (hall _).mpr ⟨row, hrow, rfl⟩
      rw [hsame] at hrow'
      have hinit := EventServer.init_of_unheard hunheard hempty h _ hrow'
      contradiction
    · intro hnil
      exact EventServer.clears_nil (hnil.resolve_left hreceived)

/-- A booking whose message is delivered. -/
def bookingDelivered : List EventAct :=
  (undisturbed 1 (.book ⟨1, 1, 1⟩) (bookingAt 0 1 1)).map .transact ++ [.send 0, .deliver 0]

/-- The same run over two transports. The value by itself leaves the row where it
is for good; with the message in hand the backlog can be cleared. -/
theorem backlog_clears_iff_bookingDelivered :
    (∃ s, Machine.run (EventServer.stepOver Emitted.parsed .utc) (EventServer.init smallHall)
        bookingDelivered = some s ∧
      ¬ ∃ acts, EventServer.Clears Emitted.parsed .utc s 400000 acts) ∧
    ∃ s, Machine.run (EventServer.stepOver Emitted.received .utc) (EventServer.init smallHall)
        bookingDelivered = some s ∧
      ∃ acts, EventServer.Clears Emitted.received .utc s 400000 acts := by
  have hknown : Transport.Known Emitted.parsed := Or.inr (Or.inl rfl)
  have hparsed : (Machine.run (EventServer.stepOver Emitted.parsed .utc)
      (EventServer.init smallHall) bookingDelivered).map
        (fun s => s.outbox.rows.map fun row => row.createdAt) = some [0] := by
    rw [EventServer.stepOver_unheard _ (hknown.deliver_eq parsed_ne_received)]
    decide +kernel
  have hreceived : (Machine.run (EventServer.stepOver Emitted.received .utc)
      (EventServer.init smallHall) bookingDelivered).map
        (fun s => s.outbox.rows.map fun row => row.createdAt) = some [0] := by
    rw [EventServer.stepOver_received]
    decide +kernel
  have hold : ∀ s : EventServer, (s.outbox.rows.map fun row => row.createdAt) = [0] →
      ∀ row ∈ s.outbox.rows, row.createdAt + 3 * 60 * 1000 < 400000 := by
    intro s hs row hrow
    have hmem : row.createdAt ∈ [0] := hs ▸ List.mem_map_of_mem hrow
    rw [List.mem_singleton.mp hmem]
    decide
  obtain ⟨s, hs, hrows⟩ := Option.map_eq_some_iff.mp hparsed
  obtain ⟨t, ht, hrows'⟩ := Option.map_eq_some_iff.mp hreceived
  refine ⟨⟨s, hs, ?_⟩, t, ht, ?_⟩
  · rw [backlog_clears_iff hknown smallHall_unsold rfl ⟨_, hs⟩ (hold s hrows)]
    rintro (h | h)
    · exact parsed_ne_received h
    · simp [h] at hrows
  · exact (backlog_clears_iff (Or.inl rfl) smallHall_unsold rfl ⟨_, ht⟩ (hold t hrows')).mpr
      (Or.inl rfl)

end HighVolumeBooking
