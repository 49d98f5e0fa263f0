import HighVolumeBooking.Guarantees.DataPlatform

namespace HighVolumeBooking

open ReadCommitted (Table)
open Interleaving (Answer CallId Executed Pool Running)

/-- How often the data platform was called for an outbox id. -/
def sends (o : RowId) (log : List (Executed dataPlatform Delivery)) : Nat :=
  log.countP fun x => x.label.outboxId == o && isSend x.answer

theorem sends_eq (o : RowId) (log : List (Executed dataPlatform Delivery)) :
    sends o log = (history o log).countP isSend := by
  have hsend : ∀ a : Answer dataPlatform, isSend a = true → isRefused a = false := by
    intro a ha
    obtain ⟨op, reply⟩ := a
    cases op <;> first | rfl | contradiction
  induction log using List.reverseRecOn with
  | nil => rfl
  | append_singleton log x ih =>
    rw [history_append, List.countP_append, ← ih, sends, List.countP_append]
    congr 1
    cases ha : isSend x.answer with
    | true =>
      by_cases ho : x.label.outboxId = o <;> simp [ho, ha, hsend x.answer ha]
    | false =>
      split <;> simp [ha]

theorem Delivery.Stage.sends_le {d : Delivery} {script : Handler Unit}
    {answers : List (Answer dataPlatform)} (h : Delivery.Stage d script answers) :
    answers.countP isSend ≤ 1 := by
  cases h <;> first | exact Nat.zero_le 1 | exact Nat.le_refl 1

theorem sends_le {s : Consumers} (h : Machine.Reachable consume Consumers.init s) (o : RowId) :
    sends o s.log ≤ 1 := by
  rw [sends_eq]
  rcases ledger h o with hu | ⟨i, r, row, ht⟩
  · simp [hu.history]
  · rw [ht.history]
    exact (staged h i r ht.call).1.sends_le

/-! A run without the deliveries of other ids. -/

/-- The step belongs to a handler of the outbox id. -/
def Consumers.about (s : Consumers) (o : RowId) (a : HandlerAct) : Bool :=
  (a.owner.bind s.calls).any fun r => r.label.outboxId == o

/-- What is left of the consumers without the handlers of other ids. -/
structure Alone (o : RowId) (s s' : Consumers) : Prop where
  state : ∀ x, x ∈ s'.state.rows ↔ x ∈ s.state.rows ∧ x.outboxId = o
  calls : ∀ i, s'.calls i = (s.calls i).filter fun r => r.label.outboxId == o
  history : history o s'.log = history o s.log

section Alone

variable {o : RowId} {s s' t : Consumers} {i : CallId} {r : HandlerRun}

section Rest

variable {table rest : ProcessedTable} {entity : ProcessedEntity}

theorem put_alone (hrest : ∀ x, x ∈ rest.rows ↔ x ∈ table.rows ∧ x.outboxId = o)
    (ho : entity.outboxId = o) :
    ∀ x, x ∈ (rest.put entity).rows ↔ x ∈ (table.put entity).rows ∧ x.outboxId = o := by
  intro x
  rw [Table.mem_put, Table.mem_put, hrest]
  constructor
  · intro h
    rcases h with rfl | ⟨⟨hmem, hxo⟩, hne⟩
    · exact ⟨Or.inl rfl, ho⟩
    · exact ⟨Or.inr ⟨hmem, hne⟩, hxo⟩
  · intro h
    obtain ⟨rfl | ⟨hmem, hne⟩, hxo⟩ := h
    · exact Or.inl rfl
    · exact Or.inr ⟨⟨hmem, hxo⟩, hne⟩

/-- Both tables hold a row of the id, or neither does. -/
theorem any_alone (hrest : ∀ x, x ∈ rest.rows ↔ x ∈ table.rows ∧ x.outboxId = o)
    (ho : entity.outboxId = o) : rest.rows.any (fun row => row.outboxId == entity.outboxId) =
      table.rows.any fun row => row.outboxId == entity.outboxId := by
  rw [Bool.eq_iff_iff, List.any_eq_true, List.any_eq_true]
  constructor
  · intro h
    obtain ⟨x, hxm, hxe⟩ := h
    exact ⟨x, ((hrest x).mp hxm).1, hxe⟩
  · intro h
    obtain ⟨x, hxm, hxe⟩ := h
    exact ⟨x, (hrest x).mpr ⟨hxm, (eq_of_beq hxe).trans ho⟩, hxe⟩

theorem fresh_alone {id : RowId} (hrest : ∀ x, x ∈ rest.rows ↔ x ∈ table.rows ∧ x.outboxId = o)
    (hid : table.find? id = none) : rest.find? id = none := by
  rw [Table.find?_eq_none]
  intro x hxm
  exact Table.find?_eq_none.mp hid x ((hrest x).mp hxm).1

end Rest

/-- A command on the rows of o finds in the smaller table what it finds in the
larger one. -/
theorem exec_alone {table table' rest : ProcessedTable} {op : DataPlatformOp}
    {e : DataPlatformEvent} {reply : op.Reply}
    (hrest : ∀ x, x ∈ rest.rows ↔ x ∈ table.rows ∧ x.outboxId = o)
    (hop : ∀ entity, op = .insert entity ∨ op = .update entity → entity.outboxId = o)
    (hx : DataPlatformOp.exec table op e = some (reply, table')) :
    ∃ rest', DataPlatformOp.exec rest op e = some (reply, rest') ∧
      ∀ x, x ∈ rest'.rows ↔ x ∈ table'.rows ∧ x.outboxId = o := by
  cases op with
  | insert entity =>
    have ho := hop entity (Or.inl rfl)
    cases e with
    | issued id =>
      simp only [DataPlatformOp.exec] at hx ⊢
      rw [any_alone hrest ho]
      split at hx
      · rename_i hdup
        simp only [Option.some.injEq, Prod.mk.injEq] at hx
        obtain ⟨rfl, rfl⟩ := hx
        exact ⟨rest, by rw [if_pos hdup], hrest⟩
      · rename_i hdup
        split at hx
        · rename_i hid
          simp only [Option.some.injEq, Prod.mk.injEq] at hx
          obtain ⟨rfl, rfl⟩ := hx
          exact ⟨rest.put { entity with id := id },
            by rw [if_neg hdup, if_pos ⟨hid.1, fresh_alone hrest hid.2⟩], put_alone hrest ho⟩
        · contradiction
    | quiet => simp [DataPlatformOp.exec] at hx
    | ended outcome => simp [DataPlatformOp.exec] at hx
  | update entity =>
    cases e <;> simp only [DataPlatformOp.exec, Option.some.injEq, Prod.mk.injEq, reduceCtorEq,
      true_and] at hx
    subst hx
    exact ⟨rest.put entity, rfl, put_alone hrest (hop entity (Or.inr rfl))⟩
  | send result =>
    cases e <;> simp only [DataPlatformOp.exec, Option.some.injEq, Prod.mk.injEq, reduceCtorEq,
      true_and] at hx
    subst hx
    exact ⟨rest, rfl, hrest⟩
  | response =>
    cases e <;> simp only [DataPlatformOp.exec, Option.some.injEq, Prod.mk.injEq, reduceCtorEq] at hx
    obtain ⟨rfl, rfl⟩ := hx
    exact ⟨rest, rfl, hrest⟩

/-- The commands of a handler are about the row of its own id. -/
theorem Delivery.Stage.entity_eq {d : Delivery} {r : HandlerRun} {op : DataPlatformOp}
    {k : op.Reply → Handler Unit} (h : Delivery.Stage d r.script r.answers)
    (hn : r.next = some ⟨op, k⟩) :
    ∀ entity, op = .insert entity ∨ op = .update entity → entity.outboxId = d.outboxId := by
  obtain ⟨_, hscript⟩ := Running.next_eq_some.mp hn
  obtain ⟨label, script, queue, answers, crashed⟩ := r
  simp only at h hscript
  intro entity hop
  cases h with
  | malformed => simp at hscript
  | duplicate => simp at hscript
  | settled v row h outcome => simp at hscript
  | fresh v =>
    simp only [Delivery.record, reduceCtorEq, false_or] at hscript
    obtain ⟨hcall, _⟩ := hscript
    cases hcall
    rcases hop with hop | hop <;> cases hop
    rfl
  | received v row h =>
    simp only [Delivery.hand, reduceCtorEq, false_or] at hscript
    obtain ⟨hcall, _⟩ := hscript
    cases hcall
    rcases hop with hop | hop <;> cases hop
  | called v row h =>
    simp only [Delivery.await, reduceCtorEq, false_or] at hscript
    obtain ⟨hcall, _⟩ := hscript
    cases hcall
    rcases hop with hop | hop <;> cases hop
  | answered v row h outcome =>
    simp only [Delivery.settle_eq h.id, reduceCtorEq, false_or] at hscript
    obtain ⟨hcall, _⟩ := hscript
    cases hcall
    rcases hop with hop | hop <;> cases hop
    exact h.outboxId

variable {act : HandlerAct}

theorem Alone.own (ha : Alone o s s') (hr : s.calls i = some r) (ho : r.label.outboxId = o) :
    s'.calls i = some r := by
  rw [ha.calls, hr, Option.filter_some, if_pos (by simpa using ho)]

/-- Both sides change the handler in the same way. -/
theorem Alone.update (ha : Alone o s s') {r' : HandlerRun} (ho : r'.label.outboxId = o) :
    ∀ j, Function.update s'.calls i (some r') j =
      (Function.update s.calls i (some r') j).filter fun r => r.label.outboxId == o := by
  intro j
  by_cases hj : j = i
  · subst hj
    rw [Function.update_self, Function.update_self, Option.filter_some,
      if_pos (by simpa using ho)]
  · rw [Function.update_of_ne hj, Function.update_of_ne hj, ha.calls]

/-- A handler of another id changes only the larger side. -/
theorem Alone.skip (ha : Alone o s s') {r' : HandlerRun} (ho : r'.label.outboxId ≠ o)
    (hcalls : ∀ q, s.calls i = some q → q.label.outboxId ≠ o) :
    ∀ j, s'.calls j =
      (Function.update s.calls i (some r') j).filter fun r => r.label.outboxId == o := by
  intro j
  rw [ha.calls]
  by_cases hj : j = i
  · subst hj
    rw [Function.update_self, Option.filter_some, if_neg (by simpa using ho)]
    cases hq : s.calls j with
    | none => rfl
    | some q => rw [Option.filter_some, if_neg (by simpa using hcalls q hq)]
  · rw [Function.update_of_ne hj]

/-- Each step of a run is a step of the smaller run or passes it by. -/
theorem Alone.step (ha : Alone o s s') (hl : Ledger s)
    (hstage : ∀ i r, s.calls i = some r →
      Delivery.Stage r.label r.script r.answers ∧ r.queue = [])
    (hs : consume s act = some t) :
    (t.about o act = true ∧ ∃ t', consume s' act = some t' ∧ Alone o t t') ∨
      (t.about o act = false ∧ Alone o t s') := by
  cases act with
  | start i d =>
    obtain ⟨hi, rfl⟩ := Pool.step_start hs
    have hi' : s'.calls i = none := by rw [ha.calls, hi]; rfl
    by_cases ho : d.outboxId = o
    · refine Or.inl ⟨by simp [Consumers.about, Interleaving.Act.owner, Running.start, ho],
        { s' with calls := Function.update s'.calls i (some (.start d d.handle)) },
        Pool.start_step hi', ?_⟩
      exact { state := ha.state, calls := ha.update ho, history := ha.history }
    · refine Or.inr ⟨by simp [Consumers.about, Interleaving.Act.owner, Running.start, ho], ?_⟩
      exact { state := ha.state, calls := ha.skip ho (by simp [hi]), history := ha.history }
  | answer i e =>
    obtain ⟨r, op, k, reply, st, hr, hn, hx, rfl⟩ := Pool.step_answer hs
    have hp := Delivery.progress (hstage i r hr).1 hn hx
    by_cases ho : r.label.outboxId = o
    · have hr' := ha.own hr ho
      obtain ⟨rest', hx', hrest'⟩ := exec_alone ha.state
        (fun entity hop => ((hstage i r hr).1.entity_eq hn entity hop).trans ho) hx
      refine Or.inl ⟨by simp [Consumers.about, Interleaving.Act.owner, Running.answered, ho],
        ⟨rest', Function.update s'.calls i (some (r.answered ⟨op, reply⟩ (k reply))),
          s'.log ++ [⟨r.label, ⟨op, reply⟩, s'.state⟩]⟩, ?_, ?_⟩
      · exact Pool.answer_step hr' hn hx'
      · refine { state := hrest', calls := ha.update ho, history := ?_ }
        rw [history_append, history_append, ha.history]
    · refine Or.inr ⟨by simp [Consumers.about, Interleaving.Act.owner, Running.answered, ho], ?_⟩
      refine { state := ?_, calls := ha.skip ho ?_, history := ?_ }
      · intro x
        rw [ha.state]
        constructor
        · rintro ⟨hx, hxo⟩
          exact ⟨(hl.table_other hr hp ho x hxo).mpr hx, hxo⟩
        · rintro ⟨hx, hxo⟩
          exact ⟨(hl.table_other hr hp ho x hxo).mp hx, hxo⟩
      · intro q hq
        obtain rfl := Option.some.inj (hr.symm.trans hq)
        exact ho
      · rw [history_append, ha.history]
        simp [ho]
  | issue i =>
    obtain ⟨r, op, k, hr, hc, hsend, _⟩ := Pool.step_issue hs
    exact absurd hsend ((hstage i r hr).1.not_send op k)
  | flush i e =>
    obtain ⟨r, op, queue, reply, st, hr, hq, _, _⟩ := Pool.step_flush hs
    simp [(hstage i r hr).2] at hq
  | env e =>
    obtain ⟨st, hst, _⟩ := Pool.step_env hs
    contradiction
  | crash i =>
    obtain ⟨r, hr, rfl⟩ := Pool.step_crash hs
    by_cases ho : r.label.outboxId = o
    · have hr' := ha.own hr ho
      refine Or.inl ⟨by simp [Consumers.about, Interleaving.Act.owner, ho],
        { s' with calls := Function.update s'.calls i (some { r with crashed := true }) },
        by simp only [consume, Pool.step, hr'], ?_⟩
      exact { state := ha.state, calls := ha.update ho, history := ha.history }
    · refine Or.inr ⟨by simp [Consumers.about, Interleaving.Act.owner, ho], ?_⟩
      refine { state := ha.state, calls := ha.skip ho ?_, history := ha.history }
      intro q hq
      obtain rfl := Option.some.inj (hr.symm.trans hq)
      exact ho

end Alone

/-- The steps of the handlers of one outbox id are a run of their own, with the
same commands and the same answers. -/
theorem run_alone {acts : List HandlerAct} {s : Consumers}
    (h : Machine.run consume Consumers.init acts = some s) (o : RowId) :
    ∃ s', Machine.run consume Consumers.init (acts.filter (s.about o)) = some s' ∧
      Alone o s s' := by
  -- which calls are about o is fixed by the final state; labels never change on the way
  have key : ∀ mine : CallId → Bool,
      (∀ i r, s.calls i = some r → mine i = (r.label.outboxId == o)) →
      ∃ s', Machine.run consume Consumers.init (acts.filter fun a => a.owner.any mine) = some s' ∧
        Alone o s s' := by
    refine Machine.run_induction (fun acts s => ∀ mine : CallId → Bool,
      (∀ i r, s.calls i = some r → mine i = (r.label.outboxId == o)) →
      ∃ s', Machine.run consume Consumers.init (acts.filter fun a => a.owner.any mine) = some s' ∧
        Alone o s s') ?_ ?_ h
    · intro mine _
      exact ⟨Consumers.init, rfl, { state := by simp [Consumers.init, Pool.init, Table.empty],
                                    calls := fun _ => rfl, history := rfl }⟩
    · intro acts m a t hm ih hs mine hmine
      obtain ⟨m', hm', ha⟩ := ih mine (by
        intro i r hr
        obtain ⟨r', hr', hlabel⟩ := Pool.label_step hs hr
        rw [hmine i r' hr', hlabel])
      have hreach : Machine.Reachable consume Consumers.init m := ⟨acts, hm⟩
      have howner : t.about o a = a.owner.any mine := by
        cases howner : a.owner with
        | none => simp [Consumers.about, howner]
        | some i =>
          obtain ⟨r, hr⟩ := Pool.owner_step hs howner
          simp [Consumers.about, howner, hr, hmine i r hr]
      rw [List.filter_append, List.filter_singleton, ← howner]
      rcases ha.step (ledger hreach) (staged hreach) hs with ⟨hmine', t', ht', hat⟩ | ⟨hother, hat⟩
      · rw [hmine']
        exact ⟨t', Machine.run_concat.mpr ⟨m', hm', ht'⟩, hat⟩
      · rw [hother]
        exact ⟨m', by simpa using hm', hat⟩
  obtain ⟨s', hs', ha⟩ := key (fun i => (s.calls i).any fun r => r.label.outboxId == o) (by
    intro i r hr
    simp [hr])
  refine ⟨s', ?_, ha⟩
  have hfilter : acts.filter (s.about o) = acts.filter fun a =>
      a.owner.any fun i => (s.calls i).any fun r => r.label.outboxId == o := by
    congr 1
    funext a
    cases howner : a.owner <;> simp [Consumers.about, howner]
  rw [hfilter]
  exact hs'

/-- Every command of the consumers has an answer in every state. -/
theorem exec_total (table : ProcessedTable) (op : DataPlatformOp) :
    ∃ e reply table', DataPlatformOp.exec table op e = some (reply, table') := by
  cases op with
  | insert entity =>
    obtain ⟨id, hpos, hfresh⟩ := table.exists_fresh
    refine ⟨.issued id, ?_⟩
    simp only [DataPlatformOp.exec]
    split
    · exact ⟨none, table, rfl⟩
    · rw [if_pos ⟨hpos, hfresh⟩]
      exact ⟨_, _, rfl⟩
  | update entity => exact ⟨.quiet, (), table.put entity, rfl⟩
  | send result => exact ⟨.quiet, (), table, rfl⟩
  | response => exact ⟨.ended .returned, .returned, table, rfl⟩

/-- No handler is held up by another one. -/
theorem unblocked {s : Consumers} (h : Machine.Reachable consume Consumers.init s) {i : CallId}
    {r : HandlerRun} (hr : s.calls i = some r) (hn : r.ended = false) :
    ∃ e t, consume s (.answer i e) = some t := by
  obtain ⟨hstage, hqueue⟩ := staged h i r hr
  have hnext : ∃ o k, r.next = some ⟨o, k⟩ := by
    simp only [Running.ended, hqueue, List.isEmpty_nil, Bool.and_true, Bool.or_eq_false_iff] at hn
    obtain ⟨hcrashed, hscript⟩ := hn
    cases hs : r.script with
    | done b => simp [hs, Interleaving.Script.finished] at hscript
    | fail e => simp [hs, Interleaving.Script.finished] at hscript
    | ask o k => exact ⟨o, k, Running.next_eq_some.mpr ⟨hcrashed, Or.inl hs⟩⟩
    | call o k => exact ⟨o, k, Running.next_eq_some.mpr ⟨hcrashed, Or.inr ⟨hs, hqueue⟩⟩⟩
    | send o k => exact absurd hs (hstage.not_send o k)
  obtain ⟨o, k, hnext⟩ := hnext
  obtain ⟨e, reply, table, hx⟩ := exec_total s.state o
  exact ⟨e, _, Pool.answer_step hr hnext hx⟩

/-- The platform is called at most once for an outbox id. Without the handlers
of the other ids, those of this id still get the same answers, and none of them
is held up. -/
theorem handed_over_once {acts : List HandlerAct} {s : Consumers}
    (h : Machine.run consume Consumers.init acts = some s) (o : RowId) :
    sends o s.log ≤ 1 ∧
      (∃ s', Machine.run consume Consumers.init (acts.filter (s.about o)) = some s' ∧
        sends o s'.log = sends o s.log ∧
        ∀ i r, s.calls i = some r → r.label.outboxId = o → s'.calls i = some r) ∧
      ∀ i r, s.calls i = some r → r.label.outboxId = o → r.ended = false →
        ∃ e t, consume s (.answer i e) = some t := by
  refine ⟨sends_le ⟨acts, h⟩ o, ?_, ?_⟩
  · obtain ⟨s', hs', ha⟩ := run_alone h o
    refine ⟨s', hs', ?_, fun i r hr ho => ha.own hr ho⟩
    rw [sends_eq, sends_eq, ha.history]
  · intro i r hr _ hn
    exact unblocked ⟨acts, h⟩ hr hn

/-- The message of a payment, as the outbox row has it. -/
def paymentMessage (outboxId : RowId) : Message :=
  ⟨"payment.completed", ⟨outboxId, "payment.completed",
    (ConcertPayment.mk 1 1 1 1 1 1 100 .buy).toJson.stringify, .init⟩⟩

/-- Two deliveries of one message overlap, another message comes in between, and
the handler that made the call crashes. -/
def redelivered : List HandlerAct :=
  [.start 0 (.payment (paymentMessage 7)), .start 1 (.payment (paymentMessage 7)),
    .start 2 (.payment (paymentMessage 8)), .answer 0 (.issued 1), .answer 1 (.issued 2),
    .answer 2 (.issued 2), .answer 0 .quiet, .crash 0, .answer 2 .quiet]

theorem handed_over_once_redelivered :
    ∃ s, Machine.run consume Consumers.init redelivered = some s ∧ sends 7 s.log ≤ 1 ∧
      ∃ s', Machine.run consume Consumers.init (redelivered.filter (s.about 8)) = some s' ∧
        sends 8 s'.log = sends 8 s.log := by
  have h : (Machine.run consume Consumers.init redelivered).isSome = true := by decide +kernel
  obtain ⟨s, hs⟩ := Option.isSome_iff_exists.mp h
  obtain ⟨_, ⟨s', hs', hsends, _⟩, _⟩ := handed_over_once hs 8
  exact ⟨s, hs, (handed_over_once hs 7).1, s', hs', hsends⟩

end HighVolumeBooking
