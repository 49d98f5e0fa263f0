import HighVolumeBooking.Application.DataPlatform

namespace HighVolumeBooking

open ReadCommitted (Table)
open Interleaving (Answer CallId Executed Pool Running)

/-- The consumer instances with all handlers that were ever started, over the
processed table. -/
abbrev Consumers := Pool dataPlatform HandlerError Unit Delivery

abbrev HandlerRun := Running dataPlatform HandlerError Unit Delivery

abbrev HandlerAct := Interleaving.Act dataPlatform Delivery

abbrev consume (s : Consumers) (a : HandlerAct) : Option Consumers := Pool.step Delivery.handle s a

def Consumers.init : Consumers := Pool.init (Table.empty ProcessedEntity.id)

namespace Delivery

variable (d : Delivery)

/-! A handler, from each of its steps on. -/

def entity : ProcessedEntity := ⟨0, d.outboxId, .received⟩

def settle (row : ProcessedEntity) : Handler Unit :=
  ProcessedService.toSuccess (ProcessedMapper.toDomain row)

def await (row : ProcessedEntity) : Handler Unit := .call .response fun _ => settle row

def hand (v : Json) (row : ProcessedEntity) : Handler Unit :=
  .call (.send (d.result v)) fun _ => await row

def record (v : Json) : Handler Unit :=
  .call (.insert d.entity) fun saved =>
    match saved with
    | some row => d.hand v row
    | none => .fail .uniqueViolation

theorem handle_eq : d.handle =
    match Json.parse d.data.value.message with
    | some v => d.record v
    | none => .fail .syntaxError := by
  cases d with
  | booking data =>
    simp only [handle, DataPlatformBookingConsumer.sendBookingData, JSON.parse, Delivery.data]
    cases Json.parse data.value.message with
    | none => rfl
    | some v =>
      simp only [Interleaving.Script.bind_eq, Interleaving.Script.done_bind, record]
      refine congrArg (Interleaving.Script.call _) (funext fun saved => ?_)
      cases saved <;> rfl
  | payment data =>
    simp only [handle, DataPlatformPaymentConsumer.sendPaymentData, JSON.parse, Delivery.data]
    cases Json.parse data.value.message with
    | none => rfl
    | some v =>
      simp only [Interleaving.Script.bind_eq, Interleaving.Script.done_bind, record]
      refine congrArg (Interleaving.Script.call _) (funext fun saved => ?_)
      cases saved <;> rfl

theorem settle_eq {row : ProcessedEntity} (h : row.id ≠ 0) :
    settle row = .call (.update { row with status := .success }) fun _ => .done () := by
  simp only [settle, ProcessedService.toSuccess, ProcessedRepository.save, Processed.toSuccess,
    ProcessedMapper.toDomain, ProcessedMapper.toEntity, h, if_false]
  rfl

/-- A row as an insert of the handler answers it. -/
structure Recorded (row : ProcessedEntity) : Prop where
  id : row.id ≠ 0
  outboxId : row.outboxId = d.outboxId
  status : row.status = .received

/-- What a handler has left to do after the answers it got. -/
inductive Stage : Handler Unit → List (Answer dataPlatform) → Prop where
  | malformed : Stage (.fail .syntaxError) []
  | fresh (v : Json) : Stage (d.record v) []
  | duplicate : Stage (.fail .uniqueViolation) [⟨.insert d.entity, none⟩]
  | received (v : Json) (row : ProcessedEntity) (h : d.Recorded row) :
      Stage (d.hand v row) [⟨.insert d.entity, some row⟩]
  | called (v : Json) (row : ProcessedEntity) (h : d.Recorded row) :
      Stage (await row) [⟨.insert d.entity, some row⟩, ⟨.send (d.result v), ()⟩]
  | answered (v : Json) (row : ProcessedEntity) (h : d.Recorded row)
      (outcome : Outcome) : Stage (settle row)
      [⟨.insert d.entity, some row⟩, ⟨.send (d.result v), ()⟩, ⟨.response, outcome⟩]
  | settled (v : Json) (row : ProcessedEntity) (h : d.Recorded row)
      (outcome : Outcome) : Stage (.done ())
      [⟨.insert d.entity, some row⟩, ⟨.send (d.result v), ()⟩, ⟨.response, outcome⟩,
        ⟨.update { row with status := .success }, ()⟩]

section Stages

variable {d : Delivery} {r : HandlerRun}

theorem stage_start : Stage d d.handle [] := by
  rw [handle_eq]
  cases Json.parse d.data.value.message with
  | none => exact .malformed
  | some v => exact .fresh v

/-- Only an insert is answered with a row, and that row has a key and the id
of the message. -/
theorem exec_insert {table table' : ProcessedTable} {e : DataPlatformEvent}
    {saved : Option ProcessedEntity}
    (h : DataPlatformOp.exec table (.insert d.entity) e = some (saved, table')) :
    (saved = none ∧ table' = table ∧ ∃ row ∈ table.rows, row.outboxId = d.outboxId) ∨
      ∃ row, saved = some row ∧ row.id ≠ 0 ∧ row.outboxId = d.outboxId ∧ row.status = .received ∧
        table.find? row.id = none ∧ (∀ x ∈ table.rows, x.outboxId ≠ d.outboxId) ∧
        table' = table.put row := by
  cases e with
  | issued id =>
    simp only [DataPlatformOp.exec] at h
    split at h
    · rename_i hany
      obtain ⟨row, hrow, heq⟩ := List.any_eq_true.mp hany
      simp only [Option.some.injEq, Prod.mk.injEq] at h
      exact Or.inl ⟨h.1.symm, h.2.symm, row, hrow, by simpa [Delivery.entity] using heq⟩
    · rename_i hany
      split at h
      · rename_i hid
        simp only [Option.some.injEq, Prod.mk.injEq] at h
        refine Or.inr ⟨{ d.entity with id := id }, h.1.symm, Int.ne_of_gt hid.1, rfl, rfl,
          hid.2, ?_, h.2.symm⟩
        intro x hx heq
        exact hany (List.any_eq_true.mpr ⟨x, hx, by simp [Delivery.entity, heq]⟩)
      · contradiction
  | quiet => simp [DataPlatformOp.exec] at h
  | ended outcome => simp [DataPlatformOp.exec] at h

/-- A handler waits for every command. -/
theorem Stage.not_send {script : Handler Unit} {answers : List (Answer dataPlatform)}
    (h : Stage d script answers) (o : DataPlatformOp) (k : Handler Unit) :
    script ≠ .send o k := by
  intro hk
  cases h with
  | answered v row h outcome =>
    rw [settle_eq h.id] at hk
    cases hk
  | _ => cases hk

/-- A handler is in one of its stages, and sends nothing without waiting. -/
theorem staged : Pool.Local Delivery.handle fun _ (r : HandlerRun) =>
    Stage r.label r.script r.answers ∧ r.queue = [] where
  mono := fun _ _ _ hp => hp
  start := fun _ d => ⟨stage_start, rfl⟩
  answer := by
    intro log r o k st e reply st' hp hn hx
    obtain ⟨hstage, hqueue⟩ := hp
    refine ⟨?_, hqueue⟩
    obtain ⟨_, hscript⟩ := Running.next_eq_some.mp hn
    obtain ⟨d, script, queue, answers, crashed⟩ := r
    simp only [Running.answered] at hstage hscript ⊢
    cases hstage with
    | malformed => simp at hscript
    | duplicate => simp at hscript
    | settled v row h outcome => simp at hscript
    | fresh v =>
      simp only [record, reduceCtorEq, false_or] at hscript
      obtain ⟨hcall, _⟩ := hscript
      cases hcall
      rcases exec_insert hx with ⟨rfl, _⟩ | ⟨row, rfl, hid, hout, hstatus, _⟩
      · exact .duplicate
      · exact .received v row ⟨hid, hout, hstatus⟩
    | received v row h =>
      simp only [hand, reduceCtorEq, false_or] at hscript
      obtain ⟨hcall, _⟩ := hscript
      cases hcall
      exact .called v row h
    | called v row h =>
      simp only [await, reduceCtorEq, false_or] at hscript
      obtain ⟨hcall, _⟩ := hscript
      cases hcall
      exact .answered v row h reply
    | answered v row h outcome =>
      simp only [settle_eq h.id, reduceCtorEq, false_or] at hscript
      obtain ⟨hcall, _⟩ := hscript
      cases hcall
      exact .settled v row h outcome
  issue := by
    intro log r o k hp _ hs
    exact absurd hs (hp.1.not_send o k)
  flush := by
    intro log r o queue hp hq
    simp [hp.2] at hq
  crash := fun _ _ hp => hp

/-- What the next answer of a handler is, and what it does to the table. -/
inductive Progress (d : Delivery) (table : ProcessedTable) :
    List (Answer dataPlatform) → Answer dataPlatform → ProcessedTable → Prop where
  | refuse (row : ProcessedEntity) (h : row ∈ table.rows ∧ row.outboxId = d.outboxId) :
      Progress d table [] ⟨.insert d.entity, none⟩ table
  | insert (row : ProcessedEntity) (h : row.id ≠ 0 ∧ row.outboxId = d.outboxId)
      (hstatus : row.status = .received) (hid : table.find? row.id = none)
      (hfree : ∀ x ∈ table.rows, x.outboxId ≠ d.outboxId) :
      Progress d table [] ⟨.insert d.entity, some row⟩ (table.put row)
  | send (v : Json) (row : ProcessedEntity) :
      Progress d table [⟨.insert d.entity, some row⟩] ⟨.send (d.result v), ()⟩ table
  | response (v : Json) (row : ProcessedEntity) (outcome : Outcome) :
      Progress d table [⟨.insert d.entity, some row⟩, ⟨.send (d.result v), ()⟩]
        ⟨.response, outcome⟩ table
  | update (v : Json) (row : ProcessedEntity) (h : row.outboxId = d.outboxId)
      (outcome : Outcome) :
      Progress d table [⟨.insert d.entity, some row⟩, ⟨.send (d.result v), ()⟩,
        ⟨.response, outcome⟩] ⟨.update { row with status := .success }, ()⟩
        (table.put { row with status := .success })

theorem progress {r : HandlerRun} {o : DataPlatformOp} {k : o.Reply → Handler Unit}
    {table table' : ProcessedTable} {e : DataPlatformEvent} {reply : o.Reply}
    (hstage : Stage r.label r.script r.answers) (hn : r.next = some ⟨o, k⟩)
    (hx : DataPlatformOp.exec table o e = some (reply, table')) :
    Progress r.label table r.answers ⟨o, reply⟩ table' := by
  obtain ⟨_, hscript⟩ := Running.next_eq_some.mp hn
  obtain ⟨d, script, queue, answers, crashed⟩ := r
  simp only at hstage hscript ⊢
  cases hstage with
  | malformed => simp at hscript
  | duplicate => simp at hscript
  | settled v row h outcome => simp at hscript
  | fresh v =>
    simp only [record, reduceCtorEq, false_or] at hscript
    obtain ⟨hcall, _⟩ := hscript
    cases hcall
    rcases exec_insert hx with
      ⟨rfl, rfl, row, hrow⟩ | ⟨row, rfl, hid, hout, hstatus, hfind, hfree, rfl⟩
    · exact .refuse row hrow
    · exact .insert row ⟨hid, hout⟩ hstatus hfind hfree
  | received v row h =>
    simp only [hand, reduceCtorEq, false_or] at hscript
    obtain ⟨hcall, _⟩ := hscript
    cases hcall
    cases e <;> simp only [DataPlatformOp.exec, Option.some.injEq, Prod.mk.injEq, reduceCtorEq,
      true_and] at hx
    subst hx
    exact .send v row
  | called v row h =>
    simp only [await, reduceCtorEq, false_or] at hscript
    obtain ⟨hcall, _⟩ := hscript
    cases hcall
    cases e <;> simp only [DataPlatformOp.exec, Option.some.injEq, Prod.mk.injEq, reduceCtorEq] at hx
    obtain ⟨rfl, rfl⟩ := hx
    exact .response v row _
  | answered v row h outcome =>
    simp only [settle_eq h.id, reduceCtorEq, false_or] at hscript
    obtain ⟨hcall, _⟩ := hscript
    cases hcall
    cases e <;> simp only [DataPlatformOp.exec, Option.some.injEq, Prod.mk.injEq, reduceCtorEq,
      true_and] at hx
    subst hx
    exact .update v row h.outboxId outcome

end Stages

end Delivery

/-! What the answers of a handler say. -/

def took : List (Answer dataPlatform) → Option ProcessedEntity
  | ⟨.insert _, saved⟩ :: _ => saved
  | _ => none

def isSend : Answer dataPlatform → Bool
  | ⟨.send _, _⟩ => true
  | _ => false

def outcome? : Answer dataPlatform → Option Outcome
  | ⟨.response, outcome⟩ => some outcome
  | _ => none

def isUpdate : Answer dataPlatform → Bool
  | ⟨.update _, _⟩ => true
  | _ => false

def isRefused : Answer dataPlatform → Bool
  | ⟨.insert _, none⟩ => true
  | _ => false

/-- The row as the handler left it. -/
def stored (row : ProcessedEntity) (answers : List (Answer dataPlatform)) : ProcessedEntity :=
  if answers.any isUpdate then { row with status := .success } else row

/-- The commands executed for an outbox id, apart from refused inserts. -/
def history (o : RowId) (log : List (Executed dataPlatform Delivery)) :
    List (Answer dataPlatform) :=
  (log.filter fun x => x.label.outboxId == o && !isRefused x.answer).map (·.answer)

/-- No handler has recorded the outbox id. -/
structure Untaken (s : Consumers) (o : RowId) : Prop where
  history : history o s.log = []
  table : ∀ x ∈ s.state.rows, x.outboxId ≠ o
  none : ∀ i r, s.calls i = some r → r.label.outboxId = o → took r.answers = none

/-- One handler has recorded the outbox id; everything done for the id, it did. -/
structure Taken (s : Consumers) (o : RowId) (i : CallId) (r : HandlerRun) (row : ProcessedEntity) :
    Prop where
  call : s.calls i = some r
  outboxId : r.label.outboxId = o
  record : took r.answers = some row
  history : history o s.log = r.answers
  table : ∀ x, (x ∈ s.state.rows ∧ x.outboxId = o) ↔ x = stored row r.answers
  sole : ∀ j r', s.calls j = some r' → r'.label.outboxId = o → took r'.answers ≠ none → j = i

/-- Whoever recorded an outbox id first owns it. -/
def Ledger (s : Consumers) : Prop :=
  ∀ o, Untaken s o ∨ ∃ i r row, Taken s o i r row

section Steps

variable {s s' : Consumers} {o : RowId}

theorem history_append (log : List (Executed dataPlatform Delivery))
    (x : Executed dataPlatform Delivery) : history o (log ++ [x]) = history o log ++
      if x.label.outboxId = o ∧ isRefused x.answer = false then [x.answer] else [] := by
  by_cases ho : x.label.outboxId = o <;> cases hr : isRefused x.answer <;>
    simp [history, List.filter_append, ho, hr]

/-- A step that is about other ids, or leaves the answers of the handlers alone,
changes nothing for o. -/
theorem ledger_frame (hlog : history o s'.log = history o s.log)
    (htable : ∀ x, x.outboxId = o → (x ∈ s'.state.rows ↔ x ∈ s.state.rows))
    (hback : ∀ j r', s'.calls j = some r' → r'.label.outboxId = o → took r'.answers ≠ none →
      ∃ r, s.calls j = some r ∧ r.label = r'.label ∧ r.answers = r'.answers)
    (hforth : ∀ j r, s.calls j = some r → r.label.outboxId = o → took r.answers ≠ none →
      ∃ r', s'.calls j = some r' ∧ r'.label = r.label ∧ r'.answers = r.answers)
    (h : Untaken s o ∨ ∃ i r row, Taken s o i r row) :
    Untaken s' o ∨ ∃ i r row, Taken s' o i r row := by
  rcases h with h | ⟨i, r, row, h⟩
  · refine Or.inl ⟨hlog.trans h.history, ?_, ?_⟩
    · intro x hx ho
      exact h.table x ((htable x ho).mp hx) ho
    · intro j r' hr' ho
      by_contra htook
      obtain ⟨r, hr, hlabel, hanswers⟩ := hback j r' hr' ho htook
      exact htook (hanswers ▸ h.none j r hr (hlabel ▸ ho))
  · have htook : took r.answers ≠ none := by simp [h.record]
    obtain ⟨r', hr', hlabel, hanswers⟩ := hforth i r h.call h.outboxId htook
    refine Or.inr ⟨i, r', row, ?_⟩
    refine { call := hr', outboxId := hlabel ▸ h.outboxId, record := hanswers ▸ h.record,
             history := (hlog.trans h.history).trans hanswers.symm, table := ?_, sole := ?_ }
    · intro x
      rw [hanswers, ← h.table x]
      constructor
      · intro hx
        exact ⟨(htable x hx.2).mp hx.1, hx.2⟩
      · intro hx
        exact ⟨(htable x hx.2).mpr hx.1, hx.2⟩
    · intro j r'' hj ho ht
      obtain ⟨r₀, hr₀, hl, ha⟩ := hback j r'' hj ho ht
      exact h.sole j r₀ hr₀ (hl ▸ ho) (ha ▸ ht)

theorem took_append {answers : List (Answer dataPlatform)} {a : Answer dataPlatform}
    (hne : answers ≠ []) : took (answers ++ [a]) = took answers := by
  cases answers with
  | nil => contradiction
  | cons b bs => cases b with
    | mk o reply => cases o <;> rfl

/-- A step that leaves state and log alone and keeps the answers of every handler. -/
theorem Ledger.quiet (hl : Ledger s) (hstate : s'.state = s.state) (hlog : s'.log = s.log)
    (hback : ∀ j r', s'.calls j = some r' → took r'.answers ≠ none →
      ∃ r, s.calls j = some r ∧ r.label = r'.label ∧ r.answers = r'.answers)
    (hforth : ∀ j r, s.calls j = some r →
      ∃ r', s'.calls j = some r' ∧ r'.label = r.label ∧ r'.answers = r.answers) : Ledger s' := by
  intro o
  refine ledger_frame (by rw [hlog]) (fun x _ => by rw [hstate]) ?_ ?_ (hl o)
  · intro j r' hr' _ ht
    exact hback j r' hr' ht
  · intro j r hr _ _
    exact hforth j r hr

variable {i : CallId} {r r' : HandlerRun} {a : Answer dataPlatform} {table : ProcessedTable}

/-- The handler that recorded an id is its owner. -/
theorem Ledger.owner (hl : Ledger s) {row : ProcessedEntity} (hr : s.calls i = some r)
    (ht : took r.answers = some row) : Taken s r.label.outboxId i r row := by
  rcases hl r.label.outboxId with h | ⟨j, q, row', h⟩
  · simp [h.none i r hr rfl] at ht
  · obtain rfl := h.sole i r hr rfl (by simp [ht])
    obtain rfl := Option.some.inj (hr.symm.trans h.call)
    obtain rfl := Option.some.inj (ht.symm.trans h.record)
    exact h

/-- The owner goes on. -/
theorem Taken.advance {row : ProcessedEntity} (h : Taken s o i r row)
    (ha : isRefused a = false) (hcalls : s'.calls = Function.update s.calls i (some r'))
    (hlabel : r'.label = r.label) (hanswers : r'.answers = r.answers ++ [a])
    (hlog : s'.log = s.log ++ [⟨r.label, a, s.state⟩])
    (htable : ∀ x, (x ∈ s'.state.rows ∧ x.outboxId = o) ↔ x = stored row r'.answers) :
    Taken s' o i r' row := by
  have hne : r.answers ≠ [] := by
    intro hnil
    have ht := h.record
    rw [hnil] at ht
    contradiction
  have hcall : s'.calls i = some r' := by rw [hcalls, Function.update_self]
  refine { call := hcall, outboxId := hlabel ▸ h.outboxId, record := ?_, history := ?_,
           table := htable, sole := ?_ }
  · rw [hanswers, took_append hne, h.record]
  · rw [hlog, history_append, h.history, hanswers, if_pos ⟨h.outboxId, ha⟩]
  · intro j q hq ho ht
    by_contra hj
    rw [hcalls, Function.update_of_ne hj] at hq
    exact hj (h.sole j q hq ho ht)

/-- No answer to a handler touches the rows of another outbox id. -/
theorem Ledger.table_other (hl : Ledger s) (hr : s.calls i = some r)
    (hp : Delivery.Progress r.label s.state r.answers a table) (ho : r.label.outboxId ≠ o) :
    ∀ x, x.outboxId = o → (x ∈ table.rows ↔ x ∈ s.state.rows) := by
  obtain ⟨d, script, queue, answers, crashed⟩ := r
  simp only at hp ho
  intro x hx
  cases hp with
  | refuse row h => rfl
  | send v row => rfl
  | response v row outcome => rfl
  | insert row h hstatus hid hfree =>
    have hne : x ≠ row := by
      rintro rfl
      exact ho (h.2.symm.trans hx)
    have hkey : x ∈ s.state.rows → x.id ≠ row.id := fun hmem => Table.find?_eq_none.mp hid x hmem
    rw [Table.mem_put]
    simp only [hne, false_or, and_iff_left_iff_imp]
    exact hkey
  | update v row h outcome =>
    have hown := hl.owner hr rfl
    have hmem : row ∈ s.state.rows := ((hown.table row).mpr rfl).1
    have hne : x ≠ { row with status := .success } := by
      rintro rfl
      exact ho (h.symm.trans hx)
    have hkey : x ∈ s.state.rows → x.id ≠ row.id := by
      intro hxm hid
      obtain rfl := Table.eq_of_key hxm hmem hid
      exact ho (h.symm.trans hx)
    rw [Table.mem_put]
    simp only [hne, false_or, and_iff_left_iff_imp]
    exact hkey

/-- The first handler that records an id becomes its owner. -/
theorem Untaken.taken {row : ProcessedEntity} (hu : Untaken s o)
    (hcalls : s'.calls = Function.update s.calls i (some r')) (ho : r'.label.outboxId = o)
    (ha : isRefused a = false) (hanswers : r'.answers = [a]) (hrecord : took [a] = some row)
    (hstored : stored row [a] = row) (hlog : s'.log = s.log ++ [⟨r'.label, a, s.state⟩])
    (htable : ∀ x, (x ∈ s'.state.rows ∧ x.outboxId = o) ↔ x = row) : Taken s' o i r' row := by
  have hcall : s'.calls i = some r' := by rw [hcalls, Function.update_self]
  refine { call := hcall, outboxId := ho, record := by rw [hanswers, hrecord],
           history := ?_, table := ?_, sole := ?_ }
  · rw [hlog, history_append, hu.history, hanswers, if_pos ⟨ho, ha⟩]
    rfl
  · rw [hanswers, hstored]
    exact htable
  · intro j q hq hqo ht
    by_contra hj
    rw [hcalls, Function.update_of_ne hj] at hq
    exact ht (hu.none j q hq hqo)

/-- An answer to a handler of another id. -/
theorem Ledger.answer_other {log : List (Executed dataPlatform Delivery)} (hl : Ledger s)
    (hr : s.calls i = some r) (hlog : log = s.log ++ [⟨r.label, a, s.state⟩])
    (hlabel : r'.label = r.label) (hp : Delivery.Progress r.label s.state r.answers a table)
    (ho : r.label.outboxId ≠ o) :
    Untaken ⟨table, Function.update s.calls i (some r'), log⟩ o ∨
      ∃ j q row, Taken ⟨table, Function.update s.calls i (some r'), log⟩ o j q row := by
  refine ledger_frame (s := s) ?_ (hl.table_other hr hp ho) ?_ ?_ (hl o)
  · simp [hlog, history_append, ho]
  · intro j q hq hqo _
    rcases Pool.calls_update hq with ⟨rfl, rfl⟩ | ⟨_, hold⟩
    · exact absurd (hlabel ▸ hqo) ho
    · exact ⟨q, hold, rfl, rfl⟩
  · intro j q hq hqo _
    have hj : j ≠ i := by
      rintro rfl
      obtain rfl := Option.some.inj (hr.symm.trans hq)
      exact ho hqo
    exact ⟨q, (Function.update_of_ne hj _ _).trans hq, rfl, rfl⟩

theorem Ledger.answer {log : List (Executed dataPlatform Delivery)} (hl : Ledger s)
    (hr : s.calls i = some r) (hlog : log = s.log ++ [⟨r.label, a, s.state⟩])
    (hlabel : r'.label = r.label) (hanswers : r'.answers = r.answers ++ [a])
    (hp : Delivery.Progress r.label s.state r.answers a table) :
    Ledger ⟨table, Function.update s.calls i (some r'), log⟩ := by
  intro o
  subst hlog
  by_cases ho : r.label.outboxId = o
  · subst ho
    obtain ⟨d, script, queue, answers, crashed⟩ := r
    simp only at hp hlabel hanswers ⊢
    cases hp with
    | refuse row h =>
      refine ledger_frame (s := s) (by simp [history_append, isRefused]) (fun _ _ => Iff.rfl)
        ?_ ?_ (hl _)
      · intro j q hq _ ht
        rcases Pool.calls_update hq with ⟨rfl, rfl⟩ | ⟨_, hold⟩
        · rw [hanswers] at ht
          exact absurd rfl ht
        · exact ⟨q, hold, rfl, rfl⟩
      · intro j q hq _ ht
        by_cases hj : j = i
        · subst hj
          obtain rfl := Option.some.inj (hr.symm.trans hq)
          exact absurd rfl ht
        · exact ⟨q, (Function.update_of_ne hj _ _).trans hq, rfl, rfl⟩
    | insert row h hstatus hid hfree =>
      rcases hl d.outboxId with hu | ⟨j, q, row', ht⟩
      · refine Or.inr ⟨i, r', row, hu.taken rfl (by rw [hlabel]) rfl hanswers rfl rfl ?_ ?_⟩
        · rw [hlabel]
        · intro x
          rw [Table.mem_put]
          constructor
          · intro hx
            obtain ⟨rfl | ⟨hmem, _⟩, hx⟩ := hx
            · rfl
            · exact absurd hx (hfree x hmem)
          · intro hx
            exact ⟨Or.inl hx, hx ▸ h.2⟩
      · have hmem := (ht.table (stored row' q.answers)).mpr rfl
        exact absurd hmem.2 (hfree _ hmem.1)
    | send v row =>
      have hown := hl.owner hr rfl
      refine Or.inr ⟨i, r', row, hown.advance rfl rfl hlabel hanswers rfl ?_⟩
      rw [hanswers]
      exact hown.table
    | response v row outcome =>
      have hown := hl.owner hr rfl
      refine Or.inr ⟨i, r', row, hown.advance rfl rfl hlabel hanswers rfl ?_⟩
      rw [hanswers]
      exact hown.table
    | update v row h outcome =>
      have hown := hl.owner hr rfl
      refine Or.inr ⟨i, r', row, hown.advance rfl rfl hlabel hanswers rfl ?_⟩
      intro x
      have hstored : stored row r'.answers = { row with status := .success } := by
        rw [hanswers]
        rfl
      rw [hstored, Table.mem_put]
      constructor
      · intro hx
        obtain ⟨rfl | ⟨hmem, hid⟩, hx⟩ := hx
        · rfl
        · obtain rfl := (hown.table x).mp ⟨hmem, hx⟩
          exact absurd rfl hid
      · intro hx
        exact ⟨Or.inl hx, hx ▸ h⟩
  · exact hl.answer_other hr rfl hlabel hp ho

/-- Calls that keep their answers in a step of i. -/
theorem Ledger.keep (hl : Ledger s) (hr : s.calls i = some r) (hlabel : r'.label = r.label)
    (hanswers : r'.answers = r.answers) :
    Ledger ⟨s.state, Function.update s.calls i (some r'), s.log⟩ := by
  refine hl.quiet rfl rfl ?_ ?_
  · intro j q hq _
    rcases Pool.calls_update hq with ⟨rfl, rfl⟩ | ⟨_, hold⟩
    · exact ⟨r, hr, hlabel.symm, hanswers.symm⟩
    · exact ⟨q, hold, rfl, rfl⟩
  · intro j q hq
    by_cases hj : j = i
    · subst hj
      obtain rfl := Option.some.inj (hr.symm.trans hq)
      exact ⟨r', Function.update_self .., hlabel, hanswers⟩
    · exact ⟨q, (Function.update_of_ne hj _ _).trans hq, rfl, rfl⟩

theorem Ledger.step {act : HandlerAct} (hl : Ledger s)
    (hstage : ∀ i r, s.calls i = some r →
      Delivery.Stage r.label r.script r.answers ∧ r.queue = [])
    (hs : consume s act = some s') : Ledger s' := by
  cases act with
  | start i d =>
    obtain ⟨hi, rfl⟩ := Pool.step_start hs
    refine hl.quiet rfl rfl ?_ ?_
    · intro j q hq ht
      rcases Pool.calls_update hq with ⟨rfl, rfl⟩ | ⟨_, hold⟩
      · exact absurd rfl ht
      · exact ⟨q, hold, rfl, rfl⟩
    · intro j q hq
      have hj : j ≠ i := by
        rintro rfl
        rw [hi] at hq
        contradiction
      exact ⟨q, (Function.update_of_ne hj _ _).trans hq, rfl, rfl⟩
  | answer i e =>
    obtain ⟨r, o, k, reply, st, hr, hn, hx, rfl⟩ := Pool.step_answer hs
    exact hl.answer hr rfl rfl rfl (Delivery.progress (hstage i r hr).1 hn hx)
  | issue i =>
    obtain ⟨r, o, k, hr, _, _, rfl⟩ := Pool.step_issue hs
    exact hl.keep hr rfl rfl
  | flush i e =>
    obtain ⟨r, o, queue, reply, st, hr, hq, _, _⟩ := Pool.step_flush hs
    simp [(hstage i r hr).2] at hq
  | env e =>
    obtain ⟨st, hst, _⟩ := Pool.step_env hs
    contradiction
  | crash i =>
    obtain ⟨r, hr, rfl⟩ := Pool.step_crash hs
    exact hl.keep hr rfl rfl

end Steps

theorem staged {s : Consumers} (h : Machine.Reachable consume Consumers.init s) :
    ∀ i r, s.calls i = some r → Delivery.Stage r.label r.script r.answers ∧ r.queue = [] :=
  Delivery.staged.reachable h

theorem ledger {s : Consumers} (h : Machine.Reachable consume Consumers.init s) : Ledger s := by
  refine h.invariant Ledger ?_ ?_
  · intro o
    exact Or.inl ⟨rfl, by simp [Consumers.init, Pool.init, Table.empty], by
      simp [Consumers.init, Pool.init]⟩
  · intro m a t hm hl hs
    exact hl.step (staged hm) hs

end HighVolumeBooking
