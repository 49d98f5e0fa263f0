import HighVolumeBooking.Guarantees.HandOver
import HighVolumeBooking.Interleaving.Solo

namespace HighVolumeBooking

open ReadCommitted (RowId Table)
open Interleaving (Answer CallId Executed Pool Running)

/-- Each row with the status SUCCESS belongs to a call that returned. -/
def Consumers.Delivered (s : Consumers) : Prop :=
  ∀ row ∈ s.state.rows, row.status = .success →
    ∃ x ∈ s.log, x.label.outboxId = row.outboxId ∧ x.answer = ⟨.response, .returned⟩

/-- The client call of the handler failed. -/
def HandlerRun.Failed (r : HandlerRun) : Prop := ⟨.response, .threw⟩ ∈ r.answers

/-- A handler takes its next step although its client call failed. -/
def Consumers.GoesOn (s : Consumers) (a : HandlerAct) : Prop :=
  ∃ i e, ∃ r : HandlerRun, a = .answer i e ∧ s.calls i = some r ∧ r.Failed

section Delivered

variable {s s' : Consumers} {o : RowId} {i : CallId} {r : HandlerRun} {row : ProcessedEntity}

theorem mem_history {a : Answer dataPlatform} {log : List (Executed dataPlatform Delivery)} :
    a ∈ history o log ↔
      isRefused a = false ∧ ∃ x ∈ log, x.label.outboxId = o ∧ x.answer = a := by
  simp only [history, List.mem_map, List.mem_filter, Bool.and_eq_true, Bool.not_eq_true',
    beq_iff_eq]
  constructor
  · rintro ⟨x, ⟨hx, ho, hr⟩, rfl⟩
    exact ⟨hr, x, hx, ho, rfl⟩
  · rintro ⟨hr, x, hx, ho, rfl⟩
    exact ⟨x, ⟨hx, ho, hr⟩, rfl⟩

/-- A handler has updated its row only in its last step. -/
theorem Delivery.Stage.update {d : Delivery} {script : Handler Unit}
    {answers : List (Answer dataPlatform)} (h : Delivery.Stage d script answers)
    (hu : answers.any isUpdate = true) : ∃ v outcome row, d.Recorded row ∧ script = .done () ∧
      answers = [⟨.insert d.entity, some row⟩, ⟨.send (d.result v), ()⟩, ⟨.response, outcome⟩,
        ⟨.update { row with status := .success }, ()⟩] := by
  cases h with
  | settled v row h outcome => exact ⟨v, outcome, row, h, rfl, rfl⟩
  | _ => exact absurd hu (by simp [isUpdate])

theorem Delivery.Stage.recorded {d : Delivery} {script : Handler Unit}
    {answers : List (Answer dataPlatform)} (h : Delivery.Stage d script answers)
    (ht : took answers = some row) : d.Recorded row := by
  cases h with
  | malformed => contradiction
  | fresh v => contradiction
  | duplicate => contradiction
  | received v row' h =>
    obtain rfl := Option.some.inj ht
    exact h
  | called v row' h =>
    obtain rfl := Option.some.inj ht
    exact h
  | answered v row' h outcome =>
    obtain rfl := Option.some.inj ht
    exact h
  | settled v row' h outcome =>
    obtain rfl := Option.some.inj ht
    exact h

/-- The rows with the status SUCCESS are those that a handler has settled. -/
theorem delivered_iff (h : Machine.Reachable consume Consumers.init s) :
    s.Delivered ↔
      ∀ i (r : HandlerRun), s.calls i = some r → r.Failed → r.answers.any isUpdate = false := by
  constructor
  · intro hdelivered i r hr hfailed
    by_contra hu
    rw [Bool.not_eq_false] at hu
    obtain ⟨v, outcome, row, _, _, hanswers⟩ := (staged h i r hr).1.update hu
    have htook : took r.answers = some row := by rw [hanswers]; rfl
    have hown := (ledger h).owner hr htook
    obtain ⟨hmem, ho⟩ := (hown.table _).mpr rfl
    obtain ⟨x, hx, hxo, hxa⟩ := hdelivered _ hmem (by simp [stored, hu])
    have hret : (⟨.response, .returned⟩ : Answer dataPlatform) ∈ r.answers := by
      rw [← hown.history, mem_history]
      exact ⟨rfl, x, hx, hxo.trans ho, hxa⟩
    rw [HandlerRun.Failed, hanswers] at hfailed
    rw [hanswers] at hret
    cases outcome with
    | returned => simp at hfailed
    | threw => simp at hret
  · intro hgone row hrow hsuccess
    rcases ledger h row.outboxId with hu | ⟨i, r, row', ht⟩
    · exact absurd rfl (hu.table row hrow)
    · have hstage := (staged h i r ht.call).1
      have hstored := (ht.table row).mp ⟨hrow, rfl⟩
      have hu : r.answers.any isUpdate = true := by
        by_contra hu
        rw [hstored, stored, if_neg hu, (hstage.recorded ht.record).status] at hsuccess
        contradiction
      obtain ⟨v, outcome, _, _, _, hanswers⟩ := hstage.update hu
      cases outcome with
      | returned =>
        have hret : (⟨.response, .returned⟩ : Answer dataPlatform) ∈ history row.outboxId s.log := by
          rw [ht.history, hanswers]
          simp
        exact (mem_history.mp hret).2
      | threw =>
        have hfailed : r.Failed := by
          rw [HandlerRun.Failed, hanswers]
          simp
        rw [hgone i r ht.call hfailed] at hu
        contradiction

/-- A failed handler that gets one more answer has settled its row. -/
theorem Delivery.Progress.settles {d : Delivery} {table table' : ProcessedTable}
    {answers : List (Answer dataPlatform)} {a : Answer dataPlatform}
    (hp : Delivery.Progress d table answers a table')
    (hfailed : ⟨.response, .threw⟩ ∈ answers) : isUpdate a = true := by
  cases hp with
  | refuse row h => simp at hfailed
  | insert row h hstatus hid hfree => simp at hfailed
  | send v row => simp at hfailed
  | response v row outcome => simp at hfailed
  | update v row h outcome => rfl

/-- When its client call has just failed, a handler has not settled its row. -/
theorem Delivery.Progress.unsettled {d : Delivery} {table table' : ProcessedTable}
    {answers : List (Answer dataPlatform)} {a : Answer dataPlatform}
    (hp : Delivery.Progress d table answers a table') (hfine : ⟨.response, .threw⟩ ∉ answers)
    (hfailed : ⟨.response, .threw⟩ ∈ answers ++ [a]) : (answers ++ [a]).any isUpdate = false := by
  cases hp with
  | refuse row h => rfl
  | insert row h hstatus hid hfree => rfl
  | send v row => rfl
  | response v row outcome => rfl
  | update v row h outcome =>
    rcases List.mem_append.mp hfailed with hold | hnew
    · exact absurd hold hfine
    · simp at hnew

theorem delivered_step {a : HandlerAct} (h : Machine.Reachable consume Consumers.init s)
    (hdelivered : s.Delivered) (hs : consume s a = some s') : s'.Delivered ↔ ¬ s.GoesOn a := by
  rw [delivered_iff (h.step hs)]
  rw [delivered_iff h] at hdelivered
  constructor
  · rintro hgone ⟨i, e, r, rfl, hr, hfailed⟩
    obtain ⟨q, o, k, reply, st, hq, hn, hx, rfl⟩ := Pool.step_answer hs
    obtain rfl := Option.some.inj (hr.symm.trans hq)
    have hsettles := (Delivery.progress (staged h i r hr).1 hn hx).settles hfailed
    have hnone := hgone i _ (Function.update_self ..) (List.mem_append_left _ hfailed)
    simp [Running.answered, hsettles] at hnone
  · intro hgone j q hq hfailed
    cases a with
    | start i d =>
      obtain ⟨_, rfl⟩ := Pool.step_start hs
      rcases Pool.calls_update hq with ⟨_, rfl⟩ | ⟨_, hold⟩
      · rfl
      · exact hdelivered j q hold hfailed
    | answer i e =>
      obtain ⟨r, o, k, reply, st, hr, hn, hx, rfl⟩ := Pool.step_answer hs
      rcases Pool.calls_update hq with ⟨_, rfl⟩ | ⟨_, hold⟩
      · have hp := Delivery.progress (staged h i r hr).1 hn hx
        have hfine : ¬ HandlerRun.Failed r := fun hf => hgone ⟨i, e, r, rfl, hr, hf⟩
        exact hp.unsettled hfine hfailed
      · exact hdelivered j q hold hfailed
    | issue i =>
      obtain ⟨r, op, k, hr, hc, hsend, _⟩ := Pool.step_issue hs
      exact absurd hsend ((staged h i r hr).1.not_send op k)
    | flush i e =>
      obtain ⟨r, op, queue, reply, st, hr, hq, _, _⟩ := Pool.step_flush hs
      simp [(staged h i r hr).2] at hq
    | env e =>
      obtain ⟨st, hst, _⟩ := Pool.step_env hs
      contradiction
    | crash i =>
      obtain ⟨r, hr, rfl⟩ := Pool.step_crash hs
      rcases Pool.calls_update hq with ⟨_, rfl⟩ | ⟨_, hold⟩
      · exact hdelivered i r hr hfailed
      · exact hdelivered j q hold hfailed

/-- Every SUCCESS of a run is a call that returned exactly when no handler of
the run went on after its call had failed. -/
theorem success_means_delivered_iff {acts : List HandlerAct}
    (h : Machine.run consume Consumers.init acts = some s) :
    Machine.Throughout consume Consumers.Delivered Consumers.init acts ↔
      Machine.Along consume (fun m a => ¬ m.GoesOn a) Consumers.init acts := by
  refine Machine.throughout_iff_along ?_ ?_ h
  · intro row hrow
    simp [Consumers.init, Pool.init, Table.empty] at hrow
  · intro m a t hm hdelivered hs
    exact delivered_step hm hdelivered hs

end Delivered

/-- A delivery whose client call ends as given, handled to its end. -/
def handled (outcome : Outcome) : List HandlerAct :=
  [.start 0 (.payment (paymentMessage 7)), .answer 0 (.issued 1), .answer 0 .quiet,
    .answer 0 (.ended outcome), .answer 0 .quiet]

theorem success_means_delivered_iff_handled :
    ∃ s, Machine.run consume Consumers.init (handled .returned) = some s ∧
      (Machine.Throughout consume Consumers.Delivered Consumers.init (handled .returned) ↔
        Machine.Along consume (fun m a => ¬ m.GoesOn a) Consumers.init (handled .returned)) := by
  have h : (Machine.run consume Consumers.init (handled .returned)).isSome = true := by
    decide +kernel
  obtain ⟨s, hs⟩ := Option.isSome_iff_exists.mp h
  exact ⟨s, hs, success_means_delivered_iff hs⟩

/-- The client call throws, and the row becomes SUCCESS. -/
theorem success_without_delivery :
    ∃ s, Machine.Reachable consume Consumers.init s ∧ ¬ s.Delivered := by
  have h : (Machine.run consume Consumers.init (handled .threw)).map
      (fun s => (s.state.rows, s.log.any fun x => outcome? x.answer == some .returned)) =
      some ([⟨1, 7, .success⟩], false) := by
    decide +kernel
  obtain ⟨s, hs, hs'⟩ := Option.map_eq_some_iff.mp h
  simp only [Prod.mk.injEq] at hs'
  obtain ⟨hrows, hlog⟩ := hs'
  refine ⟨s, ⟨_, hs⟩, ?_⟩
  intro hdelivered
  obtain ⟨x, hx, _, hxa⟩ := hdelivered ⟨1, 7, .success⟩ (by simp [hrows]) rfl
  rw [List.any_eq_false] at hlog
  exact hlog x hx (by simp [hxa, outcome?])

/-! A hand-over that came to nothing. -/

/-- A delivery that is handled alone calls the data platform: it can be handled
to its end, and in whatever way it is, the call is among the handler's commands. -/
def Consumers.Performs (s : Consumers) (d : Delivery) : Prop :=
  ∀ i, s.calls i = none →
    (∃ es t, ∃ r : HandlerRun, Machine.run consume s (Pool.alone i d es) = some t ∧
      t.calls i = some r ∧ r.ended = true) ∧
    ∀ es t, ∀ r : HandlerRun, Machine.run consume s (Pool.alone i d es) = some t →
      t.calls i = some r → r.ended = true → r.answers.any isSend = true

/-- No handler of the id is running, and none of its calls has returned. -/
structure Consumers.Undelivered (s : Consumers) (o : RowId) : Prop where
  ended : ∀ i r, s.calls i = some r → r.label.outboxId = o → r.ended = true
  unreturned : ∀ x ∈ s.log, x.label.outboxId = o → x.answer ≠ ⟨.response, .returned⟩

/-- A handler of the id crashed or failed after it had recorded the id. -/
def Consumers.Interrupted (s : Consumers) (o : RowId) : Prop :=
  ∃ i, ∃ r : HandlerRun, ∃ row, s.calls i = some r ∧ r.label.outboxId = o ∧
    took r.answers = some row ∧ (r.crashed = true ∨ r.Failed)

section Retry

variable {s : Consumers} {d : Delivery} {v : Json}
  {w : Interleaving.Went dataPlatform HandlerError Unit} {table : ProcessedTable} {es : List DataPlatformEvent}

theorem handle_message (hm : d.data.value.message = v.stringify) : d.handle = d.record v := by
  rw [Delivery.handle_eq, hm, Json.parse_stringify]

/-- While no row has its id, a delivery is handed over. -/
theorem sends_of_free (hm : d.data.value.message = v.stringify)
    (hfree : ∀ row ∈ table.rows, row.outboxId ≠ d.outboxId)
    (h : d.handle.solo table es = some w) : w.answers.any isSend = true := by
  rw [handle_message hm, Delivery.record] at h
  obtain ⟨e, es, saved, table', w', rfl, hx, hw, rfl⟩ := Interleaving.solo_call.mp h
  rcases Delivery.exec_insert hx with ⟨_, _, row, hrow, ho⟩ | ⟨row, rfl, _⟩
  · exact absurd ho (hfree row hrow)
  · obtain ⟨e', es', reply, table'', w'', rfl, _, _, rfl⟩ := Interleaving.solo_call.mp hw
    simp [Interleaving.Went.after, isSend]

/-- With a row of its id there, a delivery ends at the insert. -/
theorem refused_of_row (hm : d.data.value.message = v.stringify)
    (hrow : ∃ row ∈ table.rows, row.outboxId = d.outboxId)
    (h : d.handle.solo table es = some w) : w.answers.any isSend = false := by
  rw [handle_message hm, Delivery.record] at h
  obtain ⟨e, es, saved, table', w', rfl, hx, hw, rfl⟩ := Interleaving.solo_call.mp h
  rcases Delivery.exec_insert hx with ⟨rfl, _⟩ | ⟨row, _, _, _, _, _, hfree, _⟩
  · cases es with
    | nil =>
      obtain ⟨result, _, rfl⟩ := Interleaving.solo_nil.mp hw
      simp [Interleaving.Went.after, isSend]
    | cons e' es' => contradiction
  · obtain ⟨row', hmem, ho⟩ := hrow
    exact absurd ho (hfree row' hmem)

theorem handle_waits (d : Delivery) : d.handle.Waits := by
  have hsettle : ∀ row : ProcessedEntity, (Delivery.settle row).Waits := by
    intro row
    refine Interleaving.Script.Waits.bind ?_ fun _ => trivial
    simp only [ProcessedRepository.save]
    split
    · intro saved
      cases saved <;> trivial
    · exact fun _ => trivial
  rw [Delivery.handle_eq]
  split
  · intro saved
    cases saved with
    | none => trivial
    | some row => exact fun _ _ => hsettle row
  · trivial

/-- A delivery is handed over exactly when no row has its id. -/
theorem performs_iff (h : Machine.Reachable consume Consumers.init s)
    (hm : d.data.value.message = v.stringify) :
    s.Performs d ↔ ∀ row ∈ s.state.rows, row.outboxId ≠ d.outboxId := by
  constructor
  · intro hperforms
    obtain ⟨i, hi⟩ := Pool.exists_unused h
    obtain ⟨⟨es, t, r, hrun, hr, hend⟩, hall⟩ := hperforms i (hi i (Nat.le_refl i))
    obtain ⟨w, hw, hanswers, _, _⟩ := Pool.solo_of_alone hrun hr hend
    have hsend := hall es t r hrun hr hend
    intro row hrow hout
    rw [hanswers, refused_of_row hm ⟨row, hrow, hout⟩ hw] at hsend
    contradiction
  · intro hfree i hi
    refine ⟨?_, ?_⟩
    · obtain ⟨es, w, hw⟩ := Interleaving.exists_solo exec_total (handle_waits d) s.state
      obtain ⟨t, hrun, hleft⟩ := Pool.alone_of_solo Delivery.handle hi hw
      obtain ⟨r, hr, hend, _⟩ := hleft.ended
      exact ⟨es, t, r, hrun, hr, hend⟩
    · intro es t r hrun hr hend
      obtain ⟨w, hw, hanswers, _, _⟩ := Pool.solo_of_alone hrun hr hend
      rw [hanswers]
      exact sends_of_free hm hfree hw

/-- A handler that ended without a call that returned was cut short. -/
theorem Delivery.Stage.cut {d : Delivery} {r : HandlerRun} {row : ProcessedEntity}
    (h : Delivery.Stage d r.script r.answers) (ht : took r.answers = some row)
    (hend : r.ended = true) (hret : ⟨.response, .returned⟩ ∉ r.answers) :
    r.crashed = true ∨ r.Failed := by
  cases hc : r.crashed with
  | true => exact Or.inl rfl
  | false =>
    obtain ⟨label, script, queue, answers, crashed⟩ := r
    simp only [Running.ended, HandlerRun.Failed] at *
    simp only [hc, Bool.false_or, Bool.and_eq_true] at hend
    cases h with
    | malformed => contradiction
    | fresh v => contradiction
    | duplicate => contradiction
    | received v row h => exact absurd hend.1 (by simp [Delivery.hand, Interleaving.Script.finished])
    | called v row h => exact absurd hend.1 (by simp [Delivery.await, Interleaving.Script.finished])
    | answered v row h outcome =>
      exact absurd hend.1 (by simp [Delivery.settle_eq h.id, Interleaving.Script.finished])
    | settled v row h outcome =>
      cases outcome with
      | returned => simp at hret
      | threw => simp

/-- While nothing has come of the hand-over, a row of the id is left by a
handler that crashed or failed after it had recorded the id. -/
theorem interrupted_iff (h : Machine.Reachable consume Consumers.init s) {o : RowId}
    (ho : s.Undelivered o) : s.Interrupted o ↔ ∃ row ∈ s.state.rows, row.outboxId = o := by
  constructor
  · rintro ⟨i, r, row, hr, rfl, ht, _⟩
    exact ⟨_, ((((ledger h).owner hr ht).table _).mpr rfl)⟩
  · rintro ⟨row, hrow, hout⟩
    rcases ledger h o with hu | ⟨i, r, row', ht⟩
    · exact absurd hout (hu.table row hrow)
    · refine ⟨i, r, row', ht.call, ht.outboxId, ht.record, ?_⟩
      refine (staged h i r ht.call).1.cut ht.record (ho.ended i r ht.call ht.outboxId) ?_
      intro hret
      rw [← ht.history, mem_history] at hret
      obtain ⟨_, x, hx, hxo, hxa⟩ := hret
      exact ho.unreturned x hx hxo hxa

/-- While nothing has come of a hand-over and none is under way, one more
delivery performs it exactly when no handler was cut short after its insert. -/
theorem retryable_iff (h : Machine.Reachable consume Consumers.init s)
    (hm : d.data.value.message = v.stringify) (ho : s.Undelivered d.outboxId) :
    s.Performs d ↔ ¬ s.Interrupted d.outboxId := by
  rw [performs_iff h hm, interrupted_iff h ho]
  simp

end Retry

/-- The handler crashes when it has got as far as the given answers. -/
def cutShort (es : List DataPlatformEvent) : List HandlerAct :=
  Pool.alone 0 (.payment (paymentMessage 7)) es ++ [.crash 0]

theorem cutShort_undelivered {es : List DataPlatformEvent} {s : Consumers} {o : RowId}
    (h : Machine.run consume Consumers.init (cutShort es) = some s)
    (hlog : (s.log.any fun x => outcome? x.answer == some .returned) = false) :
    s.Undelivered o := by
  refine ⟨?_, ?_⟩
  · intro i r hr _
    by_cases hi : i = 0
    · obtain ⟨m, _, hcrash⟩ := Machine.run_concat.mp h
      obtain ⟨q, _, rfl⟩ := Pool.step_crash hcrash
      rcases Pool.calls_update hr with ⟨_, rfl⟩ | ⟨hne, _⟩
      · rfl
      · exact absurd hi hne
    · have howner : ∀ a ∈ cutShort es, a.owner ≠ some i := by
        intro a ha
        have h0 : a.owner = some 0 := by
          rcases List.mem_append.mp ha with ha | ha
          · exact Pool.owner_of_alone ha
          · rw [List.mem_singleton.mp ha]
            rfl
        rw [h0]
        exact fun hinj => hi (Option.some.inj hinj).symm
      rw [Pool.calls_run h howner] at hr
      contradiction
  · intro x hx _ hxa
    rw [List.any_eq_false] at hlog
    exact hlog x hx (by simp [hxa, outcome?])

theorem retryable_iff_cutShort :
    ∃ s : Consumers, Machine.run consume Consumers.init (cutShort []) = some s ∧
      s.Undelivered 7 ∧
      (s.Performs (.payment (paymentMessage 7)) ↔ ¬ s.Interrupted 7) := by
  have h : (Machine.run consume Consumers.init (cutShort [])).map
      (fun s => s.log.any fun x => outcome? x.answer == some .returned) = some false := by
    decide +kernel
  obtain ⟨s, hs, hlog⟩ := Option.map_eq_some_iff.mp h
  have hu := cutShort_undelivered (o := 7) hs hlog
  exact ⟨s, hs, hu, retryable_iff (d := .payment (paymentMessage 7)) ⟨_, hs⟩ rfl hu⟩

/-- A handler that crashes between its insert and its call leaves a row that
turns every later delivery away. -/
theorem lost_after_crash :
    ∃ s : Consumers, Machine.Reachable consume Consumers.init s ∧ s.Undelivered 7 ∧
      ¬ s.Performs (.payment (paymentMessage 7)) := by
  have h : (Machine.run consume Consumers.init (cutShort [.issued 1])).map
      (fun s => (s.state.rows, s.log.any fun x => outcome? x.answer == some .returned)) =
      some ([⟨1, 7, .received⟩], false) := by
    decide +kernel
  obtain ⟨s, hs, hs'⟩ := Option.map_eq_some_iff.mp h
  simp only [Prod.mk.injEq] at hs'
  obtain ⟨hrows, hlog⟩ := hs'
  refine ⟨s, ⟨_, hs⟩, cutShort_undelivered hs hlog, ?_⟩
  rw [performs_iff (d := .payment (paymentMessage 7)) ⟨_, hs⟩ rfl, hrows]
  simp [Delivery.outboxId, Delivery.data, paymentMessage]

end HighVolumeBooking
