import HighVolumeBooking.Guarantees.Turns
import HighVolumeBooking.Queueing.Line

namespace HighVolumeBooking

open ReadCommitted (Table)
open Interleaving (CallId Pool Running Script leads_call leads_done)
open UserQueueMapper (toDomain toEntity)

/-- The activation that the step starts. -/
def UserQueueAct.activation? : UserQueueAct → Option CallId
  | .start i .activate => some i
  | _ => none

/-- The ids of the batch that a call has read. -/
def HasTaken (s : UserQueuePool) (i : CallId) (ids : List Int) : Prop :=
  ∃ r batch rest, s.calls i = some r ∧ r.answers = ⟨.findPending 100, batch⟩ :: rest ∧
    ids = batch.map UserQueueEntity.id

section Taken

variable {s s' : UserQueuePool} {a : UserQueueAct} {i : CallId} {ids ids' : List Int}

theorem HasTaken.unique (h : HasTaken s i ids) (h' : HasTaken s i ids') : ids = ids' := by
  obtain ⟨r, batch, rest, hr, hanswers, rfl⟩ := h
  obtain ⟨r', batch', rest', hr', hanswers', rfl⟩ := h'
  obtain rfl := Option.some.inj (hr.symm.trans hr')
  rw [hanswers] at hanswers'
  simp only [List.cons.injEq, Sigma.mk.injEq, heq_eq_eq, true_and] at hanswers'
  rw [hanswers'.1]

theorem HasTaken.step (h : HasTaken s i ids) (hs : serveQueues s a = some s') :
    HasTaken s' i ids := by
  obtain ⟨r, batch, rest, hr, hanswers, hids⟩ := h
  obtain ⟨r', hr', _, more, hmore⟩ := Pool.kept_step (Pool.step_of_serve hs).2 hr
  exact ⟨r', batch, rest ++ more, hr', by rw [← hmore, hanswers, List.cons_append], hids⟩

/-- A batch has at most a hundred rows. -/
theorem HasTaken.length_le (hf : RowsRead s) (h : HasTaken s i ids) : ids.length ≤ 100 := by
  obtain ⟨r, batch, rest, hr, hanswers, rfl⟩ := h
  rw [List.length_map]
  exact hf.length i r 100 batch hr (hanswers ▸ List.mem_cons_self)

end Taken

theorem exists_of_forall₂ {α β : Type} {R : α → β → Prop} {xs : List α} {ys : List β} {y : β}
    (h : List.Forall₂ R xs ys) (hy : y ∈ ys) : ∃ x ∈ xs, R x y := by
  induction h with
  | nil => contradiction
  | cons hxy _ ih =>
    rcases List.mem_cons.mp hy with rfl | hy
    · exact ⟨_, List.mem_cons_self, hxy⟩
    · obtain ⟨x, hx, hxy⟩ := ih hy
      exact ⟨x, List.mem_cons_of_mem _ hx, hxy⟩

/-- The call has read a batch with the row in it, and saves it with a deadline. -/
structure Stamps (s : UserQueuePool) (i : CallId) (row : UserQueueEntity) (now : Int) : Prop where
  activates : ∃ r, s.calls i = some r ∧ r.label = .activate ∧ r.ended = false
  taken : ∃ ids, HasTaken s i ids ∧ row.id ∈ ids
  read : ∃ r, s.calls i = some r ∧ ⟨.now, now⟩ ∈ r.answers
  deadline : row.expiresAt = some (now + 10 * 60 * 1000)

section Rows

variable {s s' m : UserQueuePool} {a : UserQueueAct} {row : UserQueueEntity}

/-- What an activation saves was in its batch, and has a deadline by its clock. -/
theorem stamps_of_saving {i : CallId} {r : UserQueueRun} {entities : List UserQueueEntity}
    {k : Unit → UserQueueScript UserQueueResult} (hf : RowsRead s) (hr : s.calls i = some r)
    (hcrash : r.crashed = false)
    (hscript : r.script = .ask (.saveAll entities) k ∨ r.script = .call (.saveAll entities) k)
    (hrow : row ∈ entities) : ∃ now, Stamps s i row now := by
  have hleads := (hf.waiting i r hr).2
  obtain ⟨hlabel, _, batch, hbatch, _⟩ := saved_of_leads hleads hscript
  have hask : ∀ o' k', r.script = .ask o' k' → o' ≠ .now ∧ ∀ u j, o' ≠ .sign u j := by
    intro o' k' ho'
    rcases hscript with hscript | hscript <;> rw [hscript] at ho' <;> cases ho'
    exact ⟨by simp, by simp⟩
  rw [hlabel] at hleads
  obtain ⟨taken, rest, queues, as', hanswers, _, hstamped, hsaving⟩ :=
    saving_of_leads hleads (List.ne_nil_of_mem hbatch) hask
  have hentities : entities = queues.map toEntity := by
    rcases leads_call.mp hsaving with ⟨_, hq⟩ | ⟨_, _, _, hdone⟩
    · rcases hscript with hscript | hscript <;> rw [hscript] at hq <;> cases hq
      rfl
    · obtain ⟨_, hq⟩ := leads_done.mp hdone
      rcases hscript with hscript | hscript <;> rw [hscript] at hq <;> cases hq
  obtain ⟨old, hold, token, now, hnow, rfl⟩ := exists_of_forall₂ (hentities ▸ hstamped) hrow
  have hopen : r.ended = false := by
    rcases hscript with hscript | hscript <;> simp [Running.ended, hcrash, hscript, Script.finished]
  refine ⟨now, ⟨r, hr, hlabel, hopen⟩, ?_, ?_, rfl⟩
  · exact ⟨_, ⟨r, taken, rest, hr, hanswers, rfl⟩, List.mem_map.mpr ⟨old, hold, rfl⟩⟩
  · exact ⟨r, hr, hanswers ▸ List.mem_cons_of_mem _ hnow⟩

/-- Where a row comes from in a step: it was there, it is new, or an activation
saves it. -/
theorem rows_step (hf : RowsRead s) (hs : serveQueues s a = some s')
    (hrow : row ∈ s'.state.queues.rows) :
    row ∈ s.state.queues.rows ∨ row.expiresAt = none ∨ ∃ i now, Stamps s i row now := by
  rcases hf.waiting.cases UserQueueCall.waits hs with ⟨i, label, rfl, hi, rfl⟩ |
    ⟨i, e, r, o, k, reply, st, rfl, hr, hcrash, hscript, hx, rfl⟩ | ⟨e, st, rfl, hst, rfl⟩
  · exact Or.inl hrow
  · have hleads := (hf.waiting i r hr).2
    rcases UserQueueOp.exec_cases hx with ⟨_, rfl, _⟩ | ⟨entity, id, rfl, hfresh, _, rfl⟩ |
      ⟨entities, rfl, _, rfl⟩
    · exact Or.inl hrow
    · obtain ⟨userId, _, _, rfl, _⟩ := inserted_of_leads hleads hscript
      rcases (UserQueueStore.mem_addQueue hfresh).mp hrow with rfl | hrow
      · exact Or.inr (Or.inl rfl)
      · exact Or.inl hrow
    · obtain ⟨_, _, batch, hbatch, hactivated⟩ := saved_of_leads hleads hscript
      have hb := hf.batch i r 100 batch hr hbatch
      rcases (hb.mem_saveAll hactivated).mp hrow with hrow | ⟨hrow, _⟩
      · exact Or.inr (Or.inr ⟨i, stamps_of_saving hf hr hcrash hscript hrow⟩)
      · exact Or.inl hrow
  · cases e with
    | tick t =>
      obtain ⟨_, hst⟩ := Option.ite_none_right_eq_some.mp hst
      obtain rfl := Option.some.inj hst
      exact Or.inl hrow
    | quiet | found | issued => contradiction

/-- The clock does not go back, and no reading and no deadline is ahead of it. -/
structure InTime (s : UserQueuePool) : Prop where
  readings : ∀ i r now, s.calls i = some r → ⟨.now, now⟩ ∈ r.answers → now ≤ s.state.now
  deadlines : ∀ row ∈ s.state.queues.rows, ∀ t, row.expiresAt = some t →
    t ≤ s.state.now + 10 * 60 * 1000

theorem clock_step (hf : RowsRead s) (hs : serveQueues s a = some s') :
    s.state.now ≤ s'.state.now ∧ ∀ i r now, s'.calls i = some r → ⟨.now, now⟩ ∈ r.answers →
      now ≤ s.state.now ∨ ∃ r, s.calls i = some r ∧ ⟨.now, now⟩ ∈ r.answers := by
  rcases hf.waiting.cases UserQueueCall.waits hs with ⟨i, label, rfl, hi, rfl⟩ |
    ⟨i, e, r, o, k, reply, st, rfl, hr, _, hscript, hx, rfl⟩ | ⟨e, st, rfl, hst, rfl⟩
  · refine ⟨le_refl _, fun j q now hq hread => ?_⟩
    rcases Pool.calls_update hq with ⟨_, rfl⟩ | ⟨_, hold⟩
    · contradiction
    · exact Or.inr ⟨q, hold, hread⟩
  · have hnow : st.now = s.state.now := by
      rcases UserQueueOp.exec_cases hx with ⟨_, rfl, _⟩ | ⟨entity, id, _, _, _, rfl⟩ |
        ⟨entities, _, _, rfl⟩ <;> rfl
    refine ⟨le_of_eq hnow.symm, fun j q now hq hread => ?_⟩
    rcases Pool.calls_update hq with ⟨rfl, rfl⟩ | ⟨_, hold⟩
    · rcases List.mem_append.mp hread with hread | hread
      · exact Or.inr ⟨r, hr, hread⟩
      · cases List.mem_singleton.mp hread
        cases e <;> cases hx
        exact Or.inl (le_refl _)
    · exact Or.inr ⟨q, hold, hread⟩
  · cases e with
    | tick t =>
      obtain ⟨ht, hst⟩ := Option.ite_none_right_eq_some.mp hst
      obtain rfl := Option.some.inj hst
      exact ⟨ht, fun j q now hq hread => Or.inr ⟨q, hq, hread⟩⟩
    | quiet | found | issued => contradiction

theorem InTime.step (hf : RowsRead s) (h : InTime s) (hs : serveQueues s a = some s') :
    InTime s' := by
  obtain ⟨hnow, hreadings⟩ := clock_step hf hs
  refine ⟨fun i r now hr hread => ?_, fun row hrow t ht => ?_⟩
  · rcases hreadings i r now hr hread with hle | ⟨q, hq, hread⟩
    · exact hle.trans hnow
    · exact (h.readings i q now hq hread).trans hnow
  · rcases rows_step hf hs hrow with hold | hnone | ⟨i, now, hstamps⟩
    · have := h.deadlines row hold t ht
      omega
    · rw [hnone] at ht
      contradiction
    · obtain ⟨r, hr, hread⟩ := hstamps.read
      have := h.readings i r now hr hread
      obtain rfl := Option.some.inj (hstamps.deadline.symm.trans ht)
      omega

theorem InTime.run {as : List UserQueueAct} (hf : RowsRead m) (h : InTime m)
    (hrun : Machine.run serveQueues m as = some s) : InTime s := by
  refine Machine.run_induction (fun _ (n : UserQueuePool) => InTime n) h ?_ hrun
  intro past n a t hn ih hs
  exact ih.step (hf.run hn).1 hs

/-- A deadline beyond those of an instant was given since, by an activation that
was in progress then or has begun since. -/
theorem taken_of_late {runs : List CallId} {as : List UserQueueAct} {t : Int} (hf : RowsRead m)
    (h : InTime m)
    (hruns : ∀ i r, m.calls i = some r → r.label = .activate → r.ended = false → i ∈ runs)
    (hmore : Machine.run serveQueues m as = some s) (hrow : row ∈ s.state.queues.rows)
    (ht : row.expiresAt = some t) (hlate : m.state.now + 10 * 60 * 1000 < t) :
    ∃ i ∈ runs ++ as.filterMap UserQueueAct.activation?, ∃ ids,
      HasTaken s i ids ∧ row.id ∈ ids := by
  refine Machine.run_induction (fun later (n : UserQueuePool) => ∀ row ∈ n.state.queues.rows,
    ∀ t, row.expiresAt = some t → m.state.now + 10 * 60 * 1000 < t →
    ∃ i ∈ runs ++ later.filterMap UserQueueAct.activation?, ∃ ids,
      HasTaken n i ids ∧ row.id ∈ ids) ?_ ?_ hmore row hrow t ht hlate
  · intro row hrow t ht hlate
    have := h.deadlines row hrow t ht
    omega
  intro later n a n' hn ih hs row hrow t ht hlate
  have hsub : runs ++ later.filterMap UserQueueAct.activation? ⊆
      runs ++ (later ++ [a]).filterMap UserQueueAct.activation? := by
    rw [List.filterMap_append, ← List.append_assoc]
    exact List.subset_append_left _ _
  rcases rows_step (hf.run hn).1 hs hrow with hold | hnone | ⟨i, now, hstamps⟩
  · obtain ⟨i, hi, ids, htaken, hmem⟩ := ih row hold t ht hlate
    exact ⟨i, hsub hi, ids, htaken.step hs, hmem⟩
  · rw [hnone] at ht
    contradiction
  · obtain ⟨ids, htaken, hmem⟩ := hstamps.taken
    refine ⟨i, hsub ?_, ids, htaken.step hs, hmem⟩
    obtain ⟨r, hr, hlabel, hopen⟩ := hstamps.activates
    have hpool := Machine.run_mono (fun _ _ _ hs => (Pool.step_of_serve hs).2) hn
    rcases Pool.running_since hruns hpool hr hlabel hopen with hi | hstart
    · exact List.mem_append_left _ hi
    · exact List.mem_append_right _ (List.mem_filterMap.mpr ⟨_, hstart, rfl⟩)

end Rows

/-- The database queue throttles too: at any time there are at most a hundred
active rows for each activation that was in progress ten minutes ago or has
begun since. -/
theorem active_rows_bounded {st : UserQueueStore} {m s : UserQueuePool} {as bs : List UserQueueAct}
    {runs : List CallId} {rows : List UserQueueEntity} (hst : st.queues.rows = [])
    (h : Machine.run serveQueues (Pool.init st) as = some m)
    (hruns : ∀ i r, m.calls i = some r → r.label = .activate → r.ended = false → i ∈ runs)
    (hmore : Machine.run serveQueues m bs = some s)
    (hpast : m.state.now + 10 * 60 * 1000 ≤ s.state.now) (hnodup : rows.Nodup)
    (hactive : ∀ row ∈ rows, row ∈ s.state.queues.rows ∧
      (toDomain row).activeAt s.state.now = true) :
    rows.length ≤ 100 * (runs.length + (bs.filterMap UserQueueAct.activation?).length) := by
  have hkeys : st.Keyed := by simp [UserQueueStore.Keyed, hst]
  have hf := ((RowsRead.init hkeys).run h).1
  have hinit : InTime (Pool.init st) := ⟨by simp [Pool.init], by simp [Pool.init, hst]⟩
  have hinTime := hinit.run (.init hkeys) h
  have hread : ∀ i ids ids', HasTaken s i ids → HasTaken s i ids' → ids = ids' :=
    fun i ids ids' h h' => h.unique h'
  have hlength : ∀ i ids, HasTaken s i ids → ids.length ≤ 100 :=
    fun i ids h => h.length_le (hf.run hmore).1
  have hids : (rows.map UserQueueEntity.id).Nodup := by
    refine hnodup.map_on fun x hx y hy hid => ?_
    exact Table.eq_of_key (hactive x hx).1 (hactive y hy).1 hid
  rw [← List.length_append, ← List.length_map UserQueueEntity.id]
  refine Queueing.length_le_of_batches hread hlength hids fun id hid => ?_
  obtain ⟨row, hrow, rfl⟩ := List.mem_map.mp hid
  obtain ⟨hstored, hlive⟩ := hactive row hrow
  cases hexpires : row.expiresAt with
  | none => simp [UserQueue.activeAt, toDomain, hexpires] at hlive
  | some t =>
    refine taken_of_late hf hinTime hruns hmore hstored hexpires ?_
    have hlate : s.state.now < t := by
      unfold UserQueue.activeAt at hlive
      simp only [toDomain, hexpires] at hlive
      split at hlive
      · rename_i heq
        obtain rfl := Option.some.inj heq
        simpa using hlive
      · contradiction
    omega

/-- Two users enter, and an activation has found them. -/
def twoFound : List UserQueueAct :=
  [.start 0 (.enqueue 1), .answer 0 .quiet, .answer 0 .quiet, .answer 0 (.issued 1),
    .start 1 (.enqueue 2), .answer 1 .quiet, .answer 1 .quiet, .answer 0 .quiet,
    .answer 1 (.issued 2), .answer 1 .quiet, .start 2 .activate, .answer 2 .quiet]

/-- Ten minutes later it activates them, while a third user enters and another
activation serves him. -/
def activatedLater : List UserQueueAct :=
  [.env (.tick 600000), .start 3 (.enqueue 3), .answer 3 .quiet, .answer 3 .quiet, .answer 2 .quiet,
    .answer 3 (.issued 3), .start 4 .activate, .answer 2 .quiet, .answer 2 .quiet, .answer 2 .quiet,
    .answer 2 .quiet, .answer 4 .quiet, .answer 3 .quiet, .answer 4 .quiet, .answer 4 .quiet,
    .answer 4 .quiet]

theorem active_rows_bounded_activatedLater : ∃ m s,
    Machine.run serveQueues (Pool.init noQueues) twoFound = some m ∧
    Machine.run serveQueues m activatedLater = some s ∧
    s.state.queues.rows.map (fun row => (toDomain row).activeAt s.state.now) =
      [true, true, true] ∧
    s.state.queues.rows.length ≤
      100 * ([2].length + (activatedLater.filterMap UserQueueAct.activation?).length) := by
  have h : ((Machine.run serveQueues (Pool.init noQueues) twoFound).bind fun m =>
      (Machine.run serveQueues m activatedLater).map fun s => (m.state.now, s.state.now,
        s.state.queues.rows.map fun row => (toDomain row).activeAt s.state.now)) =
      some (0, 600000, [true, true, true]) := by
    decide +kernel
  obtain ⟨m, hm, h⟩ := Option.bind_eq_some_iff.mp h
  obtain ⟨s, hs, h⟩ := Option.map_eq_some_iff.mp h
  simp only [Prod.mk.injEq] at h
  obtain ⟨hbefore, hnow, hlive⟩ := h
  have hruns : ∀ i r, m.calls i = some r → r.label = .activate → r.ended = false → i ∈ [2] := by
    intro i r hr hlabel _
    have hstart := Pool.started (Machine.run_mono (fun _ _ _ h => (Pool.step_of_serve h).2) hm) hr
    rw [hlabel] at hstart
    simpa [twoFound] using hstart
  refine ⟨m, s, hm, hs, hlive, active_rows_bounded rfl hm hruns hs ?_ ?_ ?_⟩
  · rw [hbefore, hnow]
    decide
  · exact List.Nodup.of_map _ s.state.queues.unique
  · intro row hrow
    have hmem := List.mem_map_of_mem (f := fun row => (toDomain row).activeAt s.state.now) hrow
    rw [hlive] at hmem
    exact ⟨hrow, by simpa using hmem⟩

end HighVolumeBooking
