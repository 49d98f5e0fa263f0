import HighVolumeBooking.Guarantees.UserQueue
import HighVolumeBooking.Interleaving.Waiting

namespace HighVolumeBooking

open ReadCommitted (RowId Table)
open Interleaving (Answer Pool Running Script leads_ask leads_call leads_done)
open UserQueueMapper (toDomain toEntity)
open UserQueueCall

/-- The rows that an answer brings. -/
def rowsOf : Answer userQueueServer → List UserQueueEntity
  | ⟨.findOldestPending, row⟩ => row.toList
  | ⟨.findPending _, rows⟩ => rows
  | ⟨.findUnexpired _ _, row⟩ => row.toList
  | ⟨.insert _, row⟩ => [row]
  | _ => []

/-- The answers of a call that has its row. -/
inductive Asked (userId : RowId) : List (Answer userQueueServer) → UserQueueEntity → Prop where
  | found (t : Int) (row : UserQueueEntity) :
      Asked userId [⟨.now, t⟩, ⟨.findUnexpired userId t, some row⟩] row
  | created (t : Int) (entity row : UserQueueEntity) :
      Asked userId [⟨.now, t⟩, ⟨.findUnexpired userId t, none⟩, ⟨.insert entity, row⟩] row

/-- What a call has read of the clock to find its row not active. -/
inductive Idle (row : UserQueueEntity) : List (Answer userQueueServer) → Prop where
  | never (h : ∀ t, (toDomain row).activeAt t = false) : Idle row []
  | read (t : Int) (h : (toDomain row).activeAt t = false) : Idle row [⟨.now, t⟩]

/-- How far an enqueue call is after its answers. -/
inductive Stage (userId : RowId) :
    List (Answer userQueueServer) → UserQueueScript UserQueueResult → Prop where
  | starting : Stage userId [] (enqueueing userId)
  | looking (t : Int) : Stage userId [⟨.now, t⟩] (looking userId t)
  | creating (t : Int) :
      Stage userId [⟨.now, t⟩, ⟨.findUnexpired userId t, none⟩] (creating userId)
  | judging {as : List (Answer userQueueServer)} {row : UserQueueEntity} {expiresAt : Int}
      (h : Asked userId as row)
      (hactive : ∀ t, (toDomain row).activeAt t = decide (expiresAt > t)) :
      Stage userId as (.ask .now fun now =>
        if expiresAt > now then .done (.queue (toDomain row)) else ranking (toDomain row))
  | ranking {as read : List (Answer userQueueServer)} {row : UserQueueEntity}
      (h : Asked userId as row) (hidle : Idle row read) :
      Stage userId (as ++ read) (ranking (toDomain row))
  | active {as : List (Answer userQueueServer)} {row : UserQueueEntity} {t : Int}
      (h : Asked userId as row) (hactive : (toDomain row).activeAt t = true) :
      Stage userId (as ++ [⟨.now, t⟩]) (.done (.queue (toDomain row)))
  | placed {as read : List (Answer userQueueServer)} {row : UserQueueEntity}
      (h : Asked userId as row) (hidle : Idle row read) (oldest : Option UserQueueEntity) :
      Stage userId (as ++ read ++ [⟨.findOldestPending, oldest⟩])
        (.done (.queue ((toDomain row).calculateCurrentOrder (oldest.map UserQueueEntity.id))))

/-- The row with a token and a deadline. -/
def ActivatedAs (row row' : UserQueueEntity) : Prop :=
  ∃ token expiresAt, row' = { row with token := some token, expiresAt := some expiresAt }

/-- Every activated row was a row of the batch. -/
theorem activated_from {batch entities : List UserQueueEntity} {x : UserQueueEntity}
    (h : List.Forall₂ ActivatedAs batch entities) (hx : x ∈ entities) :
    ∃ row ∈ batch, ActivatedAs row x := by
  induction h with
  | nil => contradiction
  | cons hactivated _ ih =>
    rcases List.mem_cons.mp hx with rfl | hx
    · exact ⟨_, List.mem_cons_self, hactivated⟩
    · obtain ⟨row, hrow, hactivated⟩ := ih hx
      exact ⟨row, List.mem_cons_of_mem _ hrow, hactivated⟩

theorem activated_users {batch entities : List UserQueueEntity}
    (h : List.Forall₂ ActivatedAs batch entities) :
    entities.map UserQueueEntity.userId = batch.map UserQueueEntity.userId := by
  induction h with
  | nil => rfl
  | cons hactivated _ ih =>
    obtain ⟨_, _, rfl⟩ := hactivated
    simp only [List.map_cons, ih]

section Stages

variable {userId : RowId} {as : List (Answer userQueueServer)}
  {q : UserQueueScript UserQueueResult} {row : UserQueueEntity}

/-- A row with a token and an expiry is judged by the clock, another one never
is active. -/
theorem Stage.of_asked (h : Asked userId as row) :
    Stage userId as (UserQueueCall.judging (toDomain row)) := by
  have hnever : (∀ t, (toDomain row).activeAt t = false) →
      Stage userId as (UserQueueCall.ranking (toDomain row)) := by
    intro hidle
    have hstage := Stage.ranking h (.never hidle)
    rwa [List.append_nil] at hstage
  unfold UserQueueCall.judging
  split
  · rename_i token expiresAt htoken hexpires
    exact .judging h fun t => by simp only [UserQueue.activeAt, htoken, hexpires]
  · rename_i hnone
    refine hnever fun t => ?_
    unfold UserQueue.activeAt
    split
    · rename_i token expiresAt htoken hexpires
      exact absurd hexpires (hnone token expiresAt htoken)
    · rfl

theorem Stage.answered {o : UserQueueOp} {k : o.Reply → UserQueueScript UserQueueResult}
    {reply : o.Reply} (h : Stage userId as q) (hq : q = .ask o k ∨ q = .call o k) :
    Stage userId (as ++ [⟨o, reply⟩]) (k reply) := by
  cases h with
  | starting =>
    rcases hq with hq | hq <;> cases hq
    exact .looking reply
  | looking t =>
    rcases hq with hq | hq <;> cases hq
    cases reply with
    | some row => exact .of_asked (.found t row)
    | none => exact .creating t
  | creating t =>
    rcases hq with hq | hq <;> cases hq
    exact .of_asked (.created t _ reply)
  | judging h hactive =>
    rcases hq with hq | hq <;> cases hq
    simp only
    split
    · rename_i hnow
      exact .active h ((hactive reply).trans (decide_eq_true hnow))
    · rename_i hnow
      exact .ranking h (.read reply ((hactive reply).trans (decide_eq_false hnow)))
  | ranking h hidle =>
    rcases hq with hq | hq <;> cases hq
    exact .placed h hidle reply
  | active => rcases hq with hq | hq <;> cases hq
  | placed => rcases hq with hq | hq <;> cases hq

theorem stage_of_leads (h : (handle (.enqueue userId)).Leads as q) : Stage userId as q := by
  rw [handle_enqueue] at h
  exact h.invariant (P := Stage userId) (fun _ _ _ _ _ hs hq => Stage.answered hs hq) .starting

/-- Once the loop of the activation is done, all queues are activated. -/
theorem activated_of_leads {queues : List UserQueue}
    {f : List UserQueue → UserQueueScript UserQueueResult} {o : UserQueueOp}
    {k : o.Reply → UserQueueScript UserQueueResult}
    (h : ((UserQueueService.activateEach queues).bind f).Leads as q)
    (hq : q = .ask o k ∨ q = .call o k) (hnow : o ≠ .now) (hsign : ∀ u i, o ≠ .sign u i) :
    ∃ queues' as', List.Forall₂ ActivatedAs (queues.map toEntity) (queues'.map toEntity) ∧
      (f queues').Leads as' q := by
  induction queues generalizing f as with
  | nil => exact ⟨[], as, .nil, h⟩
  | cons queue queues ih =>
    rcases leads_ask.mp h with ⟨_, rfl⟩ | ⟨token, rest, _, hsigned⟩
    · rcases hq with hq | hq <;> cases hq
      exact absurd rfl (hsign _ _)
    · rcases leads_ask.mp hsigned with ⟨_, rfl⟩ | ⟨now, rest', _, hread⟩
      · rcases hq with hq | hq <;> cases hq
        exact absurd rfl hnow
      · simp only [Script.bind_eq, Script.done_bind, Script.bind_assoc] at hread
        obtain ⟨queues', as', hactivated, hleads⟩ := ih hread
        refine ⟨_, as', ?_, hleads⟩
        exact .cons ⟨token, _, rfl⟩ hactivated

/-- Besides the clock and the signing, an activation reads its batch, and at its end
saves the rows of the batch, activated. -/
theorem activation_command {o : UserQueueOp} {k : o.Reply → UserQueueScript UserQueueResult}
    (h : (handle .activate).Leads as q) (hq : q = .ask o k ∨ q = .call o k) (hnow : o ≠ .now)
    (hsign : ∀ u i, o ≠ .sign u i) : o = .findPending 100 ∨
      ∃ entities batch, o = .saveAll entities ∧ (∀ reply, k reply = .done .none) ∧
        ⟨.findPending 100, batch⟩ ∈ as ∧ List.Forall₂ ActivatedAs batch entities := by
  rw [handle_activate] at h
  rcases leads_call.mp h with ⟨_, rfl⟩ | ⟨rows, rest, rfl, heach⟩
  · rcases hq with hq | hq <;> cases hq
    exact Or.inl rfl
  · obtain ⟨queues, as', hactivated, hsaving⟩ := activated_of_leads heach hq hnow hsign
    rw [UserQueueMapper.map_toEntity_toDomain] at hactivated
    rcases leads_call.mp hsaving with ⟨_, rfl⟩ | ⟨_, rest', _, hdone⟩
    · rcases hq with hq | hq <;> cases hq
      exact Or.inr ⟨_, rows, rfl, fun _ => rfl, List.mem_cons_self, hactivated⟩
    · obtain ⟨_, rfl⟩ := leads_done.mp hdone
      rcases hq with hq | hq <;> cases hq

/-- What a call saves are the rows of the batch it has read, activated. -/
theorem saved_of_leads {call : UserQueueCall} {entities : List UserQueueEntity}
    {k : Unit → UserQueueScript UserQueueResult} (h : call.handle.Leads as q)
    (hq : q = .ask (.saveAll entities) k ∨ q = .call (.saveAll entities) k) :
    call = .activate ∧ (∀ reply, k reply = .done .none) ∧
      ∃ batch, ⟨.findPending 100, batch⟩ ∈ as ∧ List.Forall₂ ActivatedAs batch entities := by
  cases call with
  | enqueue userId =>
    cases stage_of_leads h <;> rcases hq with hq | hq <;> cases hq
  | activate =>
    rcases activation_command h hq (by simp) (by simp) with hread | ⟨_, batch, hsave, hrest⟩
    · contradiction
    · obtain rfl := UserQueueOp.saveAll.inj hsave
      exact ⟨rfl, hrest.1, batch, hrest.2⟩

/-- What a call inserts is a new row of its user, for whom it has found none. -/
theorem inserted_of_leads {call : UserQueueCall} {entity : UserQueueEntity}
    {k : UserQueueEntity → UserQueueScript UserQueueResult} (h : call.handle.Leads as q)
    (hq : q = .ask (.insert entity) k ∨ q = .call (.insert entity) k) :
    ∃ userId t, call = .enqueue userId ∧ entity = ⟨0, userId, none, none⟩ ∧
      as = [⟨.now, t⟩, ⟨.findUnexpired userId t, none⟩] := by
  cases call with
  | enqueue userId =>
    cases stage_of_leads h <;> rcases hq with hq | hq <;> cases hq
    exact ⟨userId, _, rfl, rfl, rfl⟩
  | activate =>
    rcases activation_command h hq (by simp) (by simp) with hread | ⟨_, _, hsave, _⟩
    · contradiction
    · contradiction

end Stages

abbrev UserQueuePool := Pool userQueueServer ErrorCode UserQueueResult UserQueueCall

abbrev UserQueueRun := Running userQueueServer ErrorCode UserQueueResult UserQueueCall

abbrev UserQueueAct := Interleaving.Act userQueueServer UserQueueCall

def serveQueues : UserQueuePool → UserQueueAct → Option UserQueuePool :=
  Pool.serve UserQueueCall.handle

theorem mem_rows_answered {r : UserQueueRun} {answer : Answer userQueueServer}
    {q : UserQueueScript UserQueueResult} {x : UserQueueEntity} :
    x ∈ (r.answered answer q).answers.flatMap rowsOf ↔
      x ∈ r.answers.flatMap rowsOf ∨ x ∈ rowsOf answer := by
  simp only [Running.answered, List.flatMap_append, List.mem_append, List.flatMap_singleton]

/-- The keys come from a sequence that starts above 0. -/
structure UserQueueStore.Generated (st : UserQueueStore) : Prop where
  sequence : 0 ≤ st.lastId
  positive : ∀ row ∈ st.queues.rows, 0 < row.id

/-- The commands that write rows. -/
def UserQueueOp.writes : UserQueueOp → Bool
  | .insert _ => true
  | .saveAll _ => true
  | _ => false

/-- What a command does to the store: it reads stored rows, or it adds a row
under a new key, or it stores rows under their own keys. -/
theorem UserQueueOp.exec_cases {st st' : UserQueueStore} {o : UserQueueOp} {e : UserQueueEvent}
    {reply : o.Reply} (hx : o.exec st e = some (reply, st')) :
    (o.writes = false ∧ st' = st ∧ ∀ row ∈ rowsOf ⟨o, reply⟩, row ∈ st.queues.rows) ∨
    (∃ entity id, o = .insert entity ∧ st.Fresh id ∧
      rowsOf ⟨o, reply⟩ = [{ entity with id := id }] ∧
      st' = { st with
        queues := st.queues.put { entity with id := id }
        lastId := max st.lastId id }) ∨
    ∃ entities, o = .saveAll entities ∧ rowsOf ⟨o, reply⟩ = [] ∧
      st' = { st with queues := st.queues.putAll entities } := by
  cases o with
  | now | sign =>
    cases e <;> cases hx
    exact Or.inl ⟨rfl, rfl, by simp [rowsOf]⟩
  | findOldestPending =>
    cases e <;> cases hx
    refine Or.inl ⟨rfl, rfl, fun row hrow => ?_⟩
    exact (mem_pending.mp (List.mem_of_head? (Option.mem_toList.mp hrow))).1
  | findPending count =>
    cases e <;> cases hx
    refine Or.inl ⟨rfl, rfl, fun row hrow => ?_⟩
    exact (mem_pending.mp (List.mem_of_mem_take hrow)).1
  | findUnexpired userId date =>
    obtain ⟨rfl, hfound⟩ := exec_findUnexpired hx
    exact Or.inl ⟨rfl, rfl, fun row hrow => (hfound row (Option.mem_toList.mp hrow)).1⟩
  | insert entity =>
    cases e with
    | issued id =>
      obtain ⟨hfresh, hx⟩ := Option.ite_none_right_eq_some.mp hx
      cases hx
      exact Or.inr (Or.inl ⟨entity, id, rfl, hfresh, rfl, rfl⟩)
    | quiet | found | tick => contradiction
  | saveAll entities =>
    cases e <;> cases hx
    exact Or.inr (Or.inr ⟨entities, rfl, rfl, rfl⟩)

theorem UserQueueStore.Generated.exec {st st' : UserQueueStore} {o : UserQueueOp}
    {e : UserQueueEvent} {reply : o.Reply} (h : st.Generated)
    (hx : o.exec st e = some (reply, st'))
    (hsave : ∀ entities, o = .saveAll entities → ∀ x ∈ entities, 0 < x.id) :
    st'.Generated ∧ ∀ row ∈ rowsOf ⟨o, reply⟩, 0 < row.id := by
  rcases UserQueueOp.exec_cases hx with ⟨_, rfl, hread⟩ | ⟨entity, id, rfl, hfresh, hrows, rfl⟩ |
    ⟨entities, rfl, hrows, rfl⟩
  · exact ⟨h, fun row hrow => h.positive row (hread row hrow)⟩
  · have hpos : 0 < id := hfresh.1
    refine ⟨⟨h.sequence.trans (le_max_left _ _), fun row hrow => ?_⟩, by simpa [hrows] using hpos⟩
    rcases Table.mem_put.mp hrow with rfl | ⟨hrow, _⟩
    · exact hpos
    · exact h.positive row hrow
  · refine ⟨⟨h.sequence, fun row hrow => ?_⟩, by simp [hrows]⟩
    rcases Table.of_mem_putAll hrow with hrow | hrow
    · exact hsave entities rfl row hrow
    · exact h.positive row hrow

/-- All rows that are stored or were read have generated keys. -/
structure Numbered (s : UserQueuePool) : Prop where
  waiting : Pool.Waiting UserQueueCall.handle s
  generated : s.state.Generated
  read : ∀ i r, s.calls i = some r → ∀ row ∈ r.answers.flatMap rowsOf, 0 < row.id

theorem UserQueueCall.waits (call : UserQueueCall) : call.handle.Waits := by
  have hjudging : ∀ queue, (judging queue).Waits := by
    intro queue
    unfold judging
    split
    · intro now
      simp only
      split
      · exact True.intro
      · exact fun _ => True.intro
    · exact fun _ => True.intro
  cases call with
  | enqueue userId =>
    rw [handle_enqueue]
    intro date found
    cases found with
    | some row => exact hjudging _
    | none => exact fun _ => hjudging _
  | activate =>
    rw [handle_activate]
    intro rows
    refine Script.Waits.bind ?_ fun _ _ => True.intro
    generalize List.map toDomain rows = queues
    induction queues with
    | nil => exact True.intro
    | cons queue queues ih =>
      exact Script.Waits.bind (fun _ _ => True.intro) fun _ =>
        Script.Waits.bind ih fun _ => True.intro

theorem Numbered.step {s s' : UserQueuePool} {a : UserQueueAct} (hs : Numbered s)
    (h : serveQueues s a = some s') : Numbered s' := by
  have hwaiting := hs.waiting.serve UserQueueCall.waits h
  rcases hs.waiting.cases UserQueueCall.waits h with ⟨i, label, rfl, hnone, rfl⟩ |
    ⟨i, e, r, o, k, reply, st, rfl, hr, _, hscript, hx, rfl⟩ | ⟨e, st, rfl, hst, rfl⟩
  · refine ⟨hwaiting, hs.generated, fun j r' hr' => ?_⟩
    rcases Pool.calls_update hr' with ⟨_, rfl⟩ | ⟨_, hold⟩
    · simp [Running.start]
    · exact hs.read j r' hold
  · have hsave : ∀ entities, o = .saveAll entities → ∀ x ∈ entities, 0 < x.id := by
      intro entities ho x hentity
      subst ho
      obtain ⟨_, _, batch, hbatch, hactivated⟩ := saved_of_leads (hs.waiting i r hr).2 hscript
      obtain ⟨row, hrow, _, _, rfl⟩ := activated_from hactivated hentity
      exact hs.read i r hr row (List.mem_flatMap.mpr ⟨_, hbatch, hrow⟩)
    obtain ⟨hgenerated, hrows⟩ := hs.generated.exec hx hsave
    refine ⟨hwaiting, hgenerated, fun j r' hr' => ?_⟩
    rcases Pool.calls_update hr' with ⟨_, rfl⟩ | ⟨_, hold⟩
    · intro row hrow
      rcases mem_rows_answered.mp hrow with hrow | hrow
      · exact hs.read i r hr row hrow
      · exact hrows row hrow
    · exact hs.read j r' hold
  · refine ⟨hwaiting, ?_, hs.read⟩
    cases e with
    | tick t =>
      obtain ⟨_, hst⟩ := Option.ite_none_right_eq_some.mp hst
      obtain rfl := Option.some.inj hst
      exact ⟨hs.generated.sequence, hs.generated.positive⟩
    | quiet | found | issued => contradiction

/-- The last reading of the clock among the answers. -/
def lastReading (as : List (Answer userQueueServer)) : Option Int :=
  as.foldl (fun last a =>
    match a with
    | ⟨.now, t⟩ => some t
    | _ => last) none

/-- The call took the queue for inactive when it last read the clock. -/
def FoundIdle (r : UserQueueRun) (queue : UserQueue) : Prop :=
  ∀ t, lastReading r.answers = some t → queue.activeAt t = false

/-- Every queue that was returned as not active has a place from 1 on. -/
def PlacesPositive (s : UserQueuePool) : Prop :=
  ∀ i r userId queue, s.calls i = some r → r.label = .enqueue userId →
    r.script = .done (.queue queue) → FoundIdle r queue → 1 ≤ queue.currentOrder

/-- When a call asks for the oldest pending row, its own row or an older one is
pending, or none is. -/
def NotOvertaken (s : UserQueuePool) (a : UserQueueAct) : Prop :=
  ∀ i r userId row, a.owner = some i → s.calls i = some r → r.label = .enqueue userId →
    r.next.map Sigma.fst = some .findOldestPending → row ∈ r.answers.flatMap rowsOf →
    s.state.pending = [] ∨ ∃ x ∈ s.state.pending, x.id ≤ row.id

section Places

variable {userId : RowId} {as read : List (Answer userQueueServer)} {row : UserQueueEntity}
  {st : UserQueueStore}

theorem Asked.rows (h : Asked userId as row) : as.flatMap rowsOf = [row] := by
  cases h <;> rfl

theorem Idle.rows (h : Idle row read) : read.flatMap rowsOf = [] := by
  cases h <;> rfl

theorem activeAt_of_idle (h : Asked userId as row) (hidle : Idle row read)
    (oldest : Option UserQueueEntity) {t : Int}
    (ht : lastReading (as ++ read ++ [⟨.findOldestPending, oldest⟩]) = some t) :
    (toDomain row).activeAt t = false := by
  cases hidle with
  | never hnever => exact hnever t
  | read t' hread =>
    have hlast : t' = t := by
      cases h <;> exact Option.some.inj ht
    exact hlast ▸ hread

/-- The place is positive unless the oldest pending row is younger. -/
theorem place_pos_iff (hst : st.Generated) : 1 ≤ ((toDomain row).calculateCurrentOrder
      (st.pending.head?.map UserQueueEntity.id)).currentOrder ↔
    st.pending = [] ∨ ∃ x ∈ st.pending, x.id ≤ row.id := by
  cases hhead : st.pending.head? with
  | none => simp [List.head?_eq_none_iff.mp hhead]
  | some oldest =>
    have hmem := List.mem_of_head? hhead
    have hpos := hst.positive oldest (mem_pending.mp hmem).1
    rw [Option.map_some, UserQueue.calculateCurrentOrder_some (by omega)]
    have hid : (toDomain row).id = row.id := rfl
    constructor
    · intro hplace
      exact Or.inr ⟨oldest, hmem, by omega⟩
    · intro hpending
      rcases hpending with hnone | ⟨x, hx, hle⟩
      · rw [hnone] at hmem
        contradiction
      · obtain ⟨hxrow, hxnone⟩ := mem_pending.mp hx
        have hold : oldest.id ≤ x.id := Table.key_le_of_head? hhead hxrow hxnone
        omega

end Places

section Steps

variable {s s' : UserQueuePool} {a : UserQueueAct}

theorem Numbered.stage {i : Interleaving.CallId} {r : UserQueueRun} {userId : RowId}
    (hs : Numbered s) (hr : s.calls i = some r) (hlabel : r.label = .enqueue userId) :
    Stage userId r.answers r.script := by
  have hleads := (hs.waiting i r hr).2
  rw [hlabel] at hleads
  exact stage_of_leads hleads

/-- A call that asks for the oldest pending row has its own row, and the answer
gives its place. -/
theorem stage_asking {userId : RowId} {as : List (Answer userQueueServer)}
    {q : UserQueueScript UserQueueResult}
    {k : Option UserQueueEntity → UserQueueScript UserQueueResult} (h : Stage userId as q)
    (hq : q = .ask .findOldestPending k ∨ q = .call .findOldestPending k) :
    ∃ row, as.flatMap rowsOf = [row] ∧ ∀ oldest,
      k oldest = .done (.queue
        ((toDomain row).calculateCurrentOrder (oldest.map UserQueueEntity.id))) ∧
      ∀ t, lastReading (as ++ [⟨.findOldestPending, oldest⟩]) = some t →
        (toDomain row).activeAt t = false := by
  cases h with
  | ranking h hidle =>
    rcases hq with hq | hq <;> cases hq
    refine ⟨_, by rw [List.flatMap_append, h.rows, hidle.rows]; rfl, fun oldest => ⟨rfl, ?_⟩⟩
    exact fun t ht => activeAt_of_idle h hidle oldest ht
  | starting | looking | creating | judging | active | placed =>
    rcases hq with hq | hq <;> cases hq

/-- A call that has just returned an inactive queue asked for the oldest
pending row. -/
theorem stage_placed {userId : RowId} {as : List (Answer userQueueServer)}
    {answer : Answer userQueueServer} {queue : UserQueue}
    (h : Stage userId (as ++ [answer]) (.done (.queue queue)))
    (hidle : ∀ t, lastReading (as ++ [answer]) = some t → queue.activeAt t = false) :
    answer.1 = .findOldestPending := by
  generalize hall : as ++ [answer] = all, hq : Script.done (UserQueueResult.queue queue) = q at h
  cases h with
  | active h hactive =>
    cases hq
    rw [hall] at hidle
    rw [hidle _ (by simp [lastReading])] at hactive
    contradiction
  | placed h hread oldest =>
    obtain ⟨_, hlast⟩ := List.append_inj' hall rfl
    rw [(List.cons.inj hlast).1]
  | starting | looking | creating | judging | ranking => cases hq

theorem notOvertaken_of_positive (hs : Numbered s) (h : serveQueues s a = some s')
    (hpos : PlacesPositive s') : NotOvertaken s a := by
  intro i r userId row hi hr hlabel hnext hrow
  obtain ⟨⟨o', k'⟩, hn, rfl⟩ := Option.map_eq_some_iff.mp hnext
  rcases hs.waiting.cases UserQueueCall.waits h with ⟨j, label, rfl, hnone, rfl⟩ |
    ⟨j, e, r', o, k, reply, st, rfl, hr', hcrash, hscript, hx, rfl⟩ | ⟨e, st, rfl, _, rfl⟩
  · obtain rfl := Option.some.inj hi
    rw [hnone] at hr
    contradiction
  · obtain rfl := Option.some.inj hi
    obtain rfl := Option.some.inj (hr.symm.trans hr')
    cases hn.symm.trans (hs.waiting.next hr hcrash hscript)
    cases e <;> cases hx
    obtain ⟨own, hrows, hplace⟩ := stage_asking (hs.stage hr hlabel) hscript
    rw [hrows, List.mem_singleton] at hrow
    subst hrow
    obtain ⟨hdone, hidle⟩ := hplace s.state.pending.head?
    exact (place_pos_iff hs.generated).mp (hpos _ _ userId _ (Function.update_self ..) hlabel hdone
      fun t ht => (UserQueue.activeAt_calculateCurrentOrder _ t).trans (hidle t ht))
  · contradiction

theorem positive_of_notOvertaken (hs : Numbered s) (hplaces : PlacesPositive s)
    (h : serveQueues s a = some s') (hok : NotOvertaken s a) : PlacesPositive s' := by
  have hs' := hs.step h
  intro i r userId queue hr hlabel hdone hidle
  have hstage := hs'.stage hr hlabel
  rcases hs.waiting.cases UserQueueCall.waits h with ⟨j, label, rfl, hnone, rfl⟩ |
    ⟨j, e, r', o, k, reply, st, rfl, hr', hcrash, hscript, hx, rfl⟩ | ⟨e, st, rfl, _, rfl⟩
  · rcases Pool.calls_update hr with ⟨_, rfl⟩ | ⟨_, hold⟩
    · simp only [Running.start] at hlabel hdone
      rw [hlabel, handle_enqueue] at hdone
      contradiction
    · exact hplaces i r userId queue hold hlabel hdone hidle
  · rcases Pool.calls_update hr with ⟨rfl, rfl⟩ | ⟨_, hold⟩
    · simp only [Running.answered] at hstage hdone hlabel
      rw [hdone] at hstage
      obtain rfl : o = .findOldestPending := stage_placed hstage hidle
      have hnext := hs.waiting.next hr' hcrash hscript
      cases e <;> cases hx
      obtain ⟨own, hrows, hplace⟩ := stage_asking (hs.stage hr' hlabel) hscript
      rw [(hplace _).1] at hdone
      cases hdone
      refine (place_pos_iff hs.generated).mpr (hok _ r' userId own rfl hr' hlabel ?_ ?_)
      · rw [hnext]
        rfl
      · rw [hrows]
        exact List.mem_singleton_self own
    · exact hplaces i r userId queue hold hlabel hdone hidle
  · exact hplaces i r userId queue hr hlabel hdone hidle

theorem placesPositive_step (hs : Numbered s) (hplaces : PlacesPositive s)
    (h : serveQueues s a = some s') : PlacesPositive s' ↔ NotOvertaken s a :=
  ⟨notOvertaken_of_positive hs h, positive_of_notOvertaken hs hplaces h⟩

end Steps

/-- Every place that is returned is positive exactly in the runs in which no
call asks for the oldest pending row after a younger one has become that. -/
theorem places_positive_iff {st : UserQueueStore} {as : List UserQueueAct} {s : UserQueuePool}
    (hst : st.Generated) (h : Machine.run serveQueues (Pool.init st) as = some s) :
    Machine.Throughout serveQueues PlacesPositive (Pool.init st) as ↔
      Machine.Along serveQueues NotOvertaken (Pool.init st) as := by
  have hnumbered : ∀ m, Machine.Reachable serveQueues (Pool.init st) m → Numbered m := by
    intro m hm
    have hinit : Numbered (Pool.init st) :=
      ⟨Pool.Waiting.init _ st, hst, fun _ _ hr => by contradiction⟩
    exact hm.invariant Numbered hinit fun _ _ _ _ hs hstep => hs.step hstep
  refine Machine.throughout_iff_along ?_ ?_ h
  · intro i r _ _ hr
    contradiction
  · intro m a t hm hplaces hstep
    exact placesPositive_step (hnumbered m hm) hplaces hstep

/-- No user waits. -/
def noQueues : UserQueueStore := ⟨⟨[], by simp⟩, 0, 0⟩

/-- One user enters the queue. -/
def oneEnters : List UserQueueAct :=
  [.start 0 (.enqueue 1), .answer 0 .quiet, .answer 0 .quiet, .answer 0 (.issued 1),
    .answer 0 .quiet]

/-- Two users enter at once, while an activation reads and saves. -/
def twoEnter : List UserQueueAct :=
  [.start 0 (.enqueue 1), .answer 0 .quiet, .answer 0 .quiet, .start 1 (.enqueue 2),
    .answer 1 .quiet, .answer 0 (.issued 1), .start 2 .activate, .answer 1 .quiet, .answer 0 .quiet,
    .answer 2 .quiet, .answer 1 (.issued 2), .answer 2 .quiet, .answer 2 .quiet, .answer 2 .quiet,
    .answer 1 .quiet]

theorem places_positive_twoEnter : noQueues.Generated ∧ ∃ s,
    Machine.run serveQueues (Pool.init noQueues) twoEnter = some s ∧
    s.state.queues.rows.map (·.expiresAt) = [some 600000, none] ∧
    (Machine.Throughout serveQueues PlacesPositive (Pool.init noQueues) twoEnter ↔
      Machine.Along serveQueues NotOvertaken (Pool.init noQueues) twoEnter) := by
  have hst : noQueues.Generated := ⟨le_refl _, by simp [noQueues]⟩
  have hrun : (Machine.run serveQueues (Pool.init noQueues) twoEnter).map (fun s =>
      s.state.queues.rows.map (·.expiresAt)) = some [some 600000, none] := by
    decide +kernel
  obtain ⟨s, hs, hrows⟩ := Option.map_eq_some_iff.mp hrun
  exact ⟨hst, s, hs, hrows, places_positive_iff hst hs⟩

/-- User 1 enters and is activated, and user 2 enters, before the call of user 1
asks for the oldest pending row. -/
def activatedMeanwhile : List UserQueueAct :=
  [.start 0 (.enqueue 1), .answer 0 .quiet, .answer 0 .quiet, .answer 0 (.issued 1),
    .start 1 .activate, .answer 1 .quiet, .answer 1 .quiet, .answer 1 .quiet, .answer 1 .quiet,
    .start 2 (.enqueue 2), .answer 2 .quiet, .answer 2 .quiet, .answer 2 (.issued 2),
    .answer 0 .quiet]

/-- User 1 is told the place 0. -/
theorem place_zero_told : ∃ s,
    Machine.run serveQueues (Pool.init noQueues) activatedMeanwhile = some s ∧
    ¬ PlacesPositive s := by
  have hrun : (Machine.run serveQueues (Pool.init noQueues) activatedMeanwhile).map (fun s =>
      (s.calls 0).map fun r => (r.label, lastReading r.answers,
        match r.script with
        | .done (.queue queue) => some queue
        | _ => none)) =
      some (some (.enqueue 1, some 0, some ⟨1, 1, none, none, 0⟩)) := by
    decide +kernel
  obtain ⟨s, hs, hfacts⟩ := Option.map_eq_some_iff.mp hrun
  obtain ⟨r, hr, hfacts⟩ := Option.map_eq_some_iff.mp hfacts
  simp only [Prod.mk.injEq] at hfacts
  obtain ⟨hlabel, _, hqueue⟩ := hfacts
  split at hqueue
  · rename_i queue hscript
    obtain rfl := Option.some.inj hqueue
    refine ⟨s, hs, fun hplaces => ?_⟩
    have hplace := hplaces 0 r 1 _ hr hlabel hscript fun _ _ => rfl
    contradiction
  · contradiction

end HighVolumeBooking
