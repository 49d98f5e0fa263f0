import HighVolumeBooking.Guarantees.QueueOrder

namespace HighVolumeBooking

open ReadCommitted (Table)
open Interleaving (Answer Pool Script leads_ask leads_call leads_done)
open UserQueueMapper (toEntity)

/-- In a list that ascends, dropping from the front goes before what exceeds a
bound, so that either can be done first. -/
theorem filter_drop_of_ascending {xs : List Int} (h : xs.Pairwise (· < ·)) (n : Nat) (c : Int) :
    (xs.drop n).filter (· ≤ c) = (xs.filter (· ≤ c)).drop n := by
  induction xs generalizing n with
  | nil => simp
  | cons x xs ih =>
    obtain ⟨hx, hxs⟩ := List.pairwise_cons.mp h
    cases n with
    | zero => rfl
    | succ n =>
      by_cases hc : x ≤ c
      · rw [List.drop_succ_cons, ih hxs, List.filter_cons_of_pos (by simpa using hc),
          List.drop_succ_cons]
      · have hnone : xs.filter (· ≤ c) = [] := by
          refine List.filter_eq_nil_iff.mpr fun y hy => ?_
          have := hx y hy
          simp only [decide_eq_true_eq]
          omega
        rw [List.drop_succ_cons, ih hxs, List.filter_cons_of_neg (by simpa using hc), hnone,
          List.drop_nil, List.drop_nil]

namespace UserQueueStore

/-- The ids of the pending rows up to an id, in order. -/
def ahead (st : UserQueueStore) (id : Int) : List Int :=
  (st.pending.map UserQueueEntity.id).filter (· ≤ id)

/-- What can have become of a store: no row is gone, none that was activated is
pending again, and the keys of new rows ascend. -/
structure Later (st st' : UserQueueStore) : Prop where
  kept : st.Kept st'
  sequence : st.lastId ≤ st'.lastId
  known : ∀ y ∈ st'.queues.rows, y.id ≤ st.lastId → ∃ x ∈ st.queues.rows, x.id = y.id

variable {st st' st'' : UserQueueStore} {batch entities : List UserQueueEntity} {id i : Int}
  {userId : ReadCommitted.RowId} {n : Nat}

theorem ascending_pending (st : UserQueueStore) :
    (st.pending.map UserQueueEntity.id).Pairwise (· < ·) :=
  List.pairwise_map.mpr (pairwise_pending st)

theorem length_ahead : (st.ahead id).length = st.pendingUpTo id := by
  have hperm : st.pending.Perm (st.queues.rows.filter fun row => row.token.isNone) :=
    (List.perm_insertionSort _ st.queues.rows).filter _
  calc (st.ahead id).length = (st.pending.filter fun row => row.id ≤ id).length := by
        rw [ahead, List.filter_map, List.length_map]
        rfl
    _ = st.pendingUpTo id := by
        rw [(hperm.filter _).length_eq, List.filter_filter, pendingUpTo,
          List.countP_eq_length_filter]
        simp only [Bool.and_comm]

namespace Later

theorem refl (st : UserQueueStore) : st.Later st :=
  ⟨.refl st, le_refl _, fun y hy _ => ⟨y, hy, rfl⟩⟩

theorem trans (h : st.Later st') (h' : st'.Later st'') : st.Later st'' where
  kept := h.kept.trans h'.kept
  sequence := h.sequence.trans h'.sequence
  known := by
    intro z hz hle
    obtain ⟨y, hy, hyz⟩ := h'.known z hz (hle.trans h.sequence)
    obtain ⟨x, hx, hxy⟩ := h.known y hy (hyz ▸ hle)
    exact ⟨x, hx, hxy.trans hyz⟩

theorem setNow (h : st.Later st') (t : Int) : st.Later (st'.setNow t) :=
  ⟨h.kept, h.sequence, h.known⟩

/-- Who is pending later was pending before. -/
theorem pending (h : st.Later st') {y : UserQueueEntity} (hy : y ∈ st'.pending)
    (hid : y.id ≤ st.lastId) : ∃ x ∈ st.pending, x.id = y.id := by
  obtain ⟨hrow, hnone⟩ := mem_pending.mp hy
  obtain ⟨x, hx, hxy⟩ := h.known y hrow hid
  obtain ⟨y', hy', hid', _, htoken⟩ := h.kept x hx
  obtain rfl : y' = y := Table.eq_of_key hy' hrow (hid'.trans hxy)
  refine ⟨x, mem_pending.mpr ⟨hx, ?_⟩, hxy⟩
  by_contra hsome
  rw [htoken (Bool.eq_false_iff.mpr hsome)] at hnone
  contradiction

/-- The oldest pending rows that are served by then come off the line. -/
theorem served (h : st.Later st') (hid : id ≤ st.lastId)
    (hserved : ∀ x ∈ st.pending.take n, ∃ y ∈ st'.queues.rows, y.id = x.id ∧
      y.token.isNone = false) : st'.pendingUpTo id ≤ st.pendingUpTo id - n := by
  have hsub : st'.ahead id ⊆ (st.ahead id).drop n := by
    intro i hi
    obtain ⟨hi, hle⟩ := List.mem_filter.mp hi
    obtain ⟨y, hy, rfl⟩ := List.mem_map.mp hi
    have hle : y.id ≤ id := by simpa using hle
    obtain ⟨x, hx, hxy⟩ := h.pending hy (hle.trans hid)
    rw [ahead, ← filter_drop_of_ascending (ascending_pending st), ← List.map_drop]
    refine List.mem_filter.mpr ⟨List.mem_map.mpr ⟨x, ?_, hxy⟩, by simpa using hle⟩
    rcases (mem_split n).mp hx with htake | hdrop
    · obtain ⟨y', hy', hid', hsome⟩ := hserved x htake
      obtain ⟨hrow, hnone⟩ := mem_pending.mp hy
      obtain rfl : y' = y := Table.eq_of_key hy' hrow (hid'.trans hxy)
      rw [hsome] at hnone
      contradiction
    · exact hdrop
  have hnodup : (st'.ahead id).Nodup := ((ascending_pending st').imp ne_of_lt).filter _
  have hlength := (hnodup.subperm hsub).length_le
  rwa [List.length_drop, length_ahead, length_ahead] at hlength

theorem pendingUpTo_le (h : st.Later st') (hid : id ≤ st.lastId) :
    st'.pendingUpTo id ≤ st.pendingUpTo id :=
  h.served (n := 0) hid (by simp)

end Later

theorem later_addQueue (hid : st.Fresh id) (hlast : st.lastId < id) :
    st.Later (st.addQueue id userId) where
  kept := kept_addQueue hid
  sequence := le_max_left _ _
  known := by
    intro y hy hle
    rcases (mem_addQueue hid).mp hy with rfl | hy
    · exact absurd hle (not_le.mpr hlast)
    · exact ⟨y, hy, rfl⟩

theorem Batch.later_saveAll (hb : st.Batch batch)
    (hactivated : List.Forall₂ ActivatedAs batch entities) : st.Later (st.saveAll entities) where
  kept := hb.kept_saveAll hactivated
  sequence := le_refl _
  known := by
    intro y hy _
    rcases (hb.mem_saveAll hactivated).mp hy with hy | ⟨hy, _⟩
    · obtain ⟨row, hrow, _, _, rfl⟩ := activated_from hactivated hy
      obtain ⟨x, hx, hid, _⟩ := hb.known row hrow
      exact ⟨x, hx, hid⟩
    · exact ⟨y, hy, rfl⟩

end UserQueueStore

section Leads

variable {as : List (Answer userQueueServer)} {q : UserQueueScript UserQueueResult}

/-- Activated with a reading of the clock that is among the answers. -/
def StampedAs (as : List (Answer userQueueServer)) (row row' : UserQueueEntity) : Prop :=
  ∃ token now, ⟨.now, now⟩ ∈ as ∧
    row' = { row with token := some token, expiresAt := some (now + 10 * 60 * 1000) }

theorem StampedAs.activated {row row' : UserQueueEntity} (h : StampedAs as row row') :
    ActivatedAs row row' := by
  obtain ⟨token, now, _, hrow⟩ := h
  exact ⟨token, _, hrow⟩

/-- Past the loop of an activation all queues are activated. -/
theorem stamped_of_leads {queues : List UserQueue}
    {f : List UserQueue → UserQueueScript UserQueueResult}
    (h : ((UserQueueService.activateEach queues).bind f).Leads as q)
    (hq : ∀ o k, q = .ask o k → o ≠ .now ∧ ∀ u i, o ≠ .sign u i) :
    ∃ queues' as', List.Forall₂ (StampedAs as) (queues.map toEntity) (queues'.map toEntity) ∧
      as' ⊆ as ∧ (f queues').Leads as' q := by
  induction queues generalizing f as with
  | nil => exact ⟨[], as, .nil, List.Subset.refl _, h⟩
  | cons queue queues ih =>
    rcases leads_ask.mp h with ⟨_, rfl⟩ | ⟨token, rest, rfl, hsigned⟩
    · exact absurd rfl ((hq _ _ rfl).2 _ _)
    rcases leads_ask.mp hsigned with ⟨_, rfl⟩ | ⟨now, rest', rfl, hread⟩
    · exact absurd rfl (hq _ _ rfl).1
    simp only [Script.bind_eq, Script.done_bind, Script.bind_assoc] at hread
    obtain ⟨queues', as', hstamped, hsub, hleads⟩ := ih hread
    have hmore : ∀ a ∈ rest', a ∈ (⟨.sign queue.userId queue.id, token⟩ : Answer userQueueServer) ::
        ⟨.now, now⟩ :: rest' :=
      fun a ha => List.mem_cons_of_mem _ (List.mem_cons_of_mem _ ha)
    refine ⟨_, as', ?_, fun a ha => hmore a (hsub ha), hleads⟩
    refine .cons ⟨token, now, List.mem_cons_of_mem _ List.mem_cons_self, rfl⟩ ?_
    refine hstamped.imp fun row row' hrow => ?_
    obtain ⟨token', now', hnow', hrow'⟩ := hrow
    exact ⟨token', now', hmore _ hnow', hrow'⟩

/-- An activation past its loop has read a batch, and saves it or has saved it. -/
theorem saving_of_leads (h : (UserQueueCall.handle .activate).Leads as q) (hstart : as ≠ [])
    (hq : ∀ o k, q = .ask o k → o ≠ .now ∧ ∀ u i, o ≠ .sign u i) :
    ∃ batch rest queues as', as = ⟨.findPending 100, batch⟩ :: rest ∧ as' ⊆ rest ∧
      List.Forall₂ (StampedAs rest) batch (queues.map toEntity) ∧
      (UserQueueCall.saving queues).Leads as' q := by
  rw [UserQueueCall.handle_activate] at h
  rcases leads_call.mp h with ⟨hnil, _⟩ | ⟨rows, rest, rfl, heach⟩
  · exact absurd hnil hstart
  obtain ⟨queues, as', hstamped, hsub, hsaving⟩ := stamped_of_leads heach hq
  rw [UserQueueMapper.map_toEntity_toDomain] at hstamped
  exact ⟨rows, rest, queues, as', rfl, hsub, hstamped, hsaving⟩

/-- An activation that is done has read a batch and saved it, activated. -/
theorem saved_of_done (h : (UserQueueCall.handle .activate).Leads as q)
    (hq : q.finished = true) :
    ∃ batch entities, ⟨.findPending 100, batch⟩ ∈ as ∧ ⟨.saveAll entities, ()⟩ ∈ as ∧
      List.Forall₂ ActivatedAs batch entities := by
  have hstart : as ≠ [] := by
    rintro rfl
    rw [UserQueueCall.handle_activate] at h
    rcases leads_call.mp h with ⟨_, rfl⟩ | ⟨_, _, hnil, _⟩
    · contradiction
    · contradiction
  have hask : ∀ o k, q = .ask o k → o ≠ .now ∧ ∀ u i, o ≠ .sign u i := by
    rintro o k rfl
    contradiction
  obtain ⟨batch, rest, queues, as', rfl, hsub, hstamped, hsaving⟩ := saving_of_leads h hstart hask
  rcases leads_call.mp hsaving with ⟨_, rfl⟩ | ⟨_, rest', rfl, _⟩
  · contradiction
  exact ⟨batch, _, List.mem_cons_self, List.mem_cons_of_mem _ (hsub List.mem_cons_self),
    hstamped.imp fun _ _ hrow => hrow.activated⟩

end Leads

/-- What a command of a call does to the store, and what it saves. -/
theorem RowsRead.later {s : UserQueuePool} {i : Interleaving.CallId} {r : UserQueueRun}
    {o : UserQueueOp} {e : UserQueueEvent} {reply : o.Reply} {st : UserQueueStore}
    {k : o.Reply → UserQueueScript UserQueueResult} (hs : RowsRead s)
    (hr : s.calls i = some r) (hscript : r.script = .ask o k ∨ r.script = .call o k)
    (hx : o.exec s.state e = some (reply, st)) (hok : inSequence s (.answer i e) = true) :
    s.state.Later st ∧ ∀ entities, o = .saveAll entities → ∀ x ∈ entities,
      ∃ y ∈ st.queues.rows, y.id = x.id ∧ y.token.isNone = false := by
  have hleads := (hs.waiting i r hr).2
  rcases UserQueueOp.exec_cases hx with ⟨hreads, rfl, _⟩ | ⟨entity, id, rfl, hfresh, hrows, rfl⟩ |
    ⟨entities, rfl, _, rfl⟩
  · refine ⟨.refl _, fun entities ho => ?_⟩
    subst ho
    contradiction
  · obtain ⟨userId, _, _, rfl, _⟩ := inserted_of_leads hleads hscript
    have hlast := lastId_lt_of_insert hok hx (congrArg UserQueueEntity.id (List.cons.inj hrows).1)
    refine ⟨UserQueueStore.later_addQueue hfresh hlast, fun entities ho => ?_⟩
    contradiction
  · obtain ⟨_, _, batch, hbatch, hactivated⟩ := saved_of_leads hleads hscript
    have hb := hs.batch i r 100 batch hr hbatch
    refine ⟨hb.later_saveAll hactivated, fun entities' ho x hx => ?_⟩
    obtain rfl := UserQueueOp.saveAll.inj ho
    refine ⟨x, (hb.mem_saveAll hactivated).mpr (Or.inl hx), rfl, ?_⟩
    obtain ⟨row, _, _, _, rfl⟩ := activated_from hactivated hx
    rfl

/-- What has happened since m: the store has moved on, and each new call that has
read a batch read the front of a store in between, and saved it for good. -/
structure Since (m s : UserQueuePool) : Prop where
  later : m.state.Later s.state
  read : ∀ i r batch, m.calls i = none → s.calls i = some r →
    ⟨.findPending 100, batch⟩ ∈ r.answers →
    ∃ st, m.state.Later st ∧ st.Later s.state ∧ batch = st.pending.take 100
  saved : ∀ i r entities, m.calls i = none → s.calls i = some r →
    ⟨.saveAll entities, ()⟩ ∈ r.answers →
    ∀ x ∈ entities, ∃ y ∈ s.state.queues.rows, y.id = x.id ∧ y.token.isNone = false

namespace Since

variable {m s s' : UserQueuePool} {a : UserQueueAct} {id : Int}

theorem refl (m : UserQueuePool) : Since m m where
  later := .refl m.state
  read := by
    intro i r batch hnone hr
    rw [hnone] at hr
    contradiction
  saved := by
    intro i r entities hnone hr
    rw [hnone] at hr
    contradiction

/-- The store moves on, and the answers of the calls stay. -/
theorem move {st : UserQueueStore} (h : Since m s) (hlater : s.state.Later st) :
    Since m { s with state := st } where
  later := h.later.trans hlater
  read := by
    intro i r batch hnone hr hread
    obtain ⟨mid, hmid, hlater', hbatch⟩ := h.read i r batch hnone hr hread
    exact ⟨mid, hmid, hlater'.trans hlater, hbatch⟩
  saved := by
    intro i r entities hnone hr hsaved x hx
    obtain ⟨y, hy, hid, hsome⟩ := h.saved i r entities hnone hr hsaved x hx
    obtain ⟨z, hz, hid', _, htoken⟩ := hlater.kept y hy
    exact ⟨z, hz, hid'.trans hid, htoken hsome⟩

theorem step (hf : RowsRead s) (h : Since m s) (hs : serveQueues s a = some s')
    (hok : inSequence s a = true) : Since m s' := by
  rcases hf.waiting.cases UserQueueCall.waits hs with ⟨i, label, rfl, hi, rfl⟩ |
    ⟨i, e, r, o, k, reply, st, rfl, hr, _, hscript, hx, rfl⟩ | ⟨e, st, rfl, hst, rfl⟩
  · refine ⟨h.later, fun j r' batch hnone hr' hread => ?_,
      fun j r' entities hnone hr' hsaved => ?_⟩
    · rcases Pool.calls_update hr' with ⟨_, rfl⟩ | ⟨_, hold⟩
      · contradiction
      · exact h.read j r' batch hnone hold hread
    · rcases Pool.calls_update hr' with ⟨_, rfl⟩ | ⟨_, hold⟩
      · contradiction
      · exact h.saved j r' entities hnone hold hsaved
  · obtain ⟨hlater, hsaves⟩ := hf.later hr hscript hx hok
    have hmoved := h.move hlater
    refine ⟨hmoved.later, fun j r' batch hnone hr' hread => ?_,
      fun j r' entities hnone hr' hsaved => ?_⟩
    · rcases Pool.calls_update hr' with ⟨rfl, rfl⟩ | ⟨_, hold⟩
      · rcases List.mem_append.mp hread with hread | hread
        · exact hmoved.read j r batch hnone hr hread
        · -- the batch is read now
          cases List.mem_singleton.mp hread
          cases e <;> cases hx
          exact ⟨s.state, h.later, .refl _, rfl⟩
      · exact hmoved.read j r' batch hnone hold hread
    · rcases Pool.calls_update hr' with ⟨rfl, rfl⟩ | ⟨_, hold⟩
      · rcases List.mem_append.mp hsaved with hsaved | hsaved
        · exact hmoved.saved j r entities hnone hr hsaved
        · cases List.mem_singleton.mp hsaved
          exact hsaves entities rfl
      · exact hmoved.saved j r' entities hnone hold hsaved
  · cases e with
    | tick t =>
      obtain ⟨_, hst⟩ := Option.ite_none_right_eq_some.mp hst
      obtain rfl := Option.some.inj hst
      exact h.move ((UserQueueStore.Later.refl _).setNow t)
    | quiet | found | issued => contradiction

theorem run {as : List UserQueueAct} (hf : RowsRead m)
    (h : Machine.run serveQueues m as = some s)
    (hseq : Machine.Along serveQueues (fun s a => inSequence s a = true) m as) : Since m s := by
  refine Machine.along_induction (Since m) (.refl m) ?_ h hseq
  rintro n a t ⟨past, hn⟩ ih hok hs
  exact ih.step (hf.run hn).1 hs hok

/-- A new activation that is done has taken the hundred at the front off the line. -/
theorem pendingUpTo_le {i : Interleaving.CallId} {r : UserQueueRun}
    (hf : RowsRead s) (h : Since m s) (hnone : m.calls i = none) (hr : s.calls i = some r)
    (hlabel : r.label = .activate) (hdone : r.script.finished = true)
    (hid : id ≤ m.state.lastId) :
    s.state.pendingUpTo id ≤ m.state.pendingUpTo id - 100 := by
  have hleads := (hf.waiting i r hr).2
  rw [hlabel] at hleads
  obtain ⟨batch, entities, hread, hsaved, hactivated⟩ := saved_of_done hleads hdone
  obtain ⟨st, hbefore, hafter, rfl⟩ := h.read i r batch hnone hr hread
  have hserved : ∀ x ∈ st.pending.take 100, ∃ y ∈ s.state.queues.rows, y.id = x.id ∧
      y.token.isNone = false := by
    intro x hx
    have hentity : x.id ∈ entities.map UserQueueEntity.id := by
      rw [UserQueueStore.ids_activated hactivated]
      exact List.mem_map_of_mem hx
    obtain ⟨entity, hentity, hid⟩ := List.mem_map.mp hentity
    obtain ⟨y, hy, hyid, hsome⟩ := h.saved i r entities hnone hr hsaved entity hentity
    exact ⟨y, hy, hyid.trans hid, hsome⟩
  have hserve := hafter.served (hid.trans hbefore.sequence) hserved
  have hless := hbefore.pendingUpTo_le hid
  omega

end Since

/-- From m to s, n activations were started and done one after the other, and
anything else went on meanwhile, with new rows seen in the order of their keys. -/
inductive Rounds (m : UserQueuePool) : Nat → UserQueuePool → Prop where
  | none : Rounds m 0 m
  | round {n : Nat} {p s : UserQueuePool} {as : List UserQueueAct} {i : Interleaving.CallId}
      {r : UserQueueRun} (past : Rounds m n p) (run : Machine.run serveQueues p as = some s)
      (inSequence : Machine.Along serveQueues (fun s a => inSequence s a = true) p as)
      (new : p.calls i = none) (call : s.calls i = some r) (label : r.label = .activate)
      (done : r.script.finished = true) :
      Rounds m (n + 1) s

theorem Rounds.pendingUpTo_le {m s : UserQueuePool} {n : Nat} {id : Int} (hf : RowsRead m)
    (hid : id ≤ m.state.lastId) (h : Rounds m n s) : RowsRead s ∧ m.state.Later s.state ∧
      s.state.pendingUpTo id ≤ m.state.pendingUpTo id - 100 * n := by
  induction h with
  | none => exact ⟨hf, .refl _, Nat.le_refl _⟩
  | round past hrun hseq hnew hcall hlabel hdone ih =>
    obtain ⟨hfp, hlater, hless⟩ := ih
    have hsince := Since.run hfp hrun hseq
    have hfs := (hfp.run hrun).1
    have hmore := hsince.pendingUpTo_le hfs hnew hcall hlabel hdone (hid.trans hlater.sequence)
    exact ⟨hfs, hlater.trans hsince.later, by omega⟩

/-- Everyone's turn comes. Whoever waits in the database queue as one of the
first hundred times n is active after n runs of the activation, one after the
other, whatever requests and other runs go on meanwhile, as long as new rows are
seen in the order of their keys. -/
theorem activated_in_turn {st : UserQueueStore} {m s : UserQueuePool} {row : UserQueueEntity}
    {n : Nat} (hst : st.Keyed) (h : Machine.Reachable serveQueues (Pool.init st) m)
    (hrow : row ∈ m.state.queues.rows) (hplace : m.state.pendingUpTo row.id ≤ 100 * n)
    (hrounds : Rounds m n s) : ∃ row' ∈ s.state.queues.rows, row'.id = row.id ∧
      row'.userId = row.userId ∧ row'.token.isNone = false := by
  obtain ⟨as, has⟩ := h
  have hf := ((RowsRead.init hst).run has).1
  obtain ⟨_, hlater, hless⟩ := hrounds.pendingUpTo_le hf (hf.keyed row hrow)
  obtain ⟨row', hrow', hid, huser, _⟩ := hlater.kept row hrow
  refine ⟨row', hrow', hid, huser, ?_⟩
  by_contra hnone
  have hpos : 0 < s.state.pendingUpTo row.id :=
    List.countP_pos_iff.mpr ⟨row', hrow', by simpa [hid] using hnone⟩
  omega

/-- An activation serves user 1 while user 2 comes. -/
def servedMeanwhile : List UserQueueAct :=
  [.start 1 .activate, .answer 1 .quiet, .start 2 (.enqueue 2), .answer 2 .quiet, .answer 1 .quiet,
    .answer 2 .quiet, .answer 2 (.issued 2), .answer 1 .quiet, .answer 1 .quiet, .answer 2 .quiet]

theorem activated_in_turn_servedMeanwhile : ∃ m s,
    Machine.run serveQueues (Pool.init noQueues) oneEnters = some m ∧
    Machine.run serveQueues m servedMeanwhile = some s ∧ Rounds m 1 s ∧
    ⟨1, 1, none, none⟩ ∈ m.state.queues.rows ∧ ∃ row' ∈ s.state.queues.rows,
      row'.id = 1 ∧ row'.userId = 1 ∧ row'.token.isNone = false := by
  have h : ((Machine.run serveQueues (Pool.init noQueues) oneEnters).bind fun m =>
      (Machine.run serveQueues m servedMeanwhile).map fun s =>
        (m.state.queues.rows, (m.calls 1).isNone,
          (s.calls 1).map fun r => (r.label, r.script.finished))) =
      some ([⟨1, 1, none, none⟩], true, some (.activate, true)) := by
    decide +kernel
  obtain ⟨m, hm, h⟩ := Option.bind_eq_some_iff.mp h
  obtain ⟨s, hs, hfacts⟩ := Option.map_eq_some_iff.mp h
  simp only [Prod.mk.injEq] at hfacts
  obtain ⟨hrows, hnew, hcall⟩ := hfacts
  obtain ⟨r, hr, hr'⟩ := Option.map_eq_some_iff.mp hcall
  simp only [Prod.mk.injEq] at hr'
  obtain ⟨hlabel, hdone⟩ := hr'
  have hseq : Machine.Along serveQueues (fun s a => inSequence s a = true) (Pool.init noQueues)
      (oneEnters ++ servedMeanwhile) :=
    Machine.throughout_true.along_of_checks (fun _ _ _ => id) (by decide +kernel)
  have hrounds : Rounds m 1 s := .round .none hs ((Machine.along_append hm).mp hseq).2
    (Option.isNone_iff_eq_none.mp hnew) hr hlabel hdone
  have hrow : ⟨1, 1, none, none⟩ ∈ m.state.queues.rows := hrows ▸ List.mem_singleton_self _
  have hst : noQueues.Keyed := by simp [noQueues, UserQueueStore.Keyed]
  have hplace : m.state.pendingUpTo 1 ≤ 100 * 1 := by
    rw [UserQueueStore.pendingUpTo, hrows]
    decide
  exact ⟨m, s, hm, hs, hrounds, hrow, activated_in_turn hst ⟨_, hm⟩ hrow hplace hrounds⟩

end HighVolumeBooking
