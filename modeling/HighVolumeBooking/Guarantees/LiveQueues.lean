import HighVolumeBooking.Guarantees.Overtaking

namespace HighVolumeBooking

open ReadCommitted (RowId Table)
open Interleaving (Answer Pool Running)

theorem unexpiredAt_iff {row : UserQueueEntity} {userId : RowId} {t : Int} :
    row.unexpiredAt userId t = true ↔
      row.userId = userId ∧ ∀ expiresAt ∈ row.expiresAt, t < expiresAt := by
  simp [UserQueueEntity.unexpiredAt, Option.all_eq_true]

/-- What has not expired at an instant had not expired before. -/
theorem unexpiredAt_of_le {row : UserQueueEntity} {userId : RowId} {t t' : Int}
    (h : row.unexpiredAt userId t' = true) (ht : t ≤ t') : row.unexpiredAt userId t = true := by
  obtain ⟨huser, hexpires⟩ := unexpiredAt_iff.mp h
  refine unexpiredAt_iff.mpr ⟨huser, fun expiresAt hsome => ?_⟩
  exact lt_of_le_of_lt ht (hexpires expiresAt hsome)

namespace UserQueueStore

/-- Each user has at most one unexpired row. -/
def OneEach (st : UserQueueStore) : Prop :=
  ∀ userId, ∀ x ∈ st.queues.rows, ∀ y ∈ st.queues.rows,
    x.unexpiredAt userId st.now = true → y.unexpiredAt userId st.now = true → x = y

/-- All rows of the user have expired. -/
def NoneUnexpired (st : UserQueueStore) (userId : RowId) : Prop :=
  ∀ x ∈ st.queues.rows, x.unexpiredAt userId st.now = false

/-- The row is stored, as far as its key and its user go. -/
def Known (st : UserQueueStore) (x : UserQueueEntity) : Prop :=
  ∃ row ∈ st.queues.rows, row.id = x.id ∧ row.userId = x.userId

/-- Only an activation sets a deadline. -/
def Sound (st : UserQueueStore) : Prop :=
  ∀ row ∈ st.queues.rows, row.token.isNone = true → row.expiresAt = none

/-- Entities that an activation saves: activated rows of the table, of one user
each. -/
structure Saveable (st : UserQueueStore) (entities : List UserQueueEntity) : Prop where
  known : ∀ x ∈ entities, st.Known x
  activated : ∀ x ∈ entities, x.token.isNone = false
  users : (entities.map UserQueueEntity.userId).Nodup

def saveAll (st : UserQueueStore) (entities : List UserQueueEntity) : UserQueueStore :=
  { st with queues := st.queues.putAll entities }

variable {st : UserQueueStore} {entities : List UserQueueEntity} {x : UserQueueEntity} {id : Int}
  {userId : RowId}

section Writes

theorem Known.user_eq (h : st.Known x) {row : UserQueueEntity} (hrow : row ∈ st.queues.rows)
    (hid : row.id = x.id) : row.userId = x.userId := by
  obtain ⟨row', hrow', hid', huser⟩ := h
  rw [Table.eq_of_key hrow hrow' (hid.trans hid'.symm), huser]

theorem Saveable.eq_of_user (h : st.Saveable entities) {y : UserQueueEntity} (hx : x ∈ entities)
    (hy : y ∈ entities) (huser : x.userId = y.userId) : x = y :=
  List.inj_on_of_nodup_map h.users hx hy huser

/-- Rows of different users have different keys. -/
theorem Saveable.ids (h : st.Saveable entities) : (entities.map UserQueueEntity.id).Nodup := by
  refine List.Nodup.map_on ?_ h.users.of_map
  intro x hx y hy hid
  obtain ⟨row, hrow, hrowid, huser⟩ := h.known x hx
  have huser' := (h.known y hy).user_eq hrow (hrowid.trans hid)
  exact h.eq_of_user hx hy (huser.symm.trans huser')

theorem Saveable.mem_saveAll (h : st.Saveable entities) :
    x ∈ (st.saveAll entities).queues.rows ↔
      x ∈ entities ∨ (x ∈ st.queues.rows ∧ x.id ∉ entities.map UserQueueEntity.id) :=
  Table.mem_putAll h.ids

theorem Sound.addQueue (h : st.Sound) (hid : st.Fresh id) : (st.addQueue id userId).Sound := by
  intro row hrow htoken
  rcases (mem_addQueue hid).mp hrow with rfl | hrow
  · rfl
  · exact h row hrow htoken

theorem Sound.saveAll (h : st.Sound) (hs : st.Saveable entities) : (st.saveAll entities).Sound := by
  intro row hrow htoken
  rcases hs.mem_saveAll.mp hrow with hrow | ⟨hrow, _⟩
  · rw [hs.activated row hrow] at htoken
    contradiction
  · exact h row hrow htoken

theorem Known.addQueue (hknown : st.Known x) (hid : st.Fresh id) :
    (st.addQueue id userId).Known x := by
  obtain ⟨row, hrow, hkept⟩ := hknown
  exact ⟨row, (mem_addQueue hid).mpr (Or.inr hrow), hkept⟩

theorem Known.saveAll (hknown : st.Known x) (hs : st.Saveable entities) :
    (st.saveAll entities).Known x := by
  obtain ⟨row, hrow, hid, huser⟩ := hknown
  by_cases hreplaced : row.id ∈ entities.map UserQueueEntity.id
  · obtain ⟨e, he, heid⟩ := List.mem_map.mp hreplaced
    have heuser := (hs.known e he).user_eq hrow heid.symm
    exact ⟨e, hs.mem_saveAll.mpr (Or.inl he), heid.trans hid, heuser.symm.trans huser⟩
  · exact ⟨row, hs.mem_saveAll.mpr (Or.inr ⟨hrow, hreplaced⟩), hid, huser⟩

theorem OneEach.setNow (h : st.OneEach) {t : Int} (ht : st.now ≤ t) : (st.setNow t).OneEach := by
  intro userId x hx y hy hlive hlive'
  exact h userId x hx y hy (unexpiredAt_of_le hlive ht) (unexpiredAt_of_le hlive' ht)

/-- A new row is its user's only unexpired one if the others have expired. -/
theorem oneEach_addQueue_iff (hone : st.OneEach) (hid : st.Fresh id) :
    (st.addQueue id userId).OneEach ↔ st.NoneUnexpired userId := by
  have hnew : ∀ t, (⟨id, userId, none, none⟩ : UserQueueEntity).unexpiredAt userId t = true := by
    intro t
    simp [UserQueueEntity.unexpiredAt]
  constructor
  · intro hone' x hx
    by_contra hlive
    rw [Bool.not_eq_false] at hlive
    have heq := hone' userId x ((mem_addQueue hid).mpr (Or.inr hx)) _
      ((mem_addQueue hid).mpr (Or.inl rfl)) hlive (hnew _)
    exact hid.2 x hx (congrArg UserQueueEntity.id heq)
  · intro hnone u x hx y hy hlive hlive'
    -- The new row only shares its user with rows that have expired.
    have hclash : ∀ z ∈ st.queues.rows, z.unexpiredAt u st.now = true →
        (⟨id, userId, none, none⟩ : UserQueueEntity).unexpiredAt u st.now = true → False := by
      intro z hz hzlive huser
      obtain rfl := (unexpiredAt_iff.mp huser).1
      rw [hnone z hz] at hzlive
      contradiction
    rcases (mem_addQueue hid).mp hx with rfl | hx <;>
      rcases (mem_addQueue hid).mp hy with rfl | hy
    · rfl
    · exact (hclash y hy hlive' hlive).elim
    · exact (hclash x hx hlive hlive').elim
    · exact hone u x hx y hy hlive hlive'

/-- The save gives a row whose stored deadline has passed one that is ahead, only
where its user has no unexpired row. -/
def RevivesAlone (st : UserQueueStore) (entities : List UserQueueEntity) : Prop :=
  ∀ e ∈ entities, e.unexpiredAt e.userId st.now = true → ∀ row ∈ st.queues.rows,
    row.id = e.id → row.unexpiredAt e.userId st.now = false → st.NoneUnexpired e.userId

theorem oneEach_saveAll_iff (hone : st.OneEach) (hs : st.Saveable entities) :
    (st.saveAll entities).OneEach ↔ st.RevivesAlone entities := by
  constructor
  · intro hone' e he hlive row hrow hid hover y hy
    by_contra hylive
    rw [Bool.not_eq_false] at hylive
    have hkept : y.id ∉ entities.map UserQueueEntity.id := by
      intro hreplaced
      obtain ⟨e', he', heid⟩ := List.mem_map.mp hreplaced
      have huser := (hs.known e' he').user_eq hy heid.symm
      have heq := hs.eq_of_user he' he (huser.symm.trans (unexpiredAt_iff.mp hylive).1)
      have hsame := Table.eq_of_key hy hrow (heid.symm.trans (heq ▸ hid.symm))
      rw [hsame, hover] at hylive
      contradiction
    have heq := hone' e.userId e (hs.mem_saveAll.mpr (Or.inl he)) y
      (hs.mem_saveAll.mpr (Or.inr ⟨hy, hkept⟩)) hlive hylive
    exact hkept (heq ▸ List.mem_map_of_mem he)
  · intro hrevives u x hx y hy hlive hlive'
    -- A saved row was unexpired before, or it comes back to a user without one.
    have hclash : ∀ e ∈ entities, ∀ z ∈ st.queues.rows, z.id ∉ entities.map UserQueueEntity.id →
        e.unexpiredAt u st.now = true → z.unexpiredAt u st.now = true → False := by
      intro e he z hz hkept helive hzlive
      obtain rfl := (unexpiredAt_iff.mp helive).1
      obtain ⟨row, hrow, hid, _⟩ := hs.known e he
      cases hrowlive : row.unexpiredAt e.userId st.now with
      | true =>
        have heq := hone e.userId row hrow z hz hrowlive hzlive
        rw [← heq, hid] at hkept
        exact hkept (List.mem_map_of_mem he)
      | false =>
        rw [hrevives e he helive row hrow hid hrowlive z hz] at hzlive
        contradiction
    rcases hs.mem_saveAll.mp hx with hx | ⟨hx, hxkept⟩ <;>
      rcases hs.mem_saveAll.mp hy with hy | ⟨hy, hykept⟩
    · exact hs.eq_of_user hx hy
        ((unexpiredAt_iff.mp hlive).1.trans (unexpiredAt_iff.mp hlive').1.symm)
    · exact (hclash x hx y hy hykept hlive hlive').elim
    · exact (hclash y hy x hx hxkept hlive' hlive).elim
    · exact hone u x hx y hy hlive hlive'

theorem Sound.unexpired_of_pending (h : st.Sound) (hx : x ∈ st.pending) (t : Int) :
    x.unexpiredAt x.userId t = true := by
  obtain ⟨hmem, htoken⟩ := mem_pending.mp hx
  refine unexpiredAt_iff.mpr ⟨rfl, fun expiresAt hsome => ?_⟩
  rw [h x hmem htoken] at hsome
  contradiction

/-- The pending rows are unexpired, so no two of them are of one user. -/
theorem pending_users (hone : st.OneEach) (h : st.Sound) :
    (st.pending.map UserQueueEntity.userId).Nodup := by
  have hnodup : st.pending.Nodup :=
    (pairwise_pending st).imp fun hlt heq => absurd (heq ▸ hlt) (lt_irrefl _)
  refine List.Nodup.map_on ?_ hnodup
  intro x hx y hy huser
  exact hone x.userId x (mem_pending.mp hx).1 y (mem_pending.mp hy).1
    (h.unexpired_of_pending hx st.now) (huser ▸ h.unexpired_of_pending hy st.now)

end Writes

end UserQueueStore

namespace UserQueueOp

open UserQueueStore

variable {st st' : UserQueueStore} {o : UserQueueOp} {e : UserQueueEvent} {reply : o.Reply}

/-- What calls write: new rows without a token, and rows they have activated. -/
def Fits (st : UserQueueStore) : UserQueueOp → Prop
  | .insert entity => ∃ userId, entity = ⟨0, userId, none, none⟩
  | .saveAll entities => st.Saveable entities
  | _ => True

/-- No user who has an unexpired row gets another one. -/
def Unrivalled (st : UserQueueStore) : UserQueueOp → Prop
  | .insert entity => st.NoneUnexpired entity.userId
  | .saveAll entities => st.RevivesAlone entities
  | _ => True

theorem unrivalled_of_reads (h : o.writes = false) : o.Unrivalled st := by
  cases o with
  | insert | saveAll => contradiction
  | now | sign | findOldestPending | findPending | findUnexpired => trivial

theorem Fits.cases (hfits : o.Fits st) (hx : o.exec st e = some (reply, st')) :
    (o.writes = false ∧ st' = st ∧ ∀ row ∈ rowsOf ⟨o, reply⟩, row ∈ st.queues.rows) ∨
    (∃ userId id, o = .insert ⟨0, userId, none, none⟩ ∧ st.Fresh id ∧
      rowsOf ⟨o, reply⟩ = [⟨id, userId, none, none⟩] ∧ st' = st.addQueue id userId) ∨
    ∃ entities, o = .saveAll entities ∧ st.Saveable entities ∧ rowsOf ⟨o, reply⟩ = [] ∧
      st' = st.saveAll entities := by
  rcases exec_cases hx with hread | ⟨entity, id, rfl, hfresh, hrows, rfl⟩ |
    ⟨entities, rfl, hrows, rfl⟩
  · exact Or.inl hread
  · obtain ⟨userId, rfl⟩ := hfits
    exact Or.inr (Or.inl ⟨userId, id, rfl, hfresh, hrows, rfl⟩)
  · exact Or.inr (Or.inr ⟨entities, rfl, hfits, hrows, rfl⟩)

theorem Fits.sound (hfits : o.Fits st) (hx : o.exec st e = some (reply, st')) (h : st.Sound) :
    st'.Sound := by
  rcases hfits.cases hx with ⟨_, rfl, _⟩ | ⟨userId, id, _, hfresh, _, rfl⟩ |
    ⟨entities, _, hs, _, rfl⟩
  · exact h
  · exact h.addQueue hfresh
  · exact h.saveAll hs

/-- Stored rows stay, and what an answer brings is stored. -/
theorem Fits.known (hfits : o.Fits st) (hx : o.exec st e = some (reply, st')) :
    (∀ x, st.Known x → st'.Known x) ∧ ∀ x ∈ rowsOf ⟨o, reply⟩, st'.Known x := by
  rcases hfits.cases hx with ⟨_, rfl, hread⟩ | ⟨userId, id, _, hfresh, hrows, rfl⟩ |
    ⟨entities, _, hs, hrows, rfl⟩
  · exact ⟨fun _ hknown => hknown, fun x hxrow => ⟨x, hread x hxrow, rfl, rfl⟩⟩
  · refine ⟨fun x hknown => hknown.addQueue hfresh, fun x hxrow => ?_⟩
    rw [hrows, List.mem_singleton] at hxrow
    exact ⟨x, (UserQueueStore.mem_addQueue hfresh).mpr (Or.inl hxrow), rfl, rfl⟩
  · refine ⟨fun x hknown => hknown.saveAll hs, fun x hxrow => ?_⟩
    rw [hrows] at hxrow
    contradiction

theorem Fits.oneEach_iff (hfits : o.Fits st) (hx : o.exec st e = some (reply, st'))
    (hone : st.OneEach) : st'.OneEach ↔ o.Unrivalled st := by
  rcases hfits.cases hx with ⟨hread, rfl, _⟩ | ⟨userId, id, rfl, hfresh, _, rfl⟩ |
    ⟨entities, rfl, hs, _, rfl⟩
  · exact iff_of_true hone (unrivalled_of_reads hread)
  · exact oneEach_addQueue_iff hone hfresh
  · exact oneEach_saveAll_iff hone hs

end UserQueueOp

/-- The rows that calls have read are stored, and each batch was of different
users. -/
structure Tracked (s : UserQueuePool) : Prop where
  waiting : Pool.Waiting UserQueueCall.handle s
  sound : s.state.Sound
  known : ∀ i r, s.calls i = some r → ∀ x ∈ r.answers.flatMap rowsOf, s.state.Known x
  users : ∀ i r count batch, s.calls i = some r → ⟨.findPending count, batch⟩ ∈ r.answers →
    (batch.map UserQueueEntity.userId).Nodup

section Steps

variable {s s' : UserQueuePool} {a : UserQueueAct}

theorem Tracked.fits {i : Interleaving.CallId} {r : UserQueueRun} {o : UserQueueOp}
    {k : o.Reply → UserQueueScript UserQueueResult} (hs : Tracked s) (hr : s.calls i = some r)
    (hscript : r.script = .ask o k ∨ r.script = .call o k) : o.Fits s.state := by
  have hleads := (hs.waiting i r hr).2
  cases o with
  | insert entity =>
    obtain ⟨userId, _, _, rfl, _⟩ := inserted_of_leads hleads hscript
    exact ⟨userId, rfl⟩
  | saveAll entities =>
    obtain ⟨_, _, batch, hbatch, hactivated⟩ := saved_of_leads hleads hscript
    refine ⟨fun x hx => ?_, fun x hx => ?_, ?_⟩
    · obtain ⟨row, hrow, _, _, rfl⟩ := activated_from hactivated hx
      exact hs.known i r hr row (List.mem_flatMap.mpr ⟨_, hbatch, hrow⟩)
    · obtain ⟨row, _, _, _, rfl⟩ := activated_from hactivated hx
      rfl
    · rw [activated_users hactivated]
      exact hs.users i r 100 batch hr hbatch
  | now | sign | findOldestPending | findPending | findUnexpired => trivial

theorem Tracked.init {st : UserQueueStore} (hst : st.queues.rows = []) :
    Tracked (Pool.init st) := by
  refine ⟨Pool.Waiting.init _ st, fun row hrow => ?_,
    fun i r hr => by contradiction, fun i r count batch hr => by contradiction⟩
  rw [Pool.init, hst] at hrow
  contradiction

/-- What a step of a pool does, where calls write what they may. -/
theorem Tracked.cases (hs : Tracked s) (h : serveQueues s a = some s') :
    (∃ i label, a = .start i label ∧ s.calls i = none ∧ s' = { s with
      calls := Function.update s.calls i (some (.start label label.handle)) }) ∨
    (∃ i r o k e reply st, a = .answer i e ∧ s.calls i = some r ∧ r.next = some ⟨o, k⟩ ∧
      o.Fits s.state ∧ o.exec s.state e = some (reply, st) ∧ s' = {
        state := st
        calls := Function.update s.calls i (some (r.answered ⟨o, reply⟩ (k reply)))
        log := s.log ++ [⟨r.label, ⟨o, reply⟩, s.state⟩] }) ∨
    ∃ t, a = .env (.tick t) ∧ s.state.now ≤ t ∧ s' = { s with state := s.state.setNow t } := by
  rcases hs.waiting.cases UserQueueCall.waits h with hstart |
    ⟨i, e, r, o, k, reply, st, rfl, hr, hcrash, hscript, hx, rfl⟩ | ⟨e, st, rfl, hst, rfl⟩
  · exact Or.inl hstart
  · exact Or.inr (Or.inl ⟨i, r, o, k, e, reply, st, rfl, hr,
      hs.waiting.next hr hcrash hscript, hs.fits hr hscript, hx, rfl⟩)
  · cases e with
    | tick t =>
      obtain ⟨ht, hst⟩ := Option.ite_none_right_eq_some.mp hst
      obtain rfl := Option.some.inj hst
      exact Or.inr (Or.inr ⟨t, rfl, ht, rfl⟩)
    | quiet | found | issued => contradiction

/-- A batch is of different users as long as each user has one unexpired row. -/
theorem Tracked.step (hs : Tracked s) (hone : s.state.OneEach) (h : serveQueues s a = some s') :
    Tracked s' := by
  have hwaiting := hs.waiting.serve UserQueueCall.waits h
  rcases hs.cases h with ⟨i, label, rfl, _, rfl⟩ |
    ⟨i, r, o, k, e, reply, st, rfl, hr, _, hfits, hx, rfl⟩ | ⟨t, rfl, _, rfl⟩
  · refine ⟨hwaiting, hs.sound, fun j r' hr' => ?_, fun j r' count batch hr' hread => ?_⟩
    · rcases Pool.calls_update hr' with ⟨_, rfl⟩ | ⟨_, hold⟩
      · simp [Running.start]
      · exact hs.known j r' hold
    · rcases Pool.calls_update hr' with ⟨_, rfl⟩ | ⟨_, hold⟩
      · contradiction
      · exact hs.users j r' count batch hold hread
  · obtain ⟨hkept, hbrought⟩ := hfits.known hx
    refine ⟨hwaiting, hfits.sound hx hs.sound, fun j r' hr' x hxread => ?_,
      fun j r' count batch hr' hread => ?_⟩
    · rcases Pool.calls_update hr' with ⟨_, rfl⟩ | ⟨_, hold⟩
      · rcases mem_rows_answered.mp hxread with hxread | hxread
        · exact hkept x (hs.known i r hr x hxread)
        · exact hbrought x hxread
      · exact hkept x (hs.known j r' hold x hxread)
    · rcases Pool.calls_update hr' with ⟨_, rfl⟩ | ⟨_, hold⟩
      · rcases List.mem_append.mp hread with hread | hread
        · exact hs.users i r count batch hr hread
        · cases List.mem_singleton.mp hread
          cases e <;> cases hx
          exact (UserQueueStore.pending_users hone hs.sound).sublist
            ((List.take_sublist count _).map _)
      · exact hs.users j r' count batch hold hread
  · exact ⟨hwaiting, hs.sound, hs.known, hs.users⟩

/-- From now on each user has at most one unexpired row. -/
def OneUnexpired (s : UserQueuePool) : Prop :=
  ∀ t, s.state.now ≤ t → ∀ userId, ∀ x ∈ s.state.queues.rows, ∀ y ∈ s.state.queues.rows,
    x.unexpiredAt userId t = true → y.unexpiredAt userId t = true → x = y

/-- A row is only inserted for a user without an unexpired row, and the save of an
activation only prolongs an expired row of such a user. -/
def NotDoubled (s : UserQueuePool) (a : UserQueueAct) : Prop :=
  ∀ i r o, a.owner = some i → s.calls i = some r → r.next.map Sigma.fst = some o →
    o.Unrivalled s.state

/-- Rows only expire as time goes by. -/
theorem oneUnexpired_iff : OneUnexpired s ↔ s.state.OneEach := by
  constructor
  · intro hone
    exact hone s.state.now (le_refl _)
  · intro hone t ht
    exact hone.setNow ht

theorem oneUnexpired_step (hs : Tracked s) (hone : OneUnexpired s)
    (h : serveQueues s a = some s') : OneUnexpired s' ↔ NotDoubled s a := by
  rw [oneUnexpired_iff] at hone ⊢
  rcases hs.cases h with ⟨i, label, rfl, hnone, rfl⟩ |
    ⟨i, r, o, k, e, reply, st, rfl, hr, hnext, hfits, hx, rfl⟩ | ⟨t, rfl, ht, rfl⟩
  · refine iff_of_true hone fun j r' o' hj hr' _ => ?_
    obtain rfl := Option.some.inj hj
    rw [hnone] at hr'
    contradiction
  · refine (hfits.oneEach_iff hx hone).trans ⟨fun hok => ?_, fun hok => ?_⟩
    · intro j r' o' hj hr' hnext'
      obtain rfl := Option.some.inj hj
      obtain rfl := Option.some.inj (hr.symm.trans hr')
      rw [hnext] at hnext'
      obtain rfl := Option.some.inj hnext'
      exact hok
    · exact hok i r o rfl hr (by rw [hnext]; rfl)
  · exact iff_of_true (hone.setNow ht) fun _ _ _ howner => by contradiction

end Steps

/-- From an empty table on, each user has at most one unexpired row exactly in the
runs in which no row is inserted, or prolonged after its deadline, beside an
unexpired one of its user. -/
theorem one_unexpired_iff {st : UserQueueStore} {as : List UserQueueAct} {s : UserQueuePool}
    (hst : st.queues.rows = []) (h : Machine.run serveQueues (Pool.init st) as = some s) :
    Machine.Throughout serveQueues OneUnexpired (Pool.init st) as ↔
      Machine.Along serveQueues NotDoubled (Pool.init st) as := by
  refine Machine.throughout_iff_along_of (I := Tracked) (Tracked.init hst) ?_ ?_ ?_ h
  · intro t _ userId x hx
    rw [Pool.init, hst] at hx
    contradiction
  · intro m a t hm hone hstep
    exact hm.step (oneUnexpired_iff.mp hone) hstep
  · intro m a t hm hone hstep
    exact oneUnexpired_step hm hone hstep

theorem one_unexpired_twoEnter : noQueues.queues.rows = [] ∧ ∃ s,
    Machine.run serveQueues (Pool.init noQueues) twoEnter = some s ∧
    s.state.queues.rows.map (·.expiresAt) = [some 600000, none] ∧
    (Machine.Throughout serveQueues OneUnexpired (Pool.init noQueues) twoEnter ↔
      Machine.Along serveQueues NotDoubled (Pool.init noQueues) twoEnter) := by
  have hrun : (Machine.run serveQueues (Pool.init noQueues) twoEnter).map (fun s =>
      s.state.queues.rows.map (·.expiresAt)) = some [some 600000, none] := by
    decide +kernel
  obtain ⟨s, hs, hrows⟩ := Option.map_eq_some_iff.mp hrun
  exact ⟨rfl, s, hs, hrows, one_unexpired_iff rfl hs⟩

/-- Two requests of user 1 both look for a row before either inserts one. -/
def enteredTwice : List UserQueueAct :=
  [.start 0 (.enqueue 1), .answer 0 .quiet, .answer 0 .quiet, .start 1 (.enqueue 1),
    .answer 1 .quiet, .answer 1 .quiet, .answer 0 (.issued 1), .answer 1 (.issued 2)]

theorem two_unexpired_rows : noQueues.queues.rows = [] ∧ ∃ s,
    Machine.run serveQueues (Pool.init noQueues) enteredTwice = some s ∧ ¬ OneUnexpired s := by
  have hrun : (Machine.run serveQueues (Pool.init noQueues) enteredTwice).map (fun s =>
      s.state.queues.rows) = some [⟨1, 1, none, none⟩, ⟨2, 1, none, none⟩] := by
    decide +kernel
  obtain ⟨s, hs, hrows⟩ := Option.map_eq_some_iff.mp hrun
  refine ⟨rfl, s, hs, fun hone => ?_⟩
  have heq := hone s.state.now (le_refl _) 1 ⟨1, 1, none, none⟩ (by simp [hrows])
    ⟨2, 1, none, none⟩ (by simp [hrows]) rfl rfl
  contradiction

/-- Two activations read the row of user 1. One saves it, ten minutes pass, the
user enters again, and the other one prolongs the old row. -/
def revived : List UserQueueAct :=
  oneEnters ++ [.start 1 .activate, .answer 1 .quiet, .start 2 .activate, .answer 2 .quiet,
    .answer 2 .quiet, .answer 2 .quiet, .answer 2 .quiet, .env (.tick 600000),
    .start 3 (.enqueue 1), .answer 3 .quiet, .answer 3 .quiet, .answer 3 (.issued 2),
    .answer 1 .quiet, .answer 1 .quiet, .answer 1 .quiet]

example : (Machine.run serveQueues (Pool.init noQueues) revived).map (fun s =>
    s.state.queues.rows.countP fun row => row.unexpiredAt 1 s.state.now) = some 2 := by
  decide +kernel

end HighVolumeBooking
