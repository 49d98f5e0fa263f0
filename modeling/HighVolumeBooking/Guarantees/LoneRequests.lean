import HighVolumeBooking.Guarantees.LiveQueues

namespace HighVolumeBooking

open ReadCommitted (RowId Table)
open Interleaving (Pool Running)

theorem expired_of_le {row : UserQueueEntity} {userId : RowId} {t t' : Int}
    (h : row.unexpiredAt userId t = false) (ht : t ≤ t') : row.unexpiredAt userId t' = false := by
  by_contra hlive
  rw [Bool.not_eq_false] at hlive
  exact Bool.false_ne_true (h.symm.trans (unexpiredAt_of_le hlive ht))

namespace UserQueueStore

variable {st : UserQueueStore} {entities : List UserQueueEntity} {id : Int} {userId : RowId}

theorem NoneUnexpired.setNow (h : st.NoneUnexpired userId) {t : Int} (ht : st.now ≤ t) :
    (st.setNow t).NoneUnexpired userId :=
  fun x hx => expired_of_le (h x hx) ht

theorem NoneUnexpired.addQueue {owner : RowId} (hnone : st.NoneUnexpired userId)
    (hid : st.Fresh id) (hother : owner ≠ userId) :
    (st.addQueue id owner).NoneUnexpired userId := by
  intro x hx
  rcases (mem_addQueue hid).mp hx with rfl | hx
  · simp [UserQueueEntity.unexpiredAt, hother]
  · exact hnone x hx

theorem NoneUnexpired.saveAll (hnone : st.NoneUnexpired userId) (hs : st.Saveable entities)
    (hother : ∀ e ∈ entities, e.userId ≠ userId) : (st.saveAll entities).NoneUnexpired userId := by
  intro x hx
  rcases hs.mem_saveAll.mp hx with hx | ⟨hx, _⟩
  · simp [UserQueueEntity.unexpiredAt, hother x hx]
  · exact hnone x hx

end UserQueueStore

section Alone

variable {s s' : UserQueuePool} {a : UserQueueAct} {i : Interleaving.CallId} {r : UserQueueRun}

/-- A request starts when the earlier ones of its user have ended, and an activation
when the earlier ones have. -/
def StartsAlone (s : UserQueuePool) (a : UserQueueAct) : Prop :=
  ∀ i label j r, a = .start i label → s.calls j = some r → r.label = label → r.ended = true

/-- What a running call has read still holds. -/
structure UpToDate (s : UserQueuePool) : Prop where
  clock : ∀ i r t, s.calls i = some r → ⟨.now, t⟩ ∈ r.answers → t ≤ s.state.now
  single : ∀ i j r q, s.calls i = some r → s.calls j = some q → r.ended = false →
    q.ended = false → r.label = q.label → i = j
  creating : ∀ i r entity, s.calls i = some r → r.next.map Sigma.fst = some (.insert entity) →
    s.state.NoneUnexpired entity.userId
  batch : ∀ i r count batch, s.calls i = some r → r.label = .activate → r.ended = false →
    ⟨.findPending count, batch⟩ ∈ r.answers → ∀ x ∈ batch, x ∈ s.state.pending

theorem Tracked.creating {entity : UserQueueEntity} (hs : Tracked s) (hr : s.calls i = some r)
    (hnext : r.next.map Sigma.fst = some (.insert entity)) :
    ∃ userId t, r.label = .enqueue userId ∧ entity = ⟨0, userId, none, none⟩ ∧
      r.answers = [⟨.now, t⟩, ⟨.findUnexpired userId t, none⟩] := by
  obtain ⟨⟨o, k⟩, hn, rfl⟩ := Option.map_eq_some_iff.mp hnext
  exact inserted_of_leads (hs.waiting i r hr).2 (Running.script_of_next hn)

theorem Tracked.saving {entities : List UserQueueEntity}
    {k : Unit → UserQueueScript UserQueueResult} (hs : Tracked s) (hr : s.calls i = some r)
    (hn : r.next = some ⟨.saveAll entities, k⟩) :
    r.label = .activate ∧ (∀ reply, k reply = .done .none) ∧
      ∃ batch, ⟨.findPending 100, batch⟩ ∈ r.answers ∧
        List.Forall₂ ActivatedAs batch entities :=
  saved_of_leads (hs.waiting i r hr).2 (Running.script_of_next hn)

/-- The call that is about to create a row has just found none. -/
theorem UpToDate.found_none {o : UserQueueOp} {e : UserQueueEvent} {reply : o.Reply}
    {st : UserQueueStore} {userId : RowId} {t : Int} (hu : UpToDate s) (hr : s.calls i = some r)
    (hx : o.exec s.state e = some (reply, st))
    (hanswers : r.answers ++ [⟨o, reply⟩] = [⟨.now, t⟩, ⟨.findUnexpired userId t, none⟩]) :
    st.NoneUnexpired userId := by
  have hsplit : r.answers ++ [⟨o, reply⟩] =
      [⟨.now, t⟩] ++ [⟨.findUnexpired userId t, none⟩] := hanswers
  obtain ⟨hpast, hfresh⟩ := List.append_inj' hsplit rfl
  cases (List.cons.inj hfresh).1
  obtain ⟨rfl, hnone⟩ := exec_findUnexpired_none hx
  have ht : t ≤ s.state.now := hu.clock i r t hr (hpast ▸ List.mem_singleton_self _)
  exact fun row hrow => expired_of_le (hnone row hrow) ht

section Answer

variable {o : UserQueueOp} {k : o.Reply → UserQueueScript UserQueueResult} {e : UserQueueEvent}
  {reply : o.Reply} {st : UserQueueStore} (hu : UpToDate s) (hs : Tracked s)
  (hr : s.calls i = some r) (hn : r.next = some ⟨o, k⟩) (hfits : o.Fits s.state)
  (hx : o.exec s.state e = some (reply, st))

include hu hs hr hn hfits hx

/-- A user for whom a call is about to create a row gets none from another call. -/
theorem UpToDate.vacant {j : Interleaving.CallId} {q : UserQueueRun} {entity : UserQueueEntity}
    (hne : j ≠ i) (hq : s.calls j = some q)
    (hnext : q.next.map Sigma.fst = some (.insert entity)) : st.NoneUnexpired entity.userId := by
  have hnone := hu.creating j q entity hq hnext
  obtain ⟨userId, _, hlabel, rfl, _⟩ := hs.creating hq hnext
  obtain ⟨c, hc, _⟩ := Option.map_eq_some_iff.mp hnext
  rcases hfits.cases hx with ⟨_, rfl, _⟩ | ⟨owner, id, rfl, hfresh, _, rfl⟩ |
    ⟨entities, rfl, hsave, _, rfl⟩
  · exact hnone
  · refine hnone.addQueue hfresh fun howner => hne ?_
    obtain ⟨_, _, hlabel', hentity, _⟩ := hs.creating hr (by rw [hn]; rfl)
    obtain rfl := (congrArg UserQueueEntity.userId hentity).symm.trans howner
    exact hu.single j i q r hq hr (Running.ended_of_next hc) (Running.ended_of_next hn)
      (hlabel.trans hlabel'.symm)
  · refine hnone.saveAll hsave fun x hx howner => ?_
    obtain ⟨hactivate, _, batch, hbatch, hactivated⟩ := hs.saving hr hn
    obtain ⟨row, hrow, _, _, rfl⟩ := activated_from hactivated hx
    have hpending := hu.batch i r 100 batch hr hactivate (Running.ended_of_next hn) hbatch row hrow
    have hlive := hs.sound.unexpired_of_pending hpending s.state.now
    have hover := hnone row (mem_pending.mp hpending).1
    obtain rfl : row.userId = userId := howner
    exact Bool.false_ne_true (hover.symm.trans hlive)

/-- The rows of a batch stay pending while no other activation runs. -/
theorem UpToDate.still_pending {j : Interleaving.CallId} {q : UserQueueRun}
    (hq : s.calls j = some q) (hlabel : q.label = .activate) (hrun : q.ended = false)
    (hother : j = i → ∀ entities, o ≠ .saveAll entities) {x : UserQueueEntity}
    (hpending : x ∈ s.state.pending) : x ∈ st.pending := by
  rcases hfits.cases hx with ⟨_, rfl, _⟩ | ⟨userId, id, rfl, hfresh, _, rfl⟩ |
    ⟨entities, rfl, _, _, rfl⟩
  · exact hpending
  · obtain ⟨hmem, htoken⟩ := mem_pending.mp hpending
    exact mem_pending.mpr ⟨(UserQueueStore.mem_addQueue hfresh).mpr (Or.inr hmem), htoken⟩
  · obtain ⟨hactivate, _⟩ := hs.saving hr hn
    have hsame := hu.single j i q r hq hr hrun (Running.ended_of_next hn)
      (hlabel.trans hactivate.symm)
    exact absurd rfl (hother hsame entities)

/-- The batch of the activation itself is pending until its save, which ends it. -/
theorem UpToDate.own_batch {count : Nat} {batch : List UserQueueEntity}
    (hlabel : r.label = .activate) (hrun : (r.answered ⟨o, reply⟩ (k reply)).ended = false)
    (hread : ⟨.findPending count, batch⟩ ∈ r.answers ++ [⟨o, reply⟩]) :
    ∀ x ∈ batch, x ∈ st.pending := by
  intro x hxbatch
  rcases List.mem_append.mp hread with hread | hread
  · have hbefore := Running.ended_of_next hn
    refine hu.still_pending hs hr hn hfits hx hr hlabel hbefore (fun _ entities ho => ?_)
      (hu.batch i r count batch hr hlabel hbefore hread x hxbatch)
    subst ho
    obtain ⟨_, hdone, _⟩ := hs.saving hr hn
    simp [Running.ended, Running.answered, hdone, Interleaving.Script.finished,
      (hs.waiting i r hr).1] at hrun
  · cases List.mem_singleton.mp hread
    cases e <;> cases hx
    exact List.mem_of_mem_take hxbatch

theorem UpToDate.answer (hs' : Tracked s') (hs'eq : s' = {
      state := st
      calls := Function.update s.calls i (some (r.answered ⟨o, reply⟩ (k reply)))
      log := s.log ++ [⟨r.label, ⟨o, reply⟩, s.state⟩] }) : UpToDate s' := by
  subst hs'eq
  have hnow : st.now = s.state.now := by
    rcases hfits.cases hx with ⟨_, rfl, _⟩ | ⟨_, _, _, _, _, rfl⟩ | ⟨_, _, _, _, rfl⟩ <;> rfl
  -- A call that runs after the answer ran before, under the same label.
  have hbefore : ∀ j q, Function.update s.calls i
      (some (r.answered ⟨o, reply⟩ (k reply))) j = some q → q.ended = false →
      ∃ p, s.calls j = some p ∧ p.label = q.label ∧ p.ended = false := by
    intro j q hq hrun
    rcases Pool.calls_update hq with ⟨rfl, rfl⟩ | ⟨_, hold⟩
    · exact ⟨r, hr, rfl, Running.ended_of_next hn⟩
    · exact ⟨q, hold, rfl, hrun⟩
  refine ⟨fun j q t hq hread => ?_, fun j l q p hq hp hqrun hprun hlabel => ?_,
    fun j q entity hq hnext => ?_, fun j q count batch hq hlabel hqrun hread => ?_⟩
  · rw [hnow]
    rcases Pool.calls_update hq with ⟨_, rfl⟩ | ⟨_, hold⟩
    · rcases List.mem_append.mp hread with hread | hread
      · exact hu.clock i r t hr hread
      · cases List.mem_singleton.mp hread
        cases e <;> cases hx
        exact le_refl _
    · exact hu.clock j q t hold hread
  · obtain ⟨q', hq', hql, hqr⟩ := hbefore j q hq hqrun
    obtain ⟨p', hp', hpl, hpr⟩ := hbefore l p hp hprun
    exact hu.single j l q' p' hq' hp' hqr hpr (hql.trans (hlabel.trans hpl.symm))
  · obtain ⟨userId, t, _, rfl, hanswers⟩ := hs'.creating hq hnext
    rcases Pool.calls_update hq with ⟨_, rfl⟩ | ⟨hne, hold⟩
    · exact hu.found_none hr hx hanswers
    · exact hu.vacant hs hr hn hfits hx hne hold hnext
  · rcases Pool.calls_update hq with ⟨_, rfl⟩ | ⟨hne, hold⟩
    · exact hu.own_batch hs hr hn hfits hx hlabel hqrun hread
    · intro x hxbatch
      exact hu.still_pending hs hr hn hfits hx hold hlabel hqrun (fun hsame => absurd hsame hne)
        (hu.batch j q count batch hold hlabel hqrun hread x hxbatch)

end Answer

theorem UpToDate.start {label : UserQueueCall} (hu : UpToDate s) (hs' : Tracked s')
    (halone : ∀ j r, s.calls j = some r → r.label = label → r.ended = true)
    (hs'eq : s' = { s with
      calls := Function.update s.calls i (some (.start label label.handle)) }) :
    UpToDate s' := by
  subst hs'eq
  refine ⟨fun j q t hq hread => ?_, fun j l q p hq hp hqrun hprun hlabel => ?_,
    fun j q entity hq hnext => ?_, fun j q count batch hq hlabel hqrun hread => ?_⟩
  · rcases Pool.calls_update hq with ⟨_, rfl⟩ | ⟨_, hold⟩
    · contradiction
    · exact hu.clock j q t hold hread
  · rcases Pool.calls_update hq with ⟨rfl, rfl⟩ | ⟨_, hqold⟩ <;>
      rcases Pool.calls_update hp with ⟨rfl, rfl⟩ | ⟨_, hpold⟩
    · rfl
    · rw [halone l p hpold hlabel.symm] at hprun
      contradiction
    · rw [halone j q hqold hlabel] at hqrun
      contradiction
    · exact hu.single j l q p hqold hpold hqrun hprun hlabel
  · obtain ⟨_, _, _, _, hanswers⟩ := hs'.creating hq hnext
    rcases Pool.calls_update hq with ⟨_, rfl⟩ | ⟨_, hold⟩
    · contradiction
    · exact hu.creating j q entity hold hnext
  · rcases Pool.calls_update hq with ⟨_, rfl⟩ | ⟨_, hold⟩
    · contradiction
    · exact hu.batch j q count batch hold hlabel hqrun hread

theorem UpToDate.step (hu : UpToDate s) (hs : Tracked s) (hone : s.state.OneEach)
    (halone : StartsAlone s a) (h : serveQueues s a = some s') : UpToDate s' := by
  have hs' := hs.step hone h
  rcases hs.cases h with ⟨i, label, rfl, _, hs'eq⟩ |
    ⟨i, r, o, k, e, reply, st, rfl, hr, hn, hfits, hx, hs'eq⟩ | ⟨t, rfl, ht, rfl⟩
  · exact hu.start hs' (fun j r => halone i label j r rfl) hs'eq
  · exact hu.answer hs hr hn hfits hx hs' hs'eq
  · exact ⟨fun j q t' hq hread => (hu.clock j q t' hq hread).trans ht, hu.single,
      fun j q entity hq hnext => (hu.creating j q entity hq hnext).setNow ht, hu.batch⟩

/-- The condition holds where nothing that was read has changed. -/
theorem UpToDate.notDoubled (hu : UpToDate s) (hs : Tracked s) : NotDoubled s a := by
  intro i r o _ hr hnext
  cases o with
  | insert entity => exact hu.creating i r entity hr hnext
  | saveAll entities =>
    obtain ⟨⟨o, k⟩, hn, rfl⟩ := Option.map_eq_some_iff.mp hnext
    obtain ⟨hactivate, _, batch, hbatch, hactivated⟩ := hs.saving hr hn
    intro e he _ row hrow hid hover
    obtain ⟨x, hx, _, _, rfl⟩ := activated_from hactivated he
    have hpending := hu.batch i r 100 batch hr hactivate (Running.ended_of_next hn) hbatch x hx
    obtain rfl := Table.eq_of_key hrow (mem_pending.mp hpending).1 hid
    rw [hs.sound.unexpired_of_pending hpending] at hover
    contradiction
  | now | sign | findOldestPending | findPending | findUnexpired => trivial

end Alone

/-- Where the requests of a user do not overlap, and the activations do not, each
user has at most one unexpired row. -/
theorem one_unexpired_of_alone {st : UserQueueStore} {as : List UserQueueAct} {s : UserQueuePool}
    (hst : st.queues.rows = []) (h : Machine.run serveQueues (Pool.init st) as = some s)
    (halone : Machine.Along serveQueues StartsAlone (Pool.init st) as) :
    Machine.Throughout serveQueues OneUnexpired (Pool.init st) as := by
  have hall : Machine.Throughout serveQueues
      (fun m => Tracked m ∧ UpToDate m ∧ m.state.OneEach) (Pool.init st) as := by
    refine halone.throughout h ⟨Tracked.init hst, ?_, ?_⟩ ?_
    · exact ⟨fun _ _ _ hr => by contradiction, fun _ _ _ _ hr => by contradiction,
        fun _ _ _ hr => by contradiction, fun _ _ _ _ hr => by contradiction⟩
    · intro userId x hx
      rw [Pool.init, hst] at hx
      contradiction
    · intro m a t _ hm ha hstep
      obtain ⟨hs, hu, hone⟩ := hm
      refine ⟨hs.step hone hstep, hu.step hs hone ha hstep, ?_⟩
      exact oneUnexpired_iff.mp
        ((oneUnexpired_step hs (oneUnexpired_iff.mpr hone) hstep).mpr (hu.notDoubled hs))
  exact hall.imp fun m _ hm => oneUnexpired_iff.mpr hm.2.2

/-- User 1 enters, is activated, and enters again when his ten minutes are over. -/
def reentered : List UserQueueAct :=
  oneEnters ++ [.start 1 .activate, .answer 1 .quiet, .answer 1 .quiet, .answer 1 .quiet,
    .answer 1 .quiet, .env (.tick 600000), .start 2 (.enqueue 1), .answer 2 .quiet,
    .answer 2 .quiet, .answer 2 (.issued 2)]

/-- None of the first n calls runs for the same user. -/
def startsAlone? (n : Nat) (s : UserQueuePool) : UserQueueAct → Bool
  | .start _ label =>
    (List.range n).all fun j => (s.calls j).all fun r => r.label != label || r.ended
  | _ => true

theorem startsAlone_of_check {n : Nat} (s : UserQueuePool) (a : UserQueueAct)
    (hcalls : ∀ i, n ≤ i → s.calls i = none) (h : startsAlone? n s a = true) :
    StartsAlone s a := by
  intro i label j r ha hr hlabel
  subst ha
  have hj : j < n := by
    by_contra hge
    rw [hcalls j (Nat.le_of_not_lt hge)] at hr
    contradiction
  have hcheck := List.all_eq_true.mp h j (List.mem_range.mpr hj)
  rw [hr, Option.all_some, hlabel, bne_self_eq_false, Bool.false_or] at hcheck
  exact hcheck

theorem one_unexpired_of_alone_reentered : noQueues.queues.rows = [] ∧ ∃ s,
    Machine.run serveQueues (Pool.init noQueues) reentered = some s ∧
    Machine.Along serveQueues StartsAlone (Pool.init noQueues) reentered ∧
    s.state.queues.rows.length = 2 ∧
    Machine.Throughout serveQueues OneUnexpired (Pool.init noQueues) reentered := by
  have hrun : (Machine.run serveQueues (Pool.init noQueues) reentered).map (fun s =>
      s.state.queues.rows.length) = some 2 := by
    decide +kernel
  have hchecks : Machine.checks serveQueues (startsAlone? 3) (Pool.init noQueues) reentered =
      true := by
    decide +kernel
  have hcalls : Machine.Throughout serveQueues (fun s => ∀ i, 3 ≤ i → s.calls i = none)
      (Pool.init noQueues) reentered := by
    rintro past m ⟨rest, hpast⟩ hm
    refine Pool.unused_calls (Machine.run_mono (fun _ _ _ h => (Pool.step_of_serve h).2) hm) ?_
    have hall : (reentered.all fun a => a.owner.all (· < 3)) = true := by decide
    rw [← hpast, List.all_append, Bool.and_eq_true] at hall
    exact hall.1
  obtain ⟨s, hs, hlength⟩ := Option.map_eq_some_iff.mp hrun
  have halone := hcalls.along_of_checks startsAlone_of_check hchecks
  exact ⟨rfl, s, hs, halone, hlength, one_unexpired_of_alone rfl hs halone⟩

end HighVolumeBooking
