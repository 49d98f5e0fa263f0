import HighVolumeBooking.Interleaving.Pool

namespace Interleaving

variable {S : Service} {ε β κ : Type}

/-- How a call went: the answers it got, its result, and the state it left. -/
structure Went (S : Service) (ε β : Type) where
  answers : List (Answer S)
  result : Except ε β
  state : S.State

def Went.after (a : Answer S) (w : Went S ε β) : Went S ε β :=
  { w with answers := a :: w.answers }

/-- A call that waits for all its commands, from start to end while nothing
else happens. The events are those of its commands, in order. -/
def Script.solo : Script S ε β → S.State → List S.Event → Option (Went S ε β)
  | .done b, st, [] => some ⟨[], .ok b, st⟩
  | .fail x, st, [] => some ⟨[], .error x, st⟩
  | .ask o k, st, e :: es =>
    (S.exec st o e).bind fun (reply, st') => ((k reply).solo st' es).map (.after ⟨o, reply⟩)
  | .call o k, st, e :: es =>
    (S.exec st o e).bind fun (reply, st') => ((k reply).solo st' es).map (.after ⟨o, reply⟩)
  | _, _, _ => none

def Script.ending (p : Script S ε β) : Option (Except ε β) :=
  match p with
  | .done b => some (.ok b)
  | .fail x => some (.error x)
  | _ => none

section Solo

attribute [local simp] Script.solo

variable {p : Script S ε β} {o : S.Op} {k : S.Reply o → Script S ε β} {st : S.State}
  {e : S.Event} {es : List S.Event} {w : Went S ε β}

theorem solo_nil : p.solo st [] = some w ↔
    ∃ result, p.ending = some result ∧ w = ⟨[], result, st⟩ := by
  cases p <;> simp [Script.ending, eq_comm]

theorem solo_cons : p.solo st (e :: es) = some w ↔
    ∃ o k reply st' w', (p = .ask o k ∨ p = .call o k) ∧ S.exec st o e = some (reply, st') ∧
      (k reply).solo st' es = some w' ∧ w = w'.after ⟨o, reply⟩ := by
  constructor
  · intro h
    cases p with
    | ask o k =>
      obtain ⟨⟨reply, st'⟩, hx, h⟩ := Option.bind_eq_some_iff.mp h
      obtain ⟨w', hw', rfl⟩ := Option.map_eq_some_iff.mp h
      exact ⟨o, k, reply, st', w', Or.inl rfl, hx, hw', rfl⟩
    | call o k =>
      obtain ⟨⟨reply, st'⟩, hx, h⟩ := Option.bind_eq_some_iff.mp h
      obtain ⟨w', hw', rfl⟩ := Option.map_eq_some_iff.mp h
      exact ⟨o, k, reply, st', w', Or.inr rfl, hx, hw', rfl⟩
    | done b => contradiction
    | fail x => contradiction
    | send o k => contradiction
  · rintro ⟨o, k, reply, st', w', rfl | rfl, hx, hw', rfl⟩ <;> simp [hx, hw']

theorem solo_done {b : β} :
    (Script.done b).solo st es = some w ↔ es = [] ∧ w = ⟨[], .ok b, st⟩ := by
  cases es with
  | nil => simp [eq_comm]
  | cons e es => simp

theorem solo_ask : (Script.ask o k).solo st (e :: es) = some w ↔
    ∃ reply st' w', S.exec st o e = some (reply, st') ∧ (k reply).solo st' es = some w' ∧
      w = w'.after ⟨o, reply⟩ := by
  simp only [Script.solo, Option.bind_eq_some_iff, Option.map_eq_some_iff, Prod.exists]
  constructor
  · intro h
    obtain ⟨reply, st', hx, w', hw', rfl⟩ := h
    exact ⟨reply, st', w', hx, hw', rfl⟩
  · intro h
    obtain ⟨reply, st', w', hx, hw', rfl⟩ := h
    exact ⟨reply, st', hx, w', hw', rfl⟩

theorem solo_call : (Script.call o k).solo st es = some w ↔
    ∃ e es' reply st' w', es = e :: es' ∧ S.exec st o e = some (reply, st') ∧
      (k reply).solo st' es' = some w' ∧ w = w'.after ⟨o, reply⟩ := by
  cases es with
  | nil => simp
  | cons e es =>
    simp only [Script.solo, Option.bind_eq_some_iff, Option.map_eq_some_iff, Prod.exists,
      List.cons.injEq]
    constructor
    · intro h
      obtain ⟨reply, st', hx, w', hw', rfl⟩ := h
      exact ⟨e, es, reply, st', w', ⟨rfl, rfl⟩, hx, hw', rfl⟩
    · intro h
      obtain ⟨e', es', reply, st', w', ⟨rfl, rfl⟩, hx, hw', rfl⟩ := h
      exact ⟨reply, st', hx, w', hw', rfl⟩

/-- A script that waits for each of its commands. -/
def Script.Waits : Script S ε β → Prop
  | .ask _ k => ∀ reply, (k reply).Waits
  | .call _ k => ∀ reply, (k reply).Waits
  | .send _ _ => False
  | _ => True

theorem Script.Waits.bind {γ : Type} {f : β → Script S ε γ} (hp : p.Waits)
    (hf : ∀ b, (f b).Waits) : (p.bind f).Waits := by
  induction p with
  | done b => exact hf b
  | fail x => trivial
  | ask o k ih => exact fun reply => ih reply (hp reply)
  | call o k ih => exact fun reply => ih reply (hp reply)
  | send o k => contradiction

/-- Where each command can be answered, a call can be brought to its end. -/
theorem exists_solo (htotal : ∀ st o, ∃ e reply st', S.exec st o e = some (reply, st'))
    (hp : p.Waits) (st : S.State) : ∃ es w, p.solo st es = some w := by
  induction p generalizing st with
  | done b => exact ⟨[], _, rfl⟩
  | fail x => exact ⟨[], _, rfl⟩
  | ask o k ih =>
    obtain ⟨e, reply, st', hx⟩ := htotal st o
    obtain ⟨es, w, hw⟩ := ih reply (hp reply) st'
    exact ⟨e :: es, _, solo_cons.mpr ⟨o, k, reply, st', w, Or.inl rfl, hx, hw, rfl⟩⟩
  | call o k ih =>
    obtain ⟨e, reply, st', hx⟩ := htotal st o
    obtain ⟨es, w, hw⟩ := ih reply (hp reply) st'
    exact ⟨e :: es, _, solo_cons.mpr ⟨o, k, reply, st', w, Or.inr rfl, hx, hw, rfl⟩⟩
  | send o k => contradiction

/-- Run alone from st, the script can end with that result in st'. -/
def Script.Gives (p : Script S ε β) (st : S.State) (result : Except ε β) (st' : S.State) : Prop :=
  ∃ es w, p.solo st es = some w ∧ w.result = result ∧ w.state = st'

theorem gives_of_solo (h : p.solo st es = some w) : p.Gives st w.result w.state :=
  ⟨es, w, h, rfl, rfl⟩

/-! What a script gives, one rule for each way to build it. -/

section Gives

variable {result : Except ε β} {st' : S.State}

theorem gives_ending {r : Except ε β} (hp : p.ending = some r) :
    p.Gives st result st' ↔ result = r ∧ st' = st := by
  constructor
  · intro h
    obtain ⟨es, w, hw, rfl, rfl⟩ := h
    cases es with
    | nil =>
      obtain ⟨r', hr', rfl⟩ := solo_nil.mp hw
      exact ⟨Option.some.inj (hr'.symm.trans hp), rfl⟩
    | cons e es =>
      obtain ⟨o, k, _, _, _, hcommand, _⟩ := solo_cons.mp hw
      rcases hcommand with rfl | rfl <;> contradiction
  · intro h
    obtain ⟨rfl, rfl⟩ := h
    exact ⟨[], _, solo_nil.mpr ⟨_, hp, rfl⟩, rfl, rfl⟩

theorem gives_done {b : β} :
    (Script.done b : Script S ε β).Gives st result st' ↔ result = .ok b ∧ st' = st :=
  gives_ending rfl

theorem gives_fail {x : ε} :
    (Script.fail x : Script S ε β).Gives st result st' ↔ result = .error x ∧ st' = st :=
  gives_ending rfl

theorem gives_command (hp : p = .ask o k ∨ p = .call o k) : p.Gives st result st' ↔
    ∃ e reply m, S.exec st o e = some (reply, m) ∧ (k reply).Gives m result st' := by
  constructor
  · intro h
    obtain ⟨es, w, hw, rfl, rfl⟩ := h
    cases es with
    | nil =>
      obtain ⟨r, hr, _⟩ := solo_nil.mp hw
      rcases hp with rfl | rfl <;> contradiction
    | cons e es =>
      obtain ⟨o', k', reply, m, w', hp', hx, hw', rfl⟩ := solo_cons.mp hw
      rcases hp with rfl | rfl <;> rcases hp' with hp' | hp' <;> cases hp' <;>
        exact ⟨e, reply, m, hx, es, w', hw', rfl, rfl⟩
  · intro h
    obtain ⟨e, reply, m, hx, es, w, hw, rfl, rfl⟩ := h
    exact ⟨e :: es, _, solo_cons.mpr ⟨o, k, reply, m, w, hp, hx, hw, rfl⟩, rfl, rfl⟩

theorem gives_ask : (Script.ask o k).Gives st result st' ↔
    ∃ e reply m, S.exec st o e = some (reply, m) ∧ (k reply).Gives m result st' :=
  gives_command (Or.inl rfl)

theorem gives_call : (Script.call o k).Gives st result st' ↔
    ∃ e reply m, S.exec st o e = some (reply, m) ∧ (k reply).Gives m result st' :=
  gives_command (Or.inr rfl)

theorem not_gives_send {k : Script S ε β} : ¬ (Script.send o k).Gives st result st' := by
  rintro ⟨es, w, hw, -⟩
  cases es <;> contradiction

theorem gives_bind {γ : Type} {f : β → Script S ε γ} {result : Except ε γ} :
    (p.bind f).Gives st result st' ↔
      (∃ b m, p.Gives st (.ok b) m ∧ (f b).Gives m result st') ∨
        ∃ x, p.Gives st (.error x) st' ∧ result = .error x := by
  induction p generalizing st with
  | done b => simp [gives_done]
  | fail x => simp [gives_fail, and_comm]
  | ask o k ih =>
    simp only [Script.ask_bind, gives_ask, ih]
    grind
  | call o k ih =>
    simp only [Script.call_bind, gives_call, ih]
    grind
  | send o k ih => simp [not_gives_send]

theorem gives_map {γ : Type} {g : β → γ} {result : Except ε γ} :
    (p.bind fun b => .done (g b)).Gives st result st' ↔
      ∃ inner, p.Gives st inner st' ∧ result = inner.map g := by
  rw [gives_bind]
  constructor
  · intro h
    rcases h with ⟨b, m, hb, h⟩ | ⟨x, hx, rfl⟩
    · obtain ⟨rfl, rfl⟩ := gives_done.mp h
      exact ⟨.ok b, hb, rfl⟩
    · exact ⟨.error x, hx, rfl⟩
  · intro h
    obtain ⟨inner, h, rfl⟩ := h
    cases inner with
    | ok b => exact Or.inl ⟨b, st', h, gives_done.mpr ⟨rfl, rfl⟩⟩
    | error x => exact Or.inr ⟨x, h, rfl⟩

theorem gives_tryCatch {δ : Type} {handler : ε → Script S δ β} {result : Except δ β} :
    (p.tryCatch handler).Gives st result st' ↔
      (∃ b, p.Gives st (.ok b) st' ∧ result = .ok b) ∨
        ∃ x m, p.Gives st (.error x) m ∧ (handler x).Gives m result st' := by
  induction p generalizing st with
  | done b =>
    simp only [Script.tryCatch, gives_done]
    grind
  | fail x =>
    simp only [Script.tryCatch, gives_fail]
    grind
  | ask o k ih =>
    simp only [Script.tryCatch, gives_ask, ih]
    grind
  | call o k ih =>
    simp only [Script.tryCatch, gives_call, ih]
    grind
  | send o k ih => simp [Script.tryCatch, not_gives_send]

end Gives

end Solo

namespace Pool

variable {body : κ → Script S ε β} {s t : Pool S ε β κ} {i : CallId} {r : Running S ε β κ}
  {es : List S.Event}

/-- The steps of a call that runs alone. -/
def alone (i : CallId) (label : κ) (es : List S.Event) : List (Act S κ) :=
  .start i label :: es.map (.answer i)

theorem owner_of_alone {label : κ} {a : Act S κ} (h : a ∈ alone i label es) :
    a.owner = some i := by
  rcases List.mem_cons.mp h with rfl | h
  · rfl
  · obtain ⟨e, _, rfl⟩ := List.mem_map.mp h
    rfl

/-- What the answers of one call did to it, when it has come to its end. -/
theorem solo_of_answers {r' : Running S ε β κ} (hr : s.calls i = some r) (hq : r.queue = [])
    (hc : r.crashed = false) (h : Machine.run (step body) s (es.map (.answer i)) = some t)
    (hr' : t.calls i = some r') (hend : r'.ended = true) :
    ∃ w, r.script.solo s.state es = some w ∧ r'.answers = r.answers ++ w.answers ∧
      r'.script.ending = some w.result ∧ t.state = w.state := by
  induction es generalizing s r with
  | nil =>
    obtain rfl := Option.some.inj h
    obtain rfl := Option.some.inj (hr.symm.trans hr')
    have hfin : ∃ result, r.script.ending = some result := by
      simp only [Running.ended, hc, Bool.false_or, Bool.and_eq_true] at hend
      cases hs : r.script <;> simp [hs, Script.finished, Script.ending] at hend ⊢
    obtain ⟨result, hresult⟩ := hfin
    exact ⟨⟨[], result, s.state⟩, solo_nil.mpr ⟨result, hresult, rfl⟩, by simp, hresult, rfl⟩
  | cons e es ih =>
    obtain ⟨m, hm, hrest⟩ := Machine.run_cons.mp h
    obtain ⟨q, o, k, reply, st, hq', hn, hx, rfl⟩ := step_answer hm
    obtain rfl := Option.some.inj (hr.symm.trans hq')
    obtain ⟨w, hw, hanswers, hresult, hstate⟩ := ih (r := r.answered ⟨o, reply⟩ (k reply))
      (Function.update_self ..) hq hc hrest
    obtain ⟨_, hscript⟩ := Running.next_eq_some.mp hn
    refine ⟨w.after ⟨o, reply⟩, solo_cons.mpr ⟨o, k, reply, st, w, ?_, hx, hw, rfl⟩, ?_,
      hresult, hstate⟩
    · rcases hscript with hask | ⟨hcall, _⟩
      · exact Or.inl hask
      · exact Or.inr hcall
    · rw [hanswers]
      simp [Running.answered, Went.after]

/-- What a call that went on alone to its end has left behind. -/
structure Left (s : Pool S ε β κ) (i : CallId) (before : List (Answer S)) (w : Went S ε β)
    (t : Pool S ε β κ) : Prop where
  ended : ∃ r, t.calls i = some r ∧ r.ended = true ∧ r.answers = before ++ w.answers
  state : t.state = w.state
  logged : t.log.map Executed.answer = s.log.map Executed.answer ++ w.answers
  others : ∀ j, j ≠ i → t.calls j = s.calls j

/-- A call that can run alone does so in the pool. -/
theorem answers_of_solo (body : κ → Script S ε β) {w : Went S ε β} (hr : s.calls i = some r)
    (hq : r.queue = []) (hc : r.crashed = false) (h : r.script.solo s.state es = some w) :
    ∃ t, Machine.run (step body) s (es.map (.answer i)) = some t ∧ Left s i r.answers w t := by
  induction es generalizing s r w with
  | nil =>
    obtain ⟨result, hresult, rfl⟩ := solo_nil.mp h
    refine ⟨s, rfl, ⟨⟨r, hr, ?_, by simp⟩, rfl, by simp, fun _ _ => rfl⟩⟩
    cases hs : r.script <;> simp [hs, Script.ending] at hresult <;>
      simp [Running.ended, hs, hq, Script.finished]
  | cons e es ih =>
    obtain ⟨o, k, reply, st, w', hscript, hx, hw', rfl⟩ := solo_cons.mp h
    have hn : r.next = some ⟨o, k⟩ := by
      refine Running.next_eq_some.mpr ⟨hc, ?_⟩
      rcases hscript with hask | hcall
      · exact Or.inl hask
      · exact Or.inr ⟨hcall, hq⟩
    obtain ⟨t, hrun, hleft⟩ := ih (s := ⟨st, Function.update s.calls i
      (some (r.answered ⟨o, reply⟩ (k reply))), s.log ++ [⟨r.label, ⟨o, reply⟩, s.state⟩]⟩)
      (Function.update_self ..) hq hc hw'
    obtain ⟨r', hr', hend, hanswers⟩ := hleft.ended
    refine ⟨t, Machine.run_cons.mpr ⟨_, answer_step hr hn hx, hrun⟩,
      ⟨⟨r', hr', hend, ?_⟩, hleft.state, ?_, ?_⟩⟩
    · rw [hanswers]
      simp [Running.answered, Went.after]
    · rw [hleft.logged]
      simp [Went.after]
    · intro j hj
      exact (hleft.others j hj).trans (Function.update_of_ne hj _ _)

theorem solo_of_alone {label : κ} {r' : Running S ε β κ}
    (h : Machine.run (step body) s (alone i label es) = some t) (hr' : t.calls i = some r')
    (hend : r'.ended = true) : ∃ w, (body label).solo s.state es = some w ∧
      r'.answers = w.answers ∧ r'.script.ending = some w.result ∧ t.state = w.state := by
  obtain ⟨m, hm, hrest⟩ := Machine.run_cons.mp h
  obtain ⟨_, rfl⟩ := step_start hm
  exact solo_of_answers (Function.update_self ..) rfl rfl hrest hr' hend

theorem alone_of_solo (body : κ → Script S ε β) {label : κ} {w : Went S ε β}
    (hi : s.calls i = none) (h : (body label).solo s.state es = some w) :
    ∃ t, Machine.run (step body) s (alone i label es) = some t ∧ Left s i [] w t := by
  obtain ⟨t, hrun, hleft⟩ := answers_of_solo
    (s := { s with calls := Function.update s.calls i (some (.start label (body label))) })
    (r := .start label (body label)) body (Function.update_self ..) rfl rfl h
  refine ⟨t, Machine.run_cons.mpr ⟨_, start_step hi, hrun⟩, { hleft with others := ?_ }⟩
  intro j hj
  exact (hleft.others j hj).trans (Function.update_of_ne hj _ _)

/-- Only finitely many calls were ever started. -/
theorem exists_unused {st : S.State} (h : Machine.Reachable (step body) (init st) s) :
    ∃ n : CallId, ∀ i, n ≤ i → s.calls i = none := by
  refine h.invariant (fun s => ∃ n : CallId, ∀ i, n ≤ i → s.calls i = none) ⟨0, fun _ _ => rfl⟩ ?_
  intro m a t _ hn hs
  obtain ⟨n, hn⟩ := hn
  refine ⟨max n (a.owner.elim 0 (· + 1)), ?_⟩
  intro i hi
  have hi' := Nat.max_le.mp hi
  have howner : a.owner ≠ some i := by
    intro ho
    rw [ho] at hi'
    exact Nat.not_succ_le_self i hi'.2
  rw [calls_step hs howner]
  exact hn i hi'.1

end Pool

end Interleaving
