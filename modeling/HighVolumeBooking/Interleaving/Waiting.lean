import HighVolumeBooking.Interleaving.Solo

namespace Interleaving

variable {S : Service} {ε β κ : Type}

/-- After these answers the script p has become q. -/
inductive Script.Leads : Script S ε β → List (Answer S) → Script S ε β → Prop where
  | refl (p : Script S ε β) : Leads p [] p
  | ask {o : S.Op} {k : S.Reply o → Script S ε β} {as : List (Answer S)} {q : Script S ε β}
      (reply : S.Reply o) (h : Leads (k reply) as q) : Leads (.ask o k) (⟨o, reply⟩ :: as) q
  | call {o : S.Op} {k : S.Reply o → Script S ε β} {as : List (Answer S)} {q : Script S ε β}
      (reply : S.Reply o) (h : Leads (k reply) as q) : Leads (.call o k) (⟨o, reply⟩ :: as) q

section Leads

variable {p q : Script S ε β} {o : S.Op} {k : S.Reply o → Script S ε β} {as : List (Answer S)}

theorem leads_done {b : β} : (Script.done b : Script S ε β).Leads as q ↔ as = [] ∧ q = .done b := by
  constructor
  · intro h
    cases h
    exact ⟨rfl, rfl⟩
  · intro h
    obtain ⟨rfl, rfl⟩ := h
    exact .refl _

theorem leads_fail {x : ε} : (Script.fail x : Script S ε β).Leads as q ↔ as = [] ∧ q = .fail x := by
  constructor
  · intro h
    cases h
    exact ⟨rfl, rfl⟩
  · intro h
    obtain ⟨rfl, rfl⟩ := h
    exact .refl _

theorem leads_ask : (Script.ask o k).Leads as q ↔ (as = [] ∧ q = .ask o k) ∨
    ∃ reply rest, as = ⟨o, reply⟩ :: rest ∧ (k reply).Leads rest q := by
  constructor
  · intro h
    cases h with
    | refl => exact Or.inl ⟨rfl, rfl⟩
    | ask reply h => exact Or.inr ⟨reply, _, rfl, h⟩
  · intro h
    rcases h with ⟨rfl, rfl⟩ | ⟨reply, rest, rfl, h⟩
    · exact .refl _
    · exact .ask reply h

theorem leads_call : (Script.call o k).Leads as q ↔ (as = [] ∧ q = .call o k) ∨
    ∃ reply rest, as = ⟨o, reply⟩ :: rest ∧ (k reply).Leads rest q := by
  constructor
  · intro h
    cases h with
    | refl => exact Or.inl ⟨rfl, rfl⟩
    | call reply h => exact Or.inr ⟨reply, _, rfl, h⟩
  · intro h
    rcases h with ⟨rfl, rfl⟩ | ⟨reply, rest, rfl, h⟩
    · exact .refl _
    · exact .call reply h

theorem Script.Leads.answered (h : p.Leads as q) (hq : q = .ask o k ∨ q = .call o k)
    (reply : S.Reply o) : p.Leads (as ++ [⟨o, reply⟩]) (k reply) := by
  induction h with
  | refl =>
    rcases hq with rfl | rfl
    · exact .ask reply (.refl _)
    · exact .call reply (.refl _)
  | ask reply' _ ih => exact .ask reply' (ih hq)
  | call reply' _ ih => exact .call reply' (ih hq)

theorem Script.Leads.waits (h : p.Leads as q) (hp : p.Waits) : q.Waits := by
  induction h with
  | refl => exact hp
  | ask reply _ ih => exact ih (hp reply)
  | call reply _ ih => exact ih (hp reply)

/-- What answers keep holds however far a script is. -/
theorem Script.Leads.invariant {P : List (Answer S) → Script S ε β → Prop}
    (hstep : ∀ as q o (k : S.Reply o → Script S ε β) reply, P as q → (q = .ask o k ∨ q = .call o k) →
      P (as ++ [⟨o, reply⟩]) (k reply)) (h : p.Leads as q) {past : List (Answer S)}
    (hp : P past p) : P (past ++ as) q := by
  induction h generalizing past with
  | refl =>
    rw [List.append_nil]
    exact hp
  | ask reply _ ih =>
    rw [List.append_cons]
    exact ih (hstep _ _ _ _ reply hp (Or.inl rfl))
  | call reply _ ih =>
    rw [List.append_cons]
    exact ih (hstep _ _ _ _ reply hp (Or.inr rfl))

end Leads

namespace Pool

variable {body : κ → Script S ε β} {s s' : Pool S ε β κ} {i : CallId} {r : Running S ε β κ}

/-- Where every call waits for its commands, its answers say how far it is. -/
theorem waiting (hbody : ∀ label, (body label).Waits) : Local body fun _ r =>
    r.queue = [] ∧ (body r.label).Leads r.answers r.script where
  mono := fun _ _ _ h => h
  start := fun _ _ => ⟨rfl, .refl _⟩
  answer := by
    intro log r o k st e reply st' h hn _
    obtain ⟨hq, hl⟩ := h
    obtain ⟨_, hscript⟩ := Running.next_eq_some.mp hn
    refine ⟨hq, hl.answered ?_ reply⟩
    rcases hscript with hask | ⟨hcall, _⟩
    · exact Or.inl hask
    · exact Or.inr hcall
  issue := by
    intro log r o k h _ hs
    have hw := h.2.waits (hbody r.label)
    rw [hs] at hw
    exact hw.elim
  flush := by
    intro log r o queue h hq
    rw [h.1] at hq
    contradiction
  crash := fun _ _ h => h

/-- Where every call waits for its commands, what is logged was an answer to a
call that is still there. -/
theorem logged_answered (hbody : ∀ label, (body label).Waits) {st : S.State}
    (h : Machine.Reachable (step body) (init st) s) :
    ∀ x ∈ s.log, ∃ i r, s.calls i = some r ∧ r.label = x.label ∧ x.answer ∈ r.answers := by
  refine h.invariant (fun s : Pool S ε β κ => ∀ x ∈ s.log, ∃ i r, s.calls i = some r ∧
    r.label = x.label ∧ x.answer ∈ r.answers) (by simp [init]) ?_
  intro m a t hm ih hs x hx
  have hkeep : x ∈ m.log → ∃ i r, t.calls i = some r ∧ r.label = x.label ∧
      x.answer ∈ r.answers := by
    intro hold
    obtain ⟨i, r, hr, hlabel, ha⟩ := ih x hold
    obtain ⟨r', hr', hlabel', hmore⟩ := kept_step hs hr
    exact ⟨i, r', hr', hlabel'.trans hlabel, hmore.subset ha⟩
  rcases log_cases hs with ⟨hlog, _⟩ | ⟨i, r, o, e, reply, hr, _, hlog, hact⟩
  · exact hkeep (hlog ▸ hx)
  · rw [hlog] at hx
    rcases List.mem_append.mp hx with hx | hx
    · exact hkeep hx
    · obtain rfl := List.mem_singleton.mp hx
      rcases hact with ⟨rfl, k, hn⟩ | ⟨rfl, queue, hq⟩
      · obtain ⟨q, o', k', reply', st', hq, hn', hx', rfl⟩ := step_answer hs
        obtain rfl := Option.some.inj (hr.symm.trans hq)
        refine ⟨i, _, Function.update_self .., rfl, ?_⟩
        have hlast := List.append_cancel_left hlog
        simp only [List.cons.injEq, Executed.mk.injEq, and_true, true_and] at hlast
        simp [Running.answered, hlast]
      · rw [((waiting hbody).reachable hm i r hr).1] at hq
        contradiction

/-- A pool in which no call is cut short. -/
def serve (body : κ → Script S ε β) (s : Pool S ε β κ) (a : Act S κ) : Option (Pool S ε β κ) :=
  if a.isCrash then none else step body s a

theorem step_of_serve {a : Act S κ} (h : serve body s a = some s') :
    a.isCrash = false ∧ step body s a = some s' := by
  unfold serve at h
  split at h
  · contradiction
  · rename_i hc
    exact ⟨by simpa using hc, h⟩

/-- The calls of a pool wait for their commands. -/
def Waiting (body : κ → Script S ε β) (s : Pool S ε β κ) : Prop :=
  ∀ i r, s.calls i = some r → r.queue = [] ∧ (body r.label).Leads r.answers r.script

theorem Waiting.init (body : κ → Script S ε β) (st : S.State) :
    Waiting body (Pool.init st : Pool S ε β κ) := by
  intro i r hr
  contradiction

theorem Waiting.serve {a : Act S κ} (hbody : ∀ label, (body label).Waits) (hs : Waiting body s)
    (h : serve body s a = some s') : Waiting body s' :=
  (waiting hbody).step hs (step_of_serve h).2

/-- Nothing that was sent keeps such a call from its next command. -/
theorem Waiting.next {i : CallId} {r : Running S ε β κ} {o : S.Op} {k : S.Reply o → Script S ε β}
    (hs : Waiting body s) (hr : s.calls i = some r) (hcrash : r.crashed = false)
    (hscript : r.script = .ask o k ∨ r.script = .call o k) : r.next = some ⟨o, k⟩ :=
  Running.next_eq_some.mpr ⟨hcrash, hscript.imp_right fun hcall => ⟨hcall, (hs i r hr).1⟩⟩

/-- Such calls are started and get their answers, and nothing else. -/
theorem Waiting.cases {a : Act S κ} (hbody : ∀ label, (body label).Waits) (hs : Waiting body s)
    (h : Pool.serve body s a = some s') :
    (∃ i label, a = .start i label ∧ s.calls i = none ∧ s' = { s with
      calls := Function.update s.calls i (some (.start label (body label))) }) ∨
    (∃ i e r o k reply st, a = .answer i e ∧ s.calls i = some r ∧ r.crashed = false ∧
      (r.script = .ask o k ∨ r.script = .call o k) ∧ S.exec s.state o e = some (reply, st) ∧ s' = {
        state := st
        calls := Function.update s.calls i (some (r.answered ⟨o, reply⟩ (k reply)))
        log := s.log ++ [⟨r.label, ⟨o, reply⟩, s.state⟩] }) ∨
    ∃ e st, a = .env e ∧ S.env s.state e = some st ∧ s' = { s with state := st } := by
  obtain ⟨hc, h⟩ := step_of_serve h
  cases a with
  | start i label =>
    obtain ⟨hi, rfl⟩ := step_start h
    exact Or.inl ⟨i, label, rfl, hi, rfl⟩
  | answer i e =>
    obtain ⟨r, o, k, reply, st, hr, hn, hx, rfl⟩ := step_answer h
    obtain ⟨hcrash, hscript⟩ := Running.next_eq_some.mp hn
    refine Or.inr (Or.inl ⟨i, e, r, o, k, reply, st, rfl, hr, hcrash, ?_, hx, rfl⟩)
    rcases hscript with hask | ⟨hcall, _⟩
    · exact Or.inl hask
    · exact Or.inr hcall
  | issue i =>
    obtain ⟨r, o, k, hr, _, hsend, _⟩ := step_issue h
    have hw := (hs i r hr).2.waits (hbody r.label)
    rw [hsend] at hw
    exact hw.elim
  | flush i e =>
    obtain ⟨r, o, queue, reply, st, hr, hq, _, _⟩ := step_flush h
    rw [(hs i r hr).1] at hq
    contradiction
  | env e =>
    obtain ⟨st, hst, rfl⟩ := step_env h
    exact Or.inr (Or.inr ⟨e, st, rfl, hst, rfl⟩)
  | crash i => contradiction

end Pool

end Interleaving
