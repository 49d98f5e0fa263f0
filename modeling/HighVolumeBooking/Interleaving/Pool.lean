import HighVolumeBooking.Interleaving.Script
import HighVolumeBooking.Machine.Run
import Mathlib.Logic.Function.Basic

namespace Interleaving

abbrev CallId := Nat

/-- A call that was started: what is left of its code, the commands it has sent
and that the service has not executed yet, and the answers it got. -/
structure Running (S : Service) (ε β κ : Type) where
  label : κ
  script : Script S ε β
  queue : List S.Op
  answers : List (Answer S)
  crashed : Bool

/-- What the log keeps of a command: who sent it, its answer, and the state it
found. -/
structure Executed (S : Service) (κ : Type) where
  label : κ
  answer : Answer S
  before : S.State

/-- The service and all calls that were ever started. -/
structure Pool (S : Service) (ε β κ : Type) where
  state : S.State
  calls : CallId → Option (Running S ε β κ)
  log : List (Executed S κ)

inductive Act (S : Service) (κ : Type) where
  | start (i : CallId) (label : κ)
  | answer (i : CallId) (e : S.Event)
  | issue (i : CallId)
  | flush (i : CallId) (e : S.Event)
  | env (e : S.Event)
  | crash (i : CallId)

namespace Act

variable {S : Service} {κ : Type}

/-- The call that takes the step. -/
def owner : Act S κ → Option CallId
  | .start i _ => some i
  | .answer i _ => some i
  | .issue i => some i
  | .flush i _ => some i
  | .env _ => none
  | .crash i => some i

def isCrash : Act S κ → Bool
  | .crash _ => true
  | _ => false

end Act

variable {S : Service} {ε β κ : Type}

namespace Running

def start (label : κ) (p : Script S ε β) : Running S ε β κ := ⟨label, p, [], [], false⟩

/-- A call that has ended takes no more steps of its own. -/
def ended (r : Running S ε β κ) : Bool := r.crashed || (r.script.finished && r.queue.isEmpty)

/-- The command the call waits for now, and how it goes on. A command is
answered after the ones that were sent before it. -/
def next (r : Running S ε β κ) : Option ((o : S.Op) × (S.Reply o → Script S ε β)) :=
  if r.crashed then none
  else match r.script with
    | .ask o k => some ⟨o, k⟩
    | .call o k => if r.queue.isEmpty then some ⟨o, k⟩ else none
    | _ => none

/-- The command is on its way, or the call may still send it. -/
def Owes (r : Running S ε β κ) (o : S.Op) : Prop := o ∈ r.queue ∨ r.script.MaySend o

/-- The call after an answer. -/
def answered (r : Running S ε β κ) (a : Answer S) (p : Script S ε β) : Running S ε β κ :=
  { r with script := p, answers := r.answers ++ [a] }

theorem next_eq_some {r : Running S ε β κ} {o : S.Op} {k : S.Reply o → Script S ε β} :
    r.next = some ⟨o, k⟩ ↔ r.crashed = false ∧
      (r.script = .ask o k ∨ (r.script = .call o k ∧ r.queue = [])) := by
  unfold next
  split
  · rename_i hc
    simp [hc]
  · rename_i hc
    cases hs : r.script <;> simp [hc, and_comm]

theorem script_of_next {r : Running S ε β κ} {o : S.Op} {k : S.Reply o → Script S ε β}
    (h : r.next = some ⟨o, k⟩) : r.script = .ask o k ∨ r.script = .call o k :=
  (next_eq_some.mp h).2.imp_right And.left

theorem ended_of_next {r : Running S ε β κ} {c : (o : S.Op) × (S.Reply o → Script S ε β)}
    (h : r.next = some c) : r.ended = false := by
  obtain ⟨hcrash, hscript⟩ := next_eq_some.mp h
  rcases hscript with hs | ⟨hs, _⟩ <;> simp [ended, hcrash, hs, Script.finished]

end Running

namespace Pool

def init (st : S.State) : Pool S ε β κ := ⟨st, fun _ => none, []⟩

/-- One interleaving step: a call is started, gets its next answer or sends a
command, a sent command reaches the service, the service changes by itself, or
a call is cut short. A command that was sent may still arrive after that. -/
def step (body : κ → Script S ε β) (s : Pool S ε β κ) : Act S κ → Option (Pool S ε β κ)
  | .start i label =>
    match s.calls i with
    | some _ => none
    | none => some { s with
        calls := Function.update s.calls i (some (.start label (body label))) }
  | .answer i e =>
    match s.calls i with
    | none => none
    | some r =>
      match r.next with
      | none => none
      | some ⟨o, k⟩ =>
        match S.exec s.state o e with
        | none => none
        | some (reply, st) => some {
            state := st
            calls := Function.update s.calls i (some (r.answered ⟨o, reply⟩ (k reply)))
            log := s.log ++ [⟨r.label, ⟨o, reply⟩, s.state⟩] }
  | .issue i =>
    match s.calls i with
    | none => none
    | some r =>
      match r.crashed, r.script with
      | false, .send o k => some { s with
          calls := Function.update s.calls i
            (some { r with script := k, queue := r.queue ++ [o] }) }
      | _, _ => none
  | .flush i e =>
    match s.calls i with
    | none => none
    | some r =>
      match r.queue with
      | [] => none
      | o :: queue =>
        match S.exec s.state o e with
        | none => none
        | some (reply, st) => some {
            state := st
            calls := Function.update s.calls i (some { r with queue := queue })
            log := s.log ++ [⟨r.label, ⟨o, reply⟩, s.state⟩] }
  | .env e => (S.env s.state e).map fun st => { s with state := st }
  | .crash i =>
    match s.calls i with
    | none => none
    | some r => some { s with calls := Function.update s.calls i (some { r with crashed := true }) }

variable {body : κ → Script S ε β} {s s' : Pool S ε β κ} {i : CallId} {e : S.Event}

/-! What one step can do, kind by kind. -/

theorem step_start {label : κ} (h : step body s (.start i label) = some s') :
    s.calls i = none ∧ s' = { s with
      calls := Function.update s.calls i (some (.start label (body label))) } := by
  simp only [step] at h
  split at h
  · contradiction
  · rename_i hi
    exact ⟨hi, (Option.some.inj h).symm⟩

theorem step_answer (h : step body s (.answer i e) = some s') :
    ∃ r o k reply st, s.calls i = some r ∧ r.next = some ⟨o, k⟩ ∧
      S.exec s.state o e = some (reply, st) ∧ s' = {
        state := st
        calls := Function.update s.calls i (some (r.answered ⟨o, reply⟩ (k reply)))
        log := s.log ++ [⟨r.label, ⟨o, reply⟩, s.state⟩] } := by
  simp only [step] at h
  split at h
  · contradiction
  · rename_i r hr
    split at h
    · contradiction
    · rename_i o k hn
      split at h
      · contradiction
      · rename_i reply st hx
        exact ⟨r, o, k, reply, st, hr, hn, hx, (Option.some.inj h).symm⟩

theorem step_issue (h : step body s (.issue i) = some s') :
    ∃ r o k, s.calls i = some r ∧ r.crashed = false ∧ r.script = .send o k ∧ s' = { s with
      calls := Function.update s.calls i
        (some { r with script := k, queue := r.queue ++ [o] }) } := by
  simp only [step] at h
  split at h
  · contradiction
  · rename_i r hr
    split at h
    · rename_i o k hc hp
      exact ⟨r, o, k, hr, hc, hp, (Option.some.inj h).symm⟩
    · contradiction

theorem step_flush (h : step body s (.flush i e) = some s') :
    ∃ r o queue reply st, s.calls i = some r ∧ r.queue = o :: queue ∧
      S.exec s.state o e = some (reply, st) ∧ s' = {
        state := st
        calls := Function.update s.calls i (some { r with queue := queue })
        log := s.log ++ [⟨r.label, ⟨o, reply⟩, s.state⟩] } := by
  simp only [step] at h
  split at h
  · contradiction
  · rename_i r hr
    split at h
    · contradiction
    · rename_i o queue hq
      split at h
      · contradiction
      · rename_i reply st hx
        exact ⟨r, o, queue, reply, st, hr, hq, hx, (Option.some.inj h).symm⟩

theorem step_env (h : step body s (.env e) = some s') :
    ∃ st, S.env s.state e = some st ∧ s' = { s with state := st } := by
  obtain ⟨st, hst, rfl⟩ := Option.map_eq_some_iff.mp h
  exact ⟨st, hst, rfl⟩

theorem step_crash (h : step body s (.crash i) = some s') :
    ∃ r, s.calls i = some r ∧ s' = { s with
      calls := Function.update s.calls i (some { r with crashed := true }) } := by
  simp only [step] at h
  split at h
  · contradiction
  · rename_i r hr
    exact ⟨r, hr, (Option.some.inj h).symm⟩

/-! How a step is taken. -/

theorem start_step {label : κ} (hi : s.calls i = none) : step body s (.start i label) = some { s with
    calls := Function.update s.calls i (some (.start label (body label))) } := by
  simp only [step, hi]

theorem answer_step {r : Running S ε β κ} {o : S.Op} {k : S.Reply o → Script S ε β}
    {reply : S.Reply o} {st : S.State} (hr : s.calls i = some r) (hn : r.next = some ⟨o, k⟩)
    (hx : S.exec s.state o e = some (reply, st)) : step body s (.answer i e) = some {
      state := st
      calls := Function.update s.calls i (some (r.answered ⟨o, reply⟩ (k reply)))
      log := s.log ++ [⟨r.label, ⟨o, reply⟩, s.state⟩] } := by
  simp only [step, hr, hn, hx]

theorem issue_step {r : Running S ε β κ} {o : S.Op} {k : Script S ε β} (hr : s.calls i = some r)
    (hc : r.crashed = false) (hs : r.script = .send o k) : step body s (.issue i) = some { s with
      calls := Function.update s.calls i
        (some { r with script := k, queue := r.queue ++ [o] }) } := by
  simp only [step, hr, hc, hs]

theorem flush_step {r : Running S ε β κ} {o : S.Op} {queue : List S.Op} {reply : S.Reply o}
    {st : S.State} (hr : s.calls i = some r) (hq : r.queue = o :: queue)
    (hx : S.exec s.state o e = some (reply, st)) : step body s (.flush i e) = some {
      state := st
      calls := Function.update s.calls i (some { r with queue := queue })
      log := s.log ++ [⟨r.label, ⟨o, reply⟩, s.state⟩] } := by
  simp only [step, hr, hq, hx]

/-- A command was executed in this step, for the call of the logged label. -/
theorem log_cases {a : Act S κ} (h : step body s a = some s') :
    (s'.log = s.log ∧ (s'.state = s.state ∨ ∃ e, a = .env e ∧ S.env s.state e = some s'.state)) ∨
      ∃ i r o e reply, s.calls i = some r ∧ S.exec s.state o e = some (reply, s'.state) ∧
        s'.log = s.log ++ [⟨r.label, ⟨o, reply⟩, s.state⟩] ∧
        ((a = .answer i e ∧ ∃ k, r.next = some ⟨o, k⟩) ∨
          (a = .flush i e ∧ ∃ queue, r.queue = o :: queue)) := by
  cases a with
  | start i label =>
    obtain ⟨_, rfl⟩ := step_start h
    exact Or.inl ⟨rfl, Or.inl rfl⟩
  | answer i e =>
    obtain ⟨r, o, k, reply, st, hr, hn, hx, rfl⟩ := step_answer h
    exact Or.inr ⟨i, r, o, e, reply, hr, hx, rfl, Or.inl ⟨rfl, k, hn⟩⟩
  | issue i =>
    obtain ⟨r, o, k, _, _, _, rfl⟩ := step_issue h
    exact Or.inl ⟨rfl, Or.inl rfl⟩
  | flush i e =>
    obtain ⟨r, o, queue, reply, st, hr, hq, hx, rfl⟩ := step_flush h
    exact Or.inr ⟨i, r, o, e, reply, hr, hx, rfl, Or.inr ⟨rfl, queue, hq⟩⟩
  | env e =>
    obtain ⟨st, hst, rfl⟩ := step_env h
    exact Or.inl ⟨rfl, Or.inr ⟨e, rfl, hst⟩⟩
  | crash i =>
    obtain ⟨r, _, rfl⟩ := step_crash h
    exact Or.inl ⟨rfl, Or.inl rfl⟩

/-- A call after a step of i. -/
theorem calls_update {r r' : Running S ε β κ} {j : CallId}
    (h : Function.update s.calls i (some r) j = some r') :
    (j = i ∧ r' = r) ∨ (j ≠ i ∧ s.calls j = some r') := by
  by_cases hj : j = i
  · subst hj
    rw [Function.update_self] at h
    exact Or.inl ⟨rfl, (Option.some.inj h).symm⟩
  · rw [Function.update_of_ne hj] at h
    exact Or.inr ⟨hj, h⟩

/-- A call that a step changes keeps its label and the answers it got. -/
theorem kept_update {r r' q : Running S ε β κ} {j : CallId} (hr : s.calls i = some r)
    (hlabel : r'.label = r.label) (hanswers : r.answers <+: r'.answers)
    (hq : s.calls j = some q) :
    ∃ q', Function.update s.calls i (some r') j = some q' ∧ q'.label = q.label ∧
      q.answers <+: q'.answers := by
  by_cases hj : j = i
  · subst hj
    obtain rfl := Option.some.inj (hr.symm.trans hq)
    exact ⟨r', Function.update_self .., hlabel, hanswers⟩
  · exact ⟨q, (Function.update_of_ne hj _ _).trans hq, rfl, List.prefix_rfl⟩

/-- A call is never forgotten and never renamed, and keeps what it was answered. -/
theorem kept_step {a : Act S κ} {j : CallId} {q : Running S ε β κ}
    (h : step body s a = some s') (hq : s.calls j = some q) :
    ∃ q', s'.calls j = some q' ∧ q'.label = q.label ∧ q.answers <+: q'.answers := by
  cases a with
  | start i label =>
    obtain ⟨hi, rfl⟩ := step_start h
    have hj : j ≠ i := by
      rintro rfl
      rw [hi] at hq
      contradiction
    exact ⟨q, (Function.update_of_ne hj _ _).trans hq, rfl, List.prefix_rfl⟩
  | answer i e =>
    obtain ⟨r, o, k, reply, st, hr, _, _, rfl⟩ := step_answer h
    exact kept_update hr rfl (List.prefix_append _ _) hq
  | issue i =>
    obtain ⟨r, o, k, hr, _, _, rfl⟩ := step_issue h
    exact kept_update hr rfl List.prefix_rfl hq
  | flush i e =>
    obtain ⟨r, o, queue, reply, st, hr, _, _, rfl⟩ := step_flush h
    exact kept_update hr rfl List.prefix_rfl hq
  | env e =>
    obtain ⟨st, _, rfl⟩ := step_env h
    exact ⟨q, hq, rfl, List.prefix_rfl⟩
  | crash i =>
    obtain ⟨r, hr, rfl⟩ := step_crash h
    exact kept_update hr rfl List.prefix_rfl hq

theorem label_step {a : Act S κ} {j : CallId} {q : Running S ε β κ}
    (h : step body s a = some s') (hq : s.calls j = some q) :
    ∃ q', s'.calls j = some q' ∧ q'.label = q.label := by
  obtain ⟨q', hq', hlabel, _⟩ := kept_step h hq
  exact ⟨q', hq', hlabel⟩

/-- A step touches no call but the one that takes it. -/
theorem calls_step {a : Act S κ} {j : CallId} (h : step body s a = some s')
    (hj : a.owner ≠ some j) : s'.calls j = s.calls j := by
  have hne : ∀ {k : CallId}, some k ≠ some j → j ≠ k := fun hk hjk => hk (congrArg some hjk.symm)
  cases a with
  | start i label =>
    obtain ⟨_, rfl⟩ := step_start h
    exact Function.update_of_ne (hne hj) _ _
  | answer i e =>
    obtain ⟨r, o, k, reply, st, _, _, _, rfl⟩ := step_answer h
    exact Function.update_of_ne (hne hj) _ _
  | issue i =>
    obtain ⟨r, o, k, _, _, _, rfl⟩ := step_issue h
    exact Function.update_of_ne (hne hj) _ _
  | flush i e =>
    obtain ⟨r, o, queue, reply, st, _, _, _, rfl⟩ := step_flush h
    exact Function.update_of_ne (hne hj) _ _
  | env e =>
    obtain ⟨st, _, rfl⟩ := step_env h
    rfl
  | crash i =>
    obtain ⟨r, _, rfl⟩ := step_crash h
    exact Function.update_of_ne (hne hj) _ _

theorem calls_run {as : List (Act S κ)} {j : CallId} (h : Machine.run (step body) s as = some s')
    (hj : ∀ a ∈ as, a.owner ≠ some j) : s'.calls j = s.calls j := by
  induction as generalizing s with
  | nil =>
    obtain rfl := Option.some.inj h
    rfl
  | cons a as ih =>
    obtain ⟨m, hm, hrest⟩ := Machine.run_cons.mp h
    rw [ih hrest fun b hb => hj b (List.mem_cons_of_mem a hb)]
    exact calls_step hm (hj a List.mem_cons_self)

/-- Calls that are never started are not there. -/
theorem unused_calls {st : S.State} {as : List (Act S κ)} {n : Nat}
    (h : Machine.run (step body) (init st) as = some s)
    (hn : (as.all fun a => a.owner.all (· < n)) = true) : ∀ i, n ≤ i → s.calls i = none := by
  intro i hi
  have howner : ∀ a ∈ as, a.owner ≠ some i := by
    intro a ha howner
    have hall := List.all_eq_true.mp hn a ha
    rw [howner, Option.all_some, decide_eq_true_eq] at hall
    omega
  rw [calls_run h howner]
  rfl

/-- The call that takes a step is there afterwards. -/
theorem owner_step {a : Act S κ} (h : step body s a = some s') (hi : a.owner = some i) :
    ∃ r, s'.calls i = some r := by
  cases a with
  | start j label =>
    obtain ⟨_, rfl⟩ := step_start h
    obtain rfl := Option.some.inj hi
    exact ⟨_, Function.update_self ..⟩
  | answer j e =>
    obtain ⟨r, o, k, reply, st, _, _, _, rfl⟩ := step_answer h
    obtain rfl := Option.some.inj hi
    exact ⟨_, Function.update_self ..⟩
  | issue j =>
    obtain ⟨r, o, k, _, _, _, rfl⟩ := step_issue h
    obtain rfl := Option.some.inj hi
    exact ⟨_, Function.update_self ..⟩
  | flush j e =>
    obtain ⟨r, o, queue, reply, st, _, _, _, rfl⟩ := step_flush h
    obtain rfl := Option.some.inj hi
    exact ⟨_, Function.update_self ..⟩
  | env e => contradiction
  | crash j =>
    obtain ⟨r, _, rfl⟩ := step_crash h
    obtain rfl := Option.some.inj hi
    exact ⟨_, Function.update_self ..⟩

/-- The first step of a call is its start. -/
theorem first_step {a : Act S κ} (h : step body s a = some s') (hi : a.owner = some i)
    (hnone : s.calls i = none) :
    ∃ label, a = .start i label ∧ s'.calls i = some (.start label (body label)) := by
  cases a with
  | start j label =>
    obtain ⟨_, rfl⟩ := step_start h
    obtain rfl := Option.some.inj hi
    exact ⟨label, rfl, Function.update_self ..⟩
  | answer j e =>
    obtain ⟨r, o, k, reply, st, hr, _, _, _⟩ := step_answer h
    obtain rfl := Option.some.inj hi
    rw [hr] at hnone
    contradiction
  | issue j =>
    obtain ⟨r, o, k, hr, _, _, _⟩ := step_issue h
    obtain rfl := Option.some.inj hi
    rw [hr] at hnone
    contradiction
  | flush j e =>
    obtain ⟨r, o, queue, reply, st, hr, _, _, _⟩ := step_flush h
    obtain rfl := Option.some.inj hi
    rw [hr] at hnone
    contradiction
  | env e => contradiction
  | crash j =>
    obtain ⟨r, hr, _⟩ := step_crash h
    obtain rfl := Option.some.inj hi
    rw [hr] at hnone
    contradiction

/-- A call that waits for an answer, with nothing on its way, moves on by that
answer alone. -/
theorem answer_of_next {a : Act S κ} {r : Running S ε β κ} {o : S.Op}
    {k : S.Reply o → Script S ε β} (h : step body s a = some s') (hi : a.owner = some i)
    (hcrash : a.isCrash = false) (hr : s.calls i = some r) (hn : r.next = some ⟨o, k⟩)
    (hq : r.queue = []) : ∃ e, a = .answer i e := by
  cases a with
  | start j label =>
    obtain ⟨hnone, _⟩ := step_start h
    obtain rfl := Option.some.inj hi
    rw [hr] at hnone
    contradiction
  | answer j e =>
    obtain rfl := Option.some.inj hi
    exact ⟨e, rfl⟩
  | issue j =>
    obtain ⟨q, o', k', hq', _, hsend, _⟩ := step_issue h
    obtain rfl := Option.some.inj hi
    obtain rfl := Option.some.inj (hr.symm.trans hq')
    obtain ⟨_, hscript⟩ := Running.next_eq_some.mp hn
    rw [hsend] at hscript
    simp at hscript
  | flush j e =>
    obtain ⟨q, o', queue, reply, st, hq', hqueue, _, _⟩ := step_flush h
    obtain rfl := Option.some.inj hi
    obtain rfl := Option.some.inj (hr.symm.trans hq')
    rw [hq] at hqueue
    contradiction
  | env e => contradiction
  | crash j => contradiction

/-- A call was there before a step, or the step starts it. -/
theorem there_before {a : Act S κ} {r : Running S ε β κ} (h : step body s a = some s')
    (hr : s'.calls i = some r) :
    (∃ q, s.calls i = some q ∧ r.label = q.label) ∨ a = .start i r.label := by
  cases hold : s.calls i with
  | none =>
    have howner : a.owner = some i := by
      by_contra hne
      rw [calls_step h hne, hold] at hr
      contradiction
    obtain ⟨label, rfl, hstart⟩ := first_step h howner hold
    obtain rfl := Option.some.inj (hr.symm.trans hstart)
    exact Or.inr rfl
  | some q =>
    obtain ⟨q', hq', hlabel⟩ := label_step h hold
    obtain rfl := Option.some.inj (hr.symm.trans hq')
    exact Or.inl ⟨q, rfl, hlabel⟩

/-- A call is there because it was started. -/
theorem started {st : S.State} {as : List (Act S κ)} {r : Running S ε β κ}
    (h : Machine.run (step body) (init st) as = some s) (hr : s.calls i = some r) :
    .start i r.label ∈ as := by
  refine Machine.run_induction (fun as s => ∀ r, s.calls i = some r → .start i r.label ∈ as)
    ?_ ?_ h r hr
  · intro r hr
    simp [init] at hr
  · intro as m a t _ ih hs r hr
    rcases there_before hs hr with ⟨q, hq, hlabel⟩ | rfl
    · rw [hlabel]
      exact List.mem_append_left _ (ih q hq)
    · exact List.mem_append_right _ (List.mem_singleton_self _)

/-- A call that has ended takes no step, if it is not cut short again. -/
theorem ended_step {a : Act S κ} {r : Running S ε β κ} (h : step body s a = some s')
    (hc : a.isCrash = false) (hr : s.calls i = some r) (hf : r.script.finished = true)
    (hq : r.queue = []) : a.owner ≠ some i := by
  intro howner
  cases a with
  | start j label =>
    obtain ⟨hnone, _⟩ := step_start h
    obtain rfl := Option.some.inj howner
    rw [hr] at hnone
    contradiction
  | answer j e =>
    obtain ⟨q, o, k, reply, st, hq', hn, _, _⟩ := step_answer h
    obtain rfl := Option.some.inj howner
    obtain rfl := Option.some.inj (hr.symm.trans hq')
    rcases (Running.next_eq_some.mp hn).2 with hs | ⟨hs, _⟩
    · rw [hs] at hf
      contradiction
    · rw [hs] at hf
      contradiction
  | issue j =>
    obtain ⟨q, o, k, hq', _, hs, _⟩ := step_issue h
    obtain rfl := Option.some.inj howner
    obtain rfl := Option.some.inj (hr.symm.trans hq')
    rw [hs] at hf
    contradiction
  | flush j e =>
    obtain ⟨q, o, queue, reply, st, hq', hqueue, _, _⟩ := step_flush h
    obtain rfl := Option.some.inj howner
    obtain rfl := Option.some.inj (hr.symm.trans hq')
    rw [hq] at hqueue
    contradiction
  | env e => contradiction
  | crash j => contradiction

/-- A call that has ended stays so. -/
theorem ended_stays {a : Act S κ} {r : Running S ε β κ} (h : step body s a = some s')
    (hr : s.calls i = some r) (hended : r.ended = true) :
    ∃ r', s'.calls i = some r' ∧ r'.ended = true := by
  by_cases howner : a.owner = some i
  · cases a with
    | start j label =>
      obtain ⟨hnone, _⟩ := step_start h
      obtain rfl := Option.some.inj howner
      rw [hr] at hnone
      contradiction
    | answer j e =>
      obtain ⟨q, o, k, reply, st, hq, hn, _, _⟩ := step_answer h
      obtain rfl := Option.some.inj howner
      obtain rfl := Option.some.inj (hr.symm.trans hq)
      rw [Running.ended_of_next hn] at hended
      contradiction
    | issue j =>
      obtain ⟨q, o, k, hq, hc, hs, _⟩ := step_issue h
      obtain rfl := Option.some.inj howner
      obtain rfl := Option.some.inj (hr.symm.trans hq)
      simp [Running.ended, hc, hs, Script.finished] at hended
    | flush j e =>
      obtain ⟨q, o, queue, reply, st, hq, hqueue, _, rfl⟩ := step_flush h
      obtain rfl := Option.some.inj howner
      obtain rfl := Option.some.inj (hr.symm.trans hq)
      refine ⟨_, Function.update_self .., ?_⟩
      simp only [Running.ended, hqueue, List.isEmpty_cons, Bool.and_false, Bool.or_false] at hended
      simp [Running.ended, hended]
    | env e => contradiction
    | crash j =>
      obtain ⟨q, hq, rfl⟩ := step_crash h
      obtain rfl := Option.some.inj howner
      exact ⟨_, Function.update_self .., rfl⟩
  · exact ⟨r, (calls_step h howner).trans hr, hended⟩

/-- A call that has not ended after a run had not ended before it either, or
was started in it. -/
theorem open_since {as : List (Act S κ)} {r' : Running S ε β κ}
    (h : Machine.run (step body) s as = some s') (hr' : s'.calls i = some r')
    (hopen : r'.ended = false) :
    (∃ r, s.calls i = some r ∧ r.label = r'.label ∧ r.ended = false) ∨
      .start i r'.label ∈ as := by
  refine Machine.run_induction (fun as s' => ∀ r', s'.calls i = some r' → r'.ended = false →
    (∃ r, s.calls i = some r ∧ r.label = r'.label ∧ r.ended = false) ∨ .start i r'.label ∈ as)
    (fun r' hr' hopen => Or.inl ⟨r', hr', rfl, hopen⟩) ?_ h r' hr' hopen
  intro as m a t _ ih hs r' hr' hopen
  rcases there_before hs hr' with ⟨q, hq, hlabel⟩ | rfl
  · have hqopen : q.ended = false := by
      by_contra hended
      obtain ⟨q', hq', hended'⟩ := ended_stays hs hq (Bool.not_eq_false _ |>.mp hended)
      obtain rfl := Option.some.inj (hr'.symm.trans hq')
      rw [hopen] at hended'
      contradiction
    rw [hlabel]
    exact (ih q hq hqopen).imp_right (List.mem_append_left _)
  · exact Or.inr (List.mem_append_right _ (List.mem_singleton_self _))

/-- Where the calls with a label that have not ended are known, one that has not
ended later is one of them, or was started since. -/
theorem running_since {as : List (Act S κ)} {r' : Running S ε β κ} {runs : List CallId} {label : κ}
    (hruns : ∀ i r, s.calls i = some r → r.label = label → r.ended = false → i ∈ runs)
    (h : Machine.run (step body) s as = some s') (hr' : s'.calls i = some r')
    (hlabel : r'.label = label) (hopen : r'.ended = false) : i ∈ runs ∨ .start i label ∈ as := by
  rcases open_since h hr' hopen with ⟨r, hr, hsame, hropen⟩ | hstart
  · exact Or.inl (hruns i r hr (hsame.trans hlabel) hropen)
  · exact Or.inr (hlabel ▸ hstart)

/-- A call comes to owe no command that it did not owe before. -/
theorem owes_step {a : Act S κ} {r r' : Running S ε β κ} {o : S.Op}
    (h : step body s a = some s') (hr : s.calls i = some r) (hr' : s'.calls i = some r')
    (ho : r'.Owes o) : r.Owes o := by
  by_cases howner : a.owner = some i
  · cases a with
    | start j label =>
      obtain ⟨hnone, _⟩ := step_start h
      obtain rfl := Option.some.inj howner
      rw [hr] at hnone
      contradiction
    | answer j e =>
      obtain ⟨q, o', k, reply, st, hq, hn, _, rfl⟩ := step_answer h
      obtain rfl := Option.some.inj howner
      obtain rfl := Option.some.inj (hr.symm.trans hq)
      rcases calls_update hr' with ⟨_, rfl⟩ | ⟨hne, _⟩
      · rcases ho with hqueue | hsend
        · exact Or.inl hqueue
        · refine Or.inr ?_
          rcases (Running.next_eq_some.mp hn).2 with hs | ⟨hs, _⟩
          · rw [hs]
            exact ⟨reply, hsend⟩
          · rw [hs]
            exact ⟨reply, hsend⟩
      · exact absurd rfl hne
    | issue j =>
      obtain ⟨q, o', k, hq, _, hs, rfl⟩ := step_issue h
      obtain rfl := Option.some.inj howner
      obtain rfl := Option.some.inj (hr.symm.trans hq)
      rcases calls_update hr' with ⟨_, rfl⟩ | ⟨hne, _⟩
      · rcases ho with hqueue | hsend
        · rcases List.mem_append.mp hqueue with hold | hnew
          · exact Or.inl hold
          · rw [List.mem_singleton.mp hnew]
            exact Or.inr (hs ▸ Or.inl rfl)
        · exact Or.inr (hs ▸ Or.inr hsend)
      · exact absurd rfl hne
    | flush j e =>
      obtain ⟨q, o', queue, reply, st, hq, hqueue, _, rfl⟩ := step_flush h
      obtain rfl := Option.some.inj howner
      obtain rfl := Option.some.inj (hr.symm.trans hq)
      rcases calls_update hr' with ⟨_, rfl⟩ | ⟨hne, _⟩
      · rcases ho with hmem | hsend
        · exact Or.inl (hqueue ▸ List.mem_cons_of_mem o' hmem)
        · exact Or.inr hsend
      · exact absurd rfl hne
    | env e => contradiction
    | crash j =>
      obtain ⟨q, hq, rfl⟩ := step_crash h
      obtain rfl := Option.some.inj howner
      obtain rfl := Option.some.inj (hr.symm.trans hq)
      rcases calls_update hr' with ⟨_, rfl⟩ | ⟨hne, _⟩
      · exact ho
      · exact absurd rfl hne
  · rw [calls_step h howner, hr] at hr'
    obtain rfl := Option.some.inj hr'
    exact ho

/-- A property of a call, which may also say what the log has about it: the
start of a call has it, and the call's own steps keep it, as does anything else
that is logged. -/
structure Local (body : κ → Script S ε β)
    (P : List (Executed S κ) → Running S ε β κ → Prop) : Prop where
  mono : ∀ log x r, P log r → P (log ++ [x]) r
  start : ∀ log label, P log (.start label (body label))
  answer : ∀ log r o k st e reply st', P log r → r.next = some ⟨o, k⟩ →
    S.exec st o e = some (reply, st') →
    P (log ++ [⟨r.label, ⟨o, reply⟩, st⟩]) (r.answered ⟨o, reply⟩ (k reply))
  issue : ∀ log r o k, P log r → r.crashed = false → r.script = .send o k →
    P log { r with script := k, queue := r.queue ++ [o] }
  flush : ∀ log r o queue, P log r → r.queue = o :: queue → P log { r with queue := queue }
  crash : ∀ log r, P log r → P log { r with crashed := true }

theorem Local.step {P : List (Executed S κ) → Running S ε β κ → Prop} (hl : Local body P)
    {a : Act S κ} (hp : ∀ i r, s.calls i = some r → P s.log r) (h : Pool.step body s a = some s') :
    ∀ i r, s'.calls i = some r → P s'.log r := by
  intro j r' hr'
  cases a with
  | start i label =>
    obtain ⟨_, rfl⟩ := step_start h
    rcases calls_update hr' with ⟨_, rfl⟩ | ⟨_, hold⟩
    · exact hl.start s.log label
    · exact hp j r' hold
  | answer i e =>
    obtain ⟨r, o, k, reply, st, hr, hn, hx, rfl⟩ := step_answer h
    rcases calls_update hr' with ⟨_, rfl⟩ | ⟨_, hold⟩
    · exact hl.answer s.log r o k s.state e reply st (hp i r hr) hn hx
    · exact hl.mono _ _ _ (hp j r' hold)
  | issue i =>
    obtain ⟨r, o, k, hr, hc, hs, rfl⟩ := step_issue h
    rcases calls_update hr' with ⟨_, rfl⟩ | ⟨_, hold⟩
    · exact hl.issue s.log r o k (hp i r hr) hc hs
    · exact hp j r' hold
  | flush i e =>
    obtain ⟨r, o, queue, reply, st, hr, hq, _, rfl⟩ := step_flush h
    rcases calls_update hr' with ⟨_, rfl⟩ | ⟨_, hold⟩
    · exact hl.mono _ _ _ (hl.flush s.log r o queue (hp i r hr) hq)
    · exact hl.mono _ _ _ (hp j r' hold)
  | env e =>
    obtain ⟨st, _, rfl⟩ := step_env h
    exact hp j r' hr'
  | crash i =>
    obtain ⟨r, hr, rfl⟩ := step_crash h
    rcases calls_update hr' with ⟨_, rfl⟩ | ⟨_, hold⟩
    · exact hl.crash s.log r (hp i r hr)
    · exact hp j r' hold

theorem Local.reachable {P : List (Executed S κ) → Running S ε β κ → Prop} (hl : Local body P)
    {st : S.State} (h : Machine.Reachable (Pool.step body) (init st) s) :
    ∀ i r, s.calls i = some r → P s.log r := by
  refine h.invariant (fun s => ∀ i r, s.calls i = some r → P s.log r) ?_ ?_
  · intro i r hr
    simp [init] at hr
  · intro m a t _ hp hs
    exact hl.step hp hs

/-- What a call was answered is in the log. -/
theorem answers_logged : Local body fun log r =>
    ∀ a ∈ r.answers, ∃ x ∈ log, x.label = r.label ∧ x.answer = a where
  mono := by
    intro log x r hp a ha
    obtain ⟨y, hy, hya⟩ := hp a ha
    exact ⟨y, List.mem_append_left _ hy, hya⟩
  start := by
    intro log label a ha
    simp [Running.start] at ha
  answer := by
    intro log r o k st e reply st' hp _ _ a ha
    rcases List.mem_append.mp ha with ha | ha
    · obtain ⟨y, hy, hya⟩ := hp a ha
      exact ⟨y, List.mem_append_left _ hy, hya⟩
    · exact ⟨_, List.mem_append_right _ (List.mem_singleton_self _), rfl,
        (List.mem_singleton.mp ha).symm⟩
  issue := fun _ _ _ _ hp _ _ => hp
  flush := fun _ _ _ _ hp _ => hp
  crash := fun _ _ hp => hp

/-- What is logged was executed in the state it was logged with. -/
theorem logged_exec {st : S.State} (h : Machine.Reachable (step body) (init st) s) :
    ∀ x ∈ s.log, ∃ e st', S.exec x.before x.answer.1 e = some (x.answer.2, st') := by
  refine h.invariant (fun s => ∀ x ∈ s.log, ∃ e st',
    S.exec x.before x.answer.1 e = some (x.answer.2, st')) (by simp [init]) ?_
  intro m a t _ hm hs x hx
  rcases log_cases hs with ⟨hlog, _⟩ | ⟨i, r, o, e, reply, _, hexec, hlog, _⟩
  · exact hm x (hlog ▸ hx)
  · rw [hlog] at hx
    rcases List.mem_append.mp hx with hx | hx
    · exact hm x hx
    · rw [List.mem_singleton.mp hx]
      exact ⟨e, t.state, hexec⟩

end Pool

end Interleaving
