import HighVolumeBooking.Interleaving.Pool

namespace Interleaving

variable {S : Service} {ε β γ κ : Type}

/-- The shared state with its history: past are the states that commands found,
in the order of their execution. -/
structure World (S : Service) where
  past : List S.State
  state : S.State

namespace World

/-- A command was executed and left the state st. -/
def after (w : World S) (st : S.State) : World S := ⟨w.past ++ [w.state], st⟩

/-- The state changed by itself. -/
def turned (w : World S) (st : S.State) : World S := ⟨w.past, st⟩

end World

/-- What all calls agree on about the shared state: inv holds of it at any time,
and it only ever moves on. -/
structure Agreement (S : Service) where
  inv : World S → Prop
  moves : World S → World S → Prop
  refl : ∀ w, moves w w
  trans : ∀ {w mid w'}, moves w mid → moves mid w' → moves w w'
  env : ∀ {w e st}, inv w → S.env w.state e = some st → inv (w.turned st) ∧ moves w (w.turned st)

/-- From this world on, the command keeps the agreement whenever it arrives. -/
def Agreement.Safe (A : Agreement S) (w : World S) (o : S.Op) : Prop :=
  ∀ now e reply st, A.moves w now → A.inv now → S.exec now.state o e = some (reply, st) →
    A.inv (now.after st) ∧ A.moves now (now.after st)

/-- From this world on the script keeps the agreement as long as all others do,
and then ends as Q has it. -/
def Script.Meets (A : Agreement S) (Q : World S → Except ε β → Prop) :
    Script S ε β → World S → Prop
  | .done b, w => ∀ now, A.moves w now → A.inv now → Q now (.ok b)
  | .fail x, w => ∀ now, A.moves w now → A.inv now → Q now (.error x)
  | .ask o k, w => ∀ now e reply st, A.moves w now → A.inv now →
      S.exec now.state o e = some (reply, st) →
      A.inv (now.after st) ∧ A.moves now (now.after st) ∧ (k reply).Meets A Q (now.after st)
  | .call o k, w => ∀ now e reply st, A.moves w now → A.inv now →
      S.exec now.state o e = some (reply, st) →
      A.inv (now.after st) ∧ A.moves now (now.after st) ∧ (k reply).Meets A Q (now.after st)
  | .send o k, w => A.Safe w o ∧ k.Meets A Q w

section Rules

variable {A : Agreement S} {Q : World S → Except ε β → Prop} {p : Script S ε β}
  {w w' : World S} {o : S.Op}

theorem Agreement.Safe.mono (h : A.Safe w o) (hmoves : A.moves w w') : A.Safe w' o :=
  fun now e reply st hnow => h now e reply st (A.trans hmoves hnow)

/-- What a script meets it still meets after the others have moved. -/
theorem Script.Meets.mono (h : p.Meets A Q w) (hmoves : A.moves w w') : p.Meets A Q w' := by
  induction p with
  | done b => exact fun now hnow => h now (A.trans hmoves hnow)
  | fail x => exact fun now hnow => h now (A.trans hmoves hnow)
  | ask o k _ => exact fun now e reply st hnow => h now e reply st (A.trans hmoves hnow)
  | call o k _ => exact fun now e reply st hnow => h now e reply st (A.trans hmoves hnow)
  | send o k ih => exact ⟨h.1.mono hmoves, ih h.2⟩

theorem Script.Meets.imp {R : World S → Except ε β → Prop} (h : p.Meets A Q w)
    (himp : ∀ later result, A.moves w later → A.inv later → Q later result → R later result) :
    p.Meets A R w := by
  induction p generalizing w with
  | done b => exact fun now hnow hinv => himp now _ hnow hinv (h now hnow hinv)
  | fail x => exact fun now hnow hinv => himp now _ hnow hinv (h now hnow hinv)
  | ask o k ih =>
    intro now e reply st hnow hinv hx
    obtain ⟨hinv', hmoves, hrest⟩ := h now e reply st hnow hinv hx
    refine ⟨hinv', hmoves, ih reply hrest fun later result hlater => himp later result ?_⟩
    exact A.trans hnow (A.trans hmoves hlater)
  | call o k ih =>
    intro now e reply st hnow hinv hx
    obtain ⟨hinv', hmoves, hrest⟩ := h now e reply st hnow hinv hx
    refine ⟨hinv', hmoves, ih reply hrest fun later result hlater => himp later result ?_⟩
    exact A.trans hnow (A.trans hmoves hlater)
  | send o k ih => exact ⟨h.1, ih h.2 himp⟩

/-- One script after the other: the second starts with what the first ended with. -/
theorem Script.Meets.bind {R : World S → Except ε γ → Prop} {f : β → Script S ε γ}
    (h : p.Meets A Q w) (hinv : A.inv w)
    (hok : ∀ now b, A.moves w now → A.inv now →
      (∀ later, A.moves now later → A.inv later → Q later (.ok b)) → (f b).Meets A R now)
    (herror : ∀ now x, Q now (.error x) → R now (.error x)) : (p.bind f).Meets A R w := by
  induction p generalizing w with
  | done b => exact hok w b (A.refl w) hinv h
  | fail x => exact fun now hnow hinv => herror now x (h now hnow hinv)
  | ask o k ih =>
    intro now e reply st hnow hinv hx
    obtain ⟨hinv', hmoves, hrest⟩ := h now e reply st hnow hinv hx
    refine ⟨hinv', hmoves, ih reply hrest hinv' fun later b hlater => hok later b ?_⟩
    exact A.trans hnow (A.trans hmoves hlater)
  | call o k ih =>
    intro now e reply st hnow hinv hx
    obtain ⟨hinv', hmoves, hrest⟩ := h now e reply st hnow hinv hx
    refine ⟨hinv', hmoves, ih reply hrest hinv' fun later b hlater => hok later b ?_⟩
    exact A.trans hnow (A.trans hmoves hlater)
  | send o k ih => exact ⟨h.1, ih h.2 hinv hok⟩

end Rules

namespace Pool

variable {body : κ → Script S ε β} {s s' : Pool S ε β κ} {A : Agreement S}
  {Q : κ → World S → Except ε β → Prop}

/-- The world that a run has come to. -/
def world (s : Pool S ε β κ) : World S := ⟨s.log.map (·.before), s.state⟩

theorem world_executed {st : S.State} {calls : CallId → Option (Running S ε β κ)} {label : κ}
    {answer : Answer S} :
    (⟨st, calls, s.log ++ [⟨label, answer, s.state⟩]⟩ : Pool S ε β κ).world = s.world.after st := by
  simp [world, World.after]

/-- The agreement holds, and each call keeps to it from here on. -/
structure Agreed (A : Agreement S) (Q : κ → World S → Except ε β → Prop) (s : Pool S ε β κ) :
    Prop where
  inv : A.inv s.world
  meets : ∀ i r, s.calls i = some r → r.script.Meets A (Q r.label) s.world
  queue : ∀ i r, s.calls i = some r → ∀ o ∈ r.queue, A.Safe s.world o

namespace Agreed

/-- The world moves on, and one call with it. -/
theorem update {i : CallId} {r : Running S ε β κ} {w : World S} (h : Agreed A Q s)
    (hcalls : s'.calls = Function.update s.calls i (some r)) (hworld : s'.world = w)
    (hinv : A.inv w) (hmoves : A.moves s.world w) (hmeets : r.script.Meets A (Q r.label) w)
    (hqueue : ∀ o ∈ r.queue, A.Safe w o) : Agreed A Q s' := by
  subst hworld
  refine ⟨hinv, ?_, ?_⟩
  · intro j q hq
    rcases calls_update (hcalls ▸ hq) with ⟨_, rfl⟩ | ⟨_, hold⟩
    · exact hmeets
    · exact (h.meets j q hold).mono hmoves
  · intro j q hq o ho
    rcases calls_update (hcalls ▸ hq) with ⟨_, rfl⟩ | ⟨_, hold⟩
    · exact hqueue o ho
    · exact (h.queue j q hold o ho).mono hmoves

theorem step {a : Act S κ} (h : Agreed A Q s)
    (hbody : ∀ label w, A.inv w → (body label).Meets A (Q label) w)
    (hs : Pool.step body s a = some s') : Agreed A Q s' := by
  cases a with
  | start i label =>
    obtain ⟨_, rfl⟩ := step_start hs
    exact h.update rfl rfl h.inv (A.refl _) (hbody label _ h.inv) (by simp [Running.start])
  | answer i e =>
    obtain ⟨r, o, k, reply, st, hr, hn, hx, rfl⟩ := step_answer hs
    have hmeets := h.meets i r hr
    have hstep : A.inv (s.world.after st) ∧ A.moves s.world (s.world.after st) ∧
        (k reply).Meets A (Q r.label) (s.world.after st) := by
      rcases Running.script_of_next hn with hask | hcall
      · rw [hask] at hmeets
        exact hmeets s.world e reply st (A.refl _) h.inv hx
      · rw [hcall] at hmeets
        exact hmeets s.world e reply st (A.refl _) h.inv hx
    obtain ⟨hinv, hmoves, hrest⟩ := hstep
    exact h.update rfl world_executed hinv hmoves hrest fun o ho =>
      (h.queue i r hr o ho).mono hmoves
  | issue i =>
    obtain ⟨r, o, k, hr, _, hscript, rfl⟩ := step_issue hs
    have hmeets := h.meets i r hr
    rw [hscript] at hmeets
    refine h.update rfl rfl h.inv (A.refl _) hmeets.2 fun o' ho' => ?_
    rcases List.mem_append.mp ho' with ho' | ho'
    · exact h.queue i r hr o' ho'
    · exact List.mem_singleton.mp ho' ▸ hmeets.1
  | flush i e =>
    obtain ⟨r, o, queue, reply, st, hr, hq, hx, rfl⟩ := step_flush hs
    have hsafe : A.Safe s.world o := h.queue i r hr o (hq ▸ List.mem_cons_self)
    obtain ⟨hinv, hmoves⟩ := hsafe s.world e reply st (A.refl _) h.inv hx
    refine h.update rfl world_executed hinv hmoves ((h.meets i r hr).mono hmoves) fun o' ho' => ?_
    exact (h.queue i r hr o' (hq ▸ List.mem_cons_of_mem _ ho')).mono hmoves
  | env e =>
    obtain ⟨st, hst, rfl⟩ := step_env hs
    obtain ⟨hinv, hmoves⟩ := A.env h.inv hst
    exact ⟨hinv, fun i r hr => (h.meets i r hr).mono hmoves,
      fun i r hr o ho => (h.queue i r hr o ho).mono hmoves⟩
  | crash i =>
    obtain ⟨r, hr, rfl⟩ := step_crash hs
    exact h.update rfl rfl h.inv (A.refl _) (h.meets i r hr) (h.queue i r hr)

/-- Where every call keeps the agreement, it holds in every state of every run. -/
theorem reachable {st : S.State} (hinv : A.inv ⟨[], st⟩)
    (hbody : ∀ label w, A.inv w → (body label).Meets A (Q label) w)
    (h : Machine.Reachable (Pool.step body) (Pool.init st) s) : Agreed A Q s := by
  refine h.invariant (Agreed A Q) ?_ fun m a t _ hm hs => hm.step hbody hs
  exact ⟨hinv, by simp [Pool.init], by simp [Pool.init]⟩

/-- A call that has returned ended as it should. -/
theorem done {i : CallId} {r : Running S ε β κ} {b : β} (h : Agreed A Q s)
    (hr : s.calls i = some r) (hdone : r.script = .done b) : Q r.label s.world (.ok b) := by
  have hmeets := h.meets i r hr
  rw [hdone] at hmeets
  exact hmeets s.world (A.refl _) h.inv

theorem fail {i : CallId} {r : Running S ε β κ} {x : ε} (h : Agreed A Q s)
    (hr : s.calls i = some r) (hfail : r.script = .fail x) : Q r.label s.world (.error x) := by
  have hmeets := h.meets i r hr
  rw [hfail] at hmeets
  exact hmeets s.world (A.refl _) h.inv

end Agreed

end Pool

end Interleaving
