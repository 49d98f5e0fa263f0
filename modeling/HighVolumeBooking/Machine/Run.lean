import Mathlib.Data.List.Induction

namespace Machine

variable {σ α : Type}

/-- Runs a list of labels through a step function. A label that is not enabled
blocks the whole run, so a successful run took every label. -/
def run (step : σ → α → Option σ) : σ → List α → Option σ
  | s, [] => some s
  | s, a :: as => (step s a).bind fun t => run step t as

def Reachable (step : σ → α → Option σ) (start s : σ) : Prop :=
  ∃ as, run step start as = some s

@[simp] theorem run_nil (step : σ → α → Option σ) (s : σ) : run step s [] = some s := rfl

theorem run_cons {step : σ → α → Option σ} {s t : σ} {a : α} {as : List α} :
    run step s (a :: as) = some t ↔ ∃ m, step s a = some m ∧ run step m as = some t := by
  simp [run, Option.bind_eq_some_iff]

theorem run_append {step : σ → α → Option σ} {s t : σ} {as bs : List α} :
    run step s (as ++ bs) = some t ↔ ∃ m, run step s as = some m ∧ run step m bs = some t := by
  induction as generalizing s with
  | nil => simp
  | cons a as ih =>
    simp only [List.cons_append, run_cons, ih]
    constructor
    · intro h
      obtain ⟨u, hu, m, hm, ht⟩ := h
      exact ⟨m, ⟨u, hu, hm⟩, ht⟩
    · intro h
      obtain ⟨m, ⟨u, hu, hm⟩, ht⟩ := h
      exact ⟨u, hu, m, hm, ht⟩

theorem run_concat {step : σ → α → Option σ} {s t : σ} {as : List α} {a : α} :
    run step s (as ++ [a]) = some t ↔ ∃ m, run step s as = some m ∧ step m a = some t := by
  simp [run_append, run_cons]

/-- The induction behind every whole-run result: the property may mention the
labels taken so far, and a step may use that its source state was reached. -/
theorem run_induction {step : σ → α → Option σ} {start : σ} (P : List α → σ → Prop)
    (base : P [] start)
    (ind : ∀ as m a t, run step start as = some m → P as m → step m a = some t → P (as ++ [a]) t)
    {as : List α} {s : σ} (h : run step start as = some s) : P as s := by
  induction as using List.reverseRecOn generalizing s with
  | nil =>
    obtain rfl := Option.some.inj h
    exact base
  | append_singleton as a ih =>
    obtain ⟨m, hm, hs⟩ := run_concat.mp h
    exact ind as m a s hm (ih hm) hs

theorem run_mono {step step' : σ → α → Option σ}
    (hstep : ∀ s a t, step s a = some t → step' s a = some t) {as : List α} {s t : σ}
    (h : run step s as = some t) : run step' s as = some t := by
  induction as generalizing s with
  | nil => exact h
  | cons a as ih =>
    obtain ⟨m, hm, hrest⟩ := run_cons.mp h
    exact run_cons.mpr ⟨m, hstep s a m hm, ih hrest⟩

theorem Reachable.refl {step : σ → α → Option σ} {start : σ} : Reachable step start start :=
  ⟨[], rfl⟩

theorem Reachable.step {step : σ → α → Option σ} {start m t : σ} {a : α}
    (h : Reachable step start m) (hs : step m a = some t) : Reachable step start t := by
  obtain ⟨as, hr⟩ := h
  exact ⟨as ++ [a], run_concat.mpr ⟨m, hr, hs⟩⟩

/-- What relates the two ends of every step, and can be chained, relates the two
ends of a run. -/
theorem related_run {step : σ → α → Option σ} {start s t : σ} (R : σ → σ → Prop)
    (refl : ∀ m, R m m) (trans : ∀ a b c, R a b → R b c → R a c)
    (ind : ∀ m a m', Reachable step start m → step m a = some m' → R m m')
    (h : Reachable step start s) {as : List α} (hr : run step s as = some t) : R s t := by
  obtain ⟨past, hpast⟩ := h
  refine run_induction (fun _ u => R s u) (refl s) ?_ hr
  intro as m a m' hm hsm hs
  exact trans s m m' hsm (ind m a m' ⟨past ++ as, run_append.mpr ⟨s, hpast, hm⟩⟩ hs)

/-- Every step of the run that starts in s meets P, a condition on the state
before the step and its label. -/
def Along (step : σ → α → Option σ) (P : σ → α → Prop) : σ → List α → Prop
  | _, [] => True
  | s, a :: as => P s a ∧ ∀ t, step s a = some t → Along step P t as

theorem along_of_forall {step : σ → α → Option σ} {P : σ → α → Prop} {s : σ} {as : List α}
    (h : ∀ a ∈ as, ∀ m, P m a) : Along step P s as := by
  induction as generalizing s with
  | nil => trivial
  | cons a as ih =>
    exact ⟨h a List.mem_cons_self s, fun t _ => ih fun b hb => h b (List.mem_cons_of_mem a hb)⟩

theorem along_append {step : σ → α → Option σ} {P : σ → α → Prop} {s m : σ} {as bs : List α}
    (h : run step s as = some m) :
    Along step P s (as ++ bs) ↔ Along step P s as ∧ Along step P m bs := by
  induction as generalizing s with
  | nil =>
    obtain rfl := Option.some.inj h
    simp [Along]
  | cons a as ih =>
    obtain ⟨t, ht, hr⟩ := run_cons.mp h
    simp only [List.cons_append, Along]
    constructor
    · intro hall
      obtain ⟨hp, hrest⟩ := hall
      have hsplit := (ih hr).mp (hrest t ht)
      refine ⟨⟨hp, ?_⟩, hsplit.2⟩
      intro u hu
      obtain rfl := Option.some.inj (ht.symm.trans hu)
      exact hsplit.1
    · intro hall
      obtain ⟨⟨hp, hrest⟩, hbs⟩ := hall
      refine ⟨hp, ?_⟩
      intro u hu
      obtain rfl := Option.some.inj (ht.symm.trans hu)
      exact (ih hr).mpr ⟨hrest t ht, hbs⟩

/-- A run whose steps all meet P keeps what every such step preserves. -/
theorem along_induction {step : σ → α → Option σ} {start : σ} {P : σ → α → Prop}
    (Q : σ → Prop) (base : Q start)
    (ind : ∀ m a t, Reachable step start m → Q m → P m a → step m a = some t → Q t)
    {as : List α} {s : σ} (h : run step start as = some s) (hall : Along step P start as) :
    Q s := by
  refine run_induction (fun as s => Along step P start as → Q s) (fun _ => base) ?_ h hall
  intro as m a t hm hq hs hall
  obtain ⟨has, hlast⟩ := (along_append hm).mp hall
  exact ind m a t ⟨as, hm⟩ (hq has) hlast.1 hs

/-- Q holds in every state the run from s passes through. -/
def Throughout (step : σ → α → Option σ) (Q : σ → Prop) (s : σ) (as : List α) : Prop :=
  ∀ past m, past <+: as → run step s past = some m → Q m

theorem throughout_concat {step : σ → α → Option σ} {Q : σ → Prop} {s t : σ} {as : List α} {a : α}
    (h : run step s (as ++ [a]) = some t) :
    Throughout step Q s (as ++ [a]) ↔ Throughout step Q s as ∧ Q t := by
  constructor
  · intro hall
    refine ⟨?_, hall _ t List.prefix_rfl h⟩
    intro past m hpast hm
    exact hall past m (hpast.trans (List.prefix_append _ _)) hm
  · rintro ⟨hall, hlast⟩ past m hpast hm
    rcases List.prefix_concat_iff.mp hpast with rfl | hpast
    · obtain rfl := Option.some.inj (h.symm.trans hm)
      exact hlast
    · exact hall past m hpast hm

theorem Along.throughout {step : σ → α → Option σ} {start s : σ} {P : σ → α → Prop} {Q : σ → Prop}
    {as : List α} (hall : Along step P start as) (h : run step start as = some s) (base : Q start)
    (ind : ∀ m a t, Reachable step start m → Q m → P m a → step m a = some t → Q t) :
    Throughout step Q start as := by
  rintro past m ⟨rest, rfl⟩ hm
  exact along_induction Q base ind hm ((along_append hm).mp hall).1

theorem Throughout.imp {step : σ → α → Option σ} {s : σ} {Q R : σ → Prop} {as : List α}
    (h : Throughout step Q s as) (himp : ∀ m, Reachable step s m → Q m → R m) :
    Throughout step R s as :=
  fun past m hpast hm => himp m ⟨past, hm⟩ (h past m hpast hm)

/-- A test of every step of a run. -/
def checks (step : σ → α → Option σ) (p : σ → α → Bool) : σ → List α → Bool
  | _, [] => true
  | s, a :: as => p s a && (step s a).all fun t => checks step p t as

/-- Along can be tested where P can, given what is known of the states. -/
theorem Throughout.along_of_checks {step : σ → α → Option σ} {Q : σ → Prop} {p : σ → α → Bool}
    {P : σ → α → Prop} {s : σ} {as : List α} (hq : Throughout step Q s as)
    (hp : ∀ m a, Q m → p m a = true → P m a) (h : checks step p s as = true) :
    Along step P s as := by
  induction as generalizing s with
  | nil => trivial
  | cons a as ih =>
    simp only [checks, Bool.and_eq_true] at h
    refine ⟨hp s a (hq [] s List.nil_prefix rfl) h.1, ?_⟩
    intro t ht
    rw [ht, Option.all_some] at h
    refine ih ?_ h.2
    intro past m hpast hm
    exact hq (a :: past) m (List.cons_prefix_cons.mpr ⟨rfl, hpast⟩) (run_cons.mpr ⟨t, ht, hm⟩)

theorem throughout_true {step : σ → α → Option σ} {s : σ} {as : List α} :
    Throughout step (fun _ => True) s as := fun _ _ _ _ => trivial

/-- Where each step decides whether Q survives it, Q holds throughout the runs
whose steps all meet P, and no others. What holds of the states may rest on Q
having held so far. -/
theorem throughout_iff_along_of {step : σ → α → Option σ} {start : σ} {P : σ → α → Prop}
    {Q I : σ → Prop} (init : I start) (base : Q start)
    (keeps : ∀ m a t, I m → Q m → step m a = some t → I t)
    (ind : ∀ m a t, I m → Q m → step m a = some t → (Q t ↔ P m a))
    {as : List α} {s : σ} (h : run step start as = some s) :
    Throughout step Q start as ↔ Along step P start as := by
  suffices hboth : (Throughout step Q start as → I s) ∧
      (Throughout step Q start as ↔ Along step P start as) from hboth.2
  induction as using List.reverseRecOn generalizing s with
  | nil =>
    obtain rfl := Option.some.inj h
    refine ⟨fun _ => init, fun _ => trivial, fun _ past m hpast hm => ?_⟩
    obtain rfl := List.prefix_nil.mp hpast
    obtain rfl := Option.some.inj hm
    exact base
  | append_singleton as a ih =>
    obtain ⟨m, hm, hs⟩ := run_concat.mp h
    obtain ⟨hinv, hiff⟩ := ih hm
    rw [throughout_concat h, along_append hm, hiff]
    have hbefore : Along step P start as → I m ∧ Q m := fun hall =>
      ⟨hinv (hiff.mpr hall), hiff.mpr hall as m List.prefix_rfl hm⟩
    constructor
    · intro hall
      obtain ⟨hi, hq⟩ := hbefore hall.1
      exact keeps m a s hi hq hs
    · refine and_congr_right fun hall => ?_
      obtain ⟨hi, hq⟩ := hbefore hall
      rw [ind m a s hi hq hs]
      simp [Along]

theorem throughout_iff_along {step : σ → α → Option σ} {start : σ} {P : σ → α → Prop}
    {Q : σ → Prop} (base : Q start)
    (ind : ∀ m a t, Reachable step start m → Q m → step m a = some t → (Q t ↔ P m a))
    {as : List α} {s : σ} (h : run step start as = some s) :
    Throughout step Q start as ↔ Along step P start as :=
  throughout_iff_along_of Reachable.refl base (fun _ _ _ hm _ hs => hm.step hs) ind h

/-- How many steps of a run meet a test. -/
def count (step : σ → α → Option σ) (p : σ → α → Bool) : σ → List α → Nat
  | _, [] => 0
  | s, a :: as => (if p s a then 1 else 0) + (step s a).elim 0 fun t => count step p t as

theorem count_concat {step : σ → α → Option σ} {p : σ → α → Bool} {s m : σ} {as : List α} {a : α}
    (h : run step s as = some m) :
    count step p s (as ++ [a]) = count step p s as + if p m a then 1 else 0 := by
  induction as generalizing s with
  | nil =>
    obtain rfl := Option.some.inj h
    cases hs : step s a <;> simp [count, hs]
  | cons b as ih =>
    obtain ⟨t, ht, hrest⟩ := run_cons.mp h
    simp only [List.cons_append, count, ht, Option.elim_some, ih hrest, Nat.add_assoc]

/-- Where two conditions agree on every step that can be taken, so do the runs
that meet them. -/
theorem along_congr {step : σ → α → Option σ} {start : σ} {P Q : σ → α → Prop}
    (hpq : ∀ m a t, Reachable step start m → step m a = some t → (P m a ↔ Q m a))
    {as : List α} {s : σ} (h : run step start as = some s) :
    Along step P start as ↔ Along step Q start as := by
  induction as using List.reverseRecOn generalizing s with
  | nil => exact Iff.rfl
  | append_singleton as a ih =>
    obtain ⟨m, hm, hs⟩ := run_concat.mp h
    rw [along_append hm, along_append hm, ih hm]
    simp [Along, hpq m a s ⟨as, hm⟩ hs]

/-- An invariant that holds at the start and survives each step holds in every
reachable state. -/
theorem Reachable.invariant {step : σ → α → Option σ} {start s : σ} (P : σ → Prop)
    (base : P start) (ind : ∀ m a t, Reachable step start m → P m → step m a = some t → P t)
    (h : Reachable step start s) : P s := by
  obtain ⟨as, hr⟩ := h
  exact run_induction (fun _ => P) base (fun as m a t hm hp hs => ind m a t ⟨as, hm⟩ hp hs) hr

end Machine
