import HighVolumeBooking.ReadCommitted.Discipline

namespace ReadCommitted

variable {S : Schema} {ε β γ : Type}

/-- The script p, after a BEGIN at began and the writes ws so far, makes the
choices cs and comes to its commit with the result b and the writes out. -/
def Ends (db : Db S) (p : Prog S ε β) (began : Option Int) (ws : List (Cell S))
    (cs : List Choice) (b : β) (out : List (Cell S)) : Prop :=
  ∃ f, Frame.run db ⟨p, began, ws⟩ cs = some f ∧ f.prog = .done b ∧ f.writes = out

theorem exec_ok_iff_ends {p : Prog S ε β} {db db' : Db S} {cs : List Choice} {b : β} :
    exec p db cs = some (.ok b, db') ↔
      ∃ out, Ends db p none [] cs b out ∧ db' = db.apply out := by
  rw [exec_ok]
  constructor
  · intro h
    obtain ⟨f, hr, hp, rfl⟩ := h
    exact ⟨f.writes, ⟨f, hr, hp, rfl⟩, rfl⟩
  · intro h
    obtain ⟨_, ⟨f, hr, hp, rfl⟩, rfl⟩ := h
    exact ⟨f, hr, hp, rfl⟩

/-! Inversion, constructor by constructor: what a script that commits did
first, and what was left of it. -/

section Inversion

variable {db : Db S} {began : Option Int} {ws out : List (Cell S)} {cs : List Choice} {b : β}

theorem ends_step {p : Prog S ε β} (hp : ∀ b, p ≠ .done b) :
    Ends db p began ws cs b out ↔ ∃ c cs' o, cs = c :: cs' ∧
      Frame.step db ⟨p, began, ws⟩ c = some o ∧
      Ends db o.frame.prog o.frame.began o.frame.writes cs' b out := by
  constructor
  · intro h
    obtain ⟨f, hr, hd, ho⟩ := h
    cases cs with
    | nil =>
      obtain rfl := Option.some.inj hr
      exact absurd hd (hp b)
    | cons c cs =>
      simp only [Frame.run, Option.bind_eq_some_iff] at hr
      obtain ⟨o, hs, hr⟩ := hr
      exact ⟨c, cs, o, rfl, hs, f, hr, hd, ho⟩
  · intro h
    obtain ⟨c, cs, o, rfl, hs, f, hr, hd, ho⟩ := h
    refine ⟨f, ?_, hd, ho⟩
    simp only [Frame.run, hs, Option.bind_some]
    exact hr

@[simp] theorem ends_done {b' : β} :
    Ends db (.done b' : Prog S ε β) began ws cs b out ↔ cs = [] ∧ b' = b ∧ ws = out := by
  constructor
  · intro h
    obtain ⟨f, hr, hd, rfl⟩ := h
    cases cs with
    | nil =>
      obtain rfl := Option.some.inj hr
      exact ⟨rfl, Prog.done.inj hd, rfl⟩
    | cons c cs =>
      simp only [Frame.run, Option.bind_eq_some_iff] at hr
      obtain ⟨o, hs, _⟩ := hr
      rw [Frame.step_done rfl] at hs
      contradiction
  · intro h
    obtain ⟨rfl, rfl, rfl⟩ := h
    exact ⟨_, rfl, rfl, rfl⟩

@[simp] theorem ends_fail {e : ε} : ¬ Ends db (.fail e : Prog S ε β) began ws cs b out := by
  rw [ends_step (by simp)]
  intro h
  obtain ⟨c, _, o, _, hs, _⟩ := h
  rw [Frame.step_fail rfl] at hs
  contradiction

theorem Doomed.not_ends {p : Prog S ε β} (h : Doomed p) : ¬ Ends db p began ws cs b out := by
  intro hends
  obtain ⟨f, hr, hd, _⟩ := hends
  have hf := h.run hr
  rw [hd] at hf
  exact hf

theorem ends_now {k : Int → Prog S ε β} :
    Ends db (.now k) began ws cs b out ↔
      ∃ t cs', cs = .clock t :: cs' ∧ Ends db (k t) began ws cs' b out := by
  rw [ends_step (by simp)]
  constructor
  · intro h
    obtain ⟨c, cs', o, rfl, hs, he⟩ := h
    obtain ⟨t, rfl, rfl⟩ := (Frame.step_now rfl).mp hs
    exact ⟨t, cs', rfl, he⟩
  · intro h
    obtain ⟨t, cs', rfl, he⟩ := h
    exact ⟨_, cs', _, rfl, (Frame.step_now rfl).mpr ⟨t, rfl, rfl⟩, he⟩

theorem ends_begin {k : Prog S ε β} :
    Ends db (.begin k) began ws cs b out ↔
      ∃ t cs', cs = .clock t :: cs' ∧ Ends db k (some t) ws cs' b out := by
  rw [ends_step (by simp)]
  constructor
  · intro h
    obtain ⟨c, cs', o, rfl, hs, he⟩ := h
    obtain ⟨t, rfl, rfl⟩ := (Frame.step_begin rfl).mp hs
    exact ⟨t, cs', rfl, he⟩
  · intro h
    obtain ⟨t, cs', rfl, he⟩ := h
    exact ⟨_, cs', _, rfl, (Frame.step_begin rfl).mpr ⟨t, rfl, rfl⟩, he⟩

/-- A read whose empty answer is an error. -/
theorem ends_find {τ : S.Tab} {i : RowId} {k : Option (S.Row τ) → Prog S ε β}
    (hnone : Doomed (k none)) :
    Ends db (.find τ i k) began ws cs b out ↔
      ∃ r cs', cs = .quiet :: cs' ∧ (db.apply ws).find τ i = some r ∧
        Ends db (k (some r)) began ws cs' b out := by
  rw [ends_step (by simp)]
  constructor
  · intro h
    obtain ⟨c, cs', o, rfl, hs, he⟩ := h
    obtain ⟨rfl, rfl⟩ := (Frame.step_find rfl).mp hs
    cases hr : (db.apply ws).find τ i with
    | none =>
      simp only [hr] at he
      exact absurd he hnone.not_ends
    | some r =>
      simp only [hr] at he
      exact ⟨r, cs', rfl, rfl, he⟩
  · intro h
    obtain ⟨r, cs', rfl, hr, he⟩ := h
    refine ⟨_, cs', _, rfl, (Frame.step_find rfl).mpr ⟨rfl, rfl⟩, ?_⟩
    simp only [hr]
    exact he

/-- A locking query whose empty answer is an error. -/
theorem ends_findForUpdate {τ : S.Tab} {p : S.Row τ → Bool} {k : Option (S.Row τ) → Prog S ε β}
    (hnone : Doomed (k none)) :
    Ends db (.findForUpdate τ p k) began ws cs b out ↔
      ∃ r cs', cs = .picked (some (S.key τ r)) :: cs' ∧
        (db.apply ws).find τ (S.key τ r) = some r ∧ p r = true ∧
        Ends db (k (some r)) began ws cs' b out := by
  rw [ends_step (by simp)]
  constructor
  · intro h
    obtain ⟨c, cs', o, rfl, hs, he⟩ := h
    rcases (Frame.step_findForUpdate rfl).mp hs with ⟨i, r, rfl, hr, hp, rfl⟩ | ⟨rfl, hp, rfl⟩
    · obtain rfl : S.key τ r = i := Table.key_of_find? hr
      exact ⟨r, cs', rfl, hr, hp, he⟩
    · exact absurd he hnone.not_ends
  · intro h
    obtain ⟨r, cs', rfl, hr, hp, he⟩ := h
    have hs := (Frame.step_findForUpdate (f := ⟨.findForUpdate τ p k, began, ws⟩) rfl).mpr
      (Or.inl ⟨_, r, rfl, hr, hp, rfl⟩)
    exact ⟨_, cs', _, rfl, hs, he⟩

/-- A version-conditional update whose failure is an error. -/
theorem ends_update {τ : S.Tab} {v : Nat} {r : S.Row τ} {k : Bool → Prog S ε β}
    (hfail : Doomed (k false)) :
    Ends db (.update τ v r k) began ws cs b out ↔
      ∃ old cs', cs = .quiet :: cs' ∧ (db.apply ws).find τ (S.key τ r) = some old ∧
        S.version τ old = v ∧ Ends db (k true) began (ws ++ [⟨τ, r⟩]) cs' b out := by
  rw [ends_step (by simp)]
  constructor
  · intro h
    obtain ⟨c, cs', o, rfl, hs, he⟩ := h
    obtain ⟨rfl, ⟨old, hr, hv, rfl⟩ | ⟨_, rfl⟩⟩ := (Frame.step_update rfl).mp hs
    · exact ⟨old, cs', rfl, hr, hv, he⟩
    · exact absurd he hfail.not_ends
  · intro h
    obtain ⟨old, cs', rfl, hr, hv, he⟩ := h
    have hs := (Frame.step_update (f := ⟨.update τ v r k, began, ws⟩) rfl).mpr
      ⟨rfl, Or.inl ⟨old, hr, hv, rfl⟩⟩
    exact ⟨_, cs', _, rfl, hs, he⟩

theorem ends_save {τ : S.Tab} {r : S.Row τ} {k : Prog S ε β} :
    Ends db (.save τ r k) began ws cs b out ↔
      ∃ cs', cs = .quiet :: cs' ∧ Ends db k began (ws ++ [⟨τ, r⟩]) cs' b out := by
  rw [ends_step (by simp)]
  constructor
  · intro h
    obtain ⟨c, cs', o, rfl, hs, he⟩ := h
    obtain ⟨rfl, rfl⟩ := (Frame.step_save rfl).mp hs
    exact ⟨cs', rfl, he⟩
  · intro h
    obtain ⟨cs', rfl, he⟩ := h
    exact ⟨_, cs', _, rfl, (Frame.step_save rfl).mpr ⟨rfl, rfl⟩, he⟩

theorem ends_insert {τ : S.Tab} {build : RowId → Int → S.Row τ} {k : S.Row τ → Prog S ε β}
    {t : Int} :
    Ends db (.insert τ build k) (some t) ws cs b out ↔
      ∃ i cs', cs = .issued i :: cs' ∧ (db.apply ws).find τ (S.key τ (build i t)) = none ∧
        Ends db (k (build i t)) (some t) (ws ++ [⟨τ, build i t⟩]) cs' b out := by
  rw [ends_step (by simp)]
  constructor
  · intro h
    obtain ⟨c, cs', o, rfl, hs, he⟩ := h
    obtain ⟨i, _, rfl, ht, hn, rfl⟩ := (Frame.step_insert rfl).mp hs
    obtain rfl := Option.some.inj ht
    exact ⟨i, cs', rfl, hn, he⟩
  · intro h
    obtain ⟨i, cs', rfl, hn, he⟩ := h
    exact ⟨_, cs', _, rfl, (Frame.step_insert rfl).mpr ⟨i, t, rfl, rfl, hn, rfl⟩, he⟩

theorem ends_guard {c : Prop} [Decidable c] {e : ε} {p : Prog S ε β} :
    Ends db (if c then .fail e else p) began ws cs b out ↔
      ¬ c ∧ Ends db p began ws cs b out := by
  by_cases h : c <;> simp [h]

end Inversion

/-! A script that turns to nothing but the clock, while the clock stands. -/

section Clock

variable {t : Int}

def Prog.clockAt (t : Int) : Prog S ε β → Option (Except ε β)
  | .done b => some (.ok b)
  | .fail e => some (.error e)
  | .now k => (k t).clockAt t
  | _ => none

@[simp] theorem Prog.clockAt_done {b : β} :
    (Prog.done b : Prog S ε β).clockAt t = some (.ok b) := rfl

@[simp] theorem Prog.clockAt_fail {e : ε} :
    (Prog.fail e : Prog S ε β).clockAt t = some (.error e) := rfl

@[simp] theorem Prog.clockAt_now {k : Int → Prog S ε β} :
    (Prog.now k).clockAt t = (k t).clockAt t := rfl

@[simp] theorem Prog.clockAt_ite {c : Prop} [Decidable c] {p q : Prog S ε β} :
    (if c then p else q).clockAt t = if c then p.clockAt t else q.clockAt t := by
  split <;> rfl

theorem Prog.clockAt_bind {p : Prog S ε β} {f : β → Prog S ε γ} {c : γ} :
    (p.bind f).clockAt t = some (.ok c) ↔
      ∃ b, p.clockAt t = some (.ok b) ∧ (f b).clockAt t = some (.ok c) := by
  induction p with
  | done b => simp
  | fail e => simp
  | now k ih => exact ih t
  | begin | find | findForUpdate | update | save | insert => simp [bind, clockAt]

/-- Such a script is a call that reads t and nothing else, and writes nothing. -/
theorem exec_of_clockAt {p : Prog S ε β} {r : Except ε β} (h : p.clockAt t = some r) (db : Db S) :
    ∃ cs, (∀ c ∈ cs, c = .clock t) ∧ exec p db cs = some (r, db) := by
  suffices hrun : ∀ q : Prog S ε β, q.clockAt t = some r → ∃ cs, (∀ c ∈ cs, c = .clock t) ∧
      ∃ f, Frame.run db ⟨q, none, []⟩ cs = some f ∧ f.writes = [] ∧
        ((∃ b, f.prog = .done b ∧ r = .ok b) ∨ ∃ e, f.prog = .fail e ∧ r = .error e) by
    obtain ⟨cs, hcs, f, hf, hw, hend⟩ := hrun p h
    refine ⟨cs, hcs, ?_⟩
    rcases hend with ⟨b, hp, rfl⟩ | ⟨e, hp, rfl⟩ <;> simp [exec, Frame.start, hf, hp, hw]
  intro q hq
  induction q with
  | done b => exact ⟨[], by simp, _, rfl, rfl, Or.inl ⟨b, rfl, (Option.some.inj hq).symm⟩⟩
  | fail e => exact ⟨[], by simp, _, rfl, rfl, Or.inr ⟨e, rfl, (Option.some.inj hq).symm⟩⟩
  | now k ih =>
    obtain ⟨cs, hcs, f, hf, hend⟩ := ih t hq
    refine ⟨.clock t :: cs, ?_, f, hf, hend⟩
    intro c hc
    rcases List.mem_cons.mp hc with rfl | hc
    · rfl
    · exact hcs c hc
  | begin | find | findForUpdate | update | save | insert => cases hq

end Clock

end ReadCommitted
