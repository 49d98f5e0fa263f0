import HighVolumeBooking.ReadCommitted.Program

namespace ReadCommitted

variable {S : Schema} {ε β : Type}

/-- The script p, after a BEGIN at began and the writes ws so far, comes to no
failure as long as ok allows the choices it makes. -/
def NeverFails (ok : Choice → Prop) (db : Db S) (p : Prog S ε β) (began : Option Int)
    (ws : List (Cell S)) : Prop :=
  ∀ cs f, (∀ c ∈ cs, ok c) → Frame.run db ⟨p, began, ws⟩ cs = some f → ∀ e, f.prog ≠ .fail e

/-! What must be shown of a script, constructor by constructor. -/

section Rules

variable {ok : Choice → Prop} {db : Db S} {began : Option Int} {ws : List (Cell S)}

theorem neverFails_step {p : Prog S ε β} (hp : ∀ e, p ≠ .fail e)
    (h : ∀ c o, ok c → Frame.step db ⟨p, began, ws⟩ c = some o →
      NeverFails ok db o.frame.prog o.frame.began o.frame.writes) :
    NeverFails ok db p began ws := by
  intro cs f hcs hrun
  cases cs with
  | nil =>
    obtain rfl := Option.some.inj hrun
    exact hp
  | cons c cs =>
    simp only [Frame.run, Option.bind_eq_some_iff] at hrun
    obtain ⟨o, hs, hrun⟩ := hrun
    exact h c o (hcs c List.mem_cons_self) hs cs f (fun d hd => hcs d (List.mem_cons_of_mem _ hd))
      hrun

theorem neverFails_done {b : β} : NeverFails ok db (.done b : Prog S ε β) began ws := by
  refine neverFails_step (by simp) ?_
  intro c o _ hs
  rw [Frame.step_done rfl] at hs
  contradiction

theorem neverFails_now {k : Int → Prog S ε β}
    (h : ∀ t, ok (.clock t) → NeverFails ok db (k t) began ws) :
    NeverFails ok db (.now k) began ws := by
  refine neverFails_step (by simp) ?_
  intro c o hc hs
  obtain ⟨t, rfl, rfl⟩ := (Frame.step_now rfl).mp hs
  exact h t hc

theorem neverFails_begin {k : Prog S ε β} (h : ∀ t, NeverFails ok db k (some t) ws) :
    NeverFails ok db (.begin k) began ws := by
  refine neverFails_step (by simp) ?_
  intro c o _ hs
  obtain ⟨t, rfl, rfl⟩ := (Frame.step_begin rfl).mp hs
  exact h t

theorem neverFails_find {τ : S.Tab} {i : RowId} {k : Option (S.Row τ) → Prog S ε β}
    {r : S.Row τ} (hr : (db.apply ws).find τ i = some r)
    (h : NeverFails ok db (k (some r)) began ws) : NeverFails ok db (.find τ i k) began ws := by
  refine neverFails_step (by simp) ?_
  intro c o _ hs
  obtain ⟨rfl, rfl⟩ := (Frame.step_find rfl).mp hs
  rw [← hr] at h
  exact h

/-- A locking query that is bound to pick the row r. -/
theorem neverFails_findForUpdate {τ : S.Tab} {p : S.Row τ → Bool}
    {k : Option (S.Row τ) → Prog S ε β} {r : S.Row τ}
    (hpick : ∀ i, ok (.picked i) → i = some (S.key τ r))
    (hr : (db.apply ws).find τ (S.key τ r) = some r)
    (h : NeverFails ok db (k (some r)) began ws) :
    NeverFails ok db (.findForUpdate τ p k) began ws := by
  refine neverFails_step (by simp) ?_
  intro c o hc hs
  rcases (Frame.step_findForUpdate rfl).mp hs with ⟨i, row, rfl, hrow, _, rfl⟩ | ⟨rfl, _, _⟩
  · obtain rfl := Option.some.inj (hpick _ hc)
    obtain rfl := Option.some.inj (hr.symm.trans hrow)
    exact h
  · cases hpick _ hc

/-- An update of the version that is stored. -/
theorem neverFails_update {τ : S.Tab} {v : Nat} {r old : S.Row τ} {k : Bool → Prog S ε β}
    (hold : (db.apply ws).find τ (S.key τ r) = some old) (hv : S.version τ old = v)
    (h : NeverFails ok db (k true) began (ws ++ [⟨τ, r⟩])) :
    NeverFails ok db (.update τ v r k) began ws := by
  refine neverFails_step (by simp) ?_
  intro c o _ hs
  obtain ⟨_, ⟨_, _, _, rfl⟩ | ⟨hne, _⟩⟩ := (Frame.step_update rfl).mp hs
  · exact h
  · exact absurd hv (hne old hold)

theorem neverFails_save {τ : S.Tab} {r : S.Row τ} {k : Prog S ε β}
    (h : NeverFails ok db k began (ws ++ [⟨τ, r⟩])) : NeverFails ok db (.save τ r k) began ws := by
  refine neverFails_step (by simp) ?_
  intro c o _ hs
  obtain ⟨_, rfl⟩ := (Frame.step_save rfl).mp hs
  exact h

theorem neverFails_insert {τ : S.Tab} {build : RowId → Int → S.Row τ} {k : S.Row τ → Prog S ε β}
    (h : ∀ i t, NeverFails ok db (k (build i t)) (some t) (ws ++ [⟨τ, build i t⟩])) :
    NeverFails ok db (.insert τ build k) began ws := by
  refine neverFails_step (by simp) ?_
  intro c o _ hs
  obtain ⟨i, t, _, _, _, rfl⟩ := (Frame.step_insert rfl).mp hs
  exact h i t

end Rules

/-- A call that never fails commits whenever it ends. -/
theorem NeverFails.exec_ok {ok : Choice → Prop} {p : Prog S ε β} {db db' : Db S}
    {cs : List Choice} {result : Except ε β} (h : NeverFails ok db p none [])
    (hcs : ∀ c ∈ cs, ok c) (he : exec p db cs = some (result, db')) : ∃ b, result = .ok b := by
  cases result with
  | ok b => exact ⟨b, rfl⟩
  | error e =>
    unfold exec at he
    split at he
    · rename_i f hrun
      have hne := h cs f hcs hrun
      split at he
      · cases he
      · rename_i e' hfail
        exact absurd hfail (hne e')
      · contradiction
    · contradiction

end ReadCommitted
