import HighVolumeBooking.ReadCommitted.System

namespace ReadCommitted

variable {S : Schema} {ε β κ : Type}

/-- A script that fails with e only where an update has found another version. -/
def FailsByUpdate (e : ε) : Prog S ε β → Prop
  | .done _ => True
  | .fail e' => e' ≠ e
  | .now k => ∀ t, FailsByUpdate e (k t)
  | .begin k => FailsByUpdate e k
  | .find _ _ k => ∀ r, FailsByUpdate e (k r)
  | .findForUpdate _ _ k => ∀ r, FailsByUpdate e (k r)
  | .update _ _ _ k => FailsByUpdate e (k true)
  | .save _ _ k => FailsByUpdate e k
  | .insert _ build k => ∀ i t, FailsByUpdate e (k (build i t))

/-- The next statement is an update that affects no row. -/
def Frame.Misses (db : Db S) (f : Frame S ε β) : Prop :=
  ∃ τ v r k, f.prog = .update τ v r k ∧
    ∀ old, (db.apply f.writes).find τ (S.key τ r) = some old → S.version τ old ≠ v

section Scripts

variable {e : ε}

theorem FailsByUpdate.bind {γ : Type} {p : Prog S ε β} {f : β → Prog S ε γ}
    (hp : FailsByUpdate e p) (hf : ∀ b, FailsByUpdate e (f b)) : FailsByUpdate e (p.bind f) := by
  induction p with
  | done b => exact hf b
  | fail e' => exact hp
  | now k ih => exact fun t => ih t (hp t)
  | begin k ih => exact ih hp
  | find τ i k ih => exact fun r => ih r (hp r)
  | findForUpdate τ q k ih => exact fun r => ih r (hp r)
  | update τ v r k ih => exact ih true hp
  | save τ r k ih => exact ih hp
  | insert τ build k ih => exact fun i t => ih _ (hp i t)

theorem FailsByUpdate.step {db : Db S} {f : Frame S ε β} {c : Choice} {o : Outcome S ε β}
    (h : FailsByUpdate e f.prog) (hs : f.step db c = some o) :
    FailsByUpdate e o.frame.prog ∨ f.Misses db := by
  cases hp : f.prog with
  | done b => simp [Frame.step_done hp] at hs
  | fail e' => simp [Frame.step_fail hp] at hs
  | now k =>
    obtain ⟨t, _, rfl⟩ := (Frame.step_now hp).mp hs
    rw [hp] at h
    exact Or.inl (h t)
  | begin k =>
    obtain ⟨t, _, rfl⟩ := (Frame.step_begin hp).mp hs
    rw [hp] at h
    exact Or.inl h
  | find τ i k =>
    obtain ⟨_, rfl⟩ := (Frame.step_find hp).mp hs
    rw [hp] at h
    exact Or.inl (h _)
  | findForUpdate τ p k =>
    rw [hp] at h
    rcases (Frame.step_findForUpdate hp).mp hs with ⟨i, r, _, _, _, rfl⟩ | ⟨_, _, rfl⟩
    · exact Or.inl (h _)
    · exact Or.inl (h _)
  | update τ v r k =>
    rw [hp] at h
    obtain ⟨_, ⟨old, _, _, rfl⟩ | ⟨hmiss, rfl⟩⟩ := (Frame.step_update hp).mp hs
    · exact Or.inl h
    · exact Or.inr ⟨τ, v, r, k, hp, hmiss⟩
  | save τ r k =>
    obtain ⟨_, rfl⟩ := (Frame.step_save hp).mp hs
    rw [hp] at h
    exact Or.inl h
  | insert τ build k =>
    obtain ⟨i, t, _, _, _, rfl⟩ := (Frame.step_insert hp).mp hs
    rw [hp] at h
    exact Or.inl (h i t)

end Scripts

/-- A call that has failed with e came to an update that affected no row, after it
was opened. -/
theorem Sys.missed_of_failed {body : κ → Prog S ε β} {e : ε} {m s : Sys S ε β κ} {t : TxId}
    {tx : Tx S ε β κ} {as : List (Act κ)} (hbody : ∀ call, FailsByUpdate e (body call))
    (hnew : m.running t = none) (h : Machine.run (Sys.step body) m as = some s)
    (hr : s.running t = some tx) (hfail : tx.frame.prog = .fail e) :
    ∃ past u ux, past <+: as ∧ Machine.run (Sys.step body) m past = some u ∧
      u.running t = some ux ∧ ux.call = tx.call ∧ ux.frame.Misses u.committed := by
  -- each open transaction either fails by updates only, or has missed one
  have hall : ∀ tx, s.running t = some tx → FailsByUpdate e tx.frame.prog ∨
      ∃ past u ux, past <+: as ∧ Machine.run (Sys.step body) m past = some u ∧
        u.running t = some ux ∧ ux.call = tx.call ∧ ux.frame.Misses u.committed := by
    refine Machine.run_induction (fun as (s : Sys S ε β κ) => ∀ tx, s.running t = some tx →
      FailsByUpdate e tx.frame.prog ∨ ∃ past u ux, past <+: as ∧
        Machine.run (Sys.step body) m past = some u ∧ u.running t = some ux ∧
        ux.call = tx.call ∧ ux.frame.Misses u.committed) ?_ ?_ h
    · intro tx hr
      rw [hnew] at hr
      contradiction
    · intro as m' a s' hm ih hs tx hr
      have hkept : ∀ tx, m'.running t = some tx → FailsByUpdate e tx.frame.prog ∨
          ∃ past u ux, past <+: as ++ [a] ∧ Machine.run (Sys.step body) m past = some u ∧
            u.running t = some ux ∧ ux.call = tx.call ∧ ux.frame.Misses u.committed := by
        intro tx hr
        refine (ih tx hr).imp_right fun hmissed => ?_
        obtain ⟨past, u, ux, hpast, hu⟩ := hmissed
        exact ⟨past, u, ux, hpast.trans (List.prefix_append _ _), hu⟩
      cases a with
      | start t' call =>
        obtain ⟨_, rfl⟩ := Sys.step_start hs
        rcases Sys.running_update hr with ⟨_, rfl⟩ | ⟨_, hr⟩
        · exact Or.inl (hbody call)
        · exact hkept tx hr
      | stmt t' c =>
        obtain ⟨ux, o, hux, ho, _, _, rfl⟩ := Sys.step_stmt hs
        rcases Sys.running_update hr with ⟨rfl, rfl⟩ | ⟨_, hr⟩
        · rcases hkept ux hux with hfails | hmissed
          · refine (hfails.step ho).imp_right fun hmiss => ?_
            exact ⟨as, m', ux, List.prefix_append _ _, hm, hux, rfl, hmiss⟩
          · exact Or.inr hmissed
        · exact hkept tx hr
      | commit t' =>
        obtain ⟨_, _, _, _, rfl⟩ := Sys.step_commit hs
        exact hkept tx (Sys.running_end hr).2
      | abort t' =>
        obtain ⟨_, _, rfl⟩ := Sys.step_abort hs
        exact hkept tx (Sys.running_end hr).2
  rcases hall tx hr with hfails | hmissed
  · rw [hfail] at hfails
    exact absurd rfl hfails
  · exact hmissed

/-- What held of the tables before some calls and no longer holds after them was
ended by one of the calls. -/
theorem Serial.exists_end {body : κ → Prog S ε β} {start db db' : Db S}
    {log later : List (Entry β κ)} {P : Db S → Prop} (h : Serial body start log db)
    (h' : Serial body start (log ++ later) db') (hP : P db) (hend : ¬ P db') :
    ∃ pre e post m m', later = pre ++ e :: post ∧ Serial body start (log ++ pre) m ∧
      exec (body e.call) m e.choices = some (.ok e.result, m') ∧ P m ∧ ¬ P m' := by
  induction later using List.reverseRecOn generalizing db' with
  | nil =>
    rw [List.append_nil] at h'
    exact absurd (h.unique h' ▸ hP) hend
  | append_singleton later e ih =>
    rw [← List.append_assoc] at h'
    obtain ⟨m, hm, he⟩ := h'.of_snoc
    by_cases hPm : P m
    · exact ⟨later, e, [], m, db', rfl, hm, he, hPm, hend⟩
    · obtain ⟨pre, x, post, m₁, m₂, rfl, hrest⟩ := ih hm hPm
      exact ⟨pre, x, post ++ [e], m₁, m₂, by simp, hrest⟩

end ReadCommitted
