import HighVolumeBooking.ReadCommitted.Footprint

namespace ReadCommitted

variable {S : Schema} {ε β γ κ : Type}

/-- A script that fails with e only where cause holds of e, of the tables that it
has read last and of the clock readings that it has taken since. Between two
statements the tables change within R, and no table is read that was written
before. -/
def Explains (R : Db S → Db S → Prop) (cause : Db S → List Int → ε → Prop) :
    Db S → List Int → List S.Tab → Prog S ε β → Prop
  | _, _, _, .done _ => True
  | db, clock, _, .fail e => cause db clock e
  | db, clock, written, .now k => ∀ t, Explains R cause db (clock ++ [t]) written (k t)
  | db, clock, written, .begin k => Explains R cause db clock written k
  | db, _, written, .find τ i k => τ ∉ written ∧
      ∀ db', R db db' → Explains R cause db' [] written (k (db'.find τ i))
  | db, _, written, .findForUpdate τ p k => τ ∉ written ∧
      ∀ db', R db db' →
        ((db' τ).rows.any p = false → Explains R cause db' [] written (k none)) ∧
        ∀ r ∈ (db' τ).rows, p r = true → Explains R cause db' [] written (k (some r))
  | db, clock, written, .update τ _ _ k =>
      Explains R cause db clock written (k false) ∧
      Explains R cause db clock (τ :: written) (k true)
  | db, clock, written, .save τ _ k => Explains R cause db clock (τ :: written) k
  | db, clock, written, .insert τ build k =>
      ∀ i t, Explains R cause db clock (τ :: written) (k (build i t))

section Scripts

variable {R : Db S → Db S → Prop} {cause : Db S → List Int → ε → Prop} {db : Db S}
  {clock : List Int} {written : List S.Tab}

theorem Explains.throwIf {c : Prop} [Decidable c] {e : ε} {f : Unit → Prog S ε β}
    (he : c → cause db clock e) (hf : ¬ c → Explains R cause db clock written (f ())) :
    Explains R cause db clock written ((Prog.throwIf c e).bind f) := by
  rw [Prog.throwIf_bind]
  split
  · rename_i hc
    exact he hc
  · rename_i hc
    exact hf hc

theorem Explains.find {τ : S.Tab} {i : RowId} {k : Option (S.Row τ) → Prog S ε β}
    (hτ : τ ∉ written)
    (hnone : ∀ db', R db db' → db'.find τ i = none → Explains R cause db' [] written (k none))
    (hsome : ∀ db' r, R db db' → db'.find τ i = some r →
      Explains R cause db' [] written (k (some r))) :
    Explains R cause db clock written (.find τ i k) := by
  refine ⟨hτ, ?_⟩
  intro db' hdb
  cases hr : db'.find τ i with
  | none => exact hnone db' hdb hr
  | some r => exact hsome db' r hdb hr

end Scripts

/-- In the state u of the run the call of t was open, and since then it has taken
the clock readings. -/
def Sys.OpenSince (body : κ → Prog S ε β) (m : Sys S ε β κ) (as : List (Act κ)) (t : TxId)
    (call : κ) (u : Sys S ε β κ) (clock : List Int) : Prop :=
  ∃ past rest, as = past ++ rest ∧ Machine.run (Sys.step body) m past = some u ∧
    (∃ tx, u.running t = some tx ∧ tx.call = call) ∧ (∀ other, .start t other ∉ rest) ∧
    ∀ now ∈ clock, .stmt t (.clock now) ∈ rest

namespace Sys.OpenSince

variable {body : κ → Prog S ε β} {m u s : Sys S ε β κ} {as : List (Act κ)} {a : Act κ} {t : TxId}
  {call : κ} {clock : List Int} {tx : Tx S ε β κ}

theorem here (h : Machine.run (Sys.step body) m as = some u) (hr : u.running t = some tx) :
    OpenSince body m as t tx.call u [] :=
  ⟨as, [], by simp, h, ⟨tx, hr, rfl⟩, by simp, by simp⟩

theorem snoc (h : OpenSince body m as t call u clock) (ha : ∀ other, a ≠ .start t other) :
    OpenSince body m (as ++ [a]) t call u clock := by
  obtain ⟨past, rest, rfl, hu, hopen, hnew, hclock⟩ := h
  refine ⟨past, rest ++ [a], by simp, hu, hopen, ?_, ?_⟩
  · intro other hmem
    rcases mem_snoc.mp hmem with hmem | he
    · exact hnew other hmem
    · exact ha other he.symm
  · intro now hnow
    exact List.mem_append_left _ (hclock now hnow)

theorem read {now : Int} (h : OpenSince body m as t call u clock) :
    OpenSince body m (as ++ [.stmt t (.clock now)]) t call u (clock ++ [now]) := by
  obtain ⟨past, rest, rfl, hu, hopen, hnew, hclock⟩ := h
  refine ⟨past, rest ++ [.stmt t (.clock now)], by simp, hu, hopen, by simpa using hnew, ?_⟩
  intro now' hnow
  rcases mem_snoc.mp hnow with hnow | rfl
  · exact List.mem_append_left _ (hclock now' hnow)
  · exact List.mem_append_right _ (List.mem_singleton_self _)

end Sys.OpenSince

/-- What is left of an open call explains its failures by what the call has seen. -/
def Accountable (body : κ → Prog S ε β) (R : Db S → Db S → Prop)
    (cause : κ → Db S → List Int → ε → Prop) (m : Sys S ε β κ) (as : List (Act κ)) (t : TxId)
    (db : Db S) (tx : Tx S ε β κ) : Prop :=
  ∃ u clock written, Sys.OpenSince body m as t tx.call u clock ∧ R u.committed db ∧
    Explains R (cause tx.call) u.committed clock written tx.frame.prog ∧
    ∀ c ∈ tx.frame.writes, c.tab ∈ written

section Runs

variable {body : κ → Prog S ε β} {R : Db S → Db S → Prop} {cause : κ → Db S → List Int → ε → Prop}
  {start : Db S} {m s s' : Sys S ε β κ} {as : List (Act κ)} {t : TxId} {tx : Tx S ε β κ} {e : ε}

theorem Accountable.stmt {c : Choice} {o : Outcome S ε β} (h : Accountable body R cause m as t
    s.committed tx) (hrefl : ∀ db, R db db) (hm : Machine.run (Sys.step body) m as = some s)
    (hr : s.running t = some tx) (ho : tx.frame.step s.committed c = some o) :
    Accountable body R cause m (as ++ [.stmt t c]) t s.committed (tx.next c o) := by
  obtain ⟨u, clock, written, hopen, hu, hexpl, hwrites⟩ := h
  have hlater : Sys.OpenSince body m (as ++ [.stmt t c]) t tx.call u clock :=
    hopen.snoc fun other he => by contradiction
  have hnow : Sys.OpenSince body m (as ++ [.stmt t c]) t tx.call s [] :=
    (Sys.OpenSince.here hm hr).snoc fun other he => by contradiction
  cases hp : tx.frame.prog with
  | done b => simp [Frame.step_done hp] at ho
  | fail e => simp [Frame.step_fail hp] at ho
  | now k =>
    obtain ⟨now, rfl, rfl⟩ := (Frame.step_now hp).mp ho
    rw [hp] at hexpl
    exact ⟨u, clock ++ [now], written, hopen.read, hu, hexpl now, hwrites⟩
  | begin k =>
    obtain ⟨now, _, rfl⟩ := (Frame.step_begin hp).mp ho
    rw [hp] at hexpl
    exact ⟨u, clock, written, hlater, hu, hexpl, hwrites⟩
  | find τ i k =>
    obtain ⟨_, rfl⟩ := (Frame.step_find hp).mp ho
    rw [hp] at hexpl
    obtain ⟨hτ, hk⟩ := hexpl
    refine ⟨s, [], written, hnow, hrefl _, ?_, hwrites⟩
    show Explains _ _ _ _ _ (k ((Db.apply s.committed tx.frame.writes).find τ i))
    rw [find_unwritten hwrites hτ]
    exact hk s.committed hu
  | findForUpdate τ p k =>
    rw [hp] at hexpl
    obtain ⟨hτ, hk⟩ := hexpl
    obtain ⟨hnone, hsome⟩ := hk s.committed hu
    rcases (Frame.step_findForUpdate hp).mp ho with ⟨i, r, _, hfind, hpr, rfl⟩ | ⟨_, hany, rfl⟩
    · rw [find_unwritten hwrites hτ] at hfind
      exact ⟨s, [], written, hnow, hrefl _, hsome r (Table.find?_eq_some.mp hfind).1 hpr, hwrites⟩
    · have hview : Db.apply s.committed tx.frame.writes τ = s.committed τ :=
        Db.apply_other fun c hc he => hτ (he ▸ hwrites c hc)
      rw [hview] at hany
      exact ⟨s, [], written, hnow, hrefl _, hnone hany, hwrites⟩
  | update τ v r k =>
    rw [hp] at hexpl
    obtain ⟨hfalse, htrue⟩ := hexpl
    obtain ⟨_, ⟨old, _, _, rfl⟩ | ⟨_, rfl⟩⟩ := (Frame.step_update hp).mp ho
    · exact ⟨u, clock, τ :: written, hlater, hu, htrue, written_snoc hwrites⟩
    · exact ⟨u, clock, written, hlater, hu, hfalse, hwrites⟩
  | save τ r k =>
    obtain ⟨_, rfl⟩ := (Frame.step_save hp).mp ho
    rw [hp] at hexpl
    exact ⟨u, clock, τ :: written, hlater, hu, hexpl, written_snoc hwrites⟩
  | insert τ build k =>
    obtain ⟨i, at', _, _, _, rfl⟩ := (Frame.step_insert hp).mp ho
    rw [hp] at hexpl
    exact ⟨u, clock, τ :: written, hlater, hu, hexpl i at', written_snoc hwrites⟩

/-- Steps of others change the tables within R. -/
theorem Accountable.keep {a : Act κ} {db db' : Db S} (h : Accountable body R cause m as t db tx)
    (htrans : ∀ a b c, R a b → R b c → R a c) (hR : R db db') (ha : ∀ other, a ≠ .start t other) :
    Accountable body R cause m (as ++ [a]) t db' tx := by
  obtain ⟨u, clock, written, hopen, hu, hexpl, hwrites⟩ := h
  exact ⟨u, clock, written, hopen.snoc ha, htrans _ _ _ hu hR, hexpl, hwrites⟩

/-- Where every script explains its failures, a call that has failed with e had a
cause for e in the tables of some state since it was opened. -/
theorem Sys.cause_of_failed (hrefl : ∀ db, R db db) (htrans : ∀ a b c, R a b → R b c → R a c)
    (hR : ∀ u a u', Machine.Reachable (Sys.step body) (Sys.init start) u →
      Sys.step body u a = some u' → R u.committed u'.committed)
    (hbody : ∀ call db, Explains R (cause call) db [] [] (body call))
    (h : Machine.Reachable (Sys.step body) (Sys.init start) m) (hnew : m.running t = none)
    (hmore : Machine.run (Sys.step body) m as = some s) (hr : s.running t = some tx)
    (hfail : tx.frame.prog = .fail e) :
    ∃ u clock, Sys.OpenSince body m as t tx.call u clock ∧
      cause tx.call u.committed clock e := by
  have hall : ∀ tx, s.running t = some tx →
      Accountable body R cause m as t s.committed tx := by
    refine Machine.run_induction (fun as (s : Sys S ε β κ) => ∀ tx, s.running t = some tx →
      Accountable body R cause m as t s.committed tx) ?_ ?_ hmore
    · intro tx hr
      rw [hnew] at hr
      contradiction
    · intro as m' a s' hm ih hs tx hr
      obtain ⟨before, hbefore⟩ := h
      have hstep := hR m' a s' ⟨before ++ as, Machine.run_append.mpr ⟨m, hbefore, hm⟩⟩ hs
      have hrun : Machine.run (Sys.step body) m (as ++ [a]) = some s' :=
        Machine.run_append.mpr ⟨m', hm, by simp [Machine.run, hs]⟩
      have hkeep : ∀ tx, m'.running t = some tx → (∀ other, a ≠ .start t other) →
          Accountable body R cause m (as ++ [a]) t s'.committed tx :=
        fun tx hr ha => (ih tx hr).keep htrans hstep ha
      cases a with
      | start t' call =>
        obtain ⟨hfree, rfl⟩ := Sys.step_start hs
        rcases Sys.running_update hr with ⟨rfl, rfl⟩ | ⟨hne, hr⟩
        · refine ⟨_, [], [], .here hrun (Function.update_self ..), hrefl _, hbody call _, ?_⟩
          intro c hc
          contradiction
        · refine hkeep tx hr fun other he => hne ?_
          injection he with ht
          exact ht.symm
      | stmt t' c =>
        obtain ⟨ux, o, hux, ho, _, _, rfl⟩ := Sys.step_stmt hs
        rcases Sys.running_update hr with ⟨rfl, rfl⟩ | ⟨_, hr⟩
        · exact (ih ux hux).stmt hrefl hm hux ho
        · exact hkeep tx hr fun other he => by contradiction
      | commit t' =>
        obtain ⟨_, _, _, _, rfl⟩ := Sys.step_commit hs
        exact hkeep tx (Sys.running_end hr).2 fun other he => by contradiction
      | abort t' =>
        obtain ⟨_, _, rfl⟩ := Sys.step_abort hs
        exact hkeep tx (Sys.running_end hr).2 fun other he => by contradiction
  obtain ⟨u, clock, written, hopen, _, hexpl, _⟩ := hall tx hr
  rw [hfail] at hexpl
  exact ⟨u, clock, hopen, hexpl⟩

end Runs

end ReadCommitted
