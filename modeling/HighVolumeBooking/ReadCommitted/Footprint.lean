import HighVolumeBooking.ReadCommitted.Discipline
import HighVolumeBooking.ReadCommitted.System

namespace ReadCommitted

variable {S : Schema} {ε β κ : Type}

/-- Every stored row satisfies P. -/
def Db.Each (P : (τ : S.Tab) → S.Row τ → Prop) (db : Db S) : Prop :=
  ∀ τ, ∀ r ∈ (db τ).rows, P τ r

/-- A script that locks rows of K only, and updates a row under the version that it
has read, where P holds of the stored rows. No table is read or updated that was
written before, and none of those in written. -/
def Within (K : Key S → Prop) (P : (τ : S.Tab) → S.Row τ → Prop) (written : List S.Tab) :
    Prog S ε β → Prop
  | .done _ => True
  | .fail _ => True
  | .now k => ∀ t, Within K P written (k t)
  | .begin k => Within K P written k
  | .find τ i k => τ ∉ written ∧ Within K P written (k none) ∧
      ∀ r, P τ r → S.key τ r = i → Within K P written (k (some r))
  | .findForUpdate τ p k => τ ∉ written ∧ Within K P written (k none) ∧
      ∀ r, P τ r → p r = true → K (τ, S.key τ r) ∧ Within K P written (k (some r))
  | .update τ v r k => S.access τ = .optimistic ∧ τ ∉ written ∧ K (τ, S.key τ r) ∧
      (∃ old, P τ old ∧ S.key τ old = S.key τ r ∧ S.version τ old = v) ∧
      Within K P written (k false) ∧ Within K P (τ :: written) (k true)
  | .save τ r k => K (τ, S.key τ r) ∧ Within K P (τ :: written) k
  | .insert τ build k => ∀ i t, Within K P (τ :: written) (k (build i t))

section Scripts

variable {K : Key S → Prop} {P : (τ : S.Tab) → S.Row τ → Prop} {written : List S.Tab}

theorem InsertOnly.within {p : Prog S ε β} (h : InsertOnly p) : Within K P written p := by
  induction p generalizing written with
  | done b => exact True.intro
  | fail e => exact True.intro
  | now k ih => exact fun t => ih t (h t)
  | begin k ih => exact ih h
  | insert τ build k ih => exact fun i t => ih _ (h.2 i t)
  | find τ i k => exact h.elim
  | findForUpdate τ q k => exact h.elim
  | update τ v r k => exact h.elim
  | save τ r k => exact h.elim

theorem Within.bind_clockOnly {γ : Type} {Q : β → Prop} {p : Prog S ε β} {f : β → Prog S ε γ}
    (hp : ClockOnly Q p) (hf : ∀ b, Q b → Within K P written (f b)) :
    Within K P written (p.bind f) := by
  induction p with
  | done b => exact hf b hp
  | fail e => exact True.intro
  | now k ih => exact fun t => ih t (hp t)
  | begin k => exact hp.elim
  | find τ i k => exact hp.elim
  | findForUpdate τ q k => exact hp.elim
  | update τ v r k => exact hp.elim
  | save τ r k => exact hp.elim
  | insert τ build k => exact hp.elim

/-- What is left of an open transaction stays within K, given what it has written. -/
def Confined (K : Key S → Prop) (P : (τ : S.Tab) → S.Row τ → Prop) (f : Frame S ε β) : Prop :=
  ∃ written, Within K P written f.prog ∧ ∀ c ∈ f.writes, c.tab ∈ written

theorem Confined.start {p : Prog S ε β} (h : Within K P [] p) : Confined K P (Frame.start p) :=
  ⟨[], h, fun _ hc => by contradiction⟩

theorem written_snoc {cs : List (Cell S)} {τ : S.Tab} {r : S.Row τ}
    (hwrites : ∀ c ∈ cs, c.tab ∈ written) : ∀ c ∈ cs ++ [⟨τ, r⟩], c.tab ∈ τ :: written := by
  intro c hc
  rcases mem_snoc.mp hc with hc | rfl
  · exact List.mem_cons_of_mem _ (hwrites c hc)
  · exact List.mem_cons_self

/-- A table that was not written shows what is stored. -/
theorem find_unwritten {db : Db S} {cs : List (Cell S)} {τ : S.Tab} {i : RowId}
    (hwrites : ∀ c ∈ cs, c.tab ∈ written) (hτ : τ ∉ written) :
    (db.apply cs).find τ i = db.find τ i :=
  Db.find_apply_other fun c hc he => hτ (he ▸ hwrites c hc)

theorem stored_of_find {db : Db S} {f : Frame S ε β} {τ : S.Tab} {i : RowId} {r : S.Row τ}
    (hdb : db.Each P) (hwrites : ∀ c ∈ f.writes, c.tab ∈ written) (hτ : τ ∉ written)
    (h : (db.apply f.writes).find τ i = some r) : P τ r ∧ S.key τ r = i := by
  rw [find_unwritten hwrites hτ] at h
  obtain ⟨hmem, hkey⟩ := Table.find?_eq_some.mp h
  exact ⟨hdb τ r hmem, hkey⟩

/-- What an update is compared with is stored, and was read under the version that
it expects. -/
theorem Confined.update {f : Frame S ε β} {τ : S.Tab} {v : Nat} {r : S.Row τ}
    {k : Bool → Prog S ε β} (h : Confined K P f) (hp : f.prog = .update τ v r k) :
    S.access τ = .optimistic ∧ K (τ, S.key τ r) ∧
      (∃ old, P τ old ∧ S.key τ old = S.key τ r ∧ S.version τ old = v) ∧
      ∀ (db : Db S) i, (db.apply f.writes).find τ i = db.find τ i := by
  obtain ⟨written, hw, hwrites⟩ := h
  rw [hp] at hw
  obtain ⟨hacc, hτ, hK, hold, _, _⟩ := hw
  exact ⟨hacc, hK, hold, fun _ _ => find_unwritten hwrites hτ⟩

/-- A statement locks rows of K only, and what follows stays within K. -/
theorem Confined.step {db : Db S} {f : Frame S ε β} {c : Choice} {o : Outcome S ε β}
    (h : Confined K P f) (hdb : db.Each P) (hs : f.step db c = some o) :
    Confined K P o.frame ∧ ∀ k ∈ o.locks, K k := by
  obtain ⟨written, hw, hwrites⟩ := h
  have hnone : ∀ k ∈ ([] : List (Key S)), K k := by simp
  have hone : ∀ q : Key S, K q → ∀ k ∈ [q], K k := by
    intro q hq k hk
    obtain rfl := List.mem_singleton.mp hk
    exact hq
  cases hp : f.prog with
  | done b => simp [Frame.step_done hp] at hs
  | fail e => simp [Frame.step_fail hp] at hs
  | now k =>
    obtain ⟨t, _, rfl⟩ := (Frame.step_now hp).mp hs
    rw [hp] at hw
    exact ⟨⟨written, hw t, hwrites⟩, hnone⟩
  | begin k =>
    obtain ⟨t, _, rfl⟩ := (Frame.step_begin hp).mp hs
    rw [hp] at hw
    exact ⟨⟨written, hw, hwrites⟩, hnone⟩
  | find τ i k =>
    obtain ⟨_, rfl⟩ := (Frame.step_find hp).mp hs
    rw [hp] at hw
    obtain ⟨hτ, hmissing, hsome⟩ := hw
    refine ⟨⟨written, ?_, hwrites⟩, hnone⟩
    cases hr : (db.apply f.writes).find τ i with
    | none => exact hmissing
    | some r =>
      obtain ⟨hP, hkey⟩ := stored_of_find hdb hwrites hτ hr
      exact hsome r hP hkey
  | findForUpdate τ p k =>
    rw [hp] at hw
    obtain ⟨hτ, hmissing, hsome⟩ := hw
    rcases (Frame.step_findForUpdate hp).mp hs with ⟨i, r, _, hr, hpr, rfl⟩ | ⟨_, _, rfl⟩
    · obtain ⟨hP, rfl⟩ := stored_of_find hdb hwrites hτ hr
      obtain ⟨hK, hk⟩ := hsome r hP hpr
      exact ⟨⟨written, hk, hwrites⟩, hone _ hK⟩
    · exact ⟨⟨written, hmissing, hwrites⟩, hnone⟩
  | update τ v r k =>
    rw [hp] at hw
    obtain ⟨_, _, hK, _, hfalse, htrue⟩ := hw
    obtain ⟨_, ⟨old, _, _, rfl⟩ | ⟨_, rfl⟩⟩ := (Frame.step_update hp).mp hs
    · exact ⟨⟨τ :: written, htrue, written_snoc hwrites⟩, hone _ hK⟩
    · exact ⟨⟨written, hfalse, hwrites⟩, hnone⟩
  | save τ r k =>
    rw [hp] at hw
    obtain ⟨hK, hk⟩ := hw
    obtain ⟨_, rfl⟩ := (Frame.step_save hp).mp hs
    exact ⟨⟨τ :: written, hk, written_snoc hwrites⟩, hone _ hK⟩
  | insert τ build k =>
    obtain ⟨i, t, _, _, _, rfl⟩ := (Frame.step_insert hp).mp hs
    rw [hp] at hw
    exact ⟨⟨τ :: written, hw i t, written_snoc hwrites⟩, hnone⟩

end Scripts

/-- Every call of T stays within its own rows, and owns no others. -/
structure LocksWithin (T : TxId → Prop) (K : κ → Key S → Prop) (P : (τ : S.Tab) → S.Row τ → Prop)
    (s : Sys S ε β κ) : Prop where
  owned : ∀ k t, T t → s.owner k = some t → ∃ tx, s.running t = some tx ∧ K tx.call k
  confined : ∀ t tx, T t → s.running t = some tx → Confined (K tx.call) P tx.frame

namespace LocksWithin

variable {T : TxId → Prop} {K : κ → Key S → Prop} {P : (τ : S.Tab) → S.Row τ → Prop}
  {body : κ → Prog S ε β} {m s s' : Sys S ε β κ} {t : TxId}

theorem of_unopened (hrunning : ∀ t, T t → m.running t = none)
    (howner : ∀ k t, T t → m.owner k ≠ some t) : LocksWithin T K P m where
  owned := fun k t ht hk => absurd hk (howner k t ht)
  confined := by
    intro t tx ht hr
    rw [hrunning t ht] at hr
    contradiction

theorem release {committed : Db S} {log : List (Entry β κ)} (h : LocksWithin T K P s) :
    LocksWithin T K P { s with
      committed := committed
      running := Function.update s.running t none
      owner := Sys.release s.owner t
      log := log } := by
  constructor
  · intro k u hT hk
    obtain ⟨hk, hne⟩ := Sys.owner_of_release hk
    obtain ⟨tx, hr, hK⟩ := h.owned k u hT hk
    exact ⟨tx, by simpa [hne] using hr, hK⟩
  · intro u ux hT hu
    exact h.confined u ux hT (Sys.running_end hu).2

theorem step_start {call : κ} (h : LocksWithin T K P s)
    (hbody : Within (K call) P [] (body call))
    (hs : Sys.step body s (.start t call) = some s') : LocksWithin T K P s' := by
  obtain ⟨hnone, rfl⟩ := Sys.step_start hs
  constructor
  · intro k u hT hk
    obtain ⟨tx, hr, hK⟩ := h.owned k u hT hk
    have hne : u ≠ t := by
      intro he
      rw [he, hnone] at hr
      contradiction
    exact ⟨tx, by simpa [hne] using hr, hK⟩
  · intro u ux hT hu
    rcases Sys.running_update hu with ⟨_, rfl⟩ | ⟨_, hu⟩
    · exact .start hbody
    · exact h.confined u ux hT hu

theorem step_stmt {c : Choice} (h : LocksWithin T K P s) (hdb : s.committed.Each P)
    (hs : Sys.step body s (.stmt t c) = some s') : LocksWithin T K P s' := by
  obtain ⟨tx, o, hr, ho, _, _, rfl⟩ := Sys.step_stmt hs
  constructor
  · intro k u hT hk
    by_cases hin : k ∈ o.locks
    · obtain rfl : t = u := by simpa [Sys.lock, hin] using hk
      exact ⟨tx.next c o, Function.update_self ..,
        ((h.confined t tx hT hr).step hdb ho).2 k hin⟩
    · obtain ⟨ux, hu, hK⟩ := h.owned k u hT (by simpa [Sys.lock, hin] using hk)
      by_cases hut : u = t
      · subst hut
        obtain rfl := Option.some.inj (hr.symm.trans hu)
        exact ⟨tx.next c o, Function.update_self .., hK⟩
      · exact ⟨ux, by simpa [hut] using hu, hK⟩
  · intro u ux hT hu
    rcases Sys.running_update hu with ⟨rfl, rfl⟩ | ⟨_, hu⟩
    · exact ((h.confined u tx hT hr).step hdb ho).1
    · exact h.confined u ux hT hu

theorem step {a : Act κ} (h : LocksWithin T K P s)
    (hbody : ∀ call, Within (K call) P [] (body call)) (hdb : s.committed.Each P)
    (hs : Sys.step body s a = some s') : LocksWithin T K P s' := by
  cases a with
  | start t call => exact h.step_start (hbody call) hs
  | stmt t c => exact h.step_stmt hdb hs
  | commit t =>
    obtain ⟨_, _, _, _, rfl⟩ := Sys.step_commit hs
    exact h.release
  | abort t =>
    obtain ⟨_, _, rfl⟩ := Sys.step_abort hs
    exact h.release

/-- A run over stored rows that all satisfy P. -/
theorem run {as : List (Act κ)} (hm : LocksWithin T K P m)
    (hbody : ∀ call, Within (K call) P [] (body call))
    (h : Machine.run (Sys.step body) m as = some s)
    (hdb : Machine.Throughout (Sys.step body) (fun u => u.committed.Each P) m as) :
    LocksWithin T K P s := by
  refine Machine.run_induction (fun as (u : Sys S ε β κ) => Machine.Throughout (Sys.step body)
    (fun u => u.committed.Each P) m as → LocksWithin T K P u) (fun _ => hm) ?_ h hdb
  intro as u a u' hu ih hs hall
  have hpast : ∀ past, past <+: as → past <+: as ++ [a] :=
    fun past h => h.trans (List.prefix_append _ _)
  exact (ih fun past q hp hq => hall past q (hpast past hp) hq).step hbody
    (hall as u (hpast as List.prefix_rfl) hu) hs

/-- A statement that has to wait for a lock waits for a call that has the row in
common with its own. -/
theorem of_blocked {tx : Tx S ε β κ} {c : Choice} {o : Outcome S ε β}
    (h : LocksWithin (fun _ => True) K P s) (hdb : s.committed.Each P) (hr : s.running t = some tx)
    (ho : tx.frame.step s.committed c = some o) (hblocked : s.free t o.locks = false) :
    ∃ u ux k, u ≠ t ∧ s.running u = some ux ∧ K tx.call k ∧ K ux.call k := by
  obtain ⟨k, hk, u, hne, hu⟩ := Sys.held_of_not_free hblocked
  obtain ⟨ux, hux, hK⟩ := h.owned k u trivial hu
  exact ⟨u, ux, k, hne, hux, ((h.confined t tx trivial hr).step hdb ho).2 k hk, hK⟩

end LocksWithin

end ReadCommitted
