import HighVolumeBooking.ReadCommitted.Program

namespace ReadCommitted

variable {S : Schema} {ε β γ : Type}

/-- No continuation of the program commits. -/
def Doomed : Prog S ε β → Prop
  | .done _ => False
  | .fail _ => True
  | .now k => ∀ t, Doomed (k t)
  | .begin k => Doomed k
  | .find _ _ k => ∀ r, Doomed (k r)
  | .findForUpdate _ _ k => ∀ r, Doomed (k r)
  | .update _ _ _ k => ∀ b, Doomed (k b)
  | .save _ _ k => Doomed k
  | .insert _ _ k => ∀ r, Doomed (k r)

theorem Doomed.step {db : Db S} {f : Frame S ε β} {c : Choice} {o : Outcome S ε β}
    (h : Doomed f.prog) (hs : f.step db c = some o) : Doomed o.frame.prog := by
  cases hp : f.prog with
  | done b => simp [Frame.step_done hp] at hs
  | fail e => simp [Frame.step_fail hp] at hs
  | now k =>
    obtain ⟨t, _, rfl⟩ := (Frame.step_now hp).mp hs
    rw [hp] at h
    exact h t
  | begin k =>
    obtain ⟨t, _, rfl⟩ := (Frame.step_begin hp).mp hs
    rw [hp] at h
    exact h
  | find τ i k =>
    obtain ⟨_, rfl⟩ := (Frame.step_find hp).mp hs
    rw [hp] at h
    exact h _
  | findForUpdate τ p k =>
    rw [hp] at h
    rcases (Frame.step_findForUpdate hp).mp hs with ⟨i, r, _, _, _, rfl⟩ | ⟨_, _, rfl⟩
    · exact h _
    · exact h _
  | update τ v r k =>
    rw [hp] at h
    obtain ⟨_, ⟨old, _, _, rfl⟩ | ⟨_, rfl⟩⟩ := (Frame.step_update hp).mp hs
    · exact h _
    · exact h _
  | save τ r k =>
    obtain ⟨_, rfl⟩ := (Frame.step_save hp).mp hs
    rw [hp] at h
    exact h
  | insert τ build k =>
    obtain ⟨i, t, _, _, _, rfl⟩ := (Frame.step_insert hp).mp hs
    rw [hp] at h
    exact h _

theorem Doomed.run {db : Db S} {f g : Frame S ε β} {cs : List Choice} (h : Doomed f.prog)
    (hr : f.run db cs = some g) : Doomed g.prog := by
  induction cs generalizing f with
  | nil =>
    obtain rfl := Option.some.inj hr
    exact h
  | cons c cs ih =>
    simp only [Frame.run, Option.bind_eq_some_iff] at hr
    obtain ⟨o, hs, hr⟩ := hr
    exact ih (h.step hs) hr

/-- The tail of a script, after its last access to an existing row. -/
def InsertOnly : Prog S ε β → Prop
  | .done _ => True
  | .fail _ => True
  | .now k => ∀ t, InsertOnly (k t)
  | .begin k => InsertOnly k
  | .insert τ build k => S.access τ ≠ .frozen ∧ ∀ i t, InsertOnly (k (build i t))
  | _ => False

/-- A script that reads and locks first and only then inserts. It holds row
locks held, and seen are the rows it read without a lock and has not yet
written back under their version. A read that finds nothing, a locking query
that picks nothing and an update that affects nothing must end in a rollback:
none of them is protected until the commit. -/
def Guarded (held : List (Key S)) (seen : List (Cell S)) : Prog S ε β → Prop
  | .done _ => seen = []
  | .fail _ => True
  | .now k => ∀ t, Guarded held seen (k t)
  | .begin k => Guarded held seen k
  | .find τ i k =>
    match S.access τ with
    | .frozen => ∀ r, Guarded held seen (k r)
    | .optimistic =>
      (τ, i) ∉ held ∧ (∀ c ∈ seen, c.key ≠ (τ, i)) ∧ Doomed (k none) ∧
        ∀ r, S.key τ r = i → Guarded held (⟨τ, r⟩ :: seen) (k (some r))
    | .pessimistic => False
  | .findForUpdate τ p k =>
    S.access τ = .pessimistic ∧ Doomed (k none) ∧
      ∀ r, p r = true → Guarded ((τ, S.key τ r) :: held) seen (k (some r))
  | .update τ v r k =>
    Doomed (k false) ∧ S.version τ r = v + 1 ∧
      (∃ old, ⟨τ, old⟩ ∈ seen ∧ S.key τ old = S.key τ r ∧ S.version τ old = v) ∧
      Guarded ((τ, S.key τ r) :: held) (seen.filter fun c => c.key ≠ (τ, S.key τ r)) (k true)
  | .save τ r k => S.access τ = .pessimistic ∧ (τ, S.key τ r) ∈ held ∧ Guarded held seen k
  | .insert τ build k => seen = [] ∧ S.access τ ≠ .frozen ∧ ∀ i t, InsertOnly (k (build i t))

/-- A script that at most reads the clock or fails, with results in Q: the
domain methods between two queries. -/
def ClockOnly (Q : β → Prop) : Prog S ε β → Prop
  | .done b => Q b
  | .fail _ => True
  | .now k => ∀ t, ClockOnly Q (k t)
  | _ => False

@[simp] theorem clockOnly_ite {Q : β → Prop} {c : Prop} [Decidable c] {p q : Prog S ε β} :
    ClockOnly Q (if c then p else q) ↔ (c → ClockOnly Q p) ∧ (¬ c → ClockOnly Q q) := by
  by_cases h : c <;> simp [h]

theorem InsertOnly.guarded {held : List (Key S)} {p : Prog S ε β} (h : InsertOnly p) :
    Guarded held [] p := by
  induction p with
  | done b => rfl
  | fail e => exact True.intro
  | now k ih => exact fun t => ih t (h t)
  | begin k ih => exact ih h
  | insert τ build k ih => exact ⟨rfl, h.1, h.2⟩
  | find τ i k => exact h.elim
  | findForUpdate τ q k => exact h.elim
  | update τ v r k => exact h.elim
  | save τ r k => exact h.elim

theorem InsertOnly.bind_clockOnly {Q : β → Prop} {p : Prog S ε β} {f : β → Prog S ε γ}
    (hp : ClockOnly Q p) (hf : ∀ b, Q b → InsertOnly (f b)) : InsertOnly (p.bind f) := by
  induction p with
  | done b => exact hf b hp
  | fail e => exact True.intro
  | now k ih => exact fun t => ih t (hp t)
  | begin k => exact hp.elim
  | find τ i k => exact hp.elim
  | findForUpdate τ q k => exact hp.elim
  | update τ v r k => exact hp.elim
  | save τ r k => exact hp.elim
  | insert τ build k => exact hp.elim

theorem Guarded.bind_clockOnly {held : List (Key S)} {seen : List (Cell S)} {Q : β → Prop}
    {p : Prog S ε β} {f : β → Prog S ε γ} (hp : ClockOnly Q p)
    (hf : ∀ b, Q b → Guarded held seen (f b)) : Guarded held seen (p.bind f) := by
  induction p with
  | done b => exact hf b hp
  | fail e => exact True.intro
  | now k ih => exact fun t => ih t (hp t)
  | begin k => exact hp.elim
  | find τ i k => exact hp.elim
  | findForUpdate τ q k => exact hp.elim
  | update τ v r k => exact hp.elim
  | save τ r k => exact hp.elim
  | insert τ build k => exact hp.elim

/-- Reading a row, changing it and writing it back under its version. -/
theorem Guarded.update_read {held : List (Key S)} {τ : S.Tab} {old new : S.Row τ}
    {k : Bool → Prog S ε β} (hkey : S.key τ old = S.key τ new)
    (hver : S.version τ new = S.version τ old + 1) (hfail : Doomed (k false))
    (hk : Guarded ((τ, S.key τ new) :: held) [] (k true)) :
    Guarded held [⟨τ, old⟩] (.update τ (S.version τ old) new k) := by
  refine ⟨hfail, hver, ⟨old, List.mem_cons_self, hkey, rfl⟩, ?_⟩
  simpa [Cell.key, hkey] using hk

end ReadCommitted
