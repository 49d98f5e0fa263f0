import HighVolumeBooking.ReadCommitted.Serializable

namespace ReadCommitted

/-- A call that runs while no other does. -/
structure Attempt (κ : Type) where
  call : κ
  choices : List Choice

def Attempt.clocks {κ : Type} (a : Attempt κ) : List Int := a.choices.filterMap Choice.clock?

/-- The database between two calls, with the log of those that succeeded. -/
structure Desk (S : Schema) (β κ : Type) where
  db : Db S
  log : List (Entry β κ)

variable {S : Schema} {ε β κ : Type}

namespace Desk

def init (db : Db S) : Desk S β κ := ⟨db, []⟩

/-- One whole call. When it fails nothing is committed. -/
def step (body : κ → Prog S ε β) (d : Desk S β κ) (a : Attempt κ) : Option (Desk S β κ) :=
  match exec (body a.call) d.db a.choices with
  | some (.ok b, db) => some ⟨db, d.log ++ [⟨a.call, a.choices, b⟩]⟩
  | some (.error _, db) => some ⟨db, d.log⟩
  | none => none

variable {body : κ → Prog S ε β} {start : Db S} {d d' : Desk S β κ} {a : Attempt κ}
  {as : List (Attempt κ)}

theorem step_cases (h : step body d a = some d') :
    d' = d ∨ ∃ e : Entry β κ, exec (body e.call) d.db e.choices = some (.ok e.result, d'.db) ∧
      d'.log = d.log ++ [e] ∧ e.clocks = a.clocks := by
  unfold step at h
  split at h
  · rename_i b db he
    obtain rfl := Option.some.inj h
    exact Or.inr ⟨⟨a.call, a.choices, b⟩, he, rfl, rfl⟩
  · rename_i he
    obtain rfl := Option.some.inj h
    rw [exec_error he]
    exact Or.inl rfl
  · contradiction

/-- Calls one after another are a serial run of those that succeeded. -/
theorem serial (h : Machine.run (step body) (init start) as = some d) :
    Serial body start d.log d.db := by
  refine Machine.run_induction (fun _ d => Serial body start d.log d.db) .nil ?_ h
  intro _ m a d' _ hm hs
  rcases step_cases hs with rfl | ⟨e, he, hlog, _⟩
  · exact hm
  · rw [hlog]
    exact hm.snoc he

theorem log_prefix (h : Machine.run (step body) d as = some d') : d.log <+: d'.log := by
  refine Machine.run_induction (fun _ m => d.log <+: m.log) List.prefix_rfl ?_ h
  intro _ m a m' _ hm hs
  rcases step_cases hs with rfl | ⟨e, _, hlog, _⟩
  · exact hm
  · rw [hlog]
    exact hm.trans (List.prefix_append _ _)

theorem mem_clocks (h : Machine.run (step body) (init start) as = some d) :
    ∀ e ∈ d.log, ∀ u ∈ e.clocks, u ∈ as.flatMap Attempt.clocks := by
  refine Machine.run_induction (fun as (d : Desk S β κ) =>
    ∀ e ∈ d.log, ∀ u ∈ e.clocks, u ∈ as.flatMap Attempt.clocks) (by simp [init]) ?_ h
  intro as m a d' _ hm hs e he u hu
  rw [List.flatMap_append, List.mem_append]
  rcases step_cases hs with rfl | ⟨x, _, hlog, hx⟩
  · exact Or.inl (hm e he u hu)
  · rw [hlog] at he
    rcases mem_snoc.mp he with he | rfl
    · exact Or.inl (hm e he u hu)
    · exact Or.inr (by simpa [hx] using hu)

end Desk

end ReadCommitted
