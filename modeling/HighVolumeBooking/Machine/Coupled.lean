import HighVolumeBooking.Machine.Run

namespace Machine

variable {σ τ α β : Type}

/-- Two machines side by side. The state of each decides which labels of the
other may pass. -/
def coupled (step₁ : σ → α → Option σ) (step₂ : τ → β → Option τ) (gate₁ : τ → α → Bool)
    (gate₂ : σ → β → Bool) (s : σ × τ) : α ⊕ β → Option (σ × τ)
  | .inl a => if gate₁ s.2 a then (step₁ s.1 a).map fun m => (m, s.2) else none
  | .inr b => if gate₂ s.1 b then (step₂ s.2 b).map fun m => (s.1, m) else none

section Coupled

variable {step₁ : σ → α → Option σ} {step₂ : τ → β → Option τ} {gate₁ : τ → α → Bool}
  {gate₂ : σ → β → Bool} {s s' start : σ × τ} {as : List (α ⊕ β)}

theorem coupled_inl {a : α} : coupled step₁ step₂ gate₁ gate₂ s (.inl a) = some s' ↔
    gate₁ s.2 a = true ∧ step₁ s.1 a = some s'.1 ∧ s'.2 = s.2 := by
  obtain ⟨m, n⟩ := s'
  cases hg : gate₁ s.2 a <;>
    simp [coupled, hg, Option.map_eq_some_iff, Prod.ext_iff, @eq_comm _ n]

theorem coupled_inr {b : β} : coupled step₁ step₂ gate₁ gate₂ s (.inr b) = some s' ↔
    gate₂ s.1 b = true ∧ step₂ s.2 b = some s'.2 ∧ s'.1 = s.1 := by
  obtain ⟨m, n⟩ := s'
  cases hg : gate₂ s.1 b <;>
    simp [coupled, hg, Option.map_eq_some_iff, Prod.ext_iff, @eq_comm _ m, and_comm]

/-- Either machine by itself took its own labels. -/
theorem run_coupled (h : run (coupled step₁ step₂ gate₁ gate₂) start as = some s) :
    run step₁ start.1 (as.filterMap Sum.getLeft?) = some s.1 ∧
      run step₂ start.2 (as.filterMap Sum.getRight?) = some s.2 := by
  refine run_induction (fun as (s : σ × τ) =>
    run step₁ start.1 (as.filterMap Sum.getLeft?) = some s.1 ∧
      run step₂ start.2 (as.filterMap Sum.getRight?) = some s.2) ⟨rfl, rfl⟩ ?_ h
  intro as m x t _ hm hs
  obtain ⟨hleft, hright⟩ := hm
  rw [List.filterMap_append, List.filterMap_append]
  cases x with
  | inl a =>
    obtain ⟨_, hstep, hsame⟩ := coupled_inl.mp hs
    refine ⟨run_concat.mpr ⟨m.1, hleft, hstep⟩, ?_⟩
    rw [List.filterMap_cons_none rfl, List.filterMap_nil, List.append_nil, hsame]
    exact hright
  | inr b =>
    obtain ⟨_, hstep, hsame⟩ := coupled_inr.mp hs
    refine ⟨?_, run_concat.mpr ⟨m.2, hright, hstep⟩⟩
    rw [List.filterMap_cons_none rfl, List.filterMap_nil, List.append_nil, hsame]
    exact hleft

/-- What the first machine let pass, it still answers for, if it never takes
back what it vouched for. -/
theorem vouched (P : σ → β → Prop) (hgate : ∀ m b, gate₂ m b = true → P m b)
    (hkeep : ∀ m a t b, step₁ m a = some t → P m b → P t b)
    (h : run (coupled step₁ step₂ gate₁ gate₂) start as = some s) :
    ∀ b ∈ as.filterMap Sum.getRight?, P s.1 b := by
  refine run_induction (fun as (s : σ × τ) => ∀ b ∈ as.filterMap Sum.getRight?, P s.1 b)
    (by simp) ?_ h
  intro as m x t _ hm hs b hb
  rw [List.filterMap_append, List.mem_append] at hb
  cases x with
  | inl a =>
    obtain ⟨_, hstep, _⟩ := coupled_inl.mp hs
    rcases hb with hb | hb
    · exact hkeep m.1 a t.1 b hstep (hm b hb)
    · simp at hb
  | inr c =>
    obtain ⟨hpass, _, hsame⟩ := coupled_inr.mp hs
    rw [hsame]
    rcases hb with hb | hb
    · exact hm b hb
    · obtain rfl : b = c := by simpa using hb
      exact hgate m.1 b hpass

/-! The same two machines the other way round. -/

theorem coupled_swap {x : α ⊕ β} : coupled step₂ step₁ gate₂ gate₁ s.swap x.swap =
    (coupled step₁ step₂ gate₁ gate₂ s x).map Prod.swap := by
  cases x with
  | inl a => cases hg : gate₁ s.2 a <;> simp [coupled, hg, Function.comp_def]
  | inr b => cases hg : gate₂ s.1 b <;> simp [coupled, hg, Function.comp_def]

theorem run_swap (h : run (coupled step₁ step₂ gate₁ gate₂) start as = some s) :
    run (coupled step₂ step₁ gate₂ gate₁) start.swap (as.map Sum.swap) = some s.swap := by
  refine run_induction (fun as (s : σ × τ) =>
    run (coupled step₂ step₁ gate₂ gate₁) start.swap (as.map Sum.swap) = some s.swap) rfl ?_ h
  intro as m x t _ hm hs
  rw [List.map_append]
  exact run_concat.mpr ⟨m.swap, hm, by rw [coupled_swap, hs]; rfl⟩

theorem vouched_left (P : τ → α → Prop) (hgate : ∀ n a, gate₁ n a = true → P n a)
    (hkeep : ∀ n b t a, step₂ n b = some t → P n a → P t a)
    (h : run (coupled step₁ step₂ gate₁ gate₂) start as = some s) :
    ∀ a ∈ as.filterMap Sum.getLeft?, P s.2 a := by
  intro a ha
  have hright : (as.map Sum.swap).filterMap Sum.getRight? = as.filterMap Sum.getLeft? := by
    rw [List.filterMap_map]
    congr 1
    funext x
    cases x <;> rfl
  exact vouched P hgate hkeep (run_swap h) a (hright ▸ ha)

end Coupled

end Machine
