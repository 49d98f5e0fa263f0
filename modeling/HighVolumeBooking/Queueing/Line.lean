import Mathlib.Data.List.Nodup
import Mathlib.Data.List.Pairwise
import Mathlib.Data.List.Perm.Subperm
import Mathlib.Data.List.Induction

namespace Queueing

/-- Who comes to a line, and who leaves it together. -/
inductive Event (α : Type) where
  | join (x : α)
  | leave (batch : List α)
  deriving DecidableEq, Repr

variable {α : Type} [DecidableEq α]

def next (line : List α) : Event α → List α
  | .join x => line ++ [x]
  | .leave batch => line.filter fun x => x ∉ batch

/-- Those who are in line, in the order they came. -/
def line (events : List (Event α)) : List α := events.foldl next []

/-- Nobody leaves while somebody who came before him stays. -/
def Fair (waiting batch : List α) : Prop := waiting.Pairwise fun u v => v ∈ batch → u ∈ batch

/-- First in, first out. -/
def InOrder (events : List (Event α)) : Prop :=
  ∀ past batch, past ++ [.leave batch] <+: events → Fair (line past) batch

section Lemmas

variable {events : List (Event α)} {waiting batch : List α} {x : α}

@[simp] theorem line_nil : line ([] : List (Event α)) = [] := rfl

@[simp] theorem line_join : line (events ++ [.join x]) = line events ++ [x] := by
  simp [line, next]

@[simp] theorem line_leave :
    line (events ++ [.leave batch]) = (line events).filter fun x => x ∉ batch := by
  simp [line, next]

omit [DecidableEq α] in
theorem fair_iff : Fair waiting batch ↔ ∀ u v, [u, v].Sublist waiting → v ∈ batch → u ∈ batch := by
  rw [Fair, List.pairwise_iff_forall_sublist]

omit [DecidableEq α] in
@[simp] theorem fair_nil : Fair waiting [] := by simp [fair_iff]

omit [DecidableEq α] in
/-- Who comes after a batch was drawn up changes nothing about it. -/
theorem fair_concat (hx : x ∉ batch) : Fair (waiting ++ [x]) batch ↔ Fair waiting batch := by
  rw [Fair, List.pairwise_append]
  constructor
  · intro h
    exact h.1
  · intro h
    refine ⟨h, List.pairwise_singleton _ _, ?_⟩
    intro u _ v hv hmem
    rw [List.mem_singleton.mp hv] at hmem
    exact absurd hmem hx

theorem inOrder_nil : InOrder ([] : List (Event α)) := by
  intro past batch h
  have hnil := List.prefix_nil.mp h
  simp at hnil

theorem inOrder_join : InOrder (events ++ [.join x]) ↔ InOrder events := by
  constructor
  · intro h past batch hp
    exact h past batch (hp.trans (List.prefix_append _ _))
  · intro h past batch hp
    rcases List.prefix_concat_iff.mp hp with heq | hp
    · have hlast := (List.append_inj' heq rfl).2
      simp at hlast
    · exact h past batch hp

theorem inOrder_leave :
    InOrder (events ++ [.leave batch]) ↔ InOrder events ∧ Fair (line events) batch := by
  constructor
  · intro h
    refine ⟨?_, h events batch List.prefix_rfl⟩
    intro past batch' hp
    exact h past batch' (hp.trans (List.prefix_append _ _))
  · rintro ⟨h, hfair⟩ past batch' hp
    rcases List.prefix_concat_iff.mp hp with heq | hp
    · obtain ⟨rfl, hlast⟩ := List.append_inj' heq rfl
      simp only [List.cons.injEq, Event.leave.injEq, and_true] at hlast
      rw [hlast]
      exact hfair
    · exact h past batch' hp

/-- Distinct elements, each from the batch of one of the runs. -/
theorem length_le_of_batches {ι : Type} {runs : List ι} {read : ι → List α → Prop} {n : Nat}
    (hread : ∀ i batch batch', read i batch → read i batch' → batch = batch')
    (hn : ∀ i batch, read i batch → batch.length ≤ n) {xs : List α} (hnodup : xs.Nodup)
    (hxs : ∀ x ∈ xs, ∃ i ∈ runs, ∃ batch, read i batch ∧ x ∈ batch) :
    xs.length ≤ n * runs.length := by
  induction runs generalizing xs with
  | nil =>
    have hnil : xs = [] := by
      refine List.eq_nil_iff_forall_not_mem.mpr fun x hx => ?_
      obtain ⟨i, hi, _⟩ := hxs x hx
      simp at hi
    simp [hnil]
  | cons i runs ih =>
    by_cases hi : ∃ batch, read i batch
    · obtain ⟨batch, hbatch⟩ := hi
      have hmine : (xs.filter fun x => x ∈ batch).length ≤ n := by
        have hsub : (xs.filter fun x => x ∈ batch) ⊆ batch := by
          intro x hx
          simpa using (List.mem_filter.mp hx).2
        exact Nat.le_trans ((hnodup.filter _).subperm hsub).length_le (hn i batch hbatch)
      have hothers : (xs.filter fun x => x ∉ batch).length ≤ n * runs.length := by
        refine ih (hnodup.filter _) fun x hx => ?_
        obtain ⟨hx, hnot⟩ := List.mem_filter.mp hx
        obtain ⟨j, hj, batch', hread', hmem⟩ := hxs x hx
        rcases List.mem_cons.mp hj with rfl | hj
        · rw [hread j batch' batch hread' hbatch] at hmem
          simp [hmem] at hnot
        · exact ⟨j, hj, batch', hread', hmem⟩
      have hsplit := List.length_eq_length_filter_add (l := xs) (fun x => decide (x ∈ batch))
      have hcount : n * (i :: runs).length = n * runs.length + n := Nat.mul_succ n runs.length
      simp only [decide_not] at hothers
      omega
    · refine Nat.le_trans (ih hnodup fun x hx => ?_)
        (Nat.mul_le_mul_left n (Nat.le_succ runs.length))
      obtain ⟨j, hj, batch, hread', hmem⟩ := hxs x hx
      rcases List.mem_cons.mp hj with rfl | hj
      · exact absurd ⟨batch, hread'⟩ hi
      · exact ⟨j, hj, batch, hread', hmem⟩

end Lemmas

end Queueing
