import HighVolumeBooking.ReadCommitted.Table
import Mathlib.Data.Int.Interval
import Mathlib.Data.List.Sort

namespace ReadCommitted.Table

variable {ρ : Type} {key : ρ → RowId} {t : Table key} {rs : List ρ} {x : ρ}

/-- The rows in the order of their keys. -/
def ordered (t : Table key) : List ρ := t.rows.insertionSort fun a b => key a ≤ key b

/-- Stores the rows one after the other. -/
def putAll (t : Table key) (rs : List ρ) : Table key := rs.foldl put t

theorem mem_ordered : x ∈ t.ordered ↔ x ∈ t.rows := List.mem_insertionSort _

theorem pairwise_ordered (t : Table key) : t.ordered.Pairwise fun a b => key a < key b := by
  have : Std.Total fun a b : ρ => key a ≤ key b := ⟨fun a b => le_total (key a) (key b)⟩
  have : IsTrans ρ fun a b => key a ≤ key b := ⟨fun _ _ _ => le_trans⟩
  have hsorted : t.ordered.Pairwise fun a b => key a ≤ key b := List.pairwise_insertionSort _ t.rows
  have hperm : t.ordered.Perm t.rows := List.perm_insertionSort _ t.rows
  have hne : t.ordered.Pairwise fun a b => key a ≠ key b :=
    List.pairwise_map.mp ((hperm.map key).nodup_iff.mpr t.unique)
  exact (hsorted.and hne).imp fun h => lt_of_le_of_ne h.1 h.2

/-- The first of some rows in order has the least key. -/
theorem key_le_of_head? {p : ρ → Bool} {r : ρ} (h : (t.ordered.filter p).head? = some r)
    (hx : x ∈ t.rows) (hp : p x = true) : key r ≤ key x := by
  have hmem : x ∈ t.ordered.filter p := List.mem_filter.mpr ⟨mem_ordered.mpr hx, hp⟩
  have hsorted := (pairwise_ordered t).filter p
  cases hl : t.ordered.filter p with
  | nil =>
    rw [hl] at h
    contradiction
  | cons y ys =>
    rw [hl] at h hmem hsorted
    obtain rfl := Option.some.inj h
    rcases List.mem_cons.mp hmem with rfl | hmem
    · exact le_refl _
    · exact le_of_lt ((List.pairwise_cons.mp hsorted).1 x hmem)

theorem of_mem_putAll (h : x ∈ (t.putAll rs).rows) : x ∈ rs ∨ x ∈ t.rows := by
  induction rs generalizing t with
  | nil => exact Or.inr h
  | cons r rs ih =>
    rcases ih (t := t.put r) h with hx | hx
    · exact Or.inl (List.mem_cons_of_mem r hx)
    · rcases mem_put.mp hx with rfl | ⟨hx, _⟩
      · exact Or.inl List.mem_cons_self
      · exact Or.inr hx

theorem mem_putAll (h : (rs.map key).Nodup) :
    x ∈ (t.putAll rs).rows ↔ x ∈ rs ∨ (x ∈ t.rows ∧ key x ∉ rs.map key) := by
  induction rs generalizing t with
  | nil => simp [putAll]
  | cons r rs ih =>
    obtain ⟨hr, hrs⟩ := List.nodup_cons.mp h
    have hput : t.putAll (r :: rs) = (t.put r).putAll rs := rfl
    rw [hput, ih hrs, mem_put]
    simp only [List.mem_cons, List.map_cons]
    constructor
    · intro hx
      rcases hx with hx | ⟨rfl | ⟨hx, hne⟩, hnot⟩
      · exact Or.inl (Or.inr hx)
      · exact Or.inl (Or.inl rfl)
      · exact Or.inr ⟨hx, by simp [hne, hnot]⟩
    · intro hx
      rcases hx with (rfl | hx) | ⟨hx, hnot⟩
      · exact Or.inr ⟨Or.inl rfl, hr⟩
      · exact Or.inl hx
      · rw [not_or] at hnot
        exact Or.inr ⟨Or.inr ⟨hx, hnot.1⟩, hnot.2⟩

/-- Rows whose keys are exactly those from i to j are j - i + 1. -/
theorem countP_of_range {p : ρ → Bool} {i j : RowId}
    (h : ∀ k, (∃ r ∈ t.rows, key r = k ∧ p r = true) ↔ i ≤ k ∧ k ≤ j) :
    t.rows.countP p = (j + 1 - i).toNat := by
  have hnodup : ((t.rows.filter p).map key).Nodup :=
    t.unique.sublist (List.filter_sublist.map key)
  have hkeys : ((t.rows.filter p).map key).toFinset = Finset.Icc i j := by
    ext k
    rw [List.mem_toFinset, Finset.mem_Icc, ← h k, List.mem_map]
    simp only [List.mem_filter]
    constructor
    · intro hk
      obtain ⟨r, ⟨hr, hp⟩, rfl⟩ := hk
      exact ⟨r, hr, rfl, hp⟩
    · intro hk
      obtain ⟨r, hr, rfl, hp⟩ := hk
      exact ⟨r, ⟨hr, hp⟩, rfl⟩
  calc t.rows.countP p = ((t.rows.filter p).map key).length := by
        rw [List.length_map, List.countP_eq_length_filter]
    _ = ((t.rows.filter p).map key).toFinset.card := (List.toFinset_card_of_nodup hnodup).symm
    _ = (j + 1 - i).toNat := by rw [hkeys, Int.card_Icc]

end ReadCommitted.Table
