import Mathlib.Data.List.Basic
import Mathlib.Data.List.Nodup

namespace ReadCommitted

theorem mem_snoc {α : Type} {x a : α} {xs : List α} : x ∈ xs ++ [a] ↔ x ∈ xs ∨ x = a := by
  rw [List.mem_append, List.mem_singleton]

/-- Values of an integer primary key column. -/
abbrev RowId := Int

/-- A table with a primary key. The constraint is part of the value, so no
two rows of a table ever share a key. -/
structure Table {ρ : Type} (key : ρ → RowId) where
  rows : List ρ
  unique : (rows.map key).Nodup

variable {ρ : Type} {key : ρ → RowId}

/-- Replaces the row with the key of r, or appends r if there is none. -/
def putRow (key : ρ → RowId) (r : ρ) : List ρ → List ρ
  | [] => [r]
  | x :: xs => if key x = key r then r :: xs else x :: putRow key r xs

theorem putRow_fresh {r : ρ} {xs : List ρ} (h : ∀ x ∈ xs, key x ≠ key r) :
    putRow key r xs = xs ++ [r] := by
  induction xs with
  | nil => rfl
  | cons x xs ih =>
    simp only [putRow, if_neg (h x List.mem_cons_self), List.cons_append]
    rw [ih (fun y hy => h y (List.mem_cons_of_mem _ hy))]

theorem putRow_keys (r : ρ) (xs : List ρ) (h : key r ∈ xs.map key) :
    (putRow key r xs).map key = xs.map key := by
  induction xs with
  | nil => simp at h
  | cons x xs ih =>
    unfold putRow
    split
    · rename_i he
      simp [he]
    · rename_i hne
      have ht : key r ∈ xs.map key := by simpa [Ne.symm hne] using h
      simp [ih ht]

theorem putRow_nodup (r : ρ) {xs : List ρ} (h : (xs.map key).Nodup) :
    ((putRow key r xs).map key).Nodup := by
  by_cases hk : key r ∈ xs.map key
  · rw [putRow_keys r xs hk]
    exact h
  · have hf : ∀ x ∈ xs, key x ≠ key r := by
      intro x hx he
      exact hk (List.mem_map.mpr ⟨x, hx, he⟩)
    rw [putRow_fresh hf, List.map_append]
    exact h.append (by simp) (by simpa using hk)

theorem putRow_find (r : ρ) (xs : List ρ) (i : RowId) :
    (putRow key r xs).find? (fun x => key x == i) =
      if key r = i then some r else xs.find? (fun x => key x == i) := by
  induction xs with
  | nil => by_cases h : key r = i <;> simp [putRow, h]
  | cons x xs ih =>
    by_cases hx : key x = key r
    · by_cases h : key r = i
      · simp [putRow, hx, h]
      · simp [putRow, hx, h]
    · by_cases h : key r = i
      · have hxi : key x ≠ i := fun he => hx (he.trans h.symm)
        simp [putRow, hxi, ih, h]
      · simp only [putRow, hx, if_false, List.find?_cons, ih, h]

theorem putRow_countP (p : ρ → Bool) {r old : ρ} {xs : List ρ} (hu : (xs.map key).Nodup)
    (hm : old ∈ xs) (hk : key old = key r) :
    (putRow key r xs).countP p + (if p old then 1 else 0) =
      xs.countP p + (if p r then 1 else 0) := by
  induction xs with
  | nil => simp at hm
  | cons x xs ih =>
    simp only [List.map_cons, List.nodup_cons] at hu
    by_cases hx : key x = key r
    · have he : old = x := by
        rcases List.mem_cons.mp hm with he | ht
        · exact he
        · exact absurd (List.mem_map.mpr ⟨old, ht, hk.trans hx.symm⟩) hu.1
      subst old
      simp only [putRow, hx, if_true, List.countP_cons]
      omega
    · have ht : old ∈ xs := by
        rcases List.mem_cons.mp hm with he | ht
        · exact absurd (he ▸ hk) hx
        · exact ht
      have := ih hu.2 ht
      simp only [putRow, hx, if_false, List.countP_cons]
      omega

theorem putRow_map {α : Type} (f : ρ → α) {r old : ρ} {xs : List ρ} (hu : (xs.map key).Nodup)
    (hm : old ∈ xs) (hk : key old = key r) (hf : f r = f old) :
    (putRow key r xs).map f = xs.map f := by
  induction xs with
  | nil => simp at hm
  | cons x xs ih =>
    simp only [List.map_cons, List.nodup_cons] at hu
    by_cases hx : key x = key r
    · have he : old = x := by
        rcases List.mem_cons.mp hm with he | ht
        · exact he
        · exact absurd (List.mem_map.mpr ⟨old, ht, hk.trans hx.symm⟩) hu.1
      simp [putRow, hx, hf, he]
    · have ht : old ∈ xs := by
        rcases List.mem_cons.mp hm with he | ht
        · exact absurd (he ▸ hk) hx
        · exact ht
      simp [putRow, hx, ih hu.2 ht]

namespace Table

def empty (key : ρ → RowId) : Table key := ⟨[], by simp⟩

def single (key : ρ → RowId) (r : ρ) : Table key := ⟨[r], by simp⟩

/-- SELECT by primary key. -/
def find? (t : Table key) (i : RowId) : Option ρ := t.rows.find? (fun r => key r == i)

/-- Stores r under its own key, as an UPDATE or an INSERT of the whole row. -/
def put (t : Table key) (r : ρ) : Table key := ⟨putRow key r t.rows, putRow_nodup r t.unique⟩

/-- DELETE of the rows that fail p. -/
def keep (t : Table key) (p : ρ → Bool) : Table key :=
  ⟨t.rows.filter p, t.unique.sublist (List.filter_sublist.map key)⟩

theorem eq_of_key {t : Table key} {r r' : ρ} (h : r ∈ t.rows) (h' : r' ∈ t.rows)
    (hk : key r = key r') : r = r' := List.inj_on_of_nodup_map t.unique h h' hk

theorem find?_eq_some {t : Table key} {i : RowId} {r : ρ} :
    t.find? i = some r ↔ r ∈ t.rows ∧ key r = i := by
  constructor
  · intro h
    exact ⟨List.mem_of_find?_eq_some h, by simpa using List.find?_some h⟩
  · intro h
    obtain ⟨hm, rfl⟩ := h
    cases hf : t.rows.find? (fun x => key x == key r) with
    | none =>
      have := List.find?_eq_none.mp hf r hm
      simp at this
    | some x =>
      have hx : key x = key r := by simpa using List.find?_some hf
      have he := eq_of_key (List.mem_of_find?_eq_some hf) hm hx
      exact he ▸ hf

theorem find?_eq_none {t : Table key} {i : RowId} :
    t.find? i = none ↔ ∀ r ∈ t.rows, key r ≠ i := by
  simp [find?, List.find?_eq_none]

theorem find?_of_mem {t : Table key} {r : ρ} (h : r ∈ t.rows) : t.find? (key r) = some r :=
  find?_eq_some.mpr ⟨h, rfl⟩

theorem key_of_find? {t : Table key} {i : RowId} {r : ρ} (h : t.find? i = some r) : key r = i :=
  (find?_eq_some.mp h).2

theorem exists_fresh (t : Table key) : ∃ i, 0 < i ∧ t.find? i = none := by
  have hbound : ∀ xs : List ρ, ∃ i, ∀ r ∈ xs, key r < i := by
    intro xs
    induction xs with
    | nil => exact ⟨0, by simp⟩
    | cons x xs ih =>
      obtain ⟨i, hi⟩ := ih
      refine ⟨max i (key x + 1), ?_⟩
      intro r hr
      rcases List.mem_cons.mp hr with rfl | hr
      · exact Int.lt_of_lt_of_le (Int.lt_succ _) (Int.le_max_right _ _)
      · exact Int.lt_of_lt_of_le (hi r hr) (Int.le_max_left _ _)
  obtain ⟨i, hi⟩ := hbound t.rows
  refine ⟨max i 1, ?_, find?_eq_none.mpr fun r hr => ?_⟩
  · exact Int.lt_of_lt_of_le Int.one_pos (Int.le_max_right _ _)
  · exact Int.ne_of_lt (Int.lt_of_lt_of_le (hi r hr) (Int.le_max_left _ _))

theorem find?_put (t : Table key) (r : ρ) (i : RowId) :
    (t.put r).find? i = if key r = i then some r else t.find? i :=
  putRow_find r t.rows i

@[simp] theorem find?_put_self (t : Table key) (r : ρ) : (t.put r).find? (key r) = some r := by
  simp [find?_put]

theorem find?_put_ne {t : Table key} {r : ρ} {i : RowId} (h : key r ≠ i) :
    (t.put r).find? i = t.find? i := by
  simp [find?_put, h]

/-- The only key a put adds is that of its row. -/
theorem eq_of_find?_put {t : Table key} {r x : ρ} {i : RowId} (hnew : t.find? i = none)
    (h : (t.put r).find? i = some x) : x = r := by
  by_cases hi : key r = i
  · subst hi
    rw [find?_put_self] at h
    exact (Option.some.inj h).symm
  · rw [find?_put_ne hi, hnew] at h
    contradiction

theorem mem_put {t : Table key} {r x : ρ} :
    x ∈ (t.put r).rows ↔ x = r ∨ (x ∈ t.rows ∧ key x ≠ key r) := by
  by_cases hk : key x = key r
  · constructor
    · intro h
      have hx := find?_of_mem h
      rw [hk, find?_put_self] at hx
      exact Or.inl (Option.some.inj hx).symm
    · intro h
      rcases h with rfl | ⟨_, hn⟩
      · exact (find?_eq_some.mp (find?_put_self t x)).1
      · exact absurd hk hn
  · have hf := find?_put_ne (t := t) (fun h => hk h.symm : key r ≠ key x)
    constructor
    · intro h
      have hx := find?_of_mem h
      rw [hf] at hx
      exact Or.inr ⟨(find?_eq_some.mp hx).1, hk⟩
    · intro h
      rcases h with rfl | ⟨hm, _⟩
      · exact absurd rfl hk
      · have hx := find?_of_mem hm
        rw [← hf] at hx
        exact (find?_eq_some.mp hx).1

/-- A row with the property P remains if the stored row keeps what the replaced
one had. -/
theorem exists_put {t : Table key} {r : ρ} {P : ρ → Prop}
    (hkeep : ∀ old, t.find? (key r) = some old → P old → P r) (h : ∃ x ∈ t.rows, P x) :
    ∃ x ∈ (t.put r).rows, P x := by
  obtain ⟨x, hx, hp⟩ := h
  by_cases hk : key x = key r
  · have hf := find?_of_mem hx
    rw [hk] at hf
    exact ⟨r, mem_put.mpr (Or.inl rfl), hkeep x hf hp⟩
  · exact ⟨x, mem_put.mpr (Or.inr ⟨hx, hk⟩), hp⟩

theorem exists_put_fresh {t : Table key} {r : ρ} {P : ρ → Prop} (hr : t.find? (key r) = none)
    (h : ∃ x ∈ t.rows, P x) : ∃ x ∈ (t.put r).rows, P x := by
  apply exists_put _ h
  intro old hold
  rw [hr] at hold
  contradiction

/-- No key is lost. -/
theorem exists_key_put {t : Table key} {r : ρ} {i : RowId} (h : ∃ x ∈ t.rows, key x = i) :
    ∃ x ∈ (t.put r).rows, key x = i :=
  exists_put (fun _ hold hi => (key_of_find? hold).symm.trans hi) h

theorem rows_put_fresh {t : Table key} {r : ρ} (h : t.find? (key r) = none) :
    (t.put r).rows = t.rows ++ [r] :=
  putRow_fresh (find?_eq_none.mp h)

theorem prefix_put_fresh {t : Table key} {r : ρ} (h : t.find? (key r) = none) :
    t.rows <+: (t.put r).rows := by
  rw [rows_put_fresh h]
  exact List.prefix_append _ _

/-- Replacing a row moves a count by what the old and the new row contribute. -/
theorem countP_put (p : ρ → Bool) {t : Table key} {r old : ρ} (h : t.find? (key r) = some old) :
    (t.put r).rows.countP p + (if p old then 1 else 0) =
      t.rows.countP p + (if p r then 1 else 0) := by
  obtain ⟨hm, hk⟩ := find?_eq_some.mp h
  exact putRow_countP p t.unique hm hk

theorem countP_put_fresh (p : ρ → Bool) {t : Table key} {r : ρ} (h : t.find? (key r) = none) :
    (t.put r).rows.countP p = t.rows.countP p + (if p r then 1 else 0) := by
  simp [rows_put_fresh h, List.countP_append, List.countP_singleton]

/-- What an update leaves alone in its row it leaves alone in the table. -/
theorem map_put {α : Type} (f : ρ → α) {t : Table key} {r old : ρ}
    (h : t.find? (key r) = some old) (hf : f r = f old) : (t.put r).rows.map f = t.rows.map f := by
  obtain ⟨hm, hk⟩ := find?_eq_some.mp h
  exact putRow_map f t.unique hm hk hf

theorem map_put_fresh {α : Type} (f : ρ → α) {t : Table key} {r : ρ}
    (h : t.find? (key r) = none) : (t.put r).rows.map f = t.rows.map f ++ [f r] := by
  simp [rows_put_fresh h]

theorem mem_keep {t : Table key} {p : ρ → Bool} {r : ρ} :
    r ∈ (t.keep p).rows ↔ r ∈ t.rows ∧ p r = true := List.mem_filter

/-- Every row has a successor with its key, to which it may have turned. -/
def Carried (R : ρ → ρ → Prop) (t t' : Table key) : Prop :=
  ∀ r ∈ t.rows, ∃ r' ∈ t'.rows, key r' = key r ∧ R r r'

section Carried

variable {R : ρ → ρ → Prop} {t t' t'' : Table key}

theorem Carried.refl (hR : ∀ r, R r r) (t : Table key) : Carried R t t :=
  fun r hr => ⟨r, hr, rfl, hR r⟩

theorem Carried.trans (hR : ∀ a b c, R a b → R b c → R a c) (h : Carried R t t')
    (h' : Carried R t' t'') : Carried R t t'' := by
  intro r hr
  obtain ⟨r', hr', hk, hturn⟩ := h r hr
  obtain ⟨r'', hr'', hk', hturn'⟩ := h' r' hr'
  exact ⟨r'', hr'', hk'.trans hk, hR _ _ _ hturn hturn'⟩

theorem carried_put {r old : ρ} (hR : ∀ r, R r r) (hold : t.find? (key r) = some old)
    (hturn : R old r) : Carried R t (t.put r) := by
  intro x hx
  by_cases hk : key x = key r
  · obtain rfl := Option.some.inj ((hk ▸ find?_of_mem hx).symm.trans hold)
    exact ⟨r, mem_put.mpr (Or.inl rfl), hk.symm, hturn⟩
  · exact ⟨x, mem_put.mpr (Or.inr ⟨hx, hk⟩), rfl, hR x⟩

theorem carried_put_fresh {r : ρ} (hR : ∀ r, R r r) (hfresh : t.find? (key r) = none) :
    Carried R t (t.put r) := by
  intro x hx
  exact ⟨x, mem_put.mpr (Or.inr ⟨hx, find?_eq_none.mp hfresh x hx⟩), rfl, hR x⟩

end Carried

end Table

end ReadCommitted
