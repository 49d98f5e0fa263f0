import Mathlib.Data.List.Sort

namespace Redis

/-- A member of a sorted set with its score. -/
structure Scored (σ μ : Type) where
  score : σ
  member : μ
  deriving DecidableEq, Repr

variable {σ μ : Type} [LinearOrder σ] [LinearOrder μ]

namespace Scored

/-- By score, then by member. -/
def le (a b : Scored σ μ) : Prop := a.score < b.score ∨ (a.score = b.score ∧ a.member ≤ b.member)

instance : DecidableRel (le (σ := σ) (μ := μ)) := fun a b =>
  inferInstanceAs (Decidable (a.score < b.score ∨ (a.score = b.score ∧ a.member ≤ b.member)))

instance : Std.Total (le (σ := σ) (μ := μ)) where
  total a b := by
    rcases lt_trichotomy a.score b.score with h | h | h
    · exact Or.inl (Or.inl h)
    · rcases le_total a.member b.member with hm | hm
      · exact Or.inl (Or.inr ⟨h, hm⟩)
      · exact Or.inr (Or.inr ⟨h.symm, hm⟩)
    · exact Or.inr (Or.inl h)

instance : IsTrans (Scored σ μ) le where
  trans a b c hab hbc := by
    rcases hab with hab | ⟨hab, hm⟩
    · rcases hbc with hbc | ⟨hbc, _⟩
      · exact Or.inl (hab.trans hbc)
      · exact Or.inl (hbc ▸ hab)
    · rcases hbc with hbc | ⟨hbc, hm'⟩
      · exact Or.inl (hab ▸ hbc)
      · exact Or.inr ⟨hab.trans hbc, hm.trans hm'⟩

end Scored

/-- A sorted set lists its members by score and keeps each of them once. -/
structure SortedSet (σ μ : Type) [LinearOrder σ] [LinearOrder μ] where
  entries : List (Scored σ μ)
  sorted : entries.Pairwise Scored.le
  distinct : (entries.map Scored.member).Nodup

namespace SortedSet

def empty : SortedSet σ μ := ⟨[], List.Pairwise.nil, List.nodup_nil⟩

def members (s : SortedSet σ μ) : List μ := s.entries.map Scored.member

instance : Membership μ (SortedSet σ μ) := ⟨fun s m => m ∈ s.members⟩

instance (m : μ) (s : SortedSet σ μ) : Decidable (m ∈ s) := inferInstanceAs (Decidable (m ∈ s.members))

theorem mem_def {m : μ} {s : SortedSet σ μ} : m ∈ s ↔ m ∈ s.members := Iff.rfl

theorem mem_iff {m : μ} {s : SortedSet σ μ} : m ∈ s ↔ ∃ x ∈ s.entries, x.member = m := by
  simp [mem_def, members]

theorem members_nodup (s : SortedSet σ μ) : s.members.Nodup := s.distinct

/-- A new member takes its place in the order. -/
def insert (s : SortedSet σ μ) (x : Scored σ μ) (h : x.member ∉ s) : SortedSet σ μ where
  entries := s.entries.orderedInsert Scored.le x
  sorted := s.sorted.orderedInsert x s.entries
  distinct := by
    rw [((List.perm_orderedInsert Scored.le x s.entries).map Scored.member).nodup_iff,
      List.map_cons, List.nodup_cons]
    exact ⟨h, s.distinct⟩

/-- A member keeps the score it was added with. -/
def addNX (s : SortedSet σ μ) (x : Scored σ μ) : SortedSet σ μ :=
  if h : x.member ∈ s then s else s.insert x h

def remove (s : SortedSet σ μ) (ms : List μ) : SortedSet σ μ where
  entries := s.entries.filter fun x => x.member ∉ ms
  sorted := s.sorted.filter _
  distinct := s.distinct.sublist (List.filter_sublist.map Scored.member)

def rank (s : SortedSet σ μ) (m : μ) : Option Nat := s.members.findIdx? fun x => x == m

def card (s : SortedSet σ μ) : Nat := s.entries.length

/-- An index below zero counts from the end. -/
def index (n : Nat) (i : Int) : Int := if i < 0 then i + n else i

/-- The members from one index to another, both included. -/
def range (s : SortedSet σ μ) (start stop : Int) : List μ :=
  let first := max 0 (index s.card start)
  (s.members.drop first.toNat).take (index s.card stop + 1 - first).toNat

section Lemmas

variable {s : SortedSet σ μ} {x : Scored σ μ} {m : μ} {ms : List μ}

theorem addNX_of_mem (h : x.member ∈ s) : s.addNX x = s := by rw [addNX, dif_pos h]

theorem entries_addNX (h : x.member ∉ s) :
    (s.addNX x).entries = s.entries.orderedInsert Scored.le x := by
  rw [addNX, dif_neg h]
  rfl

/-- A new member goes behind all that do not have to come after it. -/
theorem entries_addNX_behind (h : x.member ∉ s) {low high : List (Scored σ μ)}
    (hs : s.entries = low ++ high) (hlow : ∀ y ∈ low, ¬ x.le y) :
    (s.addNX x).entries = low ++ high.orderedInsert Scored.le x := by
  rw [entries_addNX h, hs]
  clear hs
  induction low with
  | nil => rfl
  | cons y low ih =>
    rw [List.cons_append, List.orderedInsert_of_not_le _ _ (hlow y List.mem_cons_self),
      ih fun z hz => hlow z (List.mem_cons_of_mem y hz)]
    rfl

/-- A new member goes behind all that have a lower score. -/
theorem entries_addNX_append (h : x.member ∉ s) {low high : List (Scored σ μ)}
    (hs : s.entries = low ++ high) (hlow : ∀ y ∈ low, y.score < x.score) :
    (s.addNX x).entries = low ++ high.orderedInsert Scored.le x := by
  refine entries_addNX_behind h hs fun y hy hle => ?_
  rcases hle with hgt | ⟨heq, _⟩
  · exact lt_asymm (hlow y hy) hgt
  · exact (hlow y hy).ne' heq

/-- A new member that comes after m changes nothing up to m. -/
theorem members_addNX_behind {before after : List μ} (h : x.member ∉ s)
    (hs : s.members = before ++ m :: after) (hm : ∀ y ∈ s.entries, y.member = m → ¬ x.le y) :
    ∃ after', (s.addNX x).members = before ++ m :: after' := by
  obtain ⟨low, rest, hentries, rfl, hrest⟩ := List.map_eq_append_iff.mp hs
  obtain ⟨y, high, rfl, rfl, rfl⟩ := List.map_eq_cons_iff.mp hrest
  have hy : ¬ x.le y := hm y (by simp [hentries]) rfl
  have hsorted := s.sorted
  rw [hentries, List.pairwise_append] at hsorted
  have hlow : ∀ z ∈ low, ¬ x.le z := fun z hz hle =>
    hy (IsTrans.trans _ _ _ hle (hsorted.2.2 z hz y List.mem_cons_self))
  refine ⟨(high.orderedInsert Scored.le x).map Scored.member, ?_⟩
  rw [members, entries_addNX_behind h hentries hlow, List.orderedInsert_of_not_le _ _ hy]
  simp

theorem members_remove : (s.remove ms).members = s.members.filter fun m => m ∉ ms := by
  simp only [members, remove, List.filter_map, Function.comp_def]

/-- The removal of the first members leaves the others in their order. -/
theorem members_remove_first {before after : List μ} (n : Nat)
    (hs : s.members = before ++ m :: after) :
    (s.remove (before.take n)).members = before.drop n ++ m :: after := by
  have hnodup := s.members_nodup
  rw [hs, ← List.take_append_drop n before, List.append_assoc] at hnodup
  obtain ⟨_, _, hdisjoint⟩ := List.nodup_append.mp hnodup
  rw [members_remove, hs]
  conv_lhs => rw [← List.take_append_drop n before, List.append_assoc, List.filter_append]
  have hfirst : (before.take n).filter (fun y => y ∉ before.take n) = [] := by
    simp [List.filter_eq_nil_iff]
  have hrest : (before.drop n ++ m :: after).filter (fun y => y ∉ before.take n) =
      before.drop n ++ m :: after := by
    refine List.filter_eq_self.mpr fun y hy => ?_
    simpa using fun htake => hdisjoint y htake y hy rfl
  rw [List.take_append_drop, hfirst, hrest, List.nil_append]

theorem mem_addNX : m ∈ s.addNX x ↔ m ∈ s ∨ m = x.member := by
  by_cases h : x.member ∈ s
  · rw [addNX_of_mem h]
    constructor
    · exact Or.inl
    · rintro (hm | rfl)
      · exact hm
      · exact h
  · simp only [mem_iff, entries_addNX h, List.mem_orderedInsert]
    constructor
    · rintro ⟨y, rfl | hy, rfl⟩
      · exact Or.inr rfl
      · exact Or.inl ⟨y, hy, rfl⟩
    · rintro (⟨y, hy, rfl⟩ | rfl)
      · exact ⟨y, Or.inr hy, rfl⟩
      · exact ⟨x, Or.inl rfl, rfl⟩

theorem mem_remove : m ∈ s.remove ms ↔ m ∈ s ∧ m ∉ ms := by
  simp only [mem_iff, remove, List.mem_filter, decide_eq_true_eq]
  constructor
  · rintro ⟨y, ⟨hy, hms⟩, rfl⟩
    exact ⟨⟨y, hy, rfl⟩, hms⟩
  · rintro ⟨⟨y, hy, rfl⟩, hms⟩
    exact ⟨y, ⟨hy, hms⟩, rfl⟩

@[simp] theorem not_mem_empty : m ∉ (empty : SortedSet σ μ) := by simp [mem_iff, empty]

/-- The first n members. -/
theorem range_first (s : SortedSet σ μ) {n : Nat} (hn : 0 < n) :
    s.range 0 ((n : Int) - 1) = s.members.take n := by
  have hstart : max 0 (index s.card 0) = 0 := by simp [index]
  have hstop : index s.card ((n : Int) - 1) = (n : Int) - 1 := by
    rw [index, if_neg (by omega)]
  have hcount : ((n : Int) - 1 + 1 - 0).toNat = n := by omega
  simp only [range, hstart, hstop, hcount, Int.toNat_zero, List.drop_zero]

theorem mem_of_mem_range {start stop : Int} (h : m ∈ s.range start stop) : m ∈ s :=
  List.mem_of_mem_drop (List.mem_of_mem_take h)

theorem range_nodup (s : SortedSet σ μ) (start stop : Int) : (s.range start stop).Nodup :=
  (s.members_nodup.sublist (List.drop_sublist _ _)).sublist (List.take_sublist _ _)

/-- The first members come before the others. -/
theorem le_of_first {m' : μ} {n : Nat} (hm : m ∈ s.members.take n) (hm' : m' ∈ s)
    (hn : m' ∉ s.members.take n) :
    ∃ x ∈ s.entries, ∃ y ∈ s.entries, x.member = m ∧ y.member = m' ∧ x.le y := by
  rw [members, ← List.map_take] at hm hn
  obtain ⟨x, hx, rfl⟩ := List.mem_map.mp hm
  obtain ⟨y, hy, rfl⟩ := mem_iff.mp hm'
  have hdrop : y ∈ s.entries.drop n := by
    rw [← List.take_append_drop n s.entries] at hy
    rcases List.mem_append.mp hy with hy | hy
    · exact absurd (List.mem_map.mpr ⟨y, hy, rfl⟩) hn
    · exact hy
  have hsorted := s.sorted
  rw [← List.take_append_drop n s.entries, List.pairwise_append] at hsorted
  exact ⟨x, List.mem_of_mem_take hx, y, List.mem_of_mem_drop hdrop, rfl, rfl,
    hsorted.2.2 x hx y hdrop⟩

/-- The rank of a member is its index in the order. -/
theorem rank_eq_some {n : Nat} : s.rank m = some n ↔ s.members[n]? = some m := by
  simp only [rank, List.findIdx?_eq_some_iff_getElem, beq_iff_eq, List.getElem?_eq_some_iff]
  constructor
  · intro h
    obtain ⟨hn, hm, _⟩ := h
    exact ⟨hn, hm⟩
  · intro h
    obtain ⟨hn, hm⟩ := h
    refine ⟨hn, hm, ?_⟩
    intro j hj he
    have hjn := (List.Nodup.getElem_inj_iff s.members_nodup).mp (he.trans hm.symm)
    omega

theorem rank_of_members {before after : List μ} (hs : s.members = before ++ m :: after) :
    s.rank m = some before.length := by
  rw [rank_eq_some, hs]
  simp

theorem members_of_rank {n : Nat} (h : s.rank m = some n) :
    ∃ before after, s.members = before ++ m :: after ∧ before.length = n := by
  obtain ⟨hn, hm⟩ := List.getElem?_eq_some_iff.mp (rank_eq_some.mp h)
  refine ⟨s.members.take n, s.members.drop (n + 1), ?_, by simp; omega⟩
  rw [← hm, ← List.drop_eq_getElem_cons hn, List.take_append_drop]

/-- A new member is the last one where it does not go before any other. -/
theorem rank_addNX_eq_card (h : x.member ∉ s) :
    (s.addNX x).rank x.member = some s.card ↔ ∀ y ∈ s.entries, ¬ x.le y := by
  rw [rank_eq_some, members, entries_addNX h, card]
  rw [mem_def, members] at h
  revert h
  induction s.entries with
  | nil => simp
  | cons y ys ih =>
    intro h
    have hys : x.member ∉ ys.map Scored.member := fun hm => h (List.mem_cons_of_mem _ hm)
    by_cases hxy : x.le y
    · rw [List.orderedInsert_cons_of_le _ ys hxy, List.map_cons, List.length_cons,
        List.getElem?_cons_succ]
      constructor
      · intro he
        exact absurd (List.mem_of_getElem? he) h
      · intro hn
        exact absurd hxy (hn y List.mem_cons_self)
    · rw [List.orderedInsert_of_not_le _ ys hxy, List.map_cons, List.length_cons,
        List.getElem?_cons_succ, ih hys]
      constructor
      · intro hn z hz
        rcases List.mem_cons.mp hz with rfl | hz
        · exact hxy
        · exact hn z hz
      · intro hn z hz
        exact hn z (List.mem_cons_of_mem _ hz)

theorem card_addNX (h : x.member ∉ s) : (s.addNX x).card = s.card + 1 := by
  rw [card, entries_addNX h, List.orderedInsert_length, card]

theorem rank_eq_none : s.rank m = none ↔ m ∉ s := by
  simp only [rank, List.findIdx?_eq_none_iff, beq_eq_false_iff_ne, mem_def]
  constructor
  · intro h hm
    exact h m hm rfl
  · rintro h x hx rfl
    exact h hx

theorem exists_rank (h : m ∈ s) : ∃ n, s.rank m = some n := by
  cases hr : s.rank m with
  | some n => exact ⟨n, rfl⟩
  | none => exact absurd h (rank_eq_none.mp hr)

end Lemmas

end SortedSet

end Redis
