import HighVolumeBooking.Common.Date
import Mathlib.Data.Int.LeastGreatest

namespace HighVolumeBooking

namespace TimeZone

variable {zone : TimeZone} {l t u : Int}

theorem offsetAt_mem (zone : TimeZone) (t : Int) : zone.offsetAt t ∈ zone.offsets := by
  suffices h : ∀ (xs : List (Int × Int)) (o : Int),
      xs.foldl (fun o x => if x.1 ≤ t then x.2 else o) o ∈ o :: xs.map (·.2) from
    h zone.transitions zone.base
  intro xs
  induction xs with
  | nil => simp
  | cons x xs ih =>
    intro o
    simp only [List.foldl_cons, List.map_cons]
    rcases List.mem_cons.mp (ih (if x.1 ≤ t then x.2 else o)) with he | he
    · rw [he]
      split <;> simp
    · exact List.mem_cons_of_mem _ (List.mem_cons_of_mem _ he)

/-- Two instants with no transition after the one and not after the other are
in one offset. -/
theorem offsetAt_congr (h : ∀ x ∈ zone.transitions, x.1 ≤ t ↔ x.1 ≤ u) :
    zone.offsetAt t = zone.offsetAt u := by
  apply List.foldl_ext
  intro o x hx
  simp only [h x hx]

/-- Before every transition the offset is the first one. -/
theorem offsetAt_early (h : ∀ x ∈ zone.transitions, t < x.1) : zone.offsetAt t = zone.base := by
  suffices hx : ∀ xs : List (Int × Int), (∀ x ∈ xs, t < x.1) →
      xs.foldl (fun o x => if x.1 ≤ t then x.2 else o) zone.base = zone.base from hx _ h
  intro xs hxs
  induction xs with
  | nil => rfl
  | cons x xs ih =>
    rw [List.foldl_cons, if_neg (by have := hxs x List.mem_cons_self; omega)]
    exact ih fun y hy => hxs y (List.mem_cons_of_mem _ hy)

theorem exists_before_transitions (zone : TimeZone) (b : Int) :
    ∃ t ≤ b, ∀ x ∈ zone.transitions, t < x.1 := by
  induction zone.transitions with
  | nil => exact ⟨b, by omega, by simp⟩
  | cons x xs ih =>
    obtain ⟨t, ht, hxs⟩ := ih
    refine ⟨min t (x.1 - 1), by omega, ?_⟩
    intro y hy
    rcases List.mem_cons.mp hy with rfl | hy
    · omega
    · have := hxs y hy
      omega

theorem mem_possibleInstants : u ∈ zone.possibleInstants l ↔ zone.localTime u = l := by
  simp only [possibleInstants, List.mem_filter, List.mem_map, decide_eq_true_eq]
  constructor
  · intro h
    exact h.2
  · intro h
    refine ⟨⟨zone.offsetAt u, zone.offsetAt_mem u, ?_⟩, h⟩
    rw [← h, localTime]
    omega

theorem localTime_bounded (zone : TimeZone) (l : Int) :
    ∃ b, ∀ u, zone.localTime u = l → u ≤ b := by
  obtain ⟨b, hb⟩ : ∃ b, ∀ o ∈ zone.offsets, b ≤ o := by
    induction zone.offsets with
    | nil => exact ⟨0, by simp⟩
    | cons o os ih =>
      obtain ⟨b, hb⟩ := ih
      refine ⟨min b o, ?_⟩
      intro p hp
      rcases List.mem_cons.mp hp with rfl | hp
      · omega
      · have := hb p hp
        omega
  refine ⟨l - b, ?_⟩
  intro u hu
  have := hb _ (zone.offsetAt_mem u)
  rw [localTime] at hu
  omega

/-- u is the last instant of the greatest local time before l: the instant just
before the gap, when l is skipped. -/
def LastBefore (zone : TimeZone) (l u : Int) : Prop :=
  zone.localTime u < l ∧ ∀ v, zone.localTime v < l →
    zone.localTime v < zone.localTime u ∨ zone.localTime v = zone.localTime u ∧ v ≤ u

theorem exists_lastBefore (zone : TimeZone) (l : Int) : ∃ u, zone.LastBefore l u := by
  have hinh : ∃ b, ∃ v, zone.localTime v = b ∧ b < l := by
    obtain ⟨v, hv, hearly⟩ := zone.exists_before_transitions (l - zone.base - 1)
    refine ⟨_, v, rfl, ?_⟩
    rw [localTime, offsetAt_early hearly]
    omega
  have hbdd : ∃ b, ∀ z, (∃ v, zone.localTime v = z ∧ z < l) → z ≤ b := by
    refine ⟨l, ?_⟩
    intro z hz
    obtain ⟨v, _, hz⟩ := hz
    omega
  obtain ⟨b, ⟨v, hv, hb⟩, hgreatest⟩ := Int.exists_greatest_of_bdd hbdd hinh
  obtain ⟨u, hu, hlast⟩ := Int.exists_greatest_of_bdd (zone.localTime_bounded b) ⟨v, hv⟩
  refine ⟨u, by omega, ?_⟩
  intro w hw
  have hle := hgreatest _ ⟨w, rfl, hw⟩
  by_cases he : zone.localTime w = b
  · exact Or.inr ⟨he.trans hu.symm, hlast w he⟩
  · exact Or.inl (by omega)

/-- Local time only jumps over l at a transition. -/
theorem LastBefore.transition (hskip : ∀ v, zone.localTime v ≠ l) (h : zone.LastBefore l u) :
    ∃ x ∈ zone.transitions, x.1 = u + 1 := by
  obtain ⟨hu, hlast⟩ := h
  by_contra hno
  have hoffset : zone.offsetAt (u + 1) = zone.offsetAt u := by
    apply offsetAt_congr
    intro x hx
    have hne : x.1 ≠ u + 1 := fun he => hno ⟨x, hx, he⟩
    omega
  have hnext : zone.localTime (u + 1) = zone.localTime u + 1 := by
    simp only [localTime, hoffset]
    omega
  have hne := hskip (u + 1)
  rcases hlast (u + 1) (by omega) with h | ⟨h, _⟩ <;> omega

theorem LastBefore.lastLocalBefore (hskip : ∀ v, zone.localTime v ≠ l) (h : zone.LastBefore l u) :
    zone.lastLocalBefore l = some (zone.localTime u) := by
  obtain ⟨x, hx, hxu⟩ := h.transition hskip
  obtain ⟨hu, hlast⟩ := h
  refine List.max?_eq_some_iff.mpr ⟨?_, ?_⟩
  · refine List.mem_filter.mpr ⟨List.mem_map.mpr ⟨x, hx, ?_⟩, by simpa using hu⟩
    rw [hxu, Int.add_sub_cancel]
  · intro b hb
    obtain ⟨hb, hlt⟩ := List.mem_filter.mp hb
    obtain ⟨y, _, rfl⟩ := List.mem_map.mp hb
    rcases hlast _ (by simpa using hlt) with h | ⟨h, _⟩ <;> omega

theorem utcOf_of_earliest (hu : zone.localTime u = l) (hmin : ∀ v, zone.localTime v = l → u ≤ v) :
    zone.utcOf l = u := by
  have hm : (zone.possibleInstants l).min? = some u := by
    refine List.min?_eq_some_iff.mpr ⟨mem_possibleInstants.mpr hu, ?_⟩
    intro v hv
    exact hmin v (mem_possibleInstants.mp hv)
  simp only [utcOf, hm]

theorem utcOf_of_skipped (hskip : ∀ v, zone.localTime v ≠ l) (h : zone.LastBefore l u) :
    zone.utcOf l = l - zone.offsetAt u := by
  have hnone : (zone.possibleInstants l).min? = none := by
    rw [List.min?_eq_none_iff, List.eq_nil_iff_forall_not_mem]
    intro v hv
    exact hskip v (mem_possibleInstants.mp hv)
  have hmax : (zone.possibleInstants (zone.localTime u)).max? = some u := by
    refine List.max?_eq_some_iff.mpr ⟨mem_possibleInstants.mpr rfl, ?_⟩
    intro v hv
    have hv := mem_possibleInstants.mp hv
    have hu := h.1
    rcases h.2 v (by omega) with hlt | ⟨_, hle⟩ <;> omega
  simp only [utcOf, hnone, h.lastLocalBefore hskip, Option.bind_some, hmax]

theorem exists_earliest (zone : TimeZone) (u : Int) : ∃ v, zone.localTime v = zone.localTime u ∧
    ∀ w, zone.localTime w = zone.localTime u → v ≤ w := by
  cases hm : (zone.possibleInstants (zone.localTime u)).min? with
  | none =>
    have hu : u ∈ zone.possibleInstants (zone.localTime u) := mem_possibleInstants.mpr rfl
    rw [List.min?_eq_none_iff.mp hm] at hu
    cases hu
  | some v =>
    obtain ⟨hv, hmin⟩ := List.min?_eq_some_iff.mp hm
    exact ⟨v, mem_possibleInstants.mp hv, fun w hw => hmin w (mem_possibleInstants.mpr hw)⟩

/-- Local time d after that of t is shown by the instant d after t and by none
before it; or it is skipped, and t and the last instant before the gap are in
one offset. -/
def KeepsTime (zone : TimeZone) (t d : Int) : Prop :=
  (zone.offsetAt (t + d) = zone.offsetAt t ∧
    ∀ u < t + d, zone.localTime u ≠ zone.localTime t + d) ∨
  ((∀ u, zone.localTime u ≠ zone.localTime t + d) ∧
    ∃ u, zone.LastBefore (zone.localTime t + d) u ∧ zone.offsetAt u = zone.offsetAt t)

/-- Adding d on the local calendar is adding d, exactly where local time keeps
time. -/
theorem utcOf_localTime_add_iff (d : Int) :
    zone.utcOf (zone.localTime t + d) = t + d ↔ zone.KeepsTime t d := by
  by_cases hshown : ∃ u, zone.localTime u = zone.localTime t + d
  · obtain ⟨u, hu⟩ := hshown
    obtain ⟨v, hv, hmin⟩ := zone.exists_earliest u
    rw [hu] at hv hmin
    rw [utcOf_of_earliest hv hmin]
    constructor
    · intro he
      subst he
      refine Or.inl ⟨?_, ?_⟩
      · simp only [localTime] at hv
        omega
      · intro w hw heq
        have := hmin w heq
        omega
    · intro h
      rcases h with ⟨hoffset, hfirst⟩ | ⟨hskip, _⟩
      · have hle : v ≤ t + d := by
          apply hmin
          simp only [localTime, hoffset]
          omega
        by_contra hne
        exact hfirst v (by omega) hv
      · exact absurd hu (hskip u)
  · have hskip : ∀ u, zone.localTime u ≠ zone.localTime t + d := fun u hu => hshown ⟨u, hu⟩
    obtain ⟨u, hu⟩ := zone.exists_lastBefore (zone.localTime t + d)
    rw [utcOf_of_skipped hskip hu]
    constructor
    · intro he
      refine Or.inr ⟨hskip, u, hu, ?_⟩
      simp only [localTime] at he
      omega
    · intro h
      rcases h with ⟨hoffset, _⟩ | ⟨_, w, hw, hoffset⟩
      · refine absurd ?_ (hskip (t + d))
        simp only [localTime, hoffset]
        omega
      · have hwu : w = u := by
          rcases hw.2 u hu.1 with h | ⟨_, h⟩ <;> rcases hu.2 w hw.1 with h' | ⟨_, h'⟩ <;> omega
        subst hwu
        simp only [localTime, hoffset]
        omega

end TimeZone

end HighVolumeBooking
