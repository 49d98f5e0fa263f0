import HighVolumeBooking.Machine.Run
import Mathlib.Algebra.BigOperators.Group.Finset.Basic
import Mathlib.Algebra.Order.Group.Defs
import Mathlib.Tactic.Abel

namespace Trading

/-! A box office. Each item has a price; it can be held until an instant and
sold once, to a buyer who pays out of a wallet. -/

structure Office (ι β τ M : Type) where
  heldUntil : ι → Option τ
  owner : ι → Option β
  wallet : β → M

inductive Event (ι β τ M : Type) where
  | hold (item : ι) (now deadline : τ)
  | sell (item : ι) (buyer : β) (now : τ)
  | deposit (buyer : β) (amount : M)

variable {ι β τ M : Type} [DecidableEq ι] [DecidableEq β]

/-- The event is about the item. -/
def Event.concerns (i : ι) : Event ι β τ M → Bool
  | .hold j _ _ => j == i
  | .sell j _ _ => j == i
  | .deposit _ _ => false

namespace Office

/-- No hold of an unsold item is running. -/
def Free [LE τ] (o : Office ι β τ M) (i : ι) (now : τ) : Prop :=
  o.owner i = none ∧ ∀ u ∈ o.heldUntil i, u ≤ now

/-- The unsold item is held. -/
def Reserved [LE τ] (o : Office ι β τ M) (i : ι) (now : τ) : Prop :=
  o.owner i = none ∧ ∃ u ∈ o.heldUntil i, now ≤ u

section Step

variable [LE τ] [DecidableLE τ] [AddCommGroup M] [LinearOrder M]

instance (o : Office ι β τ M) (i : ι) (now : τ) : Decidable (o.Free i now) :=
  inferInstanceAs (Decidable (_ ∧ _))

instance (o : Office ι β τ M) (i : ι) (now : τ) : Decidable (o.Reserved i now) :=
  inferInstanceAs (Decidable (_ ∧ _))

def step (price : ι → M) (o : Office ι β τ M) : Event ι β τ M → Option (Office ι β τ M)
  | .hold i now deadline =>
    if o.Free i now then
      some { o with heldUntil := Function.update o.heldUntil i (some deadline) }
    else none
  | .sell i b now =>
    if o.Reserved i now ∧ 0 < price i ∧ price i ≤ o.wallet b then
      some { o with
        owner := Function.update o.owner i (some b)
        wallet := Function.update o.wallet b (o.wallet b - price i) }
    else none
  | .deposit b amount =>
    if 0 < amount then
      some { o with wallet := Function.update o.wallet b (o.wallet b + amount) }
    else none

variable {price : ι → M} {o o' : Office ι β τ M} {i : ι} {b : β}

theorem step_hold {now deadline : τ} : step price o (.hold i now deadline) = some o' ↔
    o.Free i now ∧ o' = { o with heldUntil := Function.update o.heldUntil i (some deadline) } := by
  simp [step, @eq_comm _ o']

theorem step_sell {now : τ} : step price o (.sell i b now) = some o' ↔
    (o.Reserved i now ∧ 0 < price i ∧ price i ≤ o.wallet b) ∧
      o' = { o with
        owner := Function.update o.owner i (some b)
        wallet := Function.update o.wallet b (o.wallet b - price i) } := by
  simp [step, @eq_comm _ o']

theorem step_deposit {amount : M} : step price o (.deposit b amount) = some o' ↔
    0 < amount ∧
      o' = { o with wallet := Function.update o.wallet b (o.wallet b + amount) } := by
  simp [step, @eq_comm _ o']

/-! A sale is final. -/

theorem owner_step {e : Event ι β τ M} (h : step price o e = some o')
    (ho : o.owner i = some b) : o'.owner i = some b ∧ e.concerns i = false := by
  cases e with
  | hold j now deadline =>
    obtain ⟨hfree, rfl⟩ := step_hold.mp h
    refine ⟨ho, ?_⟩
    have hne : j ≠ i := by
      rintro rfl
      rw [hfree.1] at ho
      contradiction
    simpa [Event.concerns] using hne
  | sell j c now =>
    obtain ⟨⟨hheld, _⟩, rfl⟩ := step_sell.mp h
    have hne : j ≠ i := by
      rintro rfl
      rw [hheld.1] at ho
      contradiction
    refine ⟨?_, by simpa [Event.concerns] using hne⟩
    rw [← ho]
    exact Function.update_of_ne (Ne.symm hne) _ _
  | deposit c amount =>
    obtain ⟨_, rfl⟩ := step_deposit.mp h
    exact ⟨ho, rfl⟩

/-- What is sold stays sold to its buyer, and nothing happens to it again. -/
theorem owner_run {es : List (Event ι β τ M)} (h : Machine.run (step price) o es = some o')
    (ho : o.owner i = some b) : o'.owner i = some b ∧ ∀ e ∈ es, e.concerns i = false := by
  refine Machine.run_induction (fun es (o : Office ι β τ M) =>
    o.owner i = some b ∧ ∀ e ∈ es, e.concerns i = false) ⟨ho, by simp⟩ ?_ h
  intro es m e m' _ hm hs
  obtain ⟨howner, hrest⟩ := hm
  obtain ⟨howner', he⟩ := owner_step hs howner
  refine ⟨howner', ?_⟩
  intro x hx
  rcases List.mem_append.mp hx with hx | hx
  · exact hrest x hx
  · rw [List.mem_singleton.mp hx]
    exact he

end Step

/-! Wallets. -/

def deposited [Zero M] (b : β) : Event ι β τ M → M
  | .deposit c amount => if c = b then amount else 0
  | _ => 0

def paid [Zero M] (price : ι → M) (b : β) : Event ι β τ M → M
  | .sell i c _ => if c = b then price i else 0
  | _ => 0

section Wallets

variable [LE τ] [DecidableLE τ] [AddCommGroup M] [LinearOrder M] {price : ι → M}
  {o o' : Office ι β τ M} {es : List (Event ι β τ M)}

theorem wallet_step {e : Event ι β τ M} (h : step price o e = some o') (b : β) :
    o'.wallet b + paid price b e = o.wallet b + deposited b e := by
  cases e with
  | hold i now deadline =>
    obtain ⟨_, rfl⟩ := step_hold.mp h
    rfl
  | sell i c now =>
    obtain ⟨_, rfl⟩ := step_sell.mp h
    by_cases hc : c = b
    · subst hc
      simp [paid, deposited]
    · simp [paid, deposited, hc, Function.update_of_ne (Ne.symm hc)]
  | deposit c amount =>
    obtain ⟨_, rfl⟩ := step_deposit.mp h
    by_cases hc : c = b
    · subst hc
      simp [paid, deposited]
    · simp [paid, deposited, hc, Function.update_of_ne (Ne.symm hc)]

/-- Wallets reconcile with what was paid and deposited. -/
theorem wallet_run (h : Machine.run (step price) o es = some o') (b : β) :
    o'.wallet b + (es.map (paid price b)).sum = o.wallet b + (es.map (deposited b)).sum := by
  refine Machine.run_induction (fun es (o' : Office ι β τ M) =>
    o'.wallet b + (es.map (paid price b)).sum = o.wallet b + (es.map (deposited b)).sum)
    (by simp) ?_ h
  intro es m e m' _ hm hs
  have hstep := wallet_step hs b
  simp only [List.map_append, List.map_cons, List.map_nil, List.sum_append, List.sum_cons,
    List.sum_nil, add_zero]
  calc m'.wallet b + ((es.map (paid price b)).sum + paid price b e)
      = m'.wallet b + paid price b e + (es.map (paid price b)).sum := by abel
    _ = m.wallet b + (es.map (paid price b)).sum + deposited b e := by rw [hstep]; abel
    _ = o.wallet b + ((es.map (deposited b)).sum + deposited b e) := by rw [hm]; abel

variable [IsOrderedAddMonoid M]

/-- Nobody gets into debt. -/
theorem wallet_nonneg (hstart : ∀ b, 0 ≤ o.wallet b)
    (h : Machine.run (step price) o es = some o') (b : β) : 0 ≤ o'.wallet b := by
  refine Machine.run_induction (fun _ (o : Office ι β τ M) => ∀ b, 0 ≤ o.wallet b) hstart ?_ h b
  intro _ m e m' _ hm hs b
  cases e with
  | hold i now deadline =>
    obtain ⟨_, rfl⟩ := step_hold.mp hs
    exact hm b
  | sell i c now =>
    obtain ⟨⟨_, _, henough⟩, rfl⟩ := step_sell.mp hs
    by_cases hc : b = c
    · subst hc
      simpa using henough
    · simpa [Function.update_of_ne hc] using hm b
  | deposit c amount =>
    obtain ⟨hpos, rfl⟩ := step_deposit.mp hs
    by_cases hc : b = c
    · subst hc
      simpa using add_nonneg (hm b) hpos.le
    · simpa [Function.update_of_ne hc] using hm b

end Wallets

section Revenue

variable [LE τ] [DecidableLE τ] [AddCommGroup M] [LinearOrder M] {price : ι → M}
  {o o' : Office ι β τ M} {es : List (Event ι β τ M)}

/-- What a buyer paid are the prices of the items that are theirs. -/
theorem paid_run (hstart : ∀ i, o.owner i = none) (h : Machine.run (step price) o es = some o')
    (b : β) (items : Finset ι) (hitems : ∀ i c, o'.owner i = some c → i ∈ items) :
    (es.map (paid price b)).sum = ∑ i ∈ items with o'.owner i = some b, price i := by
  refine Machine.run_induction (fun es (o' : Office ι β τ M) =>
    (∀ i c, o'.owner i = some c → i ∈ items) →
      (es.map (paid price b)).sum = ∑ i ∈ items with o'.owner i = some b, price i)
    ?_ ?_ h hitems
  · intro _
    simp [hstart]
  intro es m e m' _ hm hs hitems
  have hold := hm fun i c hi => hitems i c (owner_step hs hi).1
  simp only [List.map_append, List.map_cons, List.map_nil, List.sum_append, List.sum_cons,
    List.sum_nil, add_zero, hold]
  cases e with
  | hold i now deadline =>
    obtain ⟨_, rfl⟩ := step_hold.mp hs
    simp [paid]
  | deposit c amount =>
    obtain ⟨_, rfl⟩ := step_deposit.mp hs
    simp [paid]
  | sell i c now =>
    obtain ⟨⟨⟨hunsold, _⟩, _⟩, rfl⟩ := step_sell.mp hs
    have hi : i ∈ items := hitems i c (Function.update_self ..)
    by_cases hc : c = b
    · subst hc
      have hins : (items.filter fun j => Function.update m.owner i (some c) j = some c) =
          insert i (items.filter fun j => m.owner j = some c) := by
        ext j
        by_cases hj : j = i
        · subst hj
          simp [hi]
        · simp [hj]
      rw [hins, Finset.sum_insert (by simp [hunsold])]
      simp [paid, add_comm]
    · have hsame : (items.filter fun j => Function.update m.owner i (some c) j = some b) =
          items.filter fun j => m.owner j = some b := by
        ext j
        by_cases hj : j = i
        · subst hj
          simp [hc, hunsold]
        · simp [hj]
      rw [hsame]
      simp [paid, hc]

end Revenue

end Office

end Trading
