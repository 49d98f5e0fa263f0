import HighVolumeBooking.ReadCommitted.Discipline
import HighVolumeBooking.ReadCommitted.System
import Mathlib.Logic.Relation

namespace ReadCommitted

variable {S : Schema} {ε β κ : Type}

/-- The rows whose lock the next statement may have to wait for. A locking
query may wait for any row of its table. -/
def Wants : Prog S ε β → Key S → Prop
  | .findForUpdate τ _ _, k => k.1 = τ
  | .update τ _ r _, k => k = (τ, S.key τ r)
  | .save τ r _, k => k = (τ, S.key τ r)
  | _, _ => False

/-- A script that locks tables in the order of rank, one row in each, and
saves only rows it has locked before. All tables from rank n on are unlocked. -/
def Ordered (rank : S.Tab → Nat) (n : Nat) (held : List (Key S)) : Prog S ε β → Prop
  | .done _ => True
  | .fail _ => True
  | .now k => ∀ t, Ordered rank n held (k t)
  | .begin k => Ordered rank n held k
  | .find _ _ k => ∀ r, Ordered rank n held (k r)
  | .findForUpdate τ _ k => n ≤ rank τ ∧ Ordered rank n held (k none) ∧
      ∀ r, Ordered rank (rank τ + 1) ((τ, S.key τ r) :: held) (k (some r))
  | .update τ _ r k => n ≤ rank τ ∧ Ordered rank n held (k false) ∧
      Ordered rank (rank τ + 1) ((τ, S.key τ r) :: held) (k true)
  | .save τ r k => (τ, S.key τ r) ∈ held ∧ Ordered rank n held k
  | .insert _ build k => ∀ i t, Ordered rank n held (k (build i t))

theorem InsertOnly.ordered {rank : S.Tab → Nat} {n : Nat} {held : List (Key S)}
    {p : Prog S ε β} (h : InsertOnly p) : Ordered rank n held p := by
  induction p with
  | done b => exact True.intro
  | fail e => exact True.intro
  | now k ih => exact fun t => ih t (h t)
  | begin k ih => exact ih h
  | insert τ build k ih => exact fun i t => ih _ (h.2 i t)
  | find τ i k => exact h.elim
  | findForUpdate τ q k => exact h.elim
  | update τ v r k => exact h.elim
  | save τ r k => exact h.elim

theorem Ordered.bind_clockOnly {γ : Type} {rank : S.Tab → Nat} {n : Nat} {held : List (Key S)}
    {Q : β → Prop} {p : Prog S ε β} {f : β → Prog S ε γ} (hp : ClockOnly Q p)
    (hf : ∀ b, Q b → Ordered rank n held (f b)) : Ordered rank n held (p.bind f) := by
  induction p with
  | done b => exact hf b hp
  | fail e => exact True.intro
  | now k ih => exact fun t => ih t (hp t)
  | begin k => exact hp.elim
  | find τ i k => exact hp.elim
  | findForUpdate τ q k => exact hp.elim
  | update τ v r k => exact hp.elim
  | save τ r k => exact hp.elim
  | insert τ build k => exact hp.elim

/-- t waits for a row lock that u holds. -/
def WaitsFor (s : Sys S ε β κ) (t u : TxId) : Prop :=
  t ≠ u ∧ ∃ tx k, s.running t = some tx ∧ Wants tx.frame.prog k ∧ s.owner k = some u

/-- What an open transaction owns has a rank below all it may still ask for. -/
structure Climbing (rank : S.Tab → Nat) (mine : Key S → Prop) (p : Prog S ε β) (n : Nat)
    (held : List (Key S)) : Prop where
  ordered : Ordered rank n held p
  owned : ∀ k ∈ held, mine k
  below : ∀ k, mine k → rank k.1 < n

section Frames

variable {rank : S.Tab → Nat} {mine : Key S → Prop} {n : Nat} {held : List (Key S)}

theorem Climbing.wants {p : Prog S ε β} {k : Key S} (h : Climbing rank mine p n held)
    (hw : Wants p k) (hk : ¬ mine k) : n ≤ rank k.1 := by
  have ho := h.ordered
  cases p with
  | findForUpdate τ q f =>
    obtain rfl : k.1 = τ := hw
    exact ho.1
  | update τ v r f =>
    obtain rfl : k = (τ, S.key τ r) := hw
    exact ho.1
  | save τ r f =>
    obtain rfl : k = (τ, S.key τ r) := hw
    exact absurd (h.owned _ ho.1) hk
  | done b => exact hw.elim
  | fail e => exact hw.elim
  | now f => exact hw.elim
  | begin f => exact hw.elim
  | find τ i f => exact hw.elim
  | insert τ build f => exact hw.elim

/-- A statement locks only rows it wants. -/
theorem Frame.step_wants {db : Db S} {f : Frame S ε β} {c : Choice} {o : Outcome S ε β}
    (h : f.step db c = some o) : ∀ k ∈ o.locks, Wants f.prog k := by
  cases hp : f.prog with
  | done b => simp [Frame.step_done hp] at h
  | fail e => simp [Frame.step_fail hp] at h
  | now k =>
    obtain ⟨t, _, rfl⟩ := (Frame.step_now hp).mp h
    simp
  | begin k =>
    obtain ⟨t, _, rfl⟩ := (Frame.step_begin hp).mp h
    simp
  | find τ i k =>
    obtain ⟨_, rfl⟩ := (Frame.step_find hp).mp h
    simp
  | findForUpdate τ p k =>
    rcases (Frame.step_findForUpdate hp).mp h with ⟨i, r, _, _, _, rfl⟩ | ⟨_, _, rfl⟩
    · simp [Wants]
    · simp
  | update τ v r k =>
    obtain ⟨_, ⟨old, _, _, rfl⟩ | ⟨_, rfl⟩⟩ := (Frame.step_update hp).mp h
    · simp [Wants]
    · simp
  | save τ r k =>
    obtain ⟨_, rfl⟩ := (Frame.step_save hp).mp h
    simp [Wants]
  | insert τ build k =>
    obtain ⟨i, t, _, _, _, rfl⟩ := (Frame.step_insert hp).mp h
    simp

/-- After a statement the rows owned before and those just locked still lie
below the next rank. -/
theorem Climbing.step {db : Db S} {f : Frame S ε β} {c : Choice} {o : Outcome S ε β}
    (h : Climbing rank mine f.prog n held) (hs : f.step db c = some o) :
    ∃ n' held', Climbing rank (fun k => k ∈ o.locks ∨ mine k) o.frame.prog n' held' := by
  have ho := h.ordered
  have hmine : ∀ k ∈ held, k ∈ ([] : List (Key S)) ∨ mine k := fun k hk => Or.inr (h.owned k hk)
  have hbelow : ∀ k, k ∈ ([] : List (Key S)) ∨ mine k → rank k.1 < n := by
    intro k hk
    exact h.below k (by simpa using hk)
  have htake : ∀ q : Key S, n ≤ rank q.1 → (∀ k ∈ q :: held, k ∈ [q] ∨ mine k) ∧
      ∀ k, k ∈ [q] ∨ mine k → rank k.1 < rank q.1 + 1 := by
    intro q hq
    constructor
    · intro k hk
      rcases List.mem_cons.mp hk with rfl | hk
      · exact Or.inl List.mem_cons_self
      · exact Or.inr (h.owned k hk)
    · intro k hk
      rcases hk with hk | hk
      · obtain rfl := List.mem_singleton.mp hk
        omega
      · have := h.below k hk
        omega
  cases hp : f.prog with
  | done b => simp [Frame.step_done hp] at hs
  | fail e => simp [Frame.step_fail hp] at hs
  | now k =>
    obtain ⟨t, _, rfl⟩ := (Frame.step_now hp).mp hs
    rw [hp] at ho
    exact ⟨n, held, ho t, hmine, hbelow⟩
  | begin k =>
    obtain ⟨t, _, rfl⟩ := (Frame.step_begin hp).mp hs
    rw [hp] at ho
    exact ⟨n, held, ho, hmine, hbelow⟩
  | find τ i k =>
    obtain ⟨_, rfl⟩ := (Frame.step_find hp).mp hs
    rw [hp] at ho
    exact ⟨n, held, ho _, hmine, hbelow⟩
  | findForUpdate τ p k =>
    rw [hp] at ho
    obtain ⟨hn, hnone, hsome⟩ := ho
    rcases (Frame.step_findForUpdate hp).mp hs with ⟨i, r, _, hr, _, rfl⟩ | ⟨_, _, rfl⟩
    · obtain rfl : S.key τ r = i := Table.key_of_find? hr
      obtain ⟨howned, hlt⟩ := htake (τ, S.key τ r) hn
      exact ⟨rank τ + 1, _, hsome r, howned, hlt⟩
    · exact ⟨n, held, hnone, hmine, hbelow⟩
  | update τ v r k =>
    rw [hp] at ho
    obtain ⟨hn, hfalse, htrue⟩ := ho
    obtain ⟨_, ⟨old, _, _, rfl⟩ | ⟨_, rfl⟩⟩ := (Frame.step_update hp).mp hs
    · obtain ⟨howned, hlt⟩ := htake (τ, S.key τ r) hn
      exact ⟨rank τ + 1, _, htrue, howned, hlt⟩
    · exact ⟨n, held, hfalse, hmine, hbelow⟩
  | save τ r k =>
    rw [hp] at ho
    obtain ⟨hheld, hk⟩ := ho
    obtain ⟨_, rfl⟩ := (Frame.step_save hp).mp hs
    refine ⟨n, held, hk, fun q hq => Or.inr (h.owned q hq), ?_⟩
    intro q hq
    rcases hq with hq | hq
    · obtain rfl := List.mem_singleton.mp hq
      exact h.below _ (h.owned _ hheld)
    · exact h.below q hq
  | insert τ build k =>
    obtain ⟨i, t, _, _, _, rfl⟩ := (Frame.step_insert hp).mp hs
    rw [hp] at ho
    exact ⟨n, held, ho i t, hmine, hbelow⟩

end Frames

/-- The invariant of the lock table: locks belong to open transactions, and
every open transaction climbs. -/
structure LockInv (rank : S.Tab → Nat) (s : Sys S ε β κ) : Prop where
  live : ∀ k t, s.owner k = some t → ∃ tx, s.running t = some tx
  climbing : ∀ t tx, s.running t = some tx →
    ∃ n held, Climbing rank (fun k => s.owner k = some t) tx.frame.prog n held

namespace LockInv

variable {body : κ → Prog S ε β} {rank : S.Tab → Nat} {s s' : Sys S ε β κ} {t : TxId}

theorem init {db : Db S} : LockInv rank (Sys.init db : Sys S ε β κ) where
  live := by simp [Sys.init]
  climbing := by simp [Sys.init]

theorem release {committed : Db S} {log : List (Entry β κ)} (h : LockInv rank s) :
    LockInv rank { s with
      committed := committed
      running := Function.update s.running t none
      owner := Sys.release s.owner t
      log := log } := by
  constructor
  · intro k u hk
    obtain ⟨hk, hne⟩ := Sys.owner_of_release hk
    obtain ⟨tx, hr⟩ := h.live k u hk
    exact ⟨tx, by simpa [hne] using hr⟩
  · intro u ux hu
    obtain ⟨hne, hu⟩ := Sys.running_end hu
    obtain ⟨n, held, hc⟩ := h.climbing u ux hu
    exact ⟨n, held, hc.ordered, fun k hk => Sys.owner_release hne (hc.owned k hk),
      fun k hk => hc.below k (Sys.owner_of_release hk).1⟩

theorem step_start {call : κ} (h : LockInv rank s) (hord : Ordered rank 0 [] (body call))
    (hs : Sys.step body s (.start t call) = some s') : LockInv rank s' := by
  obtain ⟨hr, rfl⟩ := Sys.step_start hs
  have hnone : ∀ k, s.owner k ≠ some t := by
    intro k hk
    obtain ⟨tx, htx⟩ := h.live k t hk
    rw [hr] at htx
    contradiction
  constructor
  · intro k u hk
    obtain ⟨tx, htx⟩ := h.live k u hk
    have hne : u ≠ t := by
      intro he
      exact hnone k (he ▸ hk)
    exact ⟨tx, by simpa [hne] using htx⟩
  · intro u ux hu
    rcases Sys.running_update hu with ⟨rfl, rfl⟩ | ⟨_, hu⟩
    · exact ⟨0, [], hord, by simp, fun k hk => absurd hk (hnone k)⟩
    · exact h.climbing u ux hu

theorem step_stmt {c : Choice} (h : LockInv rank s)
    (hs : Sys.step body s (.stmt t c) = some s') : LockInv rank s' := by
  obtain ⟨tx, o, hr, ho, hfree, _, rfl⟩ := Sys.step_stmt hs
  rw [Sys.free_iff] at hfree
  have hlock : ∀ k u, Sys.lock s.owner t o.locks k = some u ↔
      (u = t ∧ k ∈ o.locks) ∨ s.owner k = some u := by
    intro k u
    unfold Sys.lock
    split
    · rename_i hk
      rcases hfree k hk with hn | hn <;> simp [hk, hn, @eq_comm _ t u]
    · rename_i hk
      simp [hk]
  constructor
  · intro k u hk
    rcases (hlock k u).mp hk with ⟨rfl, _⟩ | hk
    · exact ⟨_, Function.update_self ..⟩
    · by_cases hut : u = t
      · subst hut
        exact ⟨_, Function.update_self ..⟩
      · obtain ⟨ux, hu⟩ := h.live k u hk
        exact ⟨ux, by simpa [hut] using hu⟩
  · intro u ux hu
    rcases Sys.running_update hu with ⟨rfl, rfl⟩ | ⟨hne, hu⟩
    · obtain ⟨n, held, hc⟩ := h.climbing u tx hr
      obtain ⟨n', held', hc'⟩ := hc.step ho
      refine ⟨n', held', hc'.ordered, ?_, ?_⟩
      · intro k hk
        exact (hlock k u).mpr ((hc'.owned k hk).imp_left fun hin => ⟨rfl, hin⟩)
      · intro k hk
        exact hc'.below k (((hlock k u).mp hk).imp_left And.right)
    · obtain ⟨n, held, hc⟩ := h.climbing u ux hu
      refine ⟨n, held, hc.ordered, fun k hk => (hlock k u).mpr (Or.inr (hc.owned k hk)), ?_⟩
      intro k hk
      rcases (hlock k u).mp hk with ⟨he, _⟩ | hk
      · exact absurd he hne
      · exact hc.below k hk

theorem step {a : Act κ} (h : LockInv rank s) (hord : ∀ call, Ordered rank 0 [] (body call))
    (hs : Sys.step body s a = some s') : LockInv rank s' := by
  cases a with
  | start t call => exact h.step_start (hord call) hs
  | stmt t c => exact h.step_stmt hs
  | commit t =>
    obtain ⟨_, _, _, _, rfl⟩ := Sys.step_commit hs
    exact h.release
  | abort t =>
    obtain ⟨_, _, rfl⟩ := Sys.step_abort hs
    exact h.release

theorem reachable {db : Db S} (hord : ∀ call, Ordered rank 0 [] (body call))
    (h : Machine.Reachable (Sys.step body) (Sys.init db) s) : LockInv rank s :=
  h.invariant (LockInv rank) init fun _ _ _ _ hm hs => hm.step hord hs

/-- Whoever is waited for holds a lock of a higher rank than the waiter. -/
theorem waitsFor {u : TxId} (h : LockInv rank s) (hw : WaitsFor s t u) :
    ∃ k, s.owner k = some u ∧ ∀ q, s.owner q = some t → rank q.1 < rank k.1 := by
  obtain ⟨hne, tx, k, hr, hwant, hk⟩ := hw
  obtain ⟨n, held, hc⟩ := h.climbing t tx hr
  have hnot : s.owner k ≠ some t := by
    rw [hk]
    exact fun he => hne (Option.some.inj he).symm
  have hn := hc.wants hwant hnot
  exact ⟨k, hk, fun q hq => Nat.lt_of_lt_of_le (hc.below q hq) hn⟩

theorem waitsFor_trans {u : TxId} (h : LockInv rank s)
    (hw : Relation.TransGen (WaitsFor s) t u) :
    ∃ k, s.owner k = some u ∧ ∀ q, s.owner q = some t → rank q.1 < rank k.1 := by
  induction hw with
  | single hw => exact h.waitsFor hw
  | tail _ hw ih =>
    obtain ⟨k, hk, hlt⟩ := ih
    obtain ⟨k', hk', hlt'⟩ := h.waitsFor hw
    exact ⟨k', hk', fun q hq => Nat.lt_trans (hlt q hq) (hlt' k hk)⟩

/-- No transaction waits for itself through any chain of others. -/
theorem acyclic (h : LockInv rank s) (t : TxId) : ¬ Relation.TransGen (WaitsFor s) t t := by
  intro hw
  obtain ⟨k, hk, hlt⟩ := h.waitsFor_trans hw
  exact Nat.lt_irrefl _ (hlt k hk)

end LockInv

/-- A statement that cannot run because of the lock table waits for an owner. -/
theorem waitsFor_of_blocked {s : Sys S ε β κ} {t : TxId} {tx : Tx S ε β κ} {c : Choice}
    {o : Outcome S ε β} (hr : s.running t = some tx) (ho : tx.frame.step s.committed c = some o)
    (hb : s.free t o.locks = false) : ∃ u, WaitsFor s t u := by
  obtain ⟨k, hk, u, hne, hu⟩ := Sys.held_of_not_free hb
  exact ⟨u, hne.symm, tx, k, hr, Frame.step_wants ho k hk, hu⟩

end ReadCommitted
