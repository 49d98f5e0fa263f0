import HighVolumeBooking.ReadCommitted.LockOrder
import Mathlib.Algebra.Order.BigOperators.Group.Finset
import Mathlib.Data.Fintype.EquivFin

namespace ReadCommitted

variable {S : Schema} {ε β γ κ : Type}

/-- A script that ends within n statements, whatever it is answered. It inserts
only after its BEGIN, and under the key that the sequence issues. -/
inductive Finishes : Bool → Nat → Prog S ε β → Prop
  | done {begun : Bool} {n : Nat} (b : β) : Finishes begun n (.done b)
  | fail {begun : Bool} {n : Nat} (e : ε) : Finishes begun n (.fail e)
  | now {begun : Bool} {n : Nat} {k : Int → Prog S ε β} (h : ∀ t, Finishes begun n (k t)) :
      Finishes begun (n + 1) (.now k)
  | begin {begun : Bool} {n : Nat} {k : Prog S ε β} (h : Finishes true n k) :
      Finishes begun (n + 1) (.begin k)
  | find {begun : Bool} {n : Nat} {τ : S.Tab} {i : RowId} {k : Option (S.Row τ) → Prog S ε β}
      (h : ∀ r, Finishes begun n (k r)) : Finishes begun (n + 1) (.find τ i k)
  | findForUpdate {begun : Bool} {n : Nat} {τ : S.Tab} {p : S.Row τ → Bool}
      {k : Option (S.Row τ) → Prog S ε β} (h : ∀ r, Finishes begun n (k r)) :
      Finishes begun (n + 1) (.findForUpdate τ p k)
  | update {begun : Bool} {n : Nat} {τ : S.Tab} {v : Nat} {r : S.Row τ} {k : Bool → Prog S ε β}
      (h : ∀ b, Finishes begun n (k b)) : Finishes begun (n + 1) (.update τ v r k)
  | save {begun : Bool} {n : Nat} {τ : S.Tab} {r : S.Row τ} {k : Prog S ε β}
      (h : Finishes begun n k) : Finishes begun (n + 1) (.save τ r k)
  | insert {n : Nat} {τ : S.Tab} {build : RowId → Int → S.Row τ} {k : S.Row τ → Prog S ε β}
      (hkey : ∀ i t, S.key τ (build i t) = i) (h : ∀ r, Finishes true n (k r)) :
      Finishes true (n + 1) (.insert τ build k)

namespace Finishes

theorem mono {begun begun' : Bool} {m n : Nat} {p : Prog S ε β} (h : Finishes begun m p)
    (hmn : m ≤ n) (hbegun : begun = true → begun' = true) : Finishes begun' n p := by
  induction h generalizing n begun' with
  | done b => exact .done b
  | fail e => exact .fail e
  | now _ ih =>
    obtain ⟨n, rfl⟩ := Nat.exists_eq_add_of_le' (Nat.one_le_of_lt hmn)
    exact .now fun t => ih t (Nat.le_of_succ_le_succ hmn) hbegun
  | begin _ ih =>
    obtain ⟨n, rfl⟩ := Nat.exists_eq_add_of_le' (Nat.one_le_of_lt hmn)
    exact .begin (ih (Nat.le_of_succ_le_succ hmn) id)
  | find _ ih =>
    obtain ⟨n, rfl⟩ := Nat.exists_eq_add_of_le' (Nat.one_le_of_lt hmn)
    exact .find fun r => ih r (Nat.le_of_succ_le_succ hmn) hbegun
  | findForUpdate _ ih =>
    obtain ⟨n, rfl⟩ := Nat.exists_eq_add_of_le' (Nat.one_le_of_lt hmn)
    exact .findForUpdate fun r => ih r (Nat.le_of_succ_le_succ hmn) hbegun
  | update _ ih =>
    obtain ⟨n, rfl⟩ := Nat.exists_eq_add_of_le' (Nat.one_le_of_lt hmn)
    exact .update fun b => ih b (Nat.le_of_succ_le_succ hmn) hbegun
  | save _ ih =>
    obtain ⟨n, rfl⟩ := Nat.exists_eq_add_of_le' (Nat.one_le_of_lt hmn)
    exact .save (ih (Nat.le_of_succ_le_succ hmn) hbegun)
  | insert hkey _ ih =>
    obtain ⟨n, rfl⟩ := Nat.exists_eq_add_of_le' (Nat.one_le_of_lt hmn)
    rw [hbegun rfl]
    exact .insert hkey fun r => ih r (Nat.le_of_succ_le_succ hmn) id

theorem bind {begun : Bool} {m n : Nat} {p : Prog S ε β} {f : β → Prog S ε γ}
    (h : Finishes begun m p) (hf : ∀ b, Finishes begun n (f b)) :
    Finishes begun (n + m) (p.bind f) := by
  induction h with
  | done b => exact (hf b).mono (Nat.le_add_right _ _) id
  | fail e => exact .fail e
  | now _ ih => exact .now fun t => ih t hf
  | begin _ ih => exact .begin (ih fun b => (hf b).mono (Nat.le_refl _) fun _ => rfl)
  | find _ ih => exact .find fun r => ih r hf
  | findForUpdate _ ih => exact .findForUpdate fun r => ih r hf
  | update _ ih => exact .update fun b => ih b hf
  | save _ ih => exact .save (ih hf)
  | insert hkey _ ih => exact .insert hkey fun r => ih r hf

/-- Every statement brings a script nearer to its end. -/
theorem step {db : Db S} {f : Frame S ε β} {c : Choice} {o : Outcome S ε β} {n : Nat}
    (h : Finishes f.began.isSome n f.prog) (hs : f.step db c = some o) :
    0 < n ∧ Finishes o.frame.began.isSome (n - 1) o.frame.prog := by
  generalize hp : f.prog = p at h
  generalize hb : f.began.isSome = begun at h
  cases h with
  | done b => simp [Frame.step_done hp] at hs
  | fail e => simp [Frame.step_fail hp] at hs
  | now h =>
    obtain ⟨t, _, rfl⟩ := (Frame.step_now hp).mp hs
    exact ⟨Nat.succ_pos _, hb ▸ h t⟩
  | begin h =>
    obtain ⟨t, _, rfl⟩ := (Frame.step_begin hp).mp hs
    exact ⟨Nat.succ_pos _, h⟩
  | find h =>
    obtain ⟨_, rfl⟩ := (Frame.step_find hp).mp hs
    exact ⟨Nat.succ_pos _, hb ▸ h _⟩
  | findForUpdate h =>
    rcases (Frame.step_findForUpdate hp).mp hs with ⟨i, r, _, _, _, rfl⟩ | ⟨_, _, rfl⟩
    · exact ⟨Nat.succ_pos _, hb ▸ h _⟩
    · exact ⟨Nat.succ_pos _, hb ▸ h _⟩
  | update h =>
    obtain ⟨_, ⟨old, _, _, rfl⟩ | ⟨_, rfl⟩⟩ := (Frame.step_update hp).mp hs
    · exact ⟨Nat.succ_pos _, hb ▸ h _⟩
    · exact ⟨Nat.succ_pos _, hb ▸ h _⟩
  | save h =>
    obtain ⟨_, rfl⟩ := (Frame.step_save hp).mp hs
    exact ⟨Nat.succ_pos _, hb ▸ h⟩
  | insert hkey h =>
    obtain ⟨i, t, _, _, _, rfl⟩ := (Frame.step_insert hp).mp hs
    exact ⟨Nat.succ_pos _, h _⟩

end Finishes

/-- In a table there is a key that names no row and is none of ks. -/
theorem Db.exists_unissued (db : Db S) (τ : S.Tab) (ks : List (Key S)) :
    ∃ i, db.find τ i = none ∧ (τ, i) ∉ ks := by
  obtain ⟨i, hi⟩ := Infinite.exists_notMem_finset
    ((db τ).rows.map (S.key τ) ++ (ks.filter fun k => k.1 = τ).map Prod.snd).toFinset
  simp only [List.mem_toFinset, List.mem_append, not_or] at hi
  refine ⟨i, Table.find?_eq_none.mpr fun r hr he => hi.1 (List.mem_map.mpr ⟨r, hr, he⟩), ?_⟩
  intro hk
  exact hi.2 (List.mem_map.mpr ⟨(τ, i), List.mem_filter.mpr ⟨hk, by simp⟩, rfl⟩)

/-- Where nobody waits in a circle, somebody waits for nobody. -/
theorem exists_unblocked {α : Type} {R : α → α → Prop}
    (h : ∀ a, ¬ Relation.TransGen R a a) {xs : Finset α} (hne : xs.Nonempty) :
    ∃ a ∈ xs, ∀ b ∈ xs, ¬ R a b := by
  let waits (b a : xs) : Prop := Relation.TransGen R a b
  have : IsTrans xs waits := ⟨fun a b c hab hbc => hbc.trans hab⟩
  have : Std.Irrefl waits := ⟨fun a => h a⟩
  obtain ⟨x, hx⟩ := hne
  obtain ⟨a, _, ha⟩ := (Finite.wellFounded_of_trans_of_irrefl waits).has_min Set.univ
    ⟨⟨x, hx⟩, trivial⟩
  exact ⟨a, a.2, fun b hb hab => ha ⟨b, hb⟩ trivial (.single hab)⟩

/-- A step that an open transaction takes by itself: a statement, its commit,
or its rollback once its script has failed. -/
def OwnStep (s : Sys S ε β κ) : Act κ → Prop
  | .start _ _ => False
  | .stmt _ _ => True
  | .commit _ => True
  | .abort t => ∃ tx e, s.running t = some tx ∧ tx.frame.prog = .fail e

/-- The open transactions are among ts, and each has fewer than left statements
to go. -/
structure Closing (s : Sys S ε β κ) (ts : Finset TxId) (left : TxId → Nat) : Prop where
  cover : ∀ t tx, s.running t = some tx → t ∈ ts
  finishes : ∀ t tx, s.running t = some tx →
    ∃ n, n < left t ∧ Finishes tx.frame.began.isSome n tx.frame.prog

section Steps

variable {body : κ → Prog S ε β} {rank : S.Tab → Nat} {s : Sys S ε β κ} {t : TxId}
  {tx : Tx S ε β κ} {ts : Finset TxId} {left : TxId → Nat}

theorem Sys.stmt_enabled (body : κ → Prog S ε β) {c : Choice} {o : Outcome S ε β}
    (hr : s.running t = some tx) (ho : tx.frame.step s.committed c = some o)
    (hfree : s.free t o.locks = true) (hnew : ∀ k ∈ o.fresh, k ∉ s.issued) :
    (step body s (.stmt t c)).isSome = true := by
  simp only [step, hr, ho]
  rw [if_pos ⟨hfree, hnew⟩]
  rfl

theorem Sys.commit_enabled (body : κ → Prog S ε β) {b : β} (hr : s.running t = some tx)
    (hb : tx.frame.prog = .done b) : (step body s (.commit t)).isSome = true := by
  simp only [step, hr, hb]
  rfl

theorem Sys.abort_enabled (body : κ → Prog S ε β) (hr : s.running t = some tx) :
    (step body s (.abort t)).isSome = true := by
  simp only [step, hr]
  rfl

/-- Whoever waits for nobody can take its next statement, while the clock
stands at now. -/
theorem Finishes.stmt (body : κ → Prog S ε β) {n : Nat} (now : Int) (hr : s.running t = some tx)
    (h : Finishes tx.frame.began.isSome n tx.frame.prog) (hw : ∀ u, ¬ WaitsFor s t u) :
    (∃ b, tx.frame.prog = .done b) ∨ (∃ e, tx.frame.prog = .fail e) ∨
      ∃ c s', Sys.step body s (.stmt t c) = some s' ∧ ∀ i, c.clock? = some i → i = now := by
  have htake : ∀ c o, tx.frame.step s.committed c = some o → (∀ k ∈ o.fresh, k ∉ s.issued) →
      (∀ i, c.clock? = some i → i = now) →
      ∃ c s', Sys.step body s (.stmt t c) = some s' ∧ ∀ i, c.clock? = some i → i = now := by
    intro c o ho hnew hc
    have hfree : s.free t o.locks = true := by
      by_contra hb
      obtain ⟨u, hu⟩ := waitsFor_of_blocked hr ho (Bool.eq_false_iff.mpr hb)
      exact hw u hu
    have hs := Sys.stmt_enabled body hr ho hfree hnew
    obtain ⟨s', hs⟩ := Option.isSome_iff_exists.mp hs
    exact ⟨c, s', hs, hc⟩
  generalize hp : tx.frame.prog = p at h
  generalize hb : tx.frame.began.isSome = begun at h
  cases h with
  | done b => exact Or.inl ⟨b, rfl⟩
  | fail e => exact Or.inr (Or.inl ⟨e, rfl⟩)
  | now h =>
    refine Or.inr (Or.inr (htake (.clock now) _ ((Frame.step_now hp).mpr ⟨now, rfl, rfl⟩) ?_ ?_))
    · simp
    · simp [Choice.clock?]
  | begin h =>
    refine Or.inr (Or.inr (htake (.clock now) _ ((Frame.step_begin hp).mpr ⟨now, rfl, rfl⟩) ?_ ?_))
    · simp
    · simp [Choice.clock?]
  | find h =>
    refine Or.inr (Or.inr (htake .quiet _ ((Frame.step_find hp).mpr ⟨rfl, rfl⟩) ?_ ?_))
    · simp
    · simp [Choice.clock?]
  | @findForUpdate _ _ τ q k h =>
    cases hany : ((s.committed.apply tx.frame.writes) τ).rows.any q with
    | false =>
      refine Or.inr (Or.inr (htake (.picked none) _
        ((Frame.step_findForUpdate hp).mpr (Or.inr ⟨rfl, hany, rfl⟩)) ?_ ?_))
      · simp
      · simp [Choice.clock?]
    | true =>
      obtain ⟨r, hmem, hq⟩ := List.any_eq_true.mp hany
      refine Or.inr (Or.inr (htake (.picked (some (S.key τ r))) _ ((Frame.step_findForUpdate hp).mpr
        (Or.inl ⟨_, r, rfl, Table.find?_of_mem hmem, hq, rfl⟩)) ?_ ?_))
      · simp
      · simp [Choice.clock?]
  | @update _ _ τ v r k h =>
    by_cases hv : ∃ old, (s.committed.apply tx.frame.writes).find τ (S.key τ r) = some old ∧
        S.version τ old = v
    · obtain ⟨old, hold, hver⟩ := hv
      refine Or.inr (Or.inr (htake .quiet _
        ((Frame.step_update hp).mpr ⟨rfl, Or.inl ⟨old, hold, hver, rfl⟩⟩) ?_ ?_))
      · simp
      · simp [Choice.clock?]
    · have hother : ∀ old, (s.committed.apply tx.frame.writes).find τ (S.key τ r) = some old →
          S.version τ old ≠ v := fun old hold hver => hv ⟨old, hold, hver⟩
      refine Or.inr (Or.inr (htake .quiet _
        ((Frame.step_update hp).mpr ⟨rfl, Or.inr ⟨hother, rfl⟩⟩) ?_ ?_))
      · simp
      · simp [Choice.clock?]
  | save h =>
    refine Or.inr (Or.inr (htake .quiet _ ((Frame.step_save hp).mpr ⟨rfl, rfl⟩) ?_ ?_))
    · simp
    · simp [Choice.clock?]
  | @insert _ τ build k hkey h =>
    obtain ⟨began, hbegan⟩ := Option.isSome_iff_exists.mp hb
    obtain ⟨i, hnone, hnew⟩ := Db.exists_unissued (s.committed.apply tx.frame.writes) τ s.issued
    rw [← hkey i began] at hnone hnew
    refine Or.inr (Or.inr (htake (.issued i) _
      ((Frame.step_insert hp).mpr ⟨i, began, rfl, hbegan, hnone, rfl⟩) ?_ ?_))
    · simpa using hnew
    · simp [Choice.clock?]

/-- One step less for u, and fewer in all. -/
theorem sum_update_lt {u : TxId} (hu : u ∈ ts) (hpos : 0 < left u) :
    ∑ v ∈ ts, Function.update left u (left u - 1) v < ∑ v ∈ ts, left v := by
  refine Finset.sum_lt_sum ?_ ⟨u, hu, ?_⟩
  · intro v _
    by_cases hv : v = u
    · subst hv
      rw [Function.update_self]
      exact Nat.sub_le _ _
    · rw [Function.update_of_ne hv]
  · rw [Function.update_self]
    omega

/-- While a transaction is open, one that waits for nobody takes a step, and
has one step less to go. -/
theorem Closing.advance (body : κ → Prog S ε β) (now : Int) (h : Closing s ts left)
    (hlocks : LockInv rank s) (hr : s.running t = some tx) :
    ∃ a s', a.tx ∈ ts ∧ 0 < left a.tx ∧ OwnStep s a ∧ Sys.step body s a = some s' ∧
      (∀ i, a.clock? = some i → i = now) ∧
      Closing s' ts (Function.update left a.tx (left a.tx - 1)) := by
  have hopen : (ts.filter fun u => (s.running u).isSome).Nonempty :=
    ⟨t, Finset.mem_filter.mpr ⟨h.cover t tx hr, by rw [hr]; rfl⟩⟩
  obtain ⟨u, hu, hfree⟩ := exists_unblocked hlocks.acyclic hopen
  obtain ⟨hut, hsome⟩ := Finset.mem_filter.mp hu
  obtain ⟨ux, hux⟩ := Option.isSome_iff_exists.mp hsome
  -- An owner of a lock is open, so u waits for nobody at all.
  have hw : ∀ v, ¬ WaitsFor s u v := by
    intro v hv
    obtain ⟨_, _, k, _, _, hk⟩ := id hv
    obtain ⟨vx, hvx⟩ := hlocks.live k v hk
    exact hfree v (Finset.mem_filter.mpr ⟨h.cover v vx hvx, by rw [hvx]; rfl⟩) hv
  obtain ⟨n, hn, hfin⟩ := h.finishes u ux hux
  have hpos : 0 < left u := Nat.lt_of_le_of_lt (Nat.zero_le n) hn
  have hend : ∀ s' : Sys S ε β κ, s'.running = Function.update s.running u none →
      Closing s' ts (Function.update left u (left u - 1)) := by
    intro s' hs'
    constructor
    · intro v vx hv
      rw [hs'] at hv
      exact h.cover v vx (Sys.running_end hv).2
    · intro v vx hv
      rw [hs'] at hv
      obtain ⟨hvu, hold⟩ := Sys.running_end hv
      rw [Function.update_of_ne hvu]
      exact h.finishes v vx hold
  rcases hfin.stmt body now hux hw with ⟨b, hb⟩ | ⟨e, he⟩ | ⟨c, s', hs, hc⟩
  · obtain ⟨s', hs⟩ := Option.isSome_iff_exists.mp (Sys.commit_enabled body hux hb)
    refine ⟨.commit u, s', hut, hpos, trivial, hs, by simp [Act.clock?], hend s' ?_⟩
    obtain ⟨_, _, _, _, rfl⟩ := Sys.step_commit hs
    rfl
  · obtain ⟨s', hs⟩ := Option.isSome_iff_exists.mp (Sys.abort_enabled body hux)
    refine ⟨.abort u, s', hut, hpos, ⟨ux, e, hux, he⟩, hs, by simp [Act.clock?], hend s' ?_⟩
    obtain ⟨_, _, rfl⟩ := Sys.step_abort hs
    rfl
  · refine ⟨.stmt u c, s', hut, hpos, trivial, hs, hc, ?_⟩
    obtain ⟨ux', o, hux', ho, _, _, rfl⟩ := Sys.step_stmt hs
    obtain rfl := Option.some.inj (hux.symm.trans hux')
    obtain ⟨hleft, hnext⟩ := hfin.step ho
    constructor
    · intro v vx hv
      rcases Sys.running_update hv with ⟨rfl, _⟩ | ⟨_, hold⟩
      · exact hut
      · exact h.cover v vx hold
    · intro v vx hv
      rcases Sys.running_update hv with ⟨rfl, rfl⟩ | ⟨hvu, hold⟩
      · refine ⟨n - 1, ?_, hnext⟩
        show n - 1 < Function.update left v (left v - 1) v
        rw [Function.update_self]
        omega
      · refine h.finishes v vx hold |>.imp fun m hm => ⟨?_, hm.2⟩
        show m < Function.update left u (left u - 1) v
        rw [Function.update_of_ne hvu]
        exact hm.1

/-- What is open is what is left of the scripts that were started. -/
theorem Finishes.reachable {db : Db S} {n : Nat} (hn : ∀ call, Finishes false n (body call))
    (h : Machine.Reachable (Sys.step body) (Sys.init db) s) : ∀ t tx, s.running t = some tx →
      ∃ m, m < n + 1 ∧ Finishes tx.frame.began.isSome m tx.frame.prog := by
  refine h.invariant (fun s : Sys S ε β κ => ∀ t tx, s.running t = some tx →
    ∃ m, m < n + 1 ∧ Finishes tx.frame.began.isSome m tx.frame.prog) (by simp [Sys.init]) ?_
  intro m a s' _ hm hs u ux hu
  cases a with
  | start t call =>
    obtain ⟨_, rfl⟩ := Sys.step_start hs
    rcases Sys.running_update hu with ⟨rfl, rfl⟩ | ⟨_, hu⟩
    · exact ⟨n, Nat.lt_succ_self n, hn call⟩
    · exact hm u ux hu
  | stmt t c =>
    obtain ⟨tx, o, hr, ho, _, _, rfl⟩ := Sys.step_stmt hs
    rcases Sys.running_update hu with ⟨rfl, rfl⟩ | ⟨_, hu⟩
    · obtain ⟨k, hk, hfin⟩ := hm u tx hr
      exact ⟨k - 1, by omega, (hfin.step ho).2⟩
    · exact hm u ux hu
  | commit t =>
    obtain ⟨_, _, _, _, rfl⟩ := Sys.step_commit hs
    exact hm u ux (Sys.running_end hu).2
  | abort t =>
    obtain ⟨_, _, rfl⟩ := Sys.step_abort hs
    exact hm u ux (Sys.running_end hu).2

/-- Finitely many transactions are open in a reachable state. -/
theorem Sys.exists_open {db : Db S} (h : Machine.Reachable (step body) (init db) s) :
    ∃ ts : Finset TxId, ∀ t, t ∈ ts ↔ ∃ tx, s.running t = some tx := by
  have hcover : ∃ ts : Finset TxId, ∀ t tx, s.running t = some tx → t ∈ ts := by
    refine h.invariant (fun s : Sys S ε β κ => ∃ ts : Finset TxId, ∀ t tx,
      s.running t = some tx → t ∈ ts) ⟨∅, by simp [init]⟩ ?_
    intro m a s' _ hm hs
    obtain ⟨ts, hts⟩ := hm
    cases a with
    | start t call =>
      obtain ⟨_, rfl⟩ := step_start hs
      refine ⟨insert t ts, fun u ux hu => ?_⟩
      rcases running_update hu with ⟨rfl, _⟩ | ⟨_, hu⟩
      · exact Finset.mem_insert_self u ts
      · exact Finset.mem_insert_of_mem (hts u ux hu)
    | stmt t c =>
      obtain ⟨tx, o, hr, _, _, _, rfl⟩ := step_stmt hs
      refine ⟨ts, fun u ux hu => ?_⟩
      rcases running_update hu with ⟨rfl, _⟩ | ⟨_, hu⟩
      · exact hts u tx hr
      · exact hts u ux hu
    | commit t =>
      obtain ⟨_, _, _, _, rfl⟩ := step_commit hs
      exact ⟨ts, fun u ux hu => hts u ux (running_end hu).2⟩
    | abort t =>
      obtain ⟨_, _, rfl⟩ := step_abort hs
      exact ⟨ts, fun u ux hu => hts u ux (running_end hu).2⟩
  obtain ⟨ts, hts⟩ := hcover
  refine ⟨ts.filter fun t => (s.running t).isSome, fun t => ?_⟩
  rw [Finset.mem_filter, Option.isSome_iff_exists]
  refine and_iff_right_of_imp fun htx => ?_
  obtain ⟨tx, hr⟩ := htx
  exact hts t tx hr

/-- All open transactions come to their end, one step after another. -/
theorem Closing.drain (now : Int) (h : Closing s ts left) (hlocks : LockInv rank s)
    (hord : ∀ call, Ordered rank 0 [] (body call)) :
    ∃ acts s', Machine.run (Sys.step body) s acts = some s' ∧ acts.length ≤ ∑ u ∈ ts, left u ∧
      (∀ u, acts.countP (fun a => a.tx = u) ≤ left u) ∧
      Machine.Along (Sys.step body) OwnStep s acts ∧
      (∀ a ∈ acts, ∀ i, a.clock? = some i → i = now) ∧ ∀ t, s'.running t = none := by
  generalize hn : ∑ u ∈ ts, left u = n
  induction n using Nat.strongRecOn generalizing s left with
  | ind n ih =>
    by_cases hopen : ∃ t tx, s.running t = some tx
    · obtain ⟨t, tx, hr⟩ := hopen
      obtain ⟨a, m, ha, hpos, hown, hs, hclock, hclosing⟩ := h.advance body now hlocks hr
      have hless := sum_update_lt ha hpos
      obtain ⟨acts, s', hrun, hlen, hcount, halong, hclocks, hclosed⟩ :=
        ih _ (hn ▸ hless) hclosing (hlocks.step hord hs) rfl
      refine ⟨a :: acts, s', Machine.run_cons.mpr ⟨m, hs, hrun⟩, ?_, ?_, ⟨hown, ?_⟩, ?_, hclosed⟩
      · rw [List.length_cons]
        omega
      · intro u
        have hu := hcount u
        rw [List.countP_cons]
        by_cases hau : a.tx = u
        · subst hau
          rw [Function.update_self] at hu
          simp only [decide_true, if_true]
          omega
        · rw [Function.update_of_ne (Ne.symm hau)] at hu
          simpa [hau] using hu
      · intro m' hm'
        obtain rfl := Option.some.inj (hs.symm.trans hm')
        exact halong
      · intro b hb
        rcases List.mem_cons.mp hb with rfl | hb
        · exact hclock
        · exact hclocks b hb
    · refine ⟨[], s, rfl, Nat.zero_le _, fun _ => Nat.zero_le _, trivial, by simp, fun t => ?_⟩
      by_contra hne
      obtain ⟨tx, htx⟩ := Option.ne_none_iff_exists'.mp hne
      exact hopen ⟨t, tx, htx⟩

end Steps

end ReadCommitted
