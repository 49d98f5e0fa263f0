import HighVolumeBooking.Machine.Run
import HighVolumeBooking.ReadCommitted.Program

namespace ReadCommitted

abbrev TxId := Nat

/-- An open transaction of a call, with the choices it has made and the keys
it has taken from sequences so far. -/
structure Tx (S : Schema) (ε β κ : Type) where
  call : κ
  frame : Frame S ε β
  choices : List Choice
  fresh : List (Key S)

/-- The transaction after a statement that made the choice c. -/
def Tx.next {S : Schema} {ε β κ : Type} (tx : Tx S ε β κ) (c : Choice) (o : Outcome S ε β) :
    Tx S ε β κ :=
  ⟨tx.call, o.frame, tx.choices ++ [c], o.fresh ++ tx.fresh⟩

/-- What the commit log keeps of a transaction. -/
structure Entry (β κ : Type) where
  call : κ
  choices : List Choice
  result : β

/-- A database server under READ COMMITTED. Uncommitted writes live in the
transactions, so only commit changes the committed state; owner is the table
of row locks, and issued the keys that sequences never hand out again. -/
structure Sys (S : Schema) (ε β κ : Type) where
  committed : Db S
  running : TxId → Option (Tx S ε β κ)
  owner : Key S → Option TxId
  issued : List (Key S)
  log : List (Entry β κ)

inductive Act (κ : Type) where
  | start (t : TxId) (call : κ)
  | stmt (t : TxId) (c : Choice)
  | commit (t : TxId)
  | abort (t : TxId)

def Act.tx {κ : Type} : Act κ → TxId
  | .start t _ => t
  | .stmt t _ => t
  | .commit t => t
  | .abort t => t

def Act.clock? {κ : Type} : Act κ → Option Int
  | .stmt _ c => c.clock?
  | _ => none

variable {S : Schema} {ε β κ : Type}

namespace Sys

def init (db : Db S) : Sys S ε β κ := ⟨db, fun _ => none, fun _ => none, [], []⟩

/-- No other transaction holds any of the row locks ks. -/
def free (s : Sys S ε β κ) (t : TxId) (ks : List (Key S)) : Bool :=
  ks.all fun k => s.owner k == none || s.owner k == some t

def lock (owner : Key S → Option TxId) (t : TxId) (ks : List (Key S)) : Key S → Option TxId :=
  fun k => if k ∈ ks then some t else owner k

def release (owner : Key S → Option TxId) (t : TxId) : Key S → Option TxId :=
  fun k => if owner k = some t then none else owner k

/-- One interleaving step. A statement whose row lock is held elsewhere has to
wait, so it is no step; a rollback may come at any time. -/
def step (body : κ → Prog S ε β) (s : Sys S ε β κ) : Act κ → Option (Sys S ε β κ)
  | .start t call =>
    match s.running t with
    | some _ => none
    | none => some { s with
        running := Function.update s.running t (some ⟨call, .start (body call), [], []⟩) }
  | .stmt t c =>
    match s.running t with
    | none => none
    | some tx =>
      match tx.frame.step s.committed c with
      | none => none
      | some o =>
        if s.free t o.locks = true ∧ ∀ k ∈ o.fresh, k ∉ s.issued then
          some { s with
            running := Function.update s.running t (some (tx.next c o))
            owner := lock s.owner t o.locks
            issued := o.fresh ++ s.issued }
        else none
  | .commit t =>
    match s.running t with
    | none => none
    | some tx =>
      match tx.frame.prog with
      | .done b => some { s with
          committed := s.committed.apply tx.frame.writes
          running := Function.update s.running t none
          owner := release s.owner t
          log := s.log ++ [⟨tx.call, tx.choices, b⟩] }
      | _ => none
  | .abort t =>
    match s.running t with
    | none => none
    | some _ => some { s with
        running := Function.update s.running t none
        owner := release s.owner t }

variable {body : κ → Prog S ε β} {s s' : Sys S ε β κ} {t : TxId}

theorem step_start {call : κ} (h : step body s (.start t call) = some s') :
    s.running t = none ∧ s' = { s with
      running := Function.update s.running t (some ⟨call, .start (body call), [], []⟩) } := by
  simp only [step] at h
  split at h
  · contradiction
  · rename_i hr
    exact ⟨hr, (Option.some.inj h).symm⟩

theorem step_stmt {c : Choice} (h : step body s (.stmt t c) = some s') :
    ∃ tx o, s.running t = some tx ∧ tx.frame.step s.committed c = some o ∧
      s.free t o.locks = true ∧ (∀ k ∈ o.fresh, k ∉ s.issued) ∧
      s' = { s with
        running := Function.update s.running t (some (tx.next c o))
        owner := lock s.owner t o.locks
        issued := o.fresh ++ s.issued } := by
  simp only [step] at h
  split at h
  · contradiction
  · rename_i tx hr
    split at h
    · contradiction
    · rename_i o ho
      split at h
      · rename_i hg
        exact ⟨tx, o, hr, ho, hg.1, hg.2, (Option.some.inj h).symm⟩
      · contradiction

theorem step_commit (h : step body s (.commit t) = some s') :
    ∃ tx b, s.running t = some tx ∧ tx.frame.prog = .done b ∧
      s' = { s with
        committed := s.committed.apply tx.frame.writes
        running := Function.update s.running t none
        owner := release s.owner t
        log := s.log ++ [⟨tx.call, tx.choices, b⟩] } := by
  simp only [step] at h
  split at h
  · contradiction
  · rename_i tx hr
    split at h
    · rename_i b hb
      exact ⟨tx, b, hr, hb, (Option.some.inj h).symm⟩
    · contradiction

theorem step_abort (h : step body s (.abort t) = some s') :
    ∃ tx, s.running t = some tx ∧ s' = { s with
      running := Function.update s.running t none
      owner := release s.owner t } := by
  simp only [step] at h
  split at h
  · contradiction
  · rename_i tx hr
    exact ⟨tx, hr, (Option.some.inj h).symm⟩

/-- Who is open after t started or went on. -/
theorem running_update {tx ux : Tx S ε β κ} {u : TxId}
    (h : Function.update s.running t (some tx) u = some ux) :
    (u = t ∧ ux = tx) ∨ (u ≠ t ∧ s.running u = some ux) := by
  by_cases hut : u = t
  · subst hut
    rw [Function.update_self] at h
    exact Or.inl ⟨rfl, (Option.some.inj h).symm⟩
  · rw [Function.update_of_ne hut] at h
    exact Or.inr ⟨hut, h⟩

/-- Who stays open when t ends, by commit or rollback. -/
theorem running_end {ux : Tx S ε β κ} {u : TxId}
    (h : Function.update s.running t none u = some ux) : u ≠ t ∧ s.running u = some ux := by
  by_cases hut : u = t
  · subst hut
    simp at h
  · rw [Function.update_of_ne hut] at h
    exact ⟨hut, h⟩

theorem owner_of_release {owner : Key S → Option TxId} {u : TxId} {k : Key S}
    (h : release owner t k = some u) : owner k = some u ∧ u ≠ t := by
  unfold release at h
  split at h
  · contradiction
  · rename_i hne
    exact ⟨h, fun he => hne (he ▸ h)⟩

theorem owner_release {owner : Key S → Option TxId} {u : TxId} {k : Key S} (hne : u ≠ t)
    (h : owner k = some u) : release owner t k = some u := by
  simpa [release, h] using hne

theorem free_iff {ks : List (Key S)} :
    s.free t ks = true ↔ ∀ k ∈ ks, s.owner k = none ∨ s.owner k = some t := by
  simp [free, List.all_eq_true]

/-- Somebody else holds one of the locks that are not free. -/
theorem held_of_not_free {ks : List (Key S)} (h : s.free t ks = false) :
    ∃ k ∈ ks, ∃ u, u ≠ t ∧ s.owner k = some u := by
  have hnot : ¬ ∀ k ∈ ks, s.owner k = none ∨ s.owner k = some t := by
    rw [← free_iff, h]
    simp
  simp only [not_forall, not_or] at hnot
  obtain ⟨k, hk, hn, ht⟩ := hnot
  obtain ⟨u, hu⟩ := Option.ne_none_iff_exists'.mp hn
  refine ⟨k, hk, u, ?_, hu⟩
  intro he
  exact ht (he ▸ hu)

/-- Statements, rollbacks and new calls leave the committed state and the log
alone. -/
theorem committed_or_commit {a : Act κ} (h : step body s a = some s') :
    (s'.committed = s.committed ∧ s'.log = s.log) ∨ ∃ t, a = .commit t := by
  cases a with
  | start t call =>
    obtain ⟨_, rfl⟩ := step_start h
    exact Or.inl ⟨rfl, rfl⟩
  | stmt t c =>
    obtain ⟨_, _, _, _, _, _, rfl⟩ := step_stmt h
    exact Or.inl ⟨rfl, rfl⟩
  | commit t => exact Or.inr ⟨t, rfl⟩
  | abort t =>
    obtain ⟨_, _, rfl⟩ := step_abort h
    exact Or.inl ⟨rfl, rfl⟩

/-- The log only grows. -/
theorem log_prefix {as : List (Act κ)} (h : Machine.run (step body) s as = some s') :
    s.log <+: s'.log := by
  refine Machine.run_induction (fun _ u => s.log <+: u.log) List.prefix_rfl ?_ h
  intro _ m a u _ hm hs
  rcases committed_or_commit hs with ⟨_, hlog⟩ | ⟨t, rfl⟩
  · rw [hlog]
    exact hm
  · obtain ⟨tx, b, _, _, rfl⟩ := step_commit hs
    exact hm.trans (List.prefix_append _ _)

/-- Who is open or has committed was started. -/
theorem started {db : Db S} {as : List (Act κ)}
    (h : Machine.run (step body) (init db) as = some s) :
    (∀ t tx, s.running t = some tx → .start t tx.call ∈ as) ∧
      ∀ e ∈ s.log, ∃ t, .start t e.call ∈ as := by
  refine Machine.run_induction (fun as s =>
    (∀ t tx, s.running t = some tx → .start t tx.call ∈ as) ∧
      ∀ e ∈ s.log, ∃ t, .start t e.call ∈ as) ⟨by simp [init], by simp [init]⟩ ?_ h
  intro as m a s' _ hm hs
  obtain ⟨hrun, hlog⟩ := hm
  have hold : ∀ t tx, m.running t = some tx → .start t tx.call ∈ as ++ [a] :=
    fun t tx ht => List.mem_append_left _ (hrun t tx ht)
  have hkept : ∀ e ∈ m.log, ∃ t, .start t e.call ∈ as ++ [a] := by
    intro e he
    obtain ⟨t, ht⟩ := hlog e he
    exact ⟨t, List.mem_append_left _ ht⟩
  cases a with
  | start t call =>
    obtain ⟨_, rfl⟩ := step_start hs
    refine ⟨?_, hkept⟩
    intro u ux hu
    rcases running_update hu with ⟨rfl, rfl⟩ | ⟨_, hu⟩
    · exact List.mem_append_right _ (List.mem_singleton_self _)
    · exact hold u ux hu
  | stmt t c =>
    obtain ⟨tx, o, ht, _, _, _, rfl⟩ := step_stmt hs
    refine ⟨?_, hkept⟩
    intro u ux hu
    rcases running_update hu with ⟨rfl, rfl⟩ | ⟨_, hu⟩
    · exact hold u tx ht
    · exact hold u ux hu
  | commit t =>
    obtain ⟨tx, b, ht, _, rfl⟩ := step_commit hs
    refine ⟨fun u ux hu => hold u ux (running_end hu).2, ?_⟩
    intro e he
    rcases mem_snoc.mp he with he | rfl
    · exact hkept e he
    · exact ⟨t, hold t tx ht⟩
  | abort t =>
    obtain ⟨_, _, rfl⟩ := step_abort hs
    exact ⟨fun u ux hu => hold u ux (running_end hu).2, hkept⟩

end Sys

/-- The serial runs: the logged calls one after another, each alone on what
the previous ones left, with its own choices and its own result. -/
inductive Serial (body : κ → Prog S ε β) (start : Db S) : List (Entry β κ) → Db S → Prop where
  | nil : Serial body start [] start
  | snoc {log : List (Entry β κ)} {db db' : Db S} {e : Entry β κ} :
      Serial body start log db →
      exec (body e.call) db e.choices = some (.ok e.result, db') →
      Serial body start (log ++ [e]) db'

namespace Serial

variable {body : κ → Prog S ε β} {start : Db S} {log pre post : List (Entry β κ)} {db : Db S}
  {e : Entry β κ}

theorem of_nil (h : Serial body start [] db) : db = start := by
  generalize hl : ([] : List (Entry β κ)) = l at h
  cases h with
  | nil => rfl
  | snoc _ _ => simp at hl

theorem of_snoc (h : Serial body start (log ++ [e]) db) :
    ∃ m, Serial body start log m ∧ exec (body e.call) m e.choices = some (.ok e.result, db) := by
  generalize hl : log ++ [e] = l at h
  cases h with
  | nil => simp at hl
  | snoc hs he =>
    obtain ⟨rfl, hee⟩ := List.append_inj' hl rfl
    simp only [List.cons.injEq, and_true] at hee
    subst hee
    exact ⟨_, hs, he⟩

/-- Serial runs are deterministic in the log. -/
theorem unique {db' : Db S} (h : Serial body start log db) (h' : Serial body start log db') :
    db = db' := by
  induction log using List.reverseRecOn generalizing db db' with
  | nil => rw [h.of_nil, h'.of_nil]
  | append_singleton log e ih =>
    obtain ⟨m, hm, he⟩ := h.of_snoc
    obtain ⟨m', hm', he'⟩ := h'.of_snoc
    obtain rfl := ih hm hm'
    have := he.symm.trans he'
    simp only [Option.some.injEq, Prod.mk.injEq, true_and] at this
    exact this

/-- Results about serial runs: an invariant of the start that every successful
call keeps. -/
theorem invariant (P : List (Entry β κ) → Db S → Prop) (base : P [] start)
    (ind : ∀ log e m m', Serial body start log m → P log m →
      exec (body e.call) m e.choices = some (.ok e.result, m') → P (log ++ [e]) m')
    (h : Serial body start log db) : P log db := by
  induction h with
  | nil => exact base
  | snoc hs he ih => exact ind _ _ _ _ hs ih he

end Serial

end ReadCommitted
