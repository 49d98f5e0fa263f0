import HighVolumeBooking.ReadCommitted.Table
import Mathlib.Logic.Function.Basic

namespace ReadCommitted

/-- How programs may use a table: never write it, guard each write of a row
that was read without a lock by the version that was read, or read it only
under a row lock. -/
inductive Access where
  | frozen
  | optimistic
  | pessimistic
  deriving DecidableEq, Repr

structure Schema where
  Tab : Type
  decTab : DecidableEq Tab
  Row : Tab → Type
  key : (τ : Tab) → Row τ → RowId
  version : (τ : Tab) → Row τ → Nat
  access : Tab → Access

instance (S : Schema) : DecidableEq S.Tab := S.decTab

variable {S : Schema} {ε β γ : Type}

abbrev Key (S : Schema) := S.Tab × RowId

/-- A row together with its table. -/
structure Cell (S : Schema) where
  tab : S.Tab
  row : S.Row tab

def Cell.key (c : Cell S) : Key S := (c.tab, S.key c.tab c.row)

abbrev Db (S : Schema) := (τ : S.Tab) → Table (S.key τ)

namespace Db

def find (db : Db S) (τ : S.Tab) (i : RowId) : Option (S.Row τ) := (db τ).find? i

def put (db : Db S) (c : Cell S) : Db S := Function.update db c.tab ((db c.tab).put c.row)

/-- The database as a transaction sees it that has issued the writes cs. -/
def apply (db : Db S) (cs : List (Cell S)) : Db S := cs.foldl put db

@[simp] theorem apply_nil (db : Db S) : db.apply [] = db := rfl

@[simp] theorem apply_cons (db : Db S) (c : Cell S) (cs : List (Cell S)) :
    db.apply (c :: cs) = (db.put c).apply cs := rfl

theorem put_same (db : Db S) (c : Cell S) : db.put c c.tab = (db c.tab).put c.row := by
  simp [put]

theorem put_other (db : Db S) {c : Cell S} {τ : S.Tab} (h : τ ≠ c.tab) : db.put c τ = db τ := by
  simp [put, h]

theorem find_put_self (db : Db S) (c : Cell S) : (db.put c).find c.tab c.key.2 = some c.row := by
  simp [find, put_same, Cell.key]

theorem find_put_ne (db : Db S) {c : Cell S} {τ : S.Tab} {i : RowId} (h : c.key ≠ (τ, i)) :
    (db.put c).find τ i = db.find τ i := by
  by_cases ht : τ = c.tab
  · subst ht
    have hk : S.key c.tab c.row ≠ i := fun he => h (by simp [Cell.key, he])
    simp [find, put_same, Table.find?_put_ne hk]
  · simp [find, put_other db ht]

/-- After some writes a row is either the last one written under its key, or
what it was before because no write had that key. -/
theorem find_apply (db : Db S) (cs : List (Cell S)) (τ : S.Tab) (i : RowId) :
    (∃ c ∈ cs, c.key = (τ, i) ∧ (db.apply cs).find c.tab c.key.2 = some c.row) ∨
      ((∀ c ∈ cs, c.key ≠ (τ, i)) ∧ (db.apply cs).find τ i = db.find τ i) := by
  induction cs generalizing db with
  | nil => exact Or.inr ⟨by simp, rfl⟩
  | cons c cs ih =>
    rcases ih (db.put c) with ⟨d, hd, hk, hf⟩ | ⟨hn, hf⟩
    · exact Or.inl ⟨d, List.mem_cons_of_mem _ hd, hk, hf⟩
    · by_cases hc : c.key = (τ, i)
      · refine Or.inl ⟨c, List.mem_cons_self, hc, ?_⟩
        have hl : (τ, i) = c.key := hc.symm
        obtain ⟨rfl, rfl⟩ := Prod.mk.inj hl
        exact hf.trans (find_put_self db c)
      · refine Or.inr ⟨?_, hf.trans (find_put_ne db hc)⟩
        intro d hd
        rcases List.mem_cons.mp hd with rfl | hd
        · exact hc
        · exact hn d hd

theorem find_apply_of_ne {db : Db S} {cs : List (Cell S)} {τ : S.Tab} {i : RowId}
    (h : ∀ c ∈ cs, c.key ≠ (τ, i)) : (db.apply cs).find τ i = db.find τ i := by
  rcases find_apply db cs τ i with ⟨c, hc, hk, _⟩ | ⟨_, hf⟩
  · exact absurd hk (h c hc)
  · exact hf

/-- Two databases that agree on a row still agree on it after the same writes. -/
theorem find_apply_congr {db db' : Db S} {τ : S.Tab} {i : RowId} (cs : List (Cell S))
    (h : db.find τ i = db'.find τ i) : (db.apply cs).find τ i = (db'.apply cs).find τ i := by
  induction cs generalizing db db' with
  | nil => exact h
  | cons c cs ih =>
    apply ih
    by_cases hc : c.key = (τ, i)
    · obtain ⟨rfl, rfl⟩ := Prod.mk.inj hc
      exact (find_put_self db c).trans (find_put_self db' c).symm
    · rw [find_put_ne db hc, find_put_ne db' hc, h]

/-- Writes never delete. -/
theorem find_of_apply_none {db : Db S} {cs : List (Cell S)} {τ : S.Tab} {i : RowId}
    (h : (db.apply cs).find τ i = none) : db.find τ i = none := by
  rcases find_apply db cs τ i with ⟨c, _, hk, hf⟩ | ⟨_, hf⟩
  · obtain ⟨rfl, rfl⟩ := Prod.mk.inj hk
    cases h.symm.trans hf
  · exact hf.symm.trans h

theorem apply_other {db : Db S} {cs : List (Cell S)} {τ : S.Tab} (h : ∀ c ∈ cs, c.tab ≠ τ) :
    db.apply cs τ = db τ := by
  induction cs generalizing db with
  | nil => rfl
  | cons c cs ih =>
    rw [apply_cons, ih (fun d hd => h d (List.mem_cons_of_mem _ hd)),
      put_other db (Ne.symm (h c List.mem_cons_self))]

theorem find_apply_other {db : Db S} {cs : List (Cell S)} {τ : S.Tab} {i : RowId}
    (h : ∀ c ∈ cs, c.tab ≠ τ) : (db.apply cs).find τ i = db.find τ i := by
  rw [find, apply_other h, find]

end Db

/-- Statements of a transaction script over a schema, as a tree: each node is
one statement and continues with whatever the database or the clock answers.
The whole row is written by an update, keyed by its own primary key. -/
inductive Prog (S : Schema) (ε β : Type) where
  | done (b : β)
  | fail (e : ε)
  | now (k : Int → Prog S ε β)
  | begin (k : Prog S ε β)
  | find (τ : S.Tab) (i : RowId) (k : Option (S.Row τ) → Prog S ε β)
  | findForUpdate (τ : S.Tab) (p : S.Row τ → Bool) (k : Option (S.Row τ) → Prog S ε β)
  | update (τ : S.Tab) (version : Nat) (r : S.Row τ) (k : Bool → Prog S ε β)
  | save (τ : S.Tab) (r : S.Row τ) (k : Prog S ε β)
  | insert (τ : S.Tab) (build : RowId → Int → S.Row τ) (k : S.Row τ → Prog S ε β)

namespace Prog

def bind : Prog S ε β → (β → Prog S ε γ) → Prog S ε γ
  | .done b, f => f b
  | .fail e, _ => .fail e
  | .now k, f => .now fun t => (k t).bind f
  | .begin k, f => .begin (k.bind f)
  | .find τ i k, f => .find τ i fun r => (k r).bind f
  | .findForUpdate τ p k, f => .findForUpdate τ p fun r => (k r).bind f
  | .update τ v r k, f => .update τ v r fun b => (k b).bind f
  | .save τ r k, f => .save τ r (k.bind f)
  | .insert τ build k, f => .insert τ build fun r => (k r).bind f

instance : Monad (Prog S ε) where
  pure := .done
  bind := .bind

@[simp] theorem pure_eq (b : β) : (pure b : Prog S ε β) = .done b := rfl

@[simp] theorem bind_eq (p : Prog S ε β) (f : β → Prog S ε γ) : p >>= f = p.bind f := rfl

def newDate : Prog S ε Int := .now .done

def throw (e : ε) : Prog S ε β := .fail e

def throwIf (c : Prop) [Decidable c] (e : ε) : Prog S ε Unit := if c then .fail e else .done ()

@[simp] theorem done_bind (b : β) (f : β → Prog S ε γ) : (Prog.done b).bind f = f b := rfl

@[simp] theorem fail_bind (e : ε) (f : β → Prog S ε γ) : (Prog.fail e).bind f = .fail e := rfl

theorem bind_assoc {δ : Type} (p : Prog S ε β) (f : β → Prog S ε γ) (g : γ → Prog S ε δ) :
    (p.bind f).bind g = p.bind fun b => (f b).bind g := by
  induction p with
  | done b => rfl
  | fail e => rfl
  | now k ih => exact congrArg Prog.now (funext ih)
  | begin k ih => exact congrArg Prog.begin ih
  | find τ i k ih => exact congrArg (Prog.find τ i) (funext ih)
  | findForUpdate τ q k ih => exact congrArg (Prog.findForUpdate τ q) (funext ih)
  | update τ v r k ih => exact congrArg (Prog.update τ v r) (funext ih)
  | save τ r k ih => exact congrArg (Prog.save τ r) ih
  | insert τ build k ih => exact congrArg (Prog.insert τ build) (funext ih)

theorem find_congr {τ : S.Tab} {i : RowId} {k k' : Option (S.Row τ) → Prog S ε β}
    (h : ∀ r, k r = k' r) : Prog.find τ i k = .find τ i k' :=
  congrArg (Prog.find τ i) (funext h)

theorem findForUpdate_congr {τ : S.Tab} {p : S.Row τ → Bool}
    {k k' : Option (S.Row τ) → Prog S ε β} (h : ∀ r, k r = k' r) :
    Prog.findForUpdate τ p k = .findForUpdate τ p k' :=
  congrArg (Prog.findForUpdate τ p) (funext h)

@[simp] theorem now_bind (k : Int → Prog S ε β) (f : β → Prog S ε γ) :
    (Prog.now k).bind f = .now fun t => (k t).bind f := rfl

@[simp] theorem begin_bind (k : Prog S ε β) (f : β → Prog S ε γ) :
    (Prog.begin k).bind f = .begin (k.bind f) := rfl

@[simp] theorem newDate_bind (f : Int → Prog S ε γ) : newDate.bind f = .now f := rfl

@[simp] theorem ite_bind (c : Prop) [Decidable c] (p q : Prog S ε β) (f : β → Prog S ε γ) :
    (if c then p else q).bind f = if c then p.bind f else q.bind f := by
  split <;> rfl

@[simp] theorem throwIf_bind (c : Prop) [Decidable c] (e : ε) (f : Unit → Prog S ε β) :
    (throwIf c e).bind f = if c then .fail e else f () := by
  unfold throwIf
  split <;> rfl

def error? : Prog S ε β → Option ε
  | .fail e => some e
  | _ => none

theorem error?_eq_some {p : Prog S ε β} {e : ε} : p.error? = some e ↔ p = .fail e := by
  cases p <;> simp [error?]

end Prog

/-- What a statement did not determine by itself: the clock reading it took,
the row a locking query picked, the key the sequence issued. -/
inductive Choice where
  | quiet
  | clock (t : Int)
  | picked (i : Option RowId)
  | issued (i : RowId)
  deriving DecidableEq, Repr

def Choice.clock? : Choice → Option Int
  | .clock t => some t
  | _ => none

/-- A transaction between two statements: what is left to run, the instant of
its BEGIN and the writes it has issued, oldest first. -/
structure Frame (S : Schema) (ε β : Type) where
  prog : Prog S ε β
  began : Option Int
  writes : List (Cell S)

def Frame.start (p : Prog S ε β) : Frame S ε β := ⟨p, none, []⟩

/-- The frame after a statement, with the row locks the statement takes and
the keys it has consumed from a sequence. -/
structure Outcome (S : Schema) (ε β : Type) where
  frame : Frame S ε β
  locks : List (Key S)
  fresh : List (Key S)

/-- One statement against the last committed state db and the own writes. An
UPDATE whose version does not match affects no row and locks none. -/
def Frame.step (db : Db S) (f : Frame S ε β) (c : Choice) : Option (Outcome S ε β) :=
  let view := db.apply f.writes
  match f.prog, c with
  | .now k, .clock t => some ⟨⟨k t, f.began, f.writes⟩, [], []⟩
  | .begin k, .clock t => some ⟨⟨k, some t, f.writes⟩, [], []⟩
  | .find τ i k, .quiet => some ⟨⟨k (view.find τ i), f.began, f.writes⟩, [], []⟩
  | .findForUpdate τ p k, .picked (some i) =>
    match view.find τ i with
    | some r => if p r then some ⟨⟨k (some r), f.began, f.writes⟩, [(τ, i)], []⟩ else none
    | none => none
  | .findForUpdate τ p k, .picked none =>
    if (view τ).rows.any p then none else some ⟨⟨k none, f.began, f.writes⟩, [], []⟩
  | .update τ v r k, .quiet =>
    match view.find τ (S.key τ r) with
    | some old =>
      if S.version τ old = v then
        some ⟨⟨k true, f.began, f.writes ++ [⟨τ, r⟩]⟩, [(τ, S.key τ r)], []⟩
      else some ⟨⟨k false, f.began, f.writes⟩, [], []⟩
    | none => some ⟨⟨k false, f.began, f.writes⟩, [], []⟩
  | .save τ r k, .quiet => some ⟨⟨k, f.began, f.writes ++ [⟨τ, r⟩]⟩, [(τ, S.key τ r)], []⟩
  | .insert τ build k, .issued i =>
    match f.began with
    | some t =>
      let r := build i t
      match view.find τ (S.key τ r) with
      | some _ => none
      | none => some ⟨⟨k r, some t, f.writes ++ [⟨τ, r⟩]⟩, [], [(τ, S.key τ r)]⟩
    | none => none
  | _, _ => none

/-! What one statement can do, constructor by constructor. -/

section Steps

attribute [local simp] Frame.step

variable {db : Db S} {f : Frame S ε β} {c : Choice} {o : Outcome S ε β}

theorem Frame.step_now {k : Int → Prog S ε β} (hp : f.prog = .now k) :
    f.step db c = some o ↔ ∃ t, c = .clock t ∧ o = ⟨⟨k t, f.began, f.writes⟩, [], []⟩ := by
  cases c <;> simp [hp, @eq_comm _ o]

theorem Frame.step_begin {k : Prog S ε β} (hp : f.prog = .begin k) :
    f.step db c = some o ↔ ∃ t, c = .clock t ∧ o = ⟨⟨k, some t, f.writes⟩, [], []⟩ := by
  cases c <;> simp [hp, @eq_comm _ o]

theorem Frame.step_find {τ : S.Tab} {i : RowId} {k : Option (S.Row τ) → Prog S ε β}
    (hp : f.prog = .find τ i k) :
    f.step db c = some o ↔
      c = .quiet ∧ o = ⟨⟨k ((db.apply f.writes).find τ i), f.began, f.writes⟩, [], []⟩ := by
  cases c <;> simp [hp, @eq_comm _ o]

theorem Frame.step_findForUpdate {τ : S.Tab} {p : S.Row τ → Bool}
    {k : Option (S.Row τ) → Prog S ε β} (hp : f.prog = .findForUpdate τ p k) :
    f.step db c = some o ↔
      (∃ i r, c = .picked (some i) ∧ (db.apply f.writes).find τ i = some r ∧ p r = true ∧
        o = ⟨⟨k (some r), f.began, f.writes⟩, [(τ, i)], []⟩) ∨
      (c = .picked none ∧ ((db.apply f.writes) τ).rows.any p = false ∧
        o = ⟨⟨k none, f.began, f.writes⟩, [], []⟩) := by
  cases c with
  | quiet => simp [hp]
  | clock t => simp [hp]
  | issued i => simp [hp]
  | picked i =>
    cases i with
    | none =>
      cases ha : ((db.apply f.writes) τ).rows.any p <;> simp [hp, ha, @eq_comm _ o]
    | some i =>
      cases hr : (db.apply f.writes).find τ i with
      | none => simp [hp, hr]
      | some r => cases hpr : p r <;> simp [hp, hr, hpr, @eq_comm _ o]

theorem Frame.step_update {τ : S.Tab} {v : Nat} {r : S.Row τ} {k : Bool → Prog S ε β}
    (hp : f.prog = .update τ v r k) :
    f.step db c = some o ↔ c = .quiet ∧
      ((∃ old, (db.apply f.writes).find τ (S.key τ r) = some old ∧ S.version τ old = v ∧
        o = ⟨⟨k true, f.began, f.writes ++ [⟨τ, r⟩]⟩, [(τ, S.key τ r)], []⟩) ∨
      ((∀ old, (db.apply f.writes).find τ (S.key τ r) = some old → S.version τ old ≠ v) ∧
        o = ⟨⟨k false, f.began, f.writes⟩, [], []⟩)) := by
  cases c with
  | clock t => simp [hp]
  | picked i => simp [hp]
  | issued i => simp [hp]
  | quiet =>
    cases hr : (db.apply f.writes).find τ (S.key τ r) with
    | none => simp [hp, hr, @eq_comm _ o]
    | some old => by_cases hv : S.version τ old = v <;> simp [hp, hr, hv, @eq_comm _ o]

theorem Frame.step_save {τ : S.Tab} {r : S.Row τ} {k : Prog S ε β} (hp : f.prog = .save τ r k) :
    f.step db c = some o ↔ c = .quiet ∧
      o = ⟨⟨k, f.began, f.writes ++ [⟨τ, r⟩]⟩, [(τ, S.key τ r)], []⟩ := by
  cases c <;> simp [hp, @eq_comm _ o]

theorem Frame.step_insert {τ : S.Tab} {build : RowId → Int → S.Row τ}
    {k : S.Row τ → Prog S ε β} (hp : f.prog = .insert τ build k) :
    f.step db c = some o ↔ ∃ i t, c = .issued i ∧ f.began = some t ∧
      (db.apply f.writes).find τ (S.key τ (build i t)) = none ∧
      o = ⟨⟨k (build i t), some t, f.writes ++ [⟨τ, build i t⟩]⟩, [],
        [(τ, S.key τ (build i t))]⟩ := by
  cases c with
  | quiet => simp [hp]
  | clock t => simp [hp]
  | picked i => simp [hp]
  | issued i =>
    cases hb : f.began with
    | none => simp [hp, hb]
    | some t =>
      cases hr : (db.apply f.writes).find τ (S.key τ (build i t)) <;>
        simp [hp, hb, hr, @eq_comm _ o]

theorem Frame.step_done {b : β} (hp : f.prog = .done b) : f.step db c = none := by
  cases c <;> simp [hp]

theorem Frame.step_fail {e : ε} (hp : f.prog = .fail e) : f.step db c = none := by
  cases c <;> simp [hp]

end Steps

/-- A transaction that runs alone on a committed state. -/
def Frame.run (db : Db S) (f : Frame S ε β) : List Choice → Option (Frame S ε β)
  | [] => some f
  | c :: cs => (f.step db c).bind fun o => o.frame.run db cs

/-- A whole call alone: it commits its writes, or it rolls all of them back. -/
def exec (p : Prog S ε β) (db : Db S) (cs : List Choice) : Option (Except ε β × Db S) :=
  match (Frame.start p).run db cs with
  | some f =>
    match f.prog with
    | .done b => some (.ok b, db.apply f.writes)
    | .fail e => some (.error e, db)
    | _ => none
  | none => none

theorem Frame.run_concat {db : Db S} {f g : Frame S ε β} {cs : List Choice} {c : Choice}
    {o : Outcome S ε β} (h : f.run db cs = some g) (hs : g.step db c = some o) :
    f.run db (cs ++ [c]) = some o.frame := by
  induction cs generalizing f with
  | nil =>
    obtain rfl := Option.some.inj h
    simp [Frame.run, hs]
  | cons d ds ih =>
    simp only [List.cons_append, Frame.run, Option.bind_eq_some_iff] at h ⊢
    obtain ⟨o', ho, hr⟩ := h
    exact ⟨o', ho, ih hr⟩

/-- A failed call leaves the database as it was. -/
theorem exec_error {p : Prog S ε β} {db db' : Db S} {cs : List Choice} {e : ε}
    (h : exec p db cs = some (.error e, db')) : db' = db := by
  unfold exec at h
  split at h
  · split at h <;> simp_all
  · contradiction

theorem exec_ok {p : Prog S ε β} {db db' : Db S} {cs : List Choice} {b : β} :
    exec p db cs = some (.ok b, db') ↔
      ∃ f, (Frame.start p).run db cs = some f ∧ f.prog = .done b ∧ db' = db.apply f.writes := by
  unfold exec
  constructor
  · intro h
    split at h
    · rename_i f hr
      split at h <;> simp_all
    · contradiction
  · intro h
    obtain ⟨f, hr, hp, rfl⟩ := h
    rw [hr]
    simp [hp]

end ReadCommitted
