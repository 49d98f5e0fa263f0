import HighVolumeBooking.ReadCommitted.Discipline
import HighVolumeBooking.ReadCommitted.System

namespace ReadCommitted

variable {S : Schema} {ε β κ : Type}

/-- db has everything that the answers of a transaction came from: the frozen
tables, the rows obs and no row under the keys it inserted. -/
structure Agrees (committed : Db S) (obs : List (Cell S)) (fresh : List (Key S)) (db : Db S) :
    Prop where
  frozen : ∀ τ, S.access τ = .frozen → db τ = committed τ
  rows : ∀ c ∈ obs, db.find c.tab c.key.2 = some c.row
  absent : ∀ k ∈ fresh, db.find k.1 k.2 = none

/-- The invariant of one open transaction. obs are the committed rows it has
read; those under a held lock are still the committed ones, and a row in seen
can only have been replaced by one with a larger version. Hence the answers
can be replayed on any state that has the rows obs. -/
structure Sound (body : κ → Prog S ε β) (committed : Db S) (mine : Key S → Prop)
    (tx : Tx S ε β κ) (held : List (Key S)) (seen obs : List (Cell S)) : Prop where
  guard : (Guarded held seen tx.frame.prog ∧ tx.fresh = []) ∨
    (seen = [] ∧ InsertOnly tx.frame.prog)
  owned : ∀ k ∈ held, mine k
  seenObs : ∀ c ∈ seen, c ∈ obs ∧ c.key ∉ held ∧ S.access c.tab = .optimistic
  covered : ∀ c ∈ obs, c ∈ seen ∨ c.key ∈ held
  observed : ∀ k ∈ held, ∃ c ∈ obs, c.key = k
  distinct : ∀ c ∈ obs, ∀ d ∈ obs, c.key = d.key → c = d
  stable : ∀ c ∈ obs, c.key ∈ held → committed.find c.tab c.key.2 = some c.row
  current : ∀ c ∈ seen, ∃ r, committed.find c.tab c.key.2 = some r ∧
    S.version c.tab c.row ≤ S.version c.tab r ∧
    (S.version c.tab r = S.version c.tab c.row → r = c.row)
  writes : ∀ w ∈ tx.frame.writes, S.access w.tab ≠ .frozen ∧
    (w.key ∈ tx.fresh ∨ (w.key ∈ held ∧ ∃ r, committed.find w.tab w.key.2 = some r ∧
      (S.access w.tab = .optimistic → S.version w.tab r < S.version w.tab w.row)))
  replay : ∀ db, Agrees committed obs tx.fresh db →
    (Frame.start (body tx.call)).run db tx.choices = some tx.frame

namespace Sound

variable {body : κ → Prog S ε β} {committed : Db S} {mine mine' : Key S → Prop}
  {tx : Tx S ε β κ} {held : List (Key S)} {seen obs : List (Cell S)} {c : Choice}
  {o : Outcome S ε β}

theorem start {call : κ} (h : Guarded [] [] (body call)) :
    Sound body committed mine ⟨call, .start (body call), [], []⟩ [] [] [] where
  guard := Or.inl ⟨h, rfl⟩
  owned := by simp
  seenObs := by simp
  covered := by simp
  observed := by simp
  distinct := by simp
  stable := by simp
  current := by simp
  writes := by simp [Frame.start]
  replay := fun _ _ => rfl

theorem mono (h : Sound body committed mine tx held seen obs) (hm : ∀ k ∈ held, mine' k) :
    Sound body committed mine' tx held seen obs :=
  { h with owned := hm }

/-- A row that is neither held nor inserted shows its committed contents. -/
theorem view_eq (h : Sound body committed mine tx held seen obs) {τ : S.Tab} {i : RowId}
    (hh : (τ, i) ∉ held) (hf : (τ, i) ∉ tx.fresh) (db : Db S) :
    (db.apply tx.frame.writes).find τ i = db.find τ i := by
  apply Db.find_apply_of_ne
  intro w hw he
  rcases (h.writes w hw).2 with hk | ⟨hk, _⟩
  · exact hf (he ▸ hk)
  · exact hh (he ▸ hk)

/-- A row that is neither held nor seen was not read before. -/
theorem unobserved (h : Sound body committed mine tx held seen obs) {k : Key S}
    (hseen : ∀ d ∈ seen, d.key ≠ k) (hheld : k ∉ held) : ∀ d ∈ obs, d.key ≠ k := by
  intro d hd he
  rcases h.covered d hd with hs | hh
  · exact hseen d hs he
  · exact hheld (he ▸ hh)

theorem distinct_cons (h : Sound body committed mine tx held seen obs) {new : Cell S}
    (hnew : ∀ d ∈ obs, d.key ≠ new.key) :
    ∀ d ∈ new :: obs, ∀ e ∈ new :: obs, d.key = e.key → d = e := by
  intro d hd e he hde
  rcases List.mem_cons.mp hd with rfl | hdobs <;> rcases List.mem_cons.mp he with rfl | heobs
  · rfl
  · exact absurd hde.symm (hnew e heobs)
  · exact absurd hde (hnew d hdobs)
  · exact h.distinct d hdobs e heobs hde

theorem observed_cons (h : Sound body committed mine tx held seen obs) {new : Cell S} :
    ∀ k ∈ held, ∃ d ∈ new :: obs, d.key = k := by
  intro k hk
  obtain ⟨d, hd, he⟩ := h.observed k hk
  exact ⟨d, List.mem_cons_of_mem _ hd, he⟩

/-- The replay of the new statement, once it is known to answer alike on every
state that agrees. -/
theorem replay_next {obs' : List (Cell S)} (h : Sound body committed mine tx held seen obs)
    (hobs : ∀ d ∈ obs, d ∈ obs')
    (hstep : ∀ db, Agrees committed obs' (o.fresh ++ tx.fresh) db → tx.frame.step db c = some o) :
    ∀ db, Agrees committed obs' (o.fresh ++ tx.fresh) db →
      (Frame.start (body (tx.next c o).call)).run db (tx.next c o).choices = some o.frame := by
  intro db ha
  have hold : Agrees committed obs tx.fresh db :=
    ⟨ha.frozen, fun d hd => ha.rows d (hobs d hd),
      fun k hk => ha.absent k (List.mem_append_right _ hk)⟩
  exact Frame.run_concat (h.replay db hold) (hstep db ha)

/-- Statements that neither write, lock nor read an unlocked row. -/
theorem quiet (h : Sound body committed mine tx held seen obs)
    (hw : o.frame.writes = tx.frame.writes) (hf : o.fresh = [])
    (hg : (Guarded held seen o.frame.prog ∧ tx.fresh = []) ∨
      (seen = [] ∧ InsertOnly o.frame.prog))
    (hstep : ∀ db, Agrees committed obs tx.fresh db → tx.frame.step db c = some o) :
    Sound body committed mine (tx.next c o) held seen obs where
  guard := by simpa [Tx.next, hf] using hg
  owned := h.owned
  seenObs := h.seenObs
  covered := h.covered
  observed := h.observed
  distinct := h.distinct
  stable := h.stable
  current := h.current
  writes := by simpa [Tx.next, hf, hw] using h.writes
  replay := by
    apply h.replay_next (fun _ hd => hd)
    simpa [hf] using hstep

/-- Plain read of an existing row of a versioned table. -/
theorem find (h : Sound body committed mine tx held seen obs) {τ : S.Tab} {i : RowId}
    {k : Option (S.Row τ) → Prog S ε β} {r : S.Row τ} (hp : tx.frame.prog = .find τ i k)
    (hacc : S.access τ = .optimistic) (hfresh : tx.fresh = []) (hheld : (τ, i) ∉ held)
    (hseen : ∀ d ∈ seen, d.key ≠ (τ, i))
    (hr : (committed.apply tx.frame.writes).find τ i = some r)
    (hk : Guarded held (⟨τ, r⟩ :: seen) (k (some r))) :
    Sound body committed mine
      (tx.next .quiet ⟨⟨k (some r), tx.frame.began, tx.frame.writes⟩, [], []⟩)
      held (⟨τ, r⟩ :: seen) (⟨τ, r⟩ :: obs) := by
  have hview := h.view_eq hheld (by simp [hfresh])
  rw [hview] at hr
  obtain rfl : S.key τ r = i := Table.key_of_find? hr
  have hnew := h.unobserved hseen hheld
  refine ⟨Or.inl ⟨hk, by simpa [Tx.next] using hfresh⟩, h.owned, ?_, ?_, h.observed_cons,
    h.distinct_cons hnew, ?_, ?_, ?_, ?_⟩
  · intro d hd
    rcases List.mem_cons.mp hd with rfl | hd
    · exact ⟨List.mem_cons_self, hheld, hacc⟩
    · obtain ⟨ho, hn, ha⟩ := h.seenObs d hd
      exact ⟨List.mem_cons_of_mem _ ho, hn, ha⟩
  · intro d hd
    rcases List.mem_cons.mp hd with rfl | hd
    · exact Or.inl List.mem_cons_self
    · exact (h.covered d hd).imp_left (List.mem_cons_of_mem _)
  · intro d hd hh
    rcases List.mem_cons.mp hd with rfl | hd
    · exact hr
    · exact h.stable d hd hh
  · intro d hd
    rcases List.mem_cons.mp hd with rfl | hd
    · exact ⟨r, hr, Nat.le_refl _, fun _ => rfl⟩
    · exact h.current d hd
  · simpa [Tx.next] using h.writes
  · apply h.replay_next (fun _ hd => List.mem_cons_of_mem _ hd)
    intro db ha
    have hdb := ha.rows ⟨τ, r⟩ List.mem_cons_self
    refine (Frame.step_find hp).mpr ⟨rfl, ?_⟩
    rw [hview db]
    simp only [Cell.key] at hdb
    rw [hdb]

/-- A held row answers alike on every state that agrees: it is one of obs, and
the committed one. -/
theorem held_eq (h : Sound body committed mine tx held seen obs) {k : Key S} (hk : k ∈ held)
    {db : Db S} (ha : ∀ d ∈ obs, db.find d.tab d.key.2 = some d.row) :
    db.find k.1 k.2 = committed.find k.1 k.2 := by
  obtain ⟨d, hd, rfl⟩ := h.observed k hk
  exact (ha d hd).trans (h.stable d hd hk).symm

/-- Locking query that picks a row it already holds: nothing new is learned. -/
theorem relock (h : Sound body committed mine tx held seen obs) {τ : S.Tab}
    {p : S.Row τ → Bool} {k : Option (S.Row τ) → Prog S ε β} {r : S.Row τ}
    (hp : tx.frame.prog = .findForUpdate τ p k) (hfresh : tx.fresh = [])
    (hr : (committed.apply tx.frame.writes).find τ (S.key τ r) = some r) (hpr : p r = true)
    (hheld : (τ, S.key τ r) ∈ held)
    (hk : Guarded ((τ, S.key τ r) :: held) seen (k (some r))) :
    Sound body committed mine
      (tx.next (.picked (some (S.key τ r)))
        ⟨⟨k (some r), tx.frame.began, tx.frame.writes⟩, [(τ, S.key τ r)], []⟩)
      ((τ, S.key τ r) :: held) seen obs := by
  have hin : ∀ q ∈ (τ, S.key τ r) :: held, q ∈ held := by
    intro q hq
    rcases List.mem_cons.mp hq with rfl | hq
    · exact hheld
    · exact hq
  refine ⟨Or.inl ⟨hk, by simpa [Tx.next] using hfresh⟩, fun q hq => h.owned q (hin q hq), ?_, ?_,
    fun q hq => h.observed q (hin q hq), h.distinct, fun d hd hq => h.stable d hd (hin _ hq),
    h.current, ?_, ?_⟩
  · intro d hd
    obtain ⟨ho, hn, ha⟩ := h.seenObs d hd
    exact ⟨ho, fun hq => hn (hin _ hq), ha⟩
  · intro d hd
    exact (h.covered d hd).imp_right (List.mem_cons_of_mem _)
  · intro w hw
    obtain ⟨hf, hw'⟩ := h.writes w hw
    exact ⟨hf, hw'.imp (by simp [Tx.next]) (And.imp_left (List.mem_cons_of_mem _))⟩
  · apply h.replay_next (fun _ hd => hd)
    intro db ha
    have hdb := Db.find_apply_congr tx.frame.writes (h.held_eq hheld ha.rows)
    exact (Frame.step_findForUpdate hp).mpr (Or.inl ⟨_, r, rfl, hdb.trans hr, hpr, rfl⟩)

/-- Locking query that picks a row for the first time. -/
theorem lock (h : Sound body committed mine tx held seen obs) {τ : S.Tab}
    {p : S.Row τ → Bool} {k : Option (S.Row τ) → Prog S ε β} {r : S.Row τ}
    (hp : tx.frame.prog = .findForUpdate τ p k) (hacc : S.access τ = .pessimistic)
    (hfresh : tx.fresh = [])
    (hr : (committed.apply tx.frame.writes).find τ (S.key τ r) = some r) (hpr : p r = true)
    (hheld : (τ, S.key τ r) ∉ held) (hmine : mine (τ, S.key τ r))
    (hk : Guarded ((τ, S.key τ r) :: held) seen (k (some r))) :
    Sound body committed mine
      (tx.next (.picked (some (S.key τ r)))
        ⟨⟨k (some r), tx.frame.began, tx.frame.writes⟩, [(τ, S.key τ r)], []⟩)
      ((τ, S.key τ r) :: held) seen (⟨τ, r⟩ :: obs) := by
  have hview := h.view_eq hheld (by simp [hfresh])
  rw [hview] at hr
  have hseen : ∀ d ∈ seen, d.key ≠ (τ, S.key τ r) := by
    intro d hd he
    have ha := (h.seenObs d hd).2.2
    rw [show d.tab = τ from congrArg Prod.fst he, hacc] at ha
    cases ha
  have hnew := h.unobserved hseen hheld
  refine ⟨Or.inl ⟨hk, by simpa [Tx.next] using hfresh⟩, List.forall_mem_cons.mpr ⟨hmine, h.owned⟩,
    ?_, ?_, ?_, h.distinct_cons hnew, ?_, h.current, ?_, ?_⟩
  · intro d hd
    obtain ⟨ho, hn, ha⟩ := h.seenObs d hd
    refine ⟨List.mem_cons_of_mem _ ho, ?_, ha⟩
    intro hq
    rcases List.mem_cons.mp hq with he | hq
    · exact hseen d hd he
    · exact hn hq
  · intro d hd
    rcases List.mem_cons.mp hd with rfl | hd
    · exact Or.inr List.mem_cons_self
    · exact (h.covered d hd).imp_right (List.mem_cons_of_mem _)
  · intro q hq
    rcases List.mem_cons.mp hq with rfl | hq
    · exact ⟨⟨τ, r⟩, List.mem_cons_self, rfl⟩
    · exact h.observed_cons q hq
  · intro d hd hq
    rcases List.mem_cons.mp hd with rfl | hd
    · exact hr
    · rcases List.mem_cons.mp hq with he | hq
      · exact absurd he (hnew d hd)
      · exact h.stable d hd hq
  · intro w hw
    obtain ⟨hf, hw'⟩ := h.writes w hw
    exact ⟨hf, hw'.imp (by simp [Tx.next]) (And.imp_left (List.mem_cons_of_mem _))⟩
  · apply h.replay_next (fun _ hd => List.mem_cons_of_mem _ hd)
    intro db ha
    have hdb := ha.rows ⟨τ, r⟩ List.mem_cons_self
    refine (Frame.step_findForUpdate hp).mpr (Or.inl ⟨_, r, rfl, ?_, hpr, rfl⟩)
    rw [hview db]
    exact hdb

/-- A version-conditional update that affected its row wrote over exactly the
row that was read: had it been replaced meanwhile, the version would differ. -/
theorem update (h : Sound body committed mine tx held seen obs) {τ : S.Tab} {v : Nat}
    {r old old' : S.Row τ} {k : Bool → Prog S ε β} (hp : tx.frame.prog = .update τ v r k)
    (hfresh : tx.fresh = []) (hver : S.version τ r = v + 1) (hold : ⟨τ, old⟩ ∈ seen)
    (hkey : S.key τ old = S.key τ r) (hov : S.version τ old = v)
    (hfind : (committed.apply tx.frame.writes).find τ (S.key τ r) = some old')
    (hov' : S.version τ old' = v) (hmine : mine (τ, S.key τ r))
    (hk : Guarded ((τ, S.key τ r) :: held) (seen.filter fun c => c.key ≠ (τ, S.key τ r))
      (k true)) :
    Sound body committed mine
      (tx.next .quiet
        ⟨⟨k true, tx.frame.began, tx.frame.writes ++ [⟨τ, r⟩]⟩, [(τ, S.key τ r)], []⟩)
      ((τ, S.key τ r) :: held) (seen.filter fun c => c.key ≠ (τ, S.key τ r)) obs := by
  obtain ⟨hobs, hheld, hacc⟩ := h.seenObs _ hold
  simp only [Cell.key, hkey] at hheld
  have hview := h.view_eq hheld (by simp [hfresh])
  rw [hview] at hfind
  have hsame : old' = old := by
    obtain ⟨q, hq, _, he⟩ := h.current _ hold
    simp only [Cell.key, hkey, hfind, Option.some.injEq] at hq
    subst hq
    exact he (hov'.trans hov.symm)
  subst old'
  have honly : ∀ d ∈ obs, d.key = (τ, S.key τ r) → d = ⟨τ, old⟩ := by
    intro d hd he
    exact h.distinct d hd _ hobs (he.trans (by simp [Cell.key, hkey]))
  refine ⟨Or.inl ⟨hk, by simpa [Tx.next] using hfresh⟩, List.forall_mem_cons.mpr ⟨hmine, h.owned⟩,
    ?_, ?_, ?_, h.distinct, ?_, ?_, ?_, ?_⟩
  · intro d hd
    obtain ⟨hd, hne⟩ := List.mem_filter.mp hd
    obtain ⟨ho, hn, ha⟩ := h.seenObs d hd
    refine ⟨ho, ?_, ha⟩
    intro hq
    rcases List.mem_cons.mp hq with he | hq
    · simp [he] at hne
    · exact hn hq
  · intro d hd
    by_cases he : d.key = (τ, S.key τ r)
    · exact Or.inr (he ▸ List.mem_cons_self)
    · rcases h.covered d hd with hs | hh
      · exact Or.inl (List.mem_filter.mpr ⟨hs, by simpa using he⟩)
      · exact Or.inr (List.mem_cons_of_mem _ hh)
  · intro q hq
    rcases List.mem_cons.mp hq with rfl | hq
    · exact ⟨_, hobs, by simp [Cell.key, hkey]⟩
    · exact h.observed q hq
  · intro d hd hq
    rcases List.mem_cons.mp hq with he | hq
    · obtain rfl := honly d hd he
      simpa [Cell.key, hkey] using hfind
    · exact h.stable d hd hq
  · intro d hd
    exact h.current d (List.mem_filter.mp hd).1
  · intro w hw
    rcases mem_snoc.mp hw with hw | rfl
    · obtain ⟨hf, hw'⟩ := h.writes w hw
      exact ⟨hf, hw'.imp (by simp [Tx.next]) (And.imp_left (List.mem_cons_of_mem _))⟩
    · have ha : S.access τ = .optimistic := hacc
      refine ⟨by simp [ha], Or.inr ⟨List.mem_cons_self, old, hfind, ?_⟩⟩
      intro _
      show S.version τ old < S.version τ r
      omega
  · apply h.replay_next (fun _ hd => hd)
    intro db ha
    have hdb := ha.rows _ hobs
    simp only [Cell.key, hkey] at hdb
    exact (Frame.step_update hp).mpr ⟨rfl, Or.inl ⟨old, (hview db).trans hdb, hov, rfl⟩⟩

/-- Writing back a row under a lock taken before. -/
theorem save (h : Sound body committed mine tx held seen obs) {τ : S.Tab} {r : S.Row τ}
    {k : Prog S ε β} (hp : tx.frame.prog = .save τ r k) (hacc : S.access τ = .pessimistic)
    (hfresh : tx.fresh = []) (hheld : (τ, S.key τ r) ∈ held) (hk : Guarded held seen k) :
    Sound body committed mine
      (tx.next .quiet ⟨⟨k, tx.frame.began, tx.frame.writes ++ [⟨τ, r⟩]⟩, [(τ, S.key τ r)], []⟩)
      held seen obs := by
  refine ⟨Or.inl ⟨hk, by simpa [Tx.next] using hfresh⟩, h.owned, h.seenObs, h.covered, h.observed,
    h.distinct, h.stable, h.current, ?_, ?_⟩
  · intro w hw
    rcases mem_snoc.mp hw with hw | rfl
    · simpa [Tx.next] using h.writes w hw
    · refine ⟨by simp [hacc], Or.inr ⟨hheld, ?_⟩⟩
      obtain ⟨d, hd, he⟩ := h.observed _ hheld
      have hs := h.stable d hd (he ▸ hheld)
      obtain ⟨dt, dr⟩ := d
      obtain ⟨rfl, hkr⟩ := Prod.mk.inj he
      refine ⟨dr, ?_, fun ho => absurd ho (by simp [hacc])⟩
      simpa [Cell.key, hkr] using hs
  · apply h.replay_next (fun _ hd => hd)
    intro db _
    exact (Frame.step_save hp).mpr ⟨rfl, rfl⟩

/-- An insert under a key that no committed row has and no one else will get. -/
theorem insert (h : Sound body committed mine tx held seen obs) {τ : S.Tab} {i : RowId}
    {t : Int} {build : RowId → Int → S.Row τ} {k : S.Row τ → Prog S ε β}
    (hp : tx.frame.prog = .insert τ build k) (hb : tx.frame.began = some t)
    (hseen : seen = []) (hacc : S.access τ ≠ .frozen)
    (hnone : (committed.apply tx.frame.writes).find τ (S.key τ (build i t)) = none)
    (hk : InsertOnly (k (build i t))) :
    Sound body committed mine
      (tx.next (.issued i) ⟨⟨k (build i t), some t, tx.frame.writes ++ [⟨τ, build i t⟩]⟩, [],
        [(τ, S.key τ (build i t))]⟩) held seen obs := by
  refine ⟨Or.inr ⟨hseen, hk⟩, h.owned, h.seenObs, h.covered, h.observed, h.distinct, h.stable,
    h.current, ?_, ?_⟩
  · intro w hw
    rcases mem_snoc.mp hw with hw | rfl
    · obtain ⟨hf, hw'⟩ := h.writes w hw
      exact ⟨hf, hw'.imp_left (List.mem_append_right _)⟩
    · exact ⟨hacc, Or.inl List.mem_cons_self⟩
  · apply h.replay_next (fun _ hd => hd)
    intro db ha
    refine (Frame.step_insert hp).mpr ⟨i, t, rfl, hb, ?_, rfl⟩
    rcases Db.find_apply committed tx.frame.writes τ (S.key τ (build i t)) with
      ⟨w, _, hw, hf⟩ | ⟨hn, _⟩
    · obtain ⟨rfl, hwk⟩ := Prod.mk.inj hw
      rw [Cell.key, hwk, hnone] at hf
      cases hf
    · exact (Db.find_apply_of_ne hn).trans (ha.absent _ List.mem_cons_self)

/-- A frozen table shows its committed contents. -/
theorem frozen_view (h : Sound body committed mine tx held seen obs) {τ : S.Tab}
    (hacc : S.access τ = .frozen) (db : Db S) : db.apply tx.frame.writes τ = db τ := by
  apply Db.apply_other
  intro w hw he
  exact (h.writes w hw).1 (he ▸ hacc)

/-- One statement of a guarded script: the invariant goes on with what the
statement read and locked, unless it only can roll back from here. -/
theorem stmt_guarded (h : Sound body committed mine tx held seen obs)
    (hg : Guarded held seen tx.frame.prog) (hfresh : tx.fresh = [])
    (hs : tx.frame.step committed c = some o) (hl : ∀ k ∈ o.locks, mine k) :
    Doomed o.frame.prog ∨
      ∃ held' seen' obs', Sound body committed mine (tx.next c o) held' seen' obs' := by
  cases hp : tx.frame.prog with
  | done b => simp [Frame.step_done hp] at hs
  | fail e => simp [Frame.step_fail hp] at hs
  | now k =>
    obtain ⟨t, rfl, rfl⟩ := (Frame.step_now hp).mp hs
    rw [hp] at hg
    have hstep : ∀ db, Agrees committed obs tx.fresh db → tx.frame.step db (.clock t) = some _ :=
      fun _ _ => (Frame.step_now hp).mpr ⟨t, rfl, rfl⟩
    exact Or.inr ⟨held, seen, obs, h.quiet rfl rfl (Or.inl ⟨hg t, hfresh⟩) hstep⟩
  | begin k =>
    obtain ⟨t, rfl, rfl⟩ := (Frame.step_begin hp).mp hs
    rw [hp] at hg
    have hstep : ∀ db, Agrees committed obs tx.fresh db → tx.frame.step db (.clock t) = some _ :=
      fun _ _ => (Frame.step_begin hp).mpr ⟨t, rfl, rfl⟩
    exact Or.inr ⟨held, seen, obs, h.quiet rfl rfl (Or.inl ⟨hg, hfresh⟩) hstep⟩
  | find τ i k =>
    obtain ⟨rfl, rfl⟩ := (Frame.step_find hp).mp hs
    rw [hp] at hg
    cases hacc : S.access τ with
    | frozen =>
      simp only [Guarded, hacc] at hg
      refine Or.inr ⟨held, seen, obs, h.quiet rfl rfl (Or.inl ⟨hg _, hfresh⟩) ?_⟩
      intro db ha
      refine (Frame.step_find hp).mpr ⟨rfl, ?_⟩
      simp only [Db.find, h.frozen_view hacc, ha.frozen τ hacc]
    | optimistic =>
      simp only [Guarded, hacc] at hg
      obtain ⟨hheld, hseen, hnone, hsome⟩ := hg
      cases hr : (committed.apply tx.frame.writes).find τ i with
      | none => exact Or.inl hnone
      | some r =>
        have hk := hsome r (Table.key_of_find? hr)
        exact Or.inr ⟨_, _, _, h.find hp hacc hfresh hheld hseen hr hk⟩
    | pessimistic => simp [Guarded, hacc] at hg
  | findForUpdate τ p k =>
    rw [hp] at hg
    obtain ⟨hacc, hnone, hsome⟩ := hg
    rcases (Frame.step_findForUpdate hp).mp hs with ⟨i, r, rfl, hr, hpr, rfl⟩ | ⟨_, _, rfl⟩
    · obtain rfl : S.key τ r = i := Table.key_of_find? hr
      have hmine := hl _ List.mem_cons_self
      by_cases hheld : (τ, S.key τ r) ∈ held
      · exact Or.inr ⟨_, _, _, h.relock hp hfresh hr hpr hheld (hsome r hpr)⟩
      · exact Or.inr ⟨_, _, _, h.lock hp hacc hfresh hr hpr hheld hmine (hsome r hpr)⟩
    · exact Or.inl hnone
  | update τ v r k =>
    rw [hp] at hg
    obtain ⟨hfail, hver, ⟨old, hold, hkey, hov⟩, hk⟩ := hg
    obtain ⟨rfl, ⟨old', hr, hov', rfl⟩ | ⟨_, rfl⟩⟩ := (Frame.step_update hp).mp hs
    · have hmine := hl _ List.mem_cons_self
      exact Or.inr ⟨_, _, _, h.update hp hfresh hver hold hkey hov hr hov' hmine hk⟩
    · exact Or.inl hfail
  | save τ r k =>
    rw [hp] at hg
    obtain ⟨hacc, hheld, hk⟩ := hg
    obtain ⟨rfl, rfl⟩ := (Frame.step_save hp).mp hs
    exact Or.inr ⟨_, _, _, h.save hp hacc hfresh hheld hk⟩
  | insert τ build k =>
    rw [hp] at hg
    obtain ⟨hseen, hacc, hk⟩ := hg
    obtain ⟨i, t, rfl, hb, hnone, rfl⟩ := (Frame.step_insert hp).mp hs
    exact Or.inr ⟨_, _, _, h.insert hp hb hseen hacc hnone (hk i t)⟩

/-- One statement of the inserting tail. -/
theorem stmt_insertOnly (h : Sound body committed mine tx held seen obs) (hseen : seen = [])
    (hg : InsertOnly tx.frame.prog) (hs : tx.frame.step committed c = some o) :
    ∃ held' seen' obs', Sound body committed mine (tx.next c o) held' seen' obs' := by
  cases hp : tx.frame.prog with
  | done b => simp [Frame.step_done hp] at hs
  | fail e => simp [Frame.step_fail hp] at hs
  | now k =>
    obtain ⟨t, rfl, rfl⟩ := (Frame.step_now hp).mp hs
    rw [hp] at hg
    have hstep : ∀ db, Agrees committed obs tx.fresh db → tx.frame.step db (.clock t) = some _ :=
      fun _ _ => (Frame.step_now hp).mpr ⟨t, rfl, rfl⟩
    exact ⟨held, seen, obs, h.quiet rfl rfl (Or.inr ⟨hseen, hg t⟩) hstep⟩
  | begin k =>
    obtain ⟨t, rfl, rfl⟩ := (Frame.step_begin hp).mp hs
    rw [hp] at hg
    have hstep : ∀ db, Agrees committed obs tx.fresh db → tx.frame.step db (.clock t) = some _ :=
      fun _ _ => (Frame.step_begin hp).mpr ⟨t, rfl, rfl⟩
    exact ⟨held, seen, obs, h.quiet rfl rfl (Or.inr ⟨hseen, hg⟩) hstep⟩
  | insert τ build k =>
    rw [hp] at hg
    obtain ⟨hacc, hk⟩ := hg
    obtain ⟨i, t, rfl, hb, hnone, rfl⟩ := (Frame.step_insert hp).mp hs
    exact ⟨_, _, _, h.insert hp hb hseen hacc hnone (hk i t)⟩
  | find τ i k => simp [hp, InsertOnly] at hg
  | findForUpdate τ p k => simp [hp, InsertOnly] at hg
  | update τ v r k => simp [hp, InsertOnly] at hg
  | save τ r k => simp [hp, InsertOnly] at hg

theorem stmt (h : Sound body committed mine tx held seen obs)
    (hs : tx.frame.step committed c = some o) (hl : ∀ k ∈ o.locks, mine k) :
    Doomed o.frame.prog ∨
      ∃ held' seen' obs', Sound body committed mine (tx.next c o) held' seen' obs' := by
  rcases h.guard with ⟨hg, hfresh⟩ | ⟨hseen, hg⟩
  · exact h.stmt_guarded hg hfresh hs hl
  · exact Or.inr (h.stmt_insertOnly hseen hg hs)

/-- Another transaction commits the writes ws. It held none of the rows held
here, wrote versioned rows only upwards and inserted under its own keys. -/
theorem commit_other {ws : List (Cell S)} (h : Sound body committed mine tx held seen obs)
    (hws : ∀ w ∈ ws, S.access w.tab ≠ .frozen ∧ w.key ∉ held ∧
      ∀ r, committed.find w.tab w.key.2 = some r →
        S.access w.tab = .optimistic → S.version w.tab r < S.version w.tab w.row) :
    Sound body (committed.apply ws) mine tx held seen obs := by
  have hkept : ∀ k ∈ held, (committed.apply ws).find k.1 k.2 = committed.find k.1 k.2 := by
    intro k hk
    apply Db.find_apply_of_ne
    intro w hw he
    exact (hws w hw).2.1 (he ▸ hk)
  refine { h with stable := ?_, current := ?_, writes := ?_, replay := ?_ }
  · intro d hd hh
    exact (hkept _ hh).trans (h.stable d hd hh)
  · intro d hd
    obtain ⟨r, hr, hle, heq⟩ := h.current d hd
    rcases Db.find_apply committed ws d.tab d.key.2 with ⟨w, hw, hwk, hf⟩ | ⟨_, hf⟩
    · have hacc := (h.seenObs d hd).2.2
      obtain ⟨wt, wr⟩ := w
      obtain ⟨dt, dr⟩ := d
      obtain ⟨rfl, hkr⟩ := Prod.mk.inj hwk
      have hlt := (hws _ hw).2.2 r (by simpa [Cell.key, hkr] using hr) hacc
      refine ⟨wr, by simpa [Cell.key, hkr] using hf, ?_, ?_⟩
      · exact Nat.le_of_lt (Nat.lt_of_le_of_lt hle hlt)
      · intro he
        have := Nat.lt_of_le_of_lt hle hlt
        simp only at he this
        omega
    · exact ⟨r, hf.trans hr, hle, heq⟩
  · intro w hw
    obtain ⟨hf, hw'⟩ := h.writes w hw
    refine ⟨hf, hw'.imp_right fun hlocked => ?_⟩
    obtain ⟨hk, r, hr, hv⟩ := hlocked
    exact ⟨hk, r, (hkept _ hk).trans hr, hv⟩
  · intro db ha
    refine h.replay db ⟨fun τ hτ => ?_, ha.rows, ha.absent⟩
    rw [ha.frozen τ hτ]
    apply Db.apply_other
    intro w hw he
    exact (hws w hw).1 (he ▸ hτ)

/-- What the committed state gives back of an open transaction. -/
theorem agrees (h : Sound body committed mine tx held [] obs)
    (hfresh : ∀ k ∈ tx.fresh, committed.find k.1 k.2 = none) :
    Agrees committed obs tx.fresh committed where
  frozen := fun _ _ => rfl
  rows := by
    intro d hd
    rcases h.covered d hd with hs | hh
    · simp at hs
    · exact h.stable d hd hh
  absent := hfresh

/-- A transaction that is ready to commit would have done the same, alone, on
the state it commits to. -/
theorem run_eq {b : β} (h : Sound body committed mine tx held seen obs)
    (hp : tx.frame.prog = .done b)
    (hfresh : ∀ k ∈ tx.fresh, committed.find k.1 k.2 = none) :
    (Frame.start (body tx.call)).run committed tx.choices = some tx.frame := by
  have hseen : seen = [] := by
    rcases h.guard with ⟨hg, _⟩ | ⟨hseen, _⟩
    · rw [hp] at hg
      exact hg
    · exact hseen
  subst hseen
  exact h.replay committed (h.agrees hfresh)

theorem exec_eq {b : β} (h : Sound body committed mine tx held seen obs)
    (hp : tx.frame.prog = .done b)
    (hfresh : ∀ k ∈ tx.fresh, committed.find k.1 k.2 = none) :
    exec (body tx.call) committed tx.choices =
      some (.ok b, committed.apply tx.frame.writes) :=
  exec_ok.mpr ⟨tx.frame, h.run_eq hp hfresh, hp, rfl⟩

end Sound

end ReadCommitted
