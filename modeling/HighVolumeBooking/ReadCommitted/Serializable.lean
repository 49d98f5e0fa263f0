import HighVolumeBooking.ReadCommitted.Sound

namespace ReadCommitted

variable {S : Schema} {ε β κ : Type}

/-- A key that a statement takes from a sequence names no committed row. -/
theorem Frame.step_fresh {db : Db S} {f : Frame S ε β} {c : Choice} {o : Outcome S ε β}
    (h : f.step db c = some o) : ∀ k ∈ o.fresh, db.find k.1 k.2 = none := by
  cases hp : f.prog with
  | done b => simp [Frame.step_done hp] at h
  | fail e => simp [Frame.step_fail hp] at h
  | now k =>
    obtain ⟨t, _, rfl⟩ := (Frame.step_now hp).mp h
    simp
  | begin k =>
    obtain ⟨t, _, rfl⟩ := (Frame.step_begin hp).mp h
    simp
  | find τ i k =>
    obtain ⟨_, rfl⟩ := (Frame.step_find hp).mp h
    simp
  | findForUpdate τ p k =>
    rcases (Frame.step_findForUpdate hp).mp h with ⟨i, r, _, _, _, rfl⟩ | ⟨_, _, rfl⟩
    · simp
    · simp
  | update τ v r k =>
    obtain ⟨_, ⟨old, _, _, rfl⟩ | ⟨_, rfl⟩⟩ := (Frame.step_update hp).mp h
    · simp
    · simp
  | save τ r k =>
    obtain ⟨_, rfl⟩ := (Frame.step_save hp).mp h
    simp
  | insert τ build k =>
    obtain ⟨i, t, _, _, hn, rfl⟩ := (Frame.step_insert hp).mp h
    intro q hq
    obtain rfl := List.mem_singleton.mp hq
    exact Db.find_of_apply_none hn

/-- A statement reads the clock at most once, and a choice records it. -/
def Entry.clocks (e : Entry β κ) : List Int := e.choices.filterMap Choice.clock?

/-- The invariant of the server: the committed state is that of a serial run
of the logged calls, and every open transaction either can only roll back or
has an account of what its answers came from. -/
structure Inv (body : κ → Prog S ε β) (start : Db S) (s : Sys S ε β κ) : Prop where
  serial : Serial body start s.log s.committed
  sound : ∀ t tx, s.running t = some tx → Doomed tx.frame.prog ∨
    ∃ held seen obs, Sound body s.committed (fun k => s.owner k = some t) tx held seen obs
  issued : ∀ t tx, s.running t = some tx →
    ∀ k ∈ tx.fresh, k ∈ s.issued ∧ s.committed.find k.1 k.2 = none
  apart : ∀ t tx t' tx', s.running t = some tx → s.running t' = some tx' → t ≠ t' →
    ∀ k ∈ tx.fresh, k ∉ tx'.fresh

namespace Inv

variable {body : κ → Prog S ε β} {start : Db S} {s s' : Sys S ε β κ} {t : TxId}

theorem init : Inv body start (Sys.init start) where
  serial := .nil
  sound := by simp [Sys.init]
  issued := by simp [Sys.init]
  apart := by simp [Sys.init]

theorem step_start {call : κ} (h : Inv body start s) (hg : Guarded [] [] (body call))
    (hs : Sys.step body s (.start t call) = some s') : Inv body start s' := by
  obtain ⟨hr, rfl⟩ := Sys.step_start hs
  refine ⟨h.serial, ?_, ?_, ?_⟩
  · intro u ux hu
    rcases Sys.running_update hu with ⟨rfl, rfl⟩ | ⟨_, hu⟩
    · exact Or.inr ⟨[], [], [], Sound.start hg⟩
    · exact h.sound u ux hu
  · intro u ux hu
    rcases Sys.running_update hu with ⟨rfl, rfl⟩ | ⟨_, hu⟩
    · simp
    · exact h.issued u ux hu
  · intro u ux u' ux' hu hu' hne
    rcases Sys.running_update hu with ⟨rfl, rfl⟩ | ⟨_, hopen⟩
    · simp
    · rcases Sys.running_update hu' with ⟨rfl, rfl⟩ | ⟨_, hu'⟩
      · simp
      · exact h.apart u ux u' ux' hopen hu' hne

theorem step_stmt {c : Choice} (h : Inv body start s)
    (hs : Sys.step body s (.stmt t c) = some s') : Inv body start s' := by
  obtain ⟨tx, o, hr, ho, hfree, hnew, rfl⟩ := Sys.step_stmt hs
  rw [Sys.free_iff] at hfree
  have hissued := h.issued t tx hr
  refine ⟨h.serial, ?_, ?_, ?_⟩
  · intro u ux hu
    rcases Sys.running_update hu with ⟨rfl, rfl⟩ | ⟨hne, hu⟩
    · rcases h.sound u tx hr with hd | ⟨held, seen, obs, hsd⟩
      · exact Or.inl (hd.step ho)
      · have hsd' : Sound body s.committed (fun k => Sys.lock s.owner u o.locks k = some u) tx
            held seen obs := by
          apply hsd.mono
          intro k hk
          by_cases hin : k ∈ o.locks
          · simp [Sys.lock, hin]
          · simpa [Sys.lock, hin] using hsd.owned k hk
        exact hsd'.stmt ho (fun k hk => by simp [Sys.lock, hk])
    · rcases h.sound u ux hu with hd | ⟨held, seen, obs, hsd⟩
      · exact Or.inl hd
      · refine Or.inr ⟨held, seen, obs, hsd.mono ?_⟩
        intro k hk
        have hown := hsd.owned k hk
        have hnot : k ∉ o.locks := by
          intro hin
          rcases hfree k hin with he | he
          · simp [he] at hown
          · rw [he] at hown
            exact hne (Option.some.inj hown).symm
        simpa [Sys.lock, hnot] using hown
  · intro u ux hu k hk
    rcases Sys.running_update hu with ⟨rfl, rfl⟩ | ⟨_, hu⟩
    · rcases List.mem_append.mp hk with hk | hk
      · exact ⟨List.mem_append_left _ hk, Frame.step_fresh ho k hk⟩
      · exact ⟨List.mem_append_right _ (hissued k hk).1, (hissued k hk).2⟩
    · obtain ⟨hi, hn⟩ := h.issued u ux hu k hk
      exact ⟨List.mem_append_right _ hi, hn⟩
  · intro u ux u' ux' hu hu' hne k hk hk'
    rcases Sys.running_update hu with ⟨rfl, rfl⟩ | ⟨_, hopen⟩
    · rcases Sys.running_update hu' with ⟨rfl, rfl⟩ | ⟨_, hu'⟩
      · exact hne rfl
      · rcases List.mem_append.mp hk with hk | hk
        · exact hnew k hk (h.issued u' ux' hu' k hk').1
        · exact h.apart u tx u' ux' hr hu' hne k hk hk'
    · rcases Sys.running_update hu' with ⟨rfl, rfl⟩ | ⟨_, hu'⟩
      · rcases List.mem_append.mp hk' with hk' | hk'
        · exact hnew k hk' (h.issued u ux hopen k hk).1
        · exact h.apart u ux u' tx hopen hr hne k hk hk'
      · exact h.apart u ux u' ux' hopen hu' hne k hk hk'

/-- An open transaction that is ready to commit is one that ran alone. -/
theorem run_of_done {tx : Tx S ε β κ} {b : β} (h : Inv body start s) (hr : s.running t = some tx)
    (hp : tx.frame.prog = .done b) :
    (Frame.start (body tx.call)).run s.committed tx.choices = some tx.frame := by
  rcases h.sound t tx hr with hd | ⟨held, seen, obs, hsd⟩
  · rw [hp] at hd
    exact hd.elim
  · exact hsd.run_eq hp (fun k hk => (h.issued t tx hr k hk).2)

/-- The locks of a transaction cover its updates, and its keys its inserts, so
its commit touches no row that another one holds or inserted. -/
theorem step_commit (h : Inv body start s) (hs : Sys.step body s (.commit t) = some s') :
    Inv body start s' ∧ ∃ tx b, s.running t = some tx ∧
      exec (body tx.call) s.committed tx.choices = some (.ok b, s'.committed) ∧
      s'.log = s.log ++ [⟨tx.call, tx.choices, b⟩] := by
  obtain ⟨tx, b, hr, hp, rfl⟩ := Sys.step_commit hs
  have hissued := h.issued t tx hr
  rcases h.sound t tx hr with hd | ⟨held, seen, obs, hsd⟩
  · rw [hp] at hd
    exact hd.elim
  have hexec := hsd.exec_eq hp (fun k hk => (hissued k hk).2)
  refine ⟨⟨h.serial.snoc hexec, ?_, ?_, ?_⟩, tx, b, hr, hexec, rfl⟩
  · intro u ux hu
    obtain ⟨hne, hu⟩ := Sys.running_end hu
    rcases h.sound u ux hu with hd | ⟨held', seen', obs', hsd'⟩
    · exact Or.inl hd
    · have hmono := hsd'.mono (fun k hk => Sys.owner_release (t := t) hne (hsd'.owned k hk))
      refine Or.inr ⟨held', seen', obs', hmono.commit_other ?_⟩
      intro w hw
      obtain ⟨hfrozen, hwk⟩ := hsd.writes w hw
      refine ⟨hfrozen, ?_, ?_⟩
      · intro hk
        rcases hwk with hf | ⟨hheld, _⟩
        · obtain ⟨d, hd, he⟩ := hsd'.observed _ hk
          have hst := hsd'.stable d hd (he ▸ hk)
          have hnone := (hissued _ hf).2
          rw [← he] at hnone
          cases hnone.symm.trans hst
        · have hu' := hsd'.owned _ hk
          rw [hsd.owned _ hheld] at hu'
          exact hne (Option.some.inj hu').symm
      · intro r hrow hacc
        rcases hwk with hf | ⟨_, r', hrow', hv⟩
        · cases (hissued _ hf).2.symm.trans hrow
        · obtain rfl := Option.some.inj (hrow'.symm.trans hrow)
          exact hv hacc
  · intro u ux hu k hk
    obtain ⟨hne, hu⟩ := Sys.running_end hu
    obtain ⟨hi, hn⟩ := h.issued u ux hu k hk
    refine ⟨hi, ?_⟩
    rw [← hn]
    apply Db.find_apply_of_ne
    intro w hw (hkey : w.key = k)
    rcases (hsd.writes w hw).2 with hf | ⟨_, r, hrow, _⟩
    · exact h.apart u ux t tx hu hr hne k hk (hkey ▸ hf)
    · rw [← hkey] at hn
      cases hn.symm.trans hrow
  · intro u ux u' ux' hu hu' hne
    exact h.apart u ux u' ux' (Sys.running_end hu).2 (Sys.running_end hu').2 hne

theorem step_abort (h : Inv body start s) (hs : Sys.step body s (.abort t) = some s') :
    Inv body start s' := by
  obtain ⟨tx, _, rfl⟩ := Sys.step_abort hs
  refine ⟨h.serial, ?_, ?_, ?_⟩
  · intro u ux hu
    obtain ⟨hne, hu⟩ := Sys.running_end hu
    refine (h.sound u ux hu).imp_right ?_
    intro ⟨held, seen, obs, hsd⟩
    exact ⟨held, seen, obs, hsd.mono fun k hk => Sys.owner_release hne (hsd.owned k hk)⟩
  · intro u ux hu
    exact h.issued u ux (Sys.running_end hu).2
  · intro u ux u' ux' hu hu' hne
    exact h.apart u ux u' ux' (Sys.running_end hu).2 (Sys.running_end hu').2 hne

theorem step {a : Act κ} (h : Inv body start s) (hg : ∀ call, Guarded [] [] (body call))
    (hs : Sys.step body s a = some s') : Inv body start s' := by
  cases a with
  | start t call => exact h.step_start (hg call) hs
  | stmt t c => exact h.step_stmt hs
  | commit t => exact (h.step_commit hs).1
  | abort t => exact h.step_abort hs

theorem run (hg : ∀ call, Guarded [] [] (body call)) {as : List (Act κ)}
    (h : Machine.run (Sys.step body) (Sys.init start) as = some s) : Inv body start s := by
  refine Machine.run_induction (fun _ s => Inv body start s) init ?_ h
  intro _ m a u _ hm hs
  exact hm.step hg hs

end Inv

/-- Guarded scripts are serializable: the committed state of any interleaving
is the one of the committed calls run one after another in commit order, with
the choices they made. -/
theorem serializable {body : κ → Prog S ε β} {start : Db S} {s : Sys S ε β κ}
    (hg : ∀ call, Guarded [] [] (body call)) {as : List (Act κ)}
    (h : Machine.run (Sys.step body) (Sys.init start) as = some s) :
    Serial body start s.log s.committed :=
  (Inv.run hg h).serial

/-! The readings a call made come in the order in which the run read them. -/

theorem clocks_sublist {body : κ → Prog S ε β} {start : Db S} {s : Sys S ε β κ}
    {as : List (Act κ)} (h : Machine.run (Sys.step body) (Sys.init start) as = some s) :
    (∀ e ∈ s.log, (e.clocks).Sublist (as.filterMap Act.clock?)) ∧
      ∀ t tx, s.running t = some tx →
        (tx.choices.filterMap Choice.clock?).Sublist (as.filterMap Act.clock?) := by
  refine Machine.run_induction
    (fun as (s : Sys S ε β κ) => (∀ e ∈ s.log, (e.clocks).Sublist (as.filterMap Act.clock?)) ∧
      ∀ t tx, s.running t = some tx →
        (tx.choices.filterMap Choice.clock?).Sublist (as.filterMap Act.clock?))
    ⟨by simp [Sys.init], by simp [Sys.init]⟩ ?_ h
  intro as m a s' _ hm hs
  obtain ⟨hlog, hrun⟩ := hm
  have hmore : (as.filterMap Act.clock?).Sublist ((as ++ [a]).filterMap Act.clock?) := by
    rw [List.filterMap_append]
    exact List.sublist_append_left _ _
  cases a with
  | start t call =>
    obtain ⟨_, rfl⟩ := Sys.step_start hs
    refine ⟨fun e he => (hlog e he).trans hmore, ?_⟩
    intro u ux hu
    rcases Sys.running_update hu with ⟨rfl, rfl⟩ | ⟨_, hu⟩
    · simp
    · exact (hrun u ux hu).trans hmore
  | stmt t c =>
    obtain ⟨tx, o, hr, _, _, _, rfl⟩ := Sys.step_stmt hs
    refine ⟨fun e he => (hlog e he).trans hmore, ?_⟩
    intro u ux hu
    rcases Sys.running_update hu with ⟨rfl, rfl⟩ | ⟨_, hu⟩
    · simp only [Tx.next, List.filterMap_append]
      exact (hrun u tx hr).append (by simp [List.filterMap_cons, Act.clock?])
    · exact (hrun u ux hu).trans hmore
  | commit t =>
    obtain ⟨tx, b, hr, _, rfl⟩ := Sys.step_commit hs
    refine ⟨?_, fun u ux hu => (hrun u ux (Sys.running_end hu).2).trans hmore⟩
    intro e he
    rcases mem_snoc.mp he with he | rfl
    · exact (hlog e he).trans hmore
    · exact (hrun t tx hr).trans hmore
  | abort t =>
    obtain ⟨tx, _, rfl⟩ := Sys.step_abort hs
    exact ⟨fun e he => (hlog e he).trans hmore,
      fun u ux hu => (hrun u ux (Sys.running_end hu).2).trans hmore⟩

/-- Under a clock that never goes back every committed call read it in order. -/
theorem clocks_sorted {body : κ → Prog S ε β} {start : Db S} {s : Sys S ε β κ}
    {as : List (Act κ)} (h : Machine.run (Sys.step body) (Sys.init start) as = some s)
    (hc : (as.filterMap Act.clock?).Pairwise (· ≤ ·)) :
    ∀ e ∈ s.log, (e.clocks).Pairwise (· ≤ ·) :=
  fun e he => hc.sublist ((clocks_sublist h).1 e he)

end ReadCommitted
