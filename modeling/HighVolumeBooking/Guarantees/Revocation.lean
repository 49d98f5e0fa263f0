import HighVolumeBooking.Guarantees.Admission

namespace HighVolumeBooking

open Interleaving (CallId Executed Pool)

/-- The log entry of a DEL that removed the token. -/
def revokes (token : Jwt) (x : Executed tokenServer TokenCall) : Bool :=
  match x.answer with
  | ⟨.redis (.del key), _⟩ => (x.before.strings key).any fun v => v.value == token
  | _ => false

/-- The log entry of the lookup with which the guard accepts the token. -/
def accepts (token : Jwt) (x : Executed tokenServer TokenCall) : Bool :=
  match x.label, x.answer with
  | .guard request, ⟨.redis (.get _), stored⟩ =>
    extractTokenFromHeader request == some (.signed token) && stored.isSome
  | _, _ => false

def Revoked (token : Jwt) (log : List (Executed tokenServer TokenCall)) : Prop :=
  ∃ x ∈ log, revokes token x = true

namespace TokenServer

/-- No token is accepted after it was removed. -/
def RevokedForGood (s : TokenServer) : Prop :=
  ∀ token, s.log.Pairwise fun x y => revokes token x = true → accepts token y = false

/-- The guard finds no active key for the user, or the very token it was shown. -/
def FindsOwn (s : TokenServer) (a : TokenAct) : Prop :=
  ∀ i r request token key k v, a = .answer i .quiet → s.calls i = some r →
    r.label = .guard request → extractTokenFromHeader request = some (.signed token) →
    r.next = some ⟨.redis (.get key), k⟩ → s.state.strings key = some v → v.value = token

/-- A key that is created does not hold a token that was removed before. -/
def StoresNew (s : TokenServer) (a : TokenAct) : Prop :=
  ∀ i r member token queue, a = .flush i .quiet → s.calls i = some r →
    r.queue = TokenCall.store member token :: queue → s.active member = none →
    ¬ Revoked token s.log

/-- What was removed is not stored. -/
def Gone (s : TokenServer) : Prop :=
  ∀ token, Revoked token s.log → ∀ key v, s.state.strings key = some v → v.value ≠ token

end TokenServer

section Revocation

variable {s s' : TokenServer} {a : TokenAct} {now : Int} {token : Jwt}

theorem revoked_append {log : List (Executed tokenServer TokenCall)}
    {x : Executed tokenServer TokenCall} :
    Revoked token (log ++ [x]) ↔ Revoked token log ∨ revokes token x = true := by
  simp [Revoked, or_and_right, exists_or]

/-- A guard call that allows its request has accepted the token. -/
theorem allowed_accepts {i : CallId} {r : TokenRun} {request : Request}
    (h : Machine.Reachable serveTokens (.init now) s) (hr : s.calls i = some r)
    (hlabel : r.label = .guard request) (hdone : r.script = .done (.allowed true)) :
    ∃ token, extractTokenFromHeader request = some (.signed token) ∧
      ∃ x ∈ s.log, accepts token x = true := by
  have hstage := (staged_reachable h).stage i r hr
  rw [hlabel, hdone] at hstage
  generalize hscript : (Interleaving.Script.done (TokenResult.allowed true) : Rest) = script at hstage
  generalize hqueue : r.queue = queue at hstage
  generalize hanswers : r.answers = answers at hstage
  cases hstage with
  | allowed _ token t userId stored hextract hexp huser =>
    obtain ⟨x, hx, hxlabel, hxa⟩ := Pool.answers_logged.reachable (reachable_pool h) i r hr _
      (hanswers ▸ List.mem_cons_of_mem _ List.mem_cons_self)
    refine ⟨token, hextract, x, hx, ?_⟩
    simp [accepts, hxlabel, hlabel, hxa, hextract]
  | _ => contradiction

theorem isRead_revokes {x : Executed tokenServer TokenCall} (h : x.answer.1.isRead = true)
    (token : Jwt) : revokes token x = false := by
  obtain ⟨label, ⟨o, reply⟩, before⟩ := x
  cases o with
  | redis c => cases c <;> first | contradiction | rfl
  | attempt c => contradiction
  | now => rfl
  | sign userId => rfl

/-- Only an expire call removes a token, and it removes what it finds. -/
theorem revoked_step (hst : Staged s) (hs : serveTokens s a = some s')
    (hrevoked : Revoked token s'.log) : Revoked token s.log ∨
      ∃ i id v, a = .answer i .quiet ∧ s.state.strings (TokenCall.key id) = some v ∧
        v.value = token ∧ s'.state.strings (TokenCall.key id) = none := by
  have hkeep : ∀ {x : Executed tokenServer TokenCall}, s'.log = s.log ++ [x] →
      revokes token x = false → Revoked token s.log := by
    intro x hlog hx
    rw [hlog, revoked_append, hx] at hrevoked
    simpa using hrevoked
  cases moved hst hs with
  | quiet _ hlog => exact Or.inl (hlog ▸ hrevoked)
  | tick t _ _ hs =>
    subst hs
    exact Or.inl hrevoked
  | read i e r o reply _ _ hread _ _ hlog => exact Or.inl (hkeep hlog (isRead_revokes hread token))
  | join i r userId now _ _ _ _ _ hlog => exact Or.inl (hkeep hlog rfl)
  | clear i batch _ _ _ _ hlog => exact Or.inl (hkeep hlog rfl)
  | store i batch member token' _ _ _ _ _ hlog => exact Or.inl (hkeep hlog rfl)
  | lose i member token' _ _ hlog => exact Or.inl (hkeep hlog rfl)
  | expire i r id ha _ _ _ hstate hlog =>
    rw [hlog, revoked_append] at hrevoked
    rcases hrevoked with hold | hnew
    · exact Or.inl hold
    · simp only [revokes, Option.any_eq_true, beq_iff_eq] at hnew
      obtain ⟨v, hv, hvalue⟩ := hnew
      refine Or.inr ⟨i, id, v, ha, hv, hvalue, ?_⟩
      rw [hstate, Redis.Store.strings_exec_del, if_pos rfl]

theorem gone_step (h : Machine.Reachable serveTokens (.init now) s) (hgone : s.Gone)
    (hnew : s.StoresNew a) (hs : serveTokens s a = some s') : s'.Gone := by
  have hst := staged_reachable h
  -- what is stored after the step was stored before or is written by it
  have hstored : ∀ key v, s'.state.strings key = some v →
      s.state.strings key = some v ∨
        ((∃ i, a = .flush i .quiet) ∧ ¬ Revoked v.value s.log) := by
    intro key v hv
    cases strings_moved hst hs with
    | same h => exact Or.inl (h ▸ hv)
    | tick t _ _ h =>
      rw [h] at hv
      exact Or.inl (Option.filter_eq_some_iff.mp hv).1
    | expire i r id _ _ _ _ h =>
      rw [h] at hv
      split at hv
      · contradiction
      · exact Or.inl hv
    | store i batch member token ha _ _ hq h =>
      rw [h] at hv
      split at hv
      · rename_i hk
        obtain rfl := Option.some.inj hv
        obtain ⟨r, queue, hr, hq⟩ := hq
        exact Or.inr ⟨⟨i, ha⟩, hnew i r member token queue ha hr hq hk.2⟩
      · exact Or.inl hv
  rintro token hrevoked key v hv rfl
  rcases revoked_step hst hs hrevoked with hold | ⟨i, id, w, ha, hw, hvalue, hnone⟩
  · rcases hstored key v hv with hbefore | ⟨_, hfresh⟩
    · exact hgone v.value hold key v hbefore rfl
    · exact hfresh hold
  · rcases hstored key v hv with hbefore | ⟨⟨j, hj⟩, _⟩
    · rw [stored_once h hbefore hw hvalue.symm, hnone] at hv
      contradiction
    · rw [ha] at hj
      contradiction

theorem accepts_lookup {label : TokenCall} {o : TokenOp} {reply : o.Reply} {st : Redis.Store Jwt}
    (h : accepts token ⟨label, ⟨o, reply⟩, st⟩ = true) :
    ∃ request key v, label = .guard request ∧
      extractTokenFromHeader request = some (.signed token) ∧ o = .redis (.get key) ∧
      HEq reply (some v : Option Jwt) := by
  cases label with
  | guard request =>
    cases o with
    | redis c =>
      cases c with
      | get key =>
        simp only [accepts, Bool.and_eq_true, beq_iff_eq, Option.isSome_iff_exists] at h
        obtain ⟨hextract, v, hv⟩ := h
        exact ⟨request, key, v, rfl, hextract, rfl, heq_of_eq hv⟩
      | _ => contradiction
    | _ => contradiction
  | _ => contradiction

/-- What the guard finds when it accepts a token. -/
theorem accepts_step (hst : Staged s) (hfinds : s.FindsOwn a) (hs : serveTokens s a = some s')
    {x : Executed tokenServer TokenCall} (hlog : s'.log = s.log ++ [x])
    (hx : accepts token x = true) :
    ∃ key v, s.state.strings key = some v ∧ v.value = token := by
  rcases Pool.log_cases (serve_step hs).2 with ⟨hsame, _⟩ | ⟨i, r, o, e, reply, hr, hexec, hlog', hby⟩
  · rw [hsame] at hlog
    simp at hlog
  · obtain ⟨rfl⟩ := List.append_cancel_left (hlog.symm.trans hlog')
    obtain ⟨request, key, w, hlabel, hextract, rfl, hw⟩ := accepts_lookup hx
    obtain rfl := eq_of_heq hw
    rcases hby with ⟨ha, k, hn⟩ | ⟨_, queue, hq⟩
    · cases e <;> simp only [TokenOp.exec, Option.some.injEq, reduceCtorEq] at hexec
      obtain ⟨v, hv, _⟩ := Option.map_eq_some_iff.mp (congrArg Prod.fst hexec)
      exact ⟨key, v, hv, hfinds i r request token key k v ha hr hlabel hextract hn hv⟩
    · have hstage := hst.stage i r hr
      rw [hq] at hstage
      obtain ⟨_, _, _, _, hactivate, _⟩ := TokenCall.stage_queue hstage
      rw [hlabel] at hactivate
      contradiction

/-- In a run in which the guard finds what it was shown or nothing, and in which
nothing that was removed is stored anew, a token that was removed is never
accepted again. -/
theorem revoked_for_good {acts : List TokenAct}
    (h : Machine.run serveTokens (.init now) acts = some s)
    (hacts : Machine.Along serveTokens (fun m a => m.FindsOwn a ∧ m.StoresNew a) (.init now) acts) :
    Machine.Throughout serveTokens TokenServer.RevokedForGood (.init now) acts := by
  have hboth : Machine.Throughout serveTokens (fun m => m.Gone ∧ m.RevokedForGood) (.init now)
      acts := by
    refine hacts.throughout h ⟨?_, ?_⟩ ?_
    · rintro token ⟨x, hx, _⟩
      simp [TokenServer.init, Pool.init] at hx
    · intro token
      exact List.Pairwise.nil
    · intro m a t hm hq ha hs
      obtain ⟨hgone, hgood⟩ := hq
      refine ⟨gone_step hm hgone ha.2 hs, ?_⟩
      intro token
      rcases Pool.log_cases (serve_step hs).2 with ⟨hlog, _⟩ | ⟨i, r, o, e, reply, _, _, hlog, _⟩
      · rw [hlog]
        exact hgood token
      · rw [hlog, List.pairwise_append]
        refine ⟨hgood token, List.pairwise_singleton _ _, ?_⟩
        intro x hx y hy hrevokes
        rw [List.mem_singleton.mp hy]
        by_contra haccepts
        obtain ⟨key, v, hv, hvalue⟩ := accepts_step (staged_reachable hm) ha.1 hs hlog
          (Bool.not_eq_false _ |>.mp haccepts)
        exact hgone token ⟨x, hx, hrevokes⟩ key v hv hvalue
  exact hboth.imp fun m _ hq => hq.2

end Revocation

/-- Whether a step of the guard or of a write keeps to the conditions. -/
def TokenServer.ownAndNew? (s : TokenServer) : TokenAct → Bool
  | .answer i _ => (s.calls i).all fun r =>
    match r.label, r.next with
    | .guard request, some ⟨.redis (.get key), _⟩ =>
      (s.state.strings key).all fun v => extractTokenFromHeader request == some (.signed v.value)
    | _, _ => true
  | .flush i _ => (s.calls i).all fun r =>
    match r.queue with
    | .attempt (.setNX _ token _) :: _ => !s.log.any (revokes token)
    | _ => true
  | _ => true

theorem ownAndNew_of_check (s : TokenServer) (a : TokenAct) (_ : True)
    (h : s.ownAndNew? a = true) : s.FindsOwn a ∧ s.StoresNew a := by
  refine ⟨?_, ?_⟩
  · rintro i r request token key k v rfl hr hlabel hextract hn hv
    simp only [TokenServer.ownAndNew?, hr, Option.all_some, hlabel, hn, hv, hextract, beq_iff_eq,
      Option.some.injEq, PresentedToken.signed.injEq] at h
    exact h.symm
  · rintro i r member token queue rfl hr hq _ ⟨x, hx, hrevokes⟩
    simp only [TokenServer.ownAndNew?, hr, Option.all_some, hq, TokenCall.store,
      Bool.not_eq_true', List.any_eq_false] at h
    exact h x hx hrevokes

/-- A guard call that finds the token unexpired. -/
def guarded (i : CallId) (token : Jwt) (now : Int) : List TokenAct :=
  [.start i (.guard ⟨some ⟨"Bearer", some (.signed token)⟩⟩), .answer i (.read now),
    .answer i .quiet]

/-- A user is admitted, pays, is admitted with another token, and shows a token. -/
def readmitted (shown : Jwt) : List TokenAct :=
  enqueued 0 7 0 ++ [.env (.tick 1000)] ++ activated 1 1000 ++ expired 2 7 ++ enqueued 3 7 1000 ++
    [.env (.tick 2000)] ++ activated 4 2000 ++ [.env (.tick 3000)] ++ guarded 5 shown 3000

theorem revoked_for_good_readmitted :
    ∃ s, Machine.run serveTokens (.init 0) (readmitted (Jwt.sign (some 7) 2000)) = some s ∧
      (s.log.any (revokes (Jwt.sign (some 7) 1000)) &&
        s.log.any (accepts (Jwt.sign (some 7) 2000))) = true ∧
      Machine.Throughout serveTokens TokenServer.RevokedForGood (.init 0)
        (readmitted (Jwt.sign (some 7) 2000)) := by
  have hrun : (Machine.run serveTokens (.init 0) (readmitted (Jwt.sign (some 7) 2000))).map
      (fun s => s.log.any (revokes (Jwt.sign (some 7) 1000)) &&
        s.log.any (accepts (Jwt.sign (some 7) 2000))) = some true := by
    decide +kernel
  have hchecks : Machine.checks serveTokens TokenServer.ownAndNew? (.init 0)
      (readmitted (Jwt.sign (some 7) 2000)) = true := by
    decide +kernel
  obtain ⟨s, hs, hlog⟩ := Option.map_eq_some_iff.mp hrun
  exact ⟨s, hs, hlog, revoked_for_good hs
    (Machine.throughout_true.along_of_checks ownAndNew_of_check hchecks)⟩

/-- The token that was removed when the user paid lets him in again. -/
theorem accepted_after_removal :
    ∃ s, Machine.Reachable serveTokens (.init 0) s ∧ ¬ s.RevokedForGood := by
  have h : (Machine.run serveTokens (.init 0) (readmitted (Jwt.sign (some 7) 1000))).map
      (fun s => ((s.log.dropLast).any (revokes (Jwt.sign (some 7) 1000)),
        (s.log.getLast?).any (accepts (Jwt.sign (some 7) 1000)))) = some (true, true) := by
    decide +kernel
  obtain ⟨s, hs, hs'⟩ := Option.map_eq_some_iff.mp h
  simp only [Prod.mk.injEq, List.any_eq_true, Option.any_eq_true] at hs'
  obtain ⟨⟨x, hx, hrevokes⟩, y, hy, haccepts⟩ := hs'
  refine ⟨s, ⟨_, hs⟩, ?_⟩
  intro hgood
  have hpair := hgood (Jwt.sign (some 7) 1000)
  rw [← List.dropLast_append_getLast? y hy, List.pairwise_append] at hpair
  rw [hpair.2.2 x hx y (List.mem_singleton_self y) hrevokes] at haccepts
  contradiction

end HighVolumeBooking
