import HighVolumeBooking.Guarantees.Listing
import HighVolumeBooking.Interleaving.Waiting

namespace HighVolumeBooking

open Interleaving (Pool Running Script leads_call leads_done leads_fail)
open ScanConcertsUseCase (getCacheKey)

/-- The calls that read and write the list of the concerts. -/
inductive ConcertCall where
  | create (dto : CreateConcertDTO)
  | scan
  deriving DecidableEq, Repr

namespace ConcertCall

def handle : ConcertCall → Lister ListingResult
  | .create dto => ListingCall.handle (.createConcert dto)
  | .scan => ListingCall.handle .scanConcerts

/-! Each call, from each of its commands on. -/

def evicting (entity : ConcertEntity) : Lister ListingResult :=
  .call (.del getCacheKey) fun _ => .done (.concert (ConcertMapper.toDomain entity))

def creating (dto : CreateConcertDTO) : Lister ListingResult :=
  .call (.insertConcert ⟨0, dto.title, dto.description⟩) evicting

/-- The cached text of a list of concerts. -/
def listText (rows : List ConcertEntity) : String :=
  (Json.arr ((rows.map ConcertMapper.toDomain).map Concert.toJson)).stringify

def caching (rows : List ConcertEntity) : Lister ListingResult :=
  .call (.set getCacheKey (listText rows)) fun _ =>
    .done (.concerts (.loaded (rows.map ConcertMapper.toDomain)))

def querying : Lister ListingResult := .call .findConcerts caching

def looked (text : Option String) : Lister ListingResult :=
  match text with
  | none => querying
  | some text =>
    match Json.parse text with
    | none => .fail .syntaxError
    | some v => if v.truthy then .done (.concerts (.cached v)) else querying

def scanning : Lister ListingResult := .call (.get getCacheKey) looked

theorem handle_create (dto : CreateConcertDTO) : handle (.create dto) = creating dto := rfl

theorem handle_scan : handle .scan = scanning := by
  refine congrArg (Script.call _) (funext fun text => ?_)
  cases text with
  | none => rfl
  | some text =>
    simp only [looked]
    cases Json.parse text with
    | none => rfl
    | some v =>
      cases hv : v.truthy with
      | false =>
        simp [hv, Option.filter]
        rfl
      | true => simp [hv, Option.filter]

/-- A lookup ends the call, or the database is asked. -/
theorem looked_cases (text : Option String) :
    (∃ b, looked text = .done b) ∨ looked text = .fail .syntaxError ∨ looked text = querying := by
  cases text with
  | none => exact Or.inr (Or.inr rfl)
  | some text =>
    simp only [looked]
    cases Json.parse text with
    | none => exact Or.inr (Or.inl rfl)
    | some v =>
      by_cases hv : v.truthy = true
      · exact Or.inl ⟨_, if_pos hv⟩
      · exact Or.inr (Or.inr (if_neg hv))

theorem waits (call : ConcertCall) : call.handle.Waits := by
  cases call with
  | create dto => exact fun _ _ => True.intro
  | scan =>
    rw [handle_scan]
    intro text
    rcases looked_cases text with ⟨b, hb⟩ | hb | hb <;> rw [hb]
    · exact True.intro
    · exact True.intro
    · exact fun _ _ => True.intro

/-- How far a creation is after its answers. -/
theorem create_leads {dto : CreateConcertDTO} {as : List (Interleaving.Answer listingService)}
    {q : Lister ListingResult} (h : (handle (.create dto)).Leads as q) :
    (as = [] ∧ q = creating dto) ∨
    (∃ o entity, as = [⟨.insertConcert o, entity⟩] ∧ q = evicting entity) ∨
    ∃ b, q = .done b := by
  rw [handle_create, creating, leads_call] at h
  rcases h with h | ⟨entity, rest, rfl, h⟩
  · exact Or.inl h
  · rw [evicting, leads_call] at h
    rcases h with ⟨rfl, rfl⟩ | ⟨_, rest, rfl, h⟩
    · exact Or.inr (Or.inl ⟨_, entity, rfl, rfl⟩)
    · exact Or.inr (Or.inr ⟨_, (leads_done.mp h).2⟩)

/-- How far a listing is after its answers. -/
theorem scan_leads {as : List (Interleaving.Answer listingService)} {q : Lister ListingResult}
    (h : (handle .scan).Leads as q) :
    (as = [] ∧ q = scanning) ∨ (∃ text, as = [⟨.get getCacheKey, text⟩] ∧ q = querying) ∨
    (∃ text rows, as = [⟨.get getCacheKey, text⟩, ⟨.findConcerts, rows⟩] ∧ q = caching rows) ∨
    (∃ b, q = .done b) ∨ q = .fail .syntaxError := by
  rw [handle_scan, scanning, leads_call] at h
  rcases h with h | ⟨text, rest, rfl, h⟩
  · exact Or.inl h
  · rcases looked_cases text with ⟨b, hb⟩ | hb | hb <;> rw [hb] at h
    · exact Or.inr (Or.inr (Or.inr (Or.inl ⟨b, (leads_done.mp h).2⟩)))
    · exact Or.inr (Or.inr (Or.inr (Or.inr (leads_fail.mp h).2)))
    · rw [querying, leads_call] at h
      rcases h with ⟨rfl, rfl⟩ | ⟨rows, rest, rfl, h⟩
      · exact Or.inr (Or.inl ⟨text, rfl, rfl⟩)
      · rw [caching, leads_call] at h
        rcases h with ⟨rfl, rfl⟩ | ⟨_, rest, rfl, h⟩
        · exact Or.inr (Or.inr (Or.inl ⟨text, rows, rfl, rfl⟩))
        · exact Or.inr (Or.inr (Or.inr (Or.inl ⟨_, (leads_done.mp h).2⟩)))

end ConcertCall

open ConcertCall

abbrev ConcertServer := Pool listingService ListingError ListingResult ConcertCall

abbrev ConcertRun := Running listingService ListingError ListingResult ConcertCall

abbrev ConcertAct := Interleaving.Act listingService ConcertCall

def serveConcerts : ConcertServer → ConcertAct → Option ConcertServer :=
  Pool.serve ConcertCall.handle

/-- The cached list is absent or lists exactly the stored concerts. -/
def ListingStore.Coherent (st : ListingStore) : Prop :=
  st.cache getCacheKey = none ∨ ∃ items, st.cache getCacheKey = some (Json.arr items).stringify ∧
    items.Perm ((st.concerts.rows.map ConcertMapper.toDomain).map Concert.toJson)

theorem ListingStore.coherent_del (st : ListingStore) : (st.setCache getCacheKey none).Coherent :=
  Or.inl (by simp [setCache])

theorem ListingStore.coherent_set (st : ListingStore) :
    (st.setCache getCacheKey (some (listText st.concerts.rows))).Coherent :=
  Or.inr ⟨_, by simp [setCache, listText], List.Perm.refl _⟩

/-- The answers of a creation between its two commands. -/
def Inserted (as : List (Interleaving.Answer listingService)) : Prop :=
  ∃ o entity, as = [⟨.insertConcert o, entity⟩]

/-- The creation has stored its concert and has yet to delete the key. -/
def Evicting (r : ConcertRun) : Prop := r.ended = false ∧ Inserted r.answers

/-- A list that was queried goes into the cache while it is what is stored, or
while a creation has yet to delete the key. -/
def CachedInTime (s : ConcertServer) (a : ConcertAct) : Prop :=
  ∀ i r rows, a.owner = some i → s.calls i = some r → ⟨.findConcerts, rows⟩ ∈ r.answers →
    rows = s.state.concerts.rows ∨ ∃ j r', s.calls j = some r' ∧ Evicting r'

section Steps

variable {s s' : ConcertServer} {a : ConcertAct}

theorem evicting_kept {j : Interleaving.CallId} {r : ConcertRun}
    (h : Pool.step ConcertCall.handle s a = some s') (hj : a.owner ≠ some j)
    (hr : s.calls j = some r) (he : Evicting r) : ∃ j r, s'.calls j = some r ∧ Evicting r :=
  ⟨j, r, (Pool.calls_step h hj).trans hr, he⟩

end Steps

/-- In between, the cache may only be wrong while a creation is to delete it. -/
structure Tended (s : ConcertServer) : Prop where
  waiting : Pool.Waiting ConcertCall.handle s
  coherent : s.state.Coherent ∨ ∃ j r, s.calls j = some r ∧ Evicting r

/-- What one answer does to a call and to the store. -/
inductive Answered (st : ListingStore) (as : List (Interleaving.Answer listingService)) :
    List (Interleaving.Answer listingService) → Lister ListingResult → ListingStore → Prop where
  | inserted (o entity : ConcertEntity) (st' : ListingStore) :
      Answered st as [⟨.insertConcert o, entity⟩] (evicting entity) st'
  | evicted (as' : List (Interleaving.Answer listingService)) (q : Lister ListingResult) :
      Answered st as as' q (st.setCache getCacheKey none)
  | read (as' : List (Interleaving.Answer listingService)) (q : Lister ListingResult)
      (has : ¬ Inserted as) : Answered st as as' q st
  | cached (as' : List (Interleaving.Answer listingService)) (q : Lister ListingResult)
      (rows : List ConcertEntity) (hrows : ⟨.findConcerts, rows⟩ ∈ as) (has : ¬ Inserted as) :
      Answered st as as' q (st.setCache getCacheKey (some (listText rows)))

theorem answered_of_exec {call : ConcertCall} {as : List (Interleaving.Answer listingService)}
    {q : Lister ListingResult} {o : ListingOp} {k : o.Reply → Lister ListingResult}
    {e : ListingEvent} {reply : o.Reply} {st st' : ListingStore} (hl : call.handle.Leads as q)
    (hq : q = .ask o k ∨ q = .call o k) (hx : o.exec st e = some (reply, st')) :
    Answered st as (as ++ [⟨o, reply⟩]) (k reply) st' := by
  cases call with
  | create dto =>
    rcases create_leads hl with ⟨rfl, rfl⟩ | ⟨p, entity, rfl, rfl⟩ | ⟨b, rfl⟩
    · rcases hq with hq | hq <;> cases hq
      exact .inserted _ _ _
    · rcases hq with hq | hq <;> cases hq
      cases e <;> cases hx
      exact .evicted _ _
    · rcases hq with hq | hq <;> cases hq
  | scan =>
    rcases scan_leads hl with ⟨rfl, rfl⟩ | ⟨text, rfl, rfl⟩ | ⟨text, rows, rfl, rfl⟩ | ⟨b, rfl⟩ | rfl
    · rcases hq with hq | hq <;> cases hq
      cases e <;> cases hx
      exact .read _ _ (by simp [Inserted])
    · rcases hq with hq | hq <;> cases hq
      cases e <;> cases hx
      exact .read _ _ (by simp [Inserted])
    · rcases hq with hq | hq <;> cases hq
      cases e <;> cases hx
      exact .cached _ _ rows (by simp) (by simp [Inserted])
    · rcases hq with hq | hq <;> cases hq
    · rcases hq with hq | hq <;> cases hq

theorem Tended.step {s s' : ConcertServer} {a : ConcertAct} (hs : Tended s) (ht : CachedInTime s a)
    (h : serveConcerts s a = some s') : Tended s' := by
  refine ⟨hs.waiting.serve waits h, ?_⟩
  have hpool := (Pool.step_of_serve h).2
  rcases hs.waiting.cases waits h with ⟨i, label, rfl, hnone, hs'⟩ |
    ⟨i, e, r, o, k, reply, st, rfl, hr, hcrash, hscript, hx, hs'⟩ | ⟨e, st, rfl, hst, hs'⟩
  · rcases hs.coherent with hc | ⟨j, r, hr, he⟩
    · subst hs'
      exact Or.inl hc
    · refine Or.inr (evicting_kept hpool ?_ hr he)
      intro hij
      obtain rfl := Option.some.inj hij
      rw [hnone] at hr
      contradiction
  · -- an eviction that is due in another call stays due
    have hkept : ¬ Inserted r.answers → (∃ j r, s.calls j = some r ∧ Evicting r) →
        ∃ j r, s'.calls j = some r ∧ Evicting r := by
      intro has hdue
      obtain ⟨j, r', hr', he⟩ := hdue
      refine evicting_kept hpool ?_ hr' he
      intro hij
      obtain rfl := Option.some.inj hij
      obtain rfl := Option.some.inj (hr.symm.trans hr')
      exact has he.2
    have hcall : s'.calls i = some (r.answered ⟨o, reply⟩ (k reply)) := by
      rw [hs']
      exact Function.update_self ..
    have hstate : s'.state = st := by rw [hs']
    rw [hstate]
    have hanswered := answered_of_exec (hs.waiting i r hr).2 hscript hx
    generalize has : r.answers ++ [⟨o, reply⟩] = as, hq : k reply = q at hanswered
    cases hanswered with
    | inserted p entity =>
      refine Or.inr ⟨i, _, hcall, ?_, p, entity, has⟩
      simp [Running.ended, Running.answered, hcrash, hq, evicting, Script.finished]
    | evicted => exact Or.inl (ListingStore.coherent_del s.state)
    | read _ _ hno =>
      rcases hs.coherent with hc | hdue
      · exact Or.inl hc
      · exact Or.inr (hkept hno hdue)
    | cached _ _ rows hrows hno =>
      rcases ht i r rows rfl hr hrows with rfl | hdue
      · exact Or.inl (ListingStore.coherent_set s.state)
      · exact Or.inr (hkept hno hdue)
  · subst hs'
    rcases hs.coherent with hc | hdue
    · cases e with
      | tick t =>
        obtain ⟨_, hst⟩ := Option.ite_none_right_eq_some.mp hst
        obtain rfl := Option.some.inj hst
        exact Or.inl hc
      | quiet | issued => contradiction
    · exact Or.inr hdue

/-- When no call is in progress, the cached list is right. -/
def CoherentAtRest (s : ConcertServer) : Prop :=
  (∀ i r, s.calls i = some r → r.ended = true) → s.state.Coherent

theorem Tended.atRest {s : ConcertServer} (h : Tended s) : CoherentAtRest s := by
  intro hrest
  rcases h.coherent with hc | ⟨j, r, hr, hongoing, _⟩
  · exact hc
  · rw [hrest j r hr] at hongoing
    contradiction

/-- As long as every list is cached in time, the cache is right in every state
without a call in progress. -/
theorem concerts_coherent {st : ListingStore} {as : List ConcertAct} {s : ConcertServer}
    (hst : st.Coherent) (h : Machine.run serveConcerts (Pool.init st) as = some s)
    (ht : Machine.Along serveConcerts CachedInTime (Pool.init st) as) : CoherentAtRest s := by
  refine Tended.atRest (Machine.along_induction Tended ?_ ?_ h ht)
  · exact ⟨Pool.Waiting.init _ st, Or.inl hst⟩
  · intro m a t _ hm hintime hs
    exact hm.step hintime hs

/-- A step that meets the condition because no other list was queried. -/
def inTime? (s : ConcertServer) (a : ConcertAct) : Bool :=
  match a.owner.bind s.calls with
  | none => true
  | some r => r.answers.all fun x =>
    match x with
    | ⟨.findConcerts, rows⟩ => rows == s.state.concerts.rows
    | _ => true

theorem inTime_of_check {s : ConcertServer} {a : ConcertAct} (h : inTime? s a = true) :
    CachedInTime s a := by
  intro i r rows hi hr hrows
  simp only [inTime?, hi, Option.bind_some, hr] at h
  exact Or.inl (by simpa using List.all_eq_true.mp h _ hrows)

def noConcerts : ListingStore := ⟨⟨[], by simp⟩, ⟨[], by simp⟩, fun _ => none, 0⟩

/-- A listing fills the cache, and then a concert is created. -/
def listThenCreate : List ConcertAct :=
  [.start 0 .scan, .answer 0 .quiet, .answer 0 .quiet, .answer 0 .quiet,
    .start 1 (.create ⟨"", none⟩), .answer 1 (.issued 1), .answer 1 .quiet]

theorem list_then_create_coherent : noConcerts.Coherent ∧ ∃ s,
    Machine.run serveConcerts (Pool.init noConcerts) listThenCreate = some s ∧
    Machine.Along serveConcerts CachedInTime (Pool.init noConcerts) listThenCreate ∧
    CoherentAtRest s := by
  have hrun : (Machine.run serveConcerts (Pool.init noConcerts) listThenCreate).isSome = true := by
    decide +kernel
  obtain ⟨s, hs⟩ := Option.isSome_iff_exists.mp hrun
  have ht : Machine.Along serveConcerts CachedInTime (Pool.init noConcerts) listThenCreate :=
    Machine.throughout_true.along_of_checks (fun _ _ _ => inTime_of_check) (by decide +kernel)
  exact ⟨Or.inl rfl, s, hs, ht, concerts_coherent (Or.inl rfl) hs ht⟩

/-- A concert is created and the key deleted between the query of a listing and
its caching. -/
def createDuringListing : List ConcertAct :=
  [.start 0 .scan, .answer 0 .quiet, .answer 0 .quiet, .start 1 (.create ⟨"", none⟩),
    .answer 1 (.issued 1), .answer 1 .quiet, .answer 0 .quiet]

/-- The empty list stays in the cache although a concert is stored. -/
theorem stale_list_cached : ∃ s,
    Machine.run serveConcerts (Pool.init noConcerts) createDuringListing = some s ∧
    ¬ CoherentAtRest s := by
  have hrun : (Machine.run serveConcerts (Pool.init noConcerts) createDuringListing).map (fun s =>
      (s.state.cache getCacheKey, s.state.concerts.rows.length, (s.calls 0).map Running.ended,
        (s.calls 1).map Running.ended)) =
      some (some (listText []), 1, some true, some true) := by
    decide +kernel
  obtain ⟨s, hs, hfacts⟩ := Option.map_eq_some_iff.mp hrun
  simp only [Prod.mk.injEq] at hfacts
  obtain ⟨hcache, hrows, hscan, hcreate⟩ := hfacts
  refine ⟨s, hs, ?_⟩
  intro hcoherent
  have hrest : ∀ i r, s.calls i = some r → r.ended = true := by
    intro i r hr
    by_cases h0 : i = 0
    · subst h0
      simpa [hr] using hscan
    · by_cases h1 : i = 1
      · subst h1
        simpa [hr] using hcreate
      · have howner : ∀ a ∈ createDuringListing, a.owner ≠ some i := by
          simp [createDuringListing, Interleaving.Act.owner, Ne.symm h0, Ne.symm h1]
        have hnone := Pool.calls_run (Machine.run_mono (fun _ _ _ h => (Pool.step_of_serve h).2) hs)
          howner
        rw [hr] at hnone
        contradiction
  rcases hcoherent hrest with hnone | ⟨items, htext, hperm⟩
  · rw [hcache] at hnone
    contradiction
  · have hparsed := congrArg Json.parse (Option.some.inj (hcache.symm.trans htext))
    rw [listText, Json.parse_stringify, Json.parse_stringify] at hparsed
    have hempty : items = [] := by simpa using hparsed.symm
    have hlength := hperm.length_eq
    simp only [hempty, List.length_map, hrows] at hlength
    contradiction

end HighVolumeBooking
