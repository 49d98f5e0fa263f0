import HighVolumeBooking.Guarantees.Listing

namespace HighVolumeBooking

open Interleaving (Went gives_map gives_of_solo)
open ReadCommitted (Table)

namespace ConcertScheduleEntity

/-- Its booking window opened after t₀ and stands open at t. -/
def Opened (row : ConcertScheduleEntity) (t₀ t : Int) : Prop :=
  t₀ < row.bookingStartAt ∧ row.bookingStartAt ≤ t ∧ t < row.bookingEndAt

/-- Its booking window stood open at t₀ and has closed until t. -/
def Closed (row : ConcertScheduleEntity) (t₀ t : Int) : Prop :=
  row.bookingStartAt ≤ t₀ ∧ t₀ < row.bookingEndAt ∧ row.bookingEndAt ≤ t

instance (row : ConcertScheduleEntity) (t₀ t : Int) : Decidable (row.Opened t₀ t) :=
  inferInstanceAs (Decidable (_ ∧ _ ∧ _))

instance (row : ConcertScheduleEntity) (t₀ t : Int) : Decidable (row.Closed t₀ t) :=
  inferInstanceAs (Decidable (_ ∧ _ ∧ _))

theorem openAt_eq_true {row : ConcertScheduleEntity} {t : Int} :
    row.openAt t = true ↔ row.bookingStartAt ≤ t ∧ t < row.bookingEndAt := by
  simp [openAt]

theorem openAt_congr {row : ConcertScheduleEntity} {t₀ t : Int} (h : t₀ ≤ t) :
    (row.openAt t₀ = true ↔ row.openAt t = true) ↔ ¬ row.Opened t₀ t ∧ ¬ row.Closed t₀ t := by
  rw [openAt_eq_true, openAt_eq_true, Opened, Closed]
  omega

end ConcertScheduleEntity

section Keys

open ScanBookableSchedulesUseCase (getCacheKey)

theorem bookableKey_inj {c c' : RowId} (h : getCacheKey c = getCacheKey c') : c = c' := by
  have hid : toString c = toString c' := by
    simpa only [getCacheKey, String.append_left_inj, String.append_right_inj] using h
  exact toString_injective hid

theorem bookableKey_ne_concerts (c : RowId) : getCacheKey c ≠ ScanConcertsUseCase.getCacheKey := by
  intro h
  have hlength := congrArg String.length h
  simp only [getCacheKey, ScanConcertsUseCase.getCacheKey, String.length_append] at hlength
  have hprefix : "concerts:".length = 9 := rfl
  have hconcerts : "concerts".length = 8 := rfl
  omega

end Keys

namespace ListingStore

variable {st : ListingStore} {c : RowId} {t : Int}

theorem listing_addSchedule {row : ConcertScheduleEntity}
    (hfresh : st.schedules.find? row.id = none) (hc : row.concertId ≠ c) :
    (st.addSchedule row).listing c t = st.listing c t := by
  have hrow : (row.concertId == c && row.openAt t) = false := by simp [hc]
  have hrows : ((st.addSchedule row).schedules.rows.filter fun r => r.concertId == c && r.openAt t) =
      st.schedules.rows.filter fun r => r.concertId == c && r.openAt t := by
    rw [addSchedule, Table.rows_put_fresh hfresh, List.filter_append]
    simp [hrow]
  rw [listing, bookable, hrows]
  rfl

theorem join_addConcert {concert : Concert} {row : ConcertScheduleEntity}
    (hne : concert.id ≠ row.concertId) : (st.addConcert concert).join row = st.join row := by
  rw [join, addConcert, Table.find?_put_ne (r := ConcertMapper.toEntity concert) hne]
  rfl

theorem listing_addConcert {concert : Concert} (hfresh : st.concerts.find? concert.id = none)
    (hc : st.exists? c = true) : (st.addConcert concert).listing c t = st.listing c t := by
  have hne : concert.id ≠ c := by
    rintro rfl
    simp [exists?, hfresh] at hc
  have hjoin : ∀ row ∈ st.schedules.rows.filter fun r => r.concertId == c && r.openAt t,
      (st.addConcert concert).join row = st.join row := by
    intro row hrow
    simp only [List.mem_filter, Bool.and_eq_true, beq_iff_eq] at hrow
    exact join_addConcert (hrow.2.1 ▸ hne)
  rw [listing, listing, bookable, bookable]
  congr 3
  exact List.map_congr_left hjoin

theorem exists_addConcert {concert : Concert} (hc : st.exists? c = true) :
    (st.addConcert concert).exists? c = true := by
  rw [exists?, addConcert, Table.find?_put]
  split
  · rfl
  · exact hc

/-- A row of the concert is in the list that was made at t when it was open. -/
theorem mem_bookable {row : ConcertScheduleEntity} (hrow : row ∈ st.schedules.rows)
    (hc : row.concertId = c) :
    (ListedScheduleMapper.toDomain (st.join row)).toJson ∈
      (st.bookable c t).map ListedSchedule.toJson ↔ row.openAt t = true := by
  simp only [bookable, List.map_map, List.mem_map, List.mem_filter, Function.comp,
    Bool.and_eq_true, beq_iff_eq]
  constructor
  · intro h
    obtain ⟨row', ⟨hrow', _, hopen⟩, heq⟩ := h
    obtain rfl := Table.eq_of_key hrow' hrow (ListedSchedule.id_of_toJson heq)
    exact hopen
  · intro hopen
    exact ⟨row, ⟨hrow, hc, hopen⟩, rfl⟩

/-- Two lists of a concert hold the same schedules when the same windows were
open. -/
theorem bookable_perm_iff {t₀ : Int} :
    ((st.bookable c t₀).map ListedSchedule.toJson).Perm
      ((st.bookable c t).map ListedSchedule.toJson) ↔
    ∀ row ∈ st.schedules.rows, row.concertId = c → (row.openAt t₀ = true ↔ row.openAt t = true) := by
  constructor
  · intro h row hrow hc
    rw [← mem_bookable hrow hc, ← mem_bookable hrow hc]
    exact h.mem_iff
  · intro h
    have hfilter : (st.schedules.rows.filter fun r => r.concertId == c && r.openAt t₀) =
        st.schedules.rows.filter fun r => r.concertId == c && r.openAt t := by
      refine List.filter_congr fun row hrow => ?_
      by_cases hc : row.concertId = c
      · rw [Bool.eq_iff_iff.mpr (h row hrow hc)]
      · rw [beq_eq_false_iff_ne.mpr hc, Bool.false_and, Bool.false_and]
    rw [bookable, bookable, hfilter]

end ListingStore

/-- The service as calls go to it one after the other, with the instant at which
the list of each concert was cached. -/
structure ListingServer where
  store : ListingStore
  filledAt : RowId → Option Int

/-- A complete call at an instant, with the outcomes of its commands. -/
structure ListingAct where
  instant : Int
  call : ListingCall
  events : List ListingEvent

namespace ListingServer

def init (concerts : Table ConcertEntity.id) (schedules : Table ConcertScheduleEntity.id)
    (now : Int) : ListingServer :=
  ⟨⟨concerts, schedules, fun _ => none, now⟩, fun _ => none⟩

/-- How the call goes. -/
def went (s : ListingServer) (a : ListingAct) :
    Option (Went listingService ListingError ListingResult) :=
  a.call.handle.solo (s.store.setNow a.instant) a.events

/-- A scan of an existing concert notes its instant where no list is noted yet;
a creation for it drops the note. -/
def noted (s : ListingServer) (a : ListingAct) : RowId → Option Int :=
  match a.call with
  | .scanBookableSchedules c =>
    if s.store.exists? c ∧ s.filledAt c = none then
      Function.update s.filledAt c (some a.instant)
    else s.filledAt
  | .createConcertSchedule dto =>
    if s.store.exists? dto.concertId then Function.update s.filledAt dto.concertId none
    else s.filledAt
  | _ => s.filledAt

end ListingServer

/-- The clock never goes back. -/
def serveListing (s : ListingServer) (a : ListingAct) : Option ListingServer :=
  if s.store.now ≤ a.instant then (s.went a).map fun w => ⟨w.state, s.noted a⟩ else none

theorem listing_step {s s' : ListingServer} {a : ListingAct} (h : serveListing s a = some s') :
    s.store.now ≤ a.instant ∧ ∃ w, s.went a = some w ∧ s' = ⟨w.state, s.noted a⟩ ∧
      a.call.handle.Gives (s.store.setNow a.instant) w.result w.state := by
  simp only [serveListing, Option.ite_none_right_eq_some, Option.map_eq_some_iff] at h
  obtain ⟨hnow, w, hw, rfl⟩ := h
  exact ⟨hnow, w, hw, rfl, gives_of_solo hw⟩

/-- The cache holds the lists as they were when they were noted, and nothing
where none is. -/
structure Mirrors (s : ListingServer) : Prop where
  empty : ∀ c, s.filledAt c = none →
    s.store.cache (ScanBookableSchedulesUseCase.getCacheKey c) = none
  filled : ∀ c t, s.filledAt c = some t → s.store.exists? c = true ∧ t ≤ s.store.now ∧
    s.store.cache (ScanBookableSchedulesUseCase.getCacheKey c) =
      some (s.store.listing c t).stringify

section Mirrors

open ScanBookableSchedulesUseCase (getCacheKey)

variable {st : ListingStore} {f : RowId → Option Int} {t : Int}

theorem Mirrors.setNow (hm : Mirrors ⟨st, f⟩) (h : st.now ≤ t) : Mirrors ⟨st.setNow t, f⟩ := by
  refine ⟨hm.empty, ?_⟩
  intro c t₀ hc
  obtain ⟨hexists, hle, hkey⟩ := hm.filled c t₀ hc
  exact ⟨hexists, Int.le_trans hle h, hkey⟩

/-- What is kept under another key does not matter. -/
theorem Mirrors.setCache {key : String} {text : Option String} (hm : Mirrors ⟨st, f⟩)
    (hkey : ∀ c, getCacheKey c ≠ key) : Mirrors ⟨st.setCache key text, f⟩ := by
  refine ⟨?_, ?_⟩
  · intro c hc
    exact (Function.update_of_ne (hkey c) _ _).trans (hm.empty c hc)
  · intro c t₀ hc
    obtain ⟨hexists, hle, hcached⟩ := hm.filled c t₀ hc
    exact ⟨hexists, hle, (Function.update_of_ne (hkey c) _ _).trans hcached⟩

/-- The entry and the note of one concert are replaced together. -/
theorem Mirrors.replace {c : RowId} {text : Option String} {note : Option Int}
    (hm : Mirrors ⟨st, f⟩) (hnone : note = none → text = none)
    (hsome : ∀ t, note = some t → st.exists? c = true ∧ t ≤ st.now ∧
      text = some (st.listing c t).stringify) :
    Mirrors ⟨st.setCache (getCacheKey c) text, Function.update f c note⟩ := by
  have hother : ∀ c', c' ≠ c →
      Function.update st.cache (getCacheKey c) text (getCacheKey c') = st.cache (getCacheKey c') :=
    fun c' hne => Function.update_of_ne (fun h => hne (bookableKey_inj h)) _ _
  refine ⟨?_, ?_⟩
  · intro c' hc'
    by_cases hne : c' = c
    · subst hne
      simp only [Function.update_self] at hc'
      exact (Function.update_self ..).trans (hnone hc')
    · simp only [Function.update_of_ne hne] at hc'
      exact (hother c' hne).trans (hm.empty c' hc')
  · intro c' t₀ hc'
    by_cases hne : c' = c
    · subst hne
      simp only [Function.update_self] at hc'
      obtain ⟨hexists, hle, htext⟩ := hsome t₀ hc'
      exact ⟨hexists, hle, (Function.update_self ..).trans htext⟩
    · simp only [Function.update_of_ne hne] at hc'
      obtain ⟨hexists, hle, hcached⟩ := hm.filled c' t₀ hc'
      exact ⟨hexists, hle, (hother c' hne).trans hcached⟩

theorem Mirrors.note {c : RowId} (hm : Mirrors ⟨st, f⟩) (hc : st.exists? c = true) :
    Mirrors ⟨st.setCache (getCacheKey c) (some (st.listing c st.now).stringify),
      Function.update f c (some st.now)⟩ := by
  refine hm.replace (fun h => by contradiction) fun t ht => ?_
  obtain rfl := Option.some.inj ht
  exact ⟨hc, Int.le_refl _, rfl⟩

/-- A new row leaves the lists of the other concerts as they are. -/
theorem Mirrors.addSchedule {row : ConcertScheduleEntity} (hm : Mirrors ⟨st, f⟩)
    (hnone : f row.concertId = none) (hfresh : st.schedules.find? row.id = none) :
    Mirrors ⟨st.addSchedule row, f⟩ := by
  refine ⟨hm.empty, ?_⟩
  intro c t₀ hc
  obtain ⟨hexists, hle, hcached⟩ := hm.filled c t₀ hc
  have hne : row.concertId ≠ c := by
    intro h
    subst h
    exact absurd (hnone.symm.trans hc) (by simp)
  refine ⟨hexists, hle, ?_⟩
  rw [ListingStore.listing_addSchedule hfresh hne]
  exact hcached

/-- With the list of the concert evicted, no list misses the new row. -/
theorem Mirrors.created {row : ConcertScheduleEntity} (hm : Mirrors ⟨st, f⟩)
    (hfresh : st.schedules.find? row.id = none) :
    Mirrors ⟨(st.addSchedule row).setCache (getCacheKey row.concertId) none,
      Function.update f row.concertId none⟩ := by
  have hevicted : Mirrors ⟨st.setCache (getCacheKey row.concertId) none,
      Function.update f row.concertId none⟩ :=
    hm.replace (fun _ => rfl) fun t ht => by contradiction
  exact hevicted.addSchedule (Function.update_self ..) hfresh

theorem Mirrors.addConcert {concert : Concert} (hm : Mirrors ⟨st, f⟩)
    (hfresh : st.concerts.find? concert.id = none) : Mirrors ⟨st.addConcert concert, f⟩ := by
  refine ⟨hm.empty, ?_⟩
  intro c t₀ hc
  obtain ⟨hexists, hle, hcached⟩ := hm.filled c t₀ hc
  refine ⟨ListingStore.exists_addConcert hexists, hle, ?_⟩
  rw [ListingStore.listing_addConcert hfresh hexists]
  exact hcached

end Mirrors

section Step

variable {s s' : ListingServer} {a : ListingAct} {c : RowId}

theorem mirrors_init {concerts : Table ConcertEntity.id}
    {schedules : Table ConcertScheduleEntity.id} {now : Int} :
    Mirrors (.init concerts schedules now) := by
  refine ⟨fun _ _ => rfl, ?_⟩
  intro c t h
  contradiction

/-- The notes are about existing concerts. -/
theorem Mirrors.filledAt_missing (hm : Mirrors s) (hc : s.store.exists? c = false) :
    s.filledAt c = none := by
  cases hfilled : s.filledAt c with
  | none => rfl
  | some t =>
    have hexists := (hm.filled c t hfilled).1
    rw [hc] at hexists
    contradiction

/-- A scan answers with the list as it was when it was noted, or as it is. -/
theorem scan_answer (hm : Mirrors s) (hs : serveListing s a = some s')
    (hcall : a.call = .scanBookableSchedules c) (hc : s.store.exists? c = true) :
    ∃ w listed, s.went a = some w ∧ w.result = .ok (.schedules listed) ∧
      listed.items ListedSchedule.toJson =
        some ((s.store.bookable c ((s.filledAt c).getD a.instant)).map ListedSchedule.toJson) ∧
      s'.store = if s.filledAt c = none then
        (s.store.setNow a.instant).setCache (ScanBookableSchedulesUseCase.getCacheKey c)
          (some (s.store.listing c a.instant).stringify)
      else s.store.setNow a.instant := by
  obtain ⟨_, w, hw, rfl, hgives⟩ := listing_step hs
  rw [hcall, ListingCall.handle, Interleaving.Script.bind_eq] at hgives
  obtain ⟨inner, hinner, hresult⟩ := gives_map.mp hgives
  cases hfilled : s.filledAt c with
  | none =>
    have hkey : (s.store.setNow a.instant).cache
        (ScanBookableSchedulesUseCase.getCacheKey c) = none := hm.empty c hfilled
    obtain ⟨rfl, hstate⟩ := (ScanBookableSchedulesUseCase.gives_miss hkey hc).mp hinner
    exact ⟨w, _, hw, hresult, rfl, hstate⟩
  | some t =>
    have hkey : (s.store.setNow a.instant).cache (ScanBookableSchedulesUseCase.getCacheKey c) =
        some (s.store.listing c t).stringify := (hm.filled c t hfilled).2.2
    obtain ⟨rfl, hstate⟩ := (ScanBookableSchedulesUseCase.gives_hit hkey).mp hinner
    exact ⟨w, _, hw, hresult, rfl, hstate⟩

/-- A scan of a missing concert throws and changes nothing. -/
theorem scan_missing (hm : Mirrors s) (hs : serveListing s a = some s')
    (hcall : a.call = .scanBookableSchedules c) (hc : s.store.exists? c = false) :
    (∃ w, s.went a = some w ∧ w.result = .error (.custom .concertNotFound)) ∧
      s'.store = s.store.setNow a.instant := by
  obtain ⟨_, w, hw, rfl, hgives⟩ := listing_step hs
  rw [hcall, ListingCall.handle, Interleaving.Script.bind_eq] at hgives
  obtain ⟨inner, hinner, hresult⟩ := gives_map.mp hgives
  have hkey : (s.store.setNow a.instant).cache (ScanBookableSchedulesUseCase.getCacheKey c) =
      none := hm.empty c (hm.filledAt_missing hc)
  obtain ⟨rfl, hstate⟩ := (ScanBookableSchedulesUseCase.gives_missing hkey hc).mp hinner
  exact ⟨⟨w, hw, hresult⟩, hstate⟩

theorem mirrors_scan (hm : Mirrors s) (hs : serveListing s a = some s')
    (hcall : a.call = .scanBookableSchedules c) : Mirrors s' := by
  obtain ⟨hnow, w, hw, rfl, _⟩ := listing_step hs
  have hm' : Mirrors ⟨s.store.setNow a.instant, s.filledAt⟩ := Mirrors.setNow hm hnow
  cases hc : s.store.exists? c with
  | true =>
    obtain ⟨w', _, hw', _, _, hstate⟩ := scan_answer hm hs hcall hc
    obtain rfl := Option.some.inj (hw.symm.trans hw')
    cases hfilled : s.filledAt c with
    | none =>
      have hnoted : s.noted a = Function.update s.filledAt c (some a.instant) := by
        rw [ListingServer.noted, hcall]
        exact if_pos ⟨hc, hfilled⟩
      rw [hfilled] at hstate
      simp only [if_true] at hstate
      rw [hstate, hnoted]
      exact hm'.note hc
    | some t =>
      have hnoted : s.noted a = s.filledAt := by
        rw [ListingServer.noted, hcall]
        exact if_neg fun h => by simp [hfilled] at h
      rw [hfilled] at hstate
      simp only [reduceCtorEq, if_false] at hstate
      rw [hstate, hnoted]
      exact hm'
  | false =>
    have hnoted : s.noted a = s.filledAt := by
      rw [ListingServer.noted, hcall]
      exact if_neg fun h => Bool.eq_false_iff.mp hc h.1
    have hstate := (scan_missing hm hs hcall hc).2
    simp only at hstate
    rw [hstate, hnoted]
    exact hm'

theorem mirrors_step (hm : Mirrors s) (hs : serveListing s a = some s') : Mirrors s' := by
  obtain ⟨hnow, w, hw, rfl, hgives⟩ := listing_step hs
  have hm' : Mirrors ⟨s.store.setNow a.instant, s.filledAt⟩ := Mirrors.setNow hm hnow
  cases hcall : a.call with
  | createConcert dto =>
    rw [hcall, ListingCall.handle, Interleaving.Script.bind_eq] at hgives
    obtain ⟨inner, hinner, _⟩ := gives_map.mp hgives
    obtain ⟨id, _, hfresh, _, hstate⟩ := CreateConcertUseCase.gives_created.mp hinner
    have hnoted : s.noted a = s.filledAt := by rw [ListingServer.noted, hcall]
    rw [hstate, hnoted]
    exact (hm'.addConcert hfresh).setCache bookableKey_ne_concerts
  | scanConcerts =>
    rw [hcall, ListingCall.handle, Interleaving.Script.bind_eq] at hgives
    obtain ⟨inner, hinner, _⟩ := gives_map.mp hgives
    have hnoted : s.noted a = s.filledAt := by rw [ListingServer.noted, hcall]
    rw [hnoted]
    rcases ScanConcertsUseCase.gives_frame hinner with hstate | ⟨text, hstate⟩
    · rw [hstate]
      exact hm'
    · rw [hstate]
      exact hm'.setCache bookableKey_ne_concerts
  | createConcertSchedule dto =>
    rw [hcall, ListingCall.handle, Interleaving.Script.bind_eq] at hgives
    obtain ⟨inner, hinner, _⟩ := gives_map.mp hgives
    cases hc : (s.store.setNow a.instant).exists? dto.concertId with
    | true =>
      have hnoted : s.noted a = Function.update s.filledAt dto.concertId none := by
        rw [ListingServer.noted, hcall]
        exact if_pos hc
      obtain ⟨id, _, hfresh, _, hstate⟩ := (CreateConcertScheduleUseCase.gives_created hc).mp hinner
      rw [hstate, hnoted]
      exact hm'.created hfresh
    | false =>
      have hnoted : s.noted a = s.filledAt := by
        rw [ListingServer.noted, hcall]
        exact if_neg (Bool.eq_false_iff.mp hc)
      rw [((CreateConcertScheduleUseCase.gives_missing hc).mp hinner).2, hnoted]
      exact hm'
  | scanBookableSchedules c => exact mirrors_scan hm hs hcall

theorem mirrors_reachable {concerts : Table ConcertEntity.id}
    {schedules : Table ConcertScheduleEntity.id} {now : Int}
    (h : Machine.Reachable serveListing (.init concerts schedules now) s) : Mirrors s :=
  h.invariant Mirrors mirrors_init fun _ _ _ _ hm hs => mirrors_step hm hs

/-- A scan of an existing concert returns what the query alone returns at the
same instant, item by item. -/
def Transparent (s : ListingServer) (a : ListingAct) : Prop :=
  ∀ c, a.call = .scanBookableSchedules c → s.store.exists? c = true →
    ∃ w listed items schedules st', s.went a = some w ∧ w.result = .ok (.schedules listed) ∧
      listed.items ListedSchedule.toJson = some items ∧
      (ConcertScheduleRepository.findAllBookableByConcertId c).Gives (s.store.setNow a.instant)
        (.ok schedules) st' ∧
      items.Perm (schedules.map ListedSchedule.toJson)

/-- Where the list of the scanned concert was cached, no schedule of the concert
has opened or closed since. -/
def Unturned (s : ListingServer) (a : ListingAct) : Prop :=
  ∀ c t₀, a.call = .scanBookableSchedules c → s.filledAt c = some t₀ →
    ∀ row ∈ s.store.schedules.rows, row.concertId = c →
      ¬ row.Opened t₀ a.instant ∧ ¬ row.Closed t₀ a.instant

theorem transparent_step (hm : Mirrors s) (hs : serveListing s a = some s') :
    Transparent s a ↔ Unturned s a := by
  have hnow := (listing_step hs).1
  constructor
  · intro h c t₀ hcall hfilled row hrow hrc
    obtain ⟨hexists, hle, _⟩ := hm.filled c t₀ hfilled
    obtain ⟨w, listed, hw, hresult, hitems, _⟩ := scan_answer hm hs hcall hexists
    obtain ⟨w', listed', items, schedules, _, hw', hresult', hitems', hquery, hperm⟩ :=
      h c hcall hexists
    obtain rfl := Option.some.inj (hw.symm.trans hw')
    obtain rfl : listed = listed' := by simpa using hresult.symm.trans hresult'
    obtain ⟨hschedules, _⟩ :=
      ConcertScheduleRepository.gives_findAllBookableByConcertId.mp hquery
    obtain rfl := Except.ok.inj hschedules
    obtain rfl := Option.some.inj (hitems.symm.trans hitems')
    rw [hfilled] at hperm
    have hopen := ListingStore.bookable_perm_iff.mp hperm row hrow hrc
    exact (ConcertScheduleEntity.openAt_congr (Int.le_trans hle hnow)).mp hopen
  · intro h c hcall hexists
    obtain ⟨w, listed, hw, hresult, hitems, _⟩ := scan_answer hm hs hcall hexists
    refine ⟨w, listed, _, _, _, hw, hresult, hitems,
      ConcertScheduleRepository.gives_findAllBookableByConcertId.mpr ⟨rfl, rfl⟩, ?_⟩
    cases hfilled : s.filledAt c with
    | none => exact List.Perm.refl _
    | some t₀ =>
      refine ListingStore.bookable_perm_iff.mpr fun row hrow hrc => ?_
      have hle := Int.le_trans (hm.filled c t₀ hfilled).2.1 hnow
      exact (ConcertScheduleEntity.openAt_congr hle).mpr (h c t₀ hcall hfilled row hrow hrc)

end Step

/-- The cache goes unnoticed in the runs in which no cached schedule opens or
closes, and in no others. -/
theorem transparent_iff {concerts : Table ConcertEntity.id}
    {schedules : Table ConcertScheduleEntity.id} {now : Int} {acts : List ListingAct}
    {s : ListingServer} (h : Machine.run serveListing (.init concerts schedules now) acts = some s) :
    Machine.Along serveListing Transparent (.init concerts schedules now) acts ↔
      Machine.Along serveListing Unturned (.init concerts schedules now) acts :=
  Machine.along_congr (fun _ _ _ hm hs => transparent_step (mirrors_reachable hm) hs) h

/-- One concert and no schedules. -/
def oneConcert : Table ConcertEntity.id := ⟨[⟨1, "Concert", none⟩], by decide⟩

/-- A schedule that can be booked from 100 to 200 is created at 0. -/
def opensLater : ListingAct :=
  ⟨0, .createConcertSchedule ⟨1, 100, 200, 300, 400⟩, [.quiet, .issued 1, .quiet]⟩

def scanMiss (t : Int) : ListingAct :=
  ⟨t, .scanBookableSchedules 1, [.quiet, .quiet, .quiet, .quiet, .quiet]⟩

def scanHit (t : Int) : ListingAct := ⟨t, .scanBookableSchedules 1, [.quiet]⟩

def unturned? (s : ListingServer) (a : ListingAct) : Bool :=
  match a.call with
  | .scanBookableSchedules c =>
    (s.filledAt c).all fun t₀ => s.store.schedules.rows.all fun row =>
      row.concertId != c || decide (¬ row.Opened t₀ a.instant ∧ ¬ row.Closed t₀ a.instant)
  | _ => true

theorem unturned_of_check {s : ListingServer} {a : ListingAct} (h : unturned? s a = true) :
    Unturned s a := by
  intro c t₀ hcall hfilled row hrow hc
  simp only [unturned?, hcall, hfilled, Option.all_some, List.all_eq_true, Bool.or_eq_true,
    bne_iff_ne, decide_eq_true_eq] at h
  rcases h row hrow with hne | hkept
  · exact absurd hc hne
  · exact hkept

/-- The list is used until the window is about to open, and a creation evicts it
before it is asked for again. -/
def evictedInTime : List ListingAct :=
  [opensLater, scanMiss 50, scanHit 99,
    ⟨99, .createConcertSchedule ⟨1, 120, 160, 300, 400⟩, [.quiet, .issued 2, .quiet]⟩, scanMiss 150]

theorem transparent_iff_evictedInTime :
    Machine.Along serveListing Transparent (.init oneConcert (.empty _) 0) evictedInTime := by
  have hrun : (Machine.run serveListing (.init oneConcert (.empty _) 0) evictedInTime).isSome =
      true := by decide +kernel
  have hchecks : Machine.checks serveListing unturned? (.init oneConcert (.empty _) 0)
      evictedInTime = true := by decide +kernel
  obtain ⟨s, hs⟩ := Option.isSome_iff_exists.mp hrun
  exact (transparent_iff hs).mpr (Machine.throughout_true.along_of_checks
    (fun _ _ _ h => unturned_of_check h) hchecks)

def cachedEarly : List ListingAct := [opensLater, scanMiss 50]

/-- A list that was cached before the schedule opened lacks it ever after. -/
theorem list_without_opened :
    ∃ s, Machine.run serveListing (.init oneConcert (.empty _) 0)
      (cachedEarly ++ [scanHit 150]) = some s ∧
      ¬ Machine.Along serveListing Transparent (.init oneConcert (.empty _) 0)
        (cachedEarly ++ [scanHit 150]) := by
  have hrun : (Machine.run serveListing (.init oneConcert (.empty _) 0)
      (cachedEarly ++ [scanHit 150])).isSome = true := by decide +kernel
  have hbefore : (Machine.run serveListing (.init oneConcert (.empty _) 0)
      cachedEarly).map (fun s => (s.filledAt 1, s.store.schedules.rows)) =
      some (some 50, [⟨1, 1, 100, 200, 300, 400⟩]) := by decide +kernel
  obtain ⟨s, hs⟩ := Option.isSome_iff_exists.mp hrun
  obtain ⟨m, hm, hcheck⟩ := Option.map_eq_some_iff.mp hbefore
  simp only [Prod.mk.injEq] at hcheck
  obtain ⟨m', hm', hstep⟩ := Machine.run_concat.mp hs
  obtain rfl := Option.some.inj (hm.symm.trans hm')
  refine ⟨s, hs, fun hall => ?_⟩
  have hlast := ((Machine.along_append hm).mp hall).2.1
  have hkept := (transparent_step (mirrors_reachable ⟨_, hm⟩) hstep).mp hlast 1 50 rfl hcheck.1
    ⟨1, 1, 100, 200, 300, 400⟩ (by rw [hcheck.2]; exact List.mem_singleton_self _) rfl
  exact absurd hkept (by decide)

end HighVolumeBooking
