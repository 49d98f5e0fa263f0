import HighVolumeBooking.Guarantees.Coherence
import HighVolumeBooking.Guarantees.Transparency
import HighVolumeBooking.Interleaving.RelyGuarantee

namespace HighVolumeBooking

open Interleaving (Agreement Pool Running Script World)
open ReadCommitted (Table)

/-- The tables, the cache and the clock, with all that became of them so far. -/
abbrev ListingWorld := World listingService

/-- The items list the concerts as they were stored at one time. -/
def ListsConcerts (w : ListingWorld) (items : List Json) : Prop :=
  ∃ st ∈ w.past, items = st.concerts.rows.map fun row => (ConcertMapper.toDomain row).toJson

/-- The items list the schedules that the concert had at one time, less those that
were not bookable by the clock as it stood at some time before. -/
def ListsSchedules (w : ListingWorld) (concertId : RowId) (items : List Json) : Prop :=
  ∃ before st, [before, st].Sublist w.past ∧ st.exists? concertId = true ∧
    items = (st.schedules.rows.filter fun row =>
      row.concertId == concertId && row.openAt before.now).map fun row =>
        (ListedScheduleMapper.toDomain (st.join row)).toJson

/-- What may be cached under a key. -/
structure Lists (w : ListingWorld) (key : String) (items : List Json) : Prop where
  concerts : key = ScanConcertsUseCase.getCacheKey → ListsConcerts w items
  schedules : ∀ concertId, key = ScanBookableSchedulesUseCase.getCacheKey concertId →
    ListsSchedules w concertId items

namespace ListingWorld

/-- Rows are only added, and what has been is not undone. -/
structure Grows (w w' : ListingWorld) : Prop where
  past : w.past <+: w'.past
  concerts : w.state.concerts.rows <+: w'.state.concerts.rows
  schedules : w.state.schedules.rows <+: w'.state.schedules.rows

/-- The cache has nothing but lists of what is or was stored. -/
def Cached (w : ListingWorld) : Prop :=
  ∀ key text, w.state.cache key = some text →
    ∃ items, Lists w key items ∧ text = (Json.arr items).stringify

namespace Grows

variable {w w' w'' : ListingWorld} {items : List Json} {key : String} {c : RowId}

theorem refl (w : ListingWorld) : Grows w w :=
  ⟨List.prefix_rfl, List.prefix_rfl, List.prefix_rfl⟩

theorem trans (h : Grows w w') (h' : Grows w' w'') : Grows w w'' :=
  ⟨h.past.trans h'.past, h.concerts.trans h'.concerts, h.schedules.trans h'.schedules⟩

/-- A command that leaves both tables alone. -/
theorem after {st : ListingStore} (hconcerts : st.concerts = w.state.concerts)
    (hschedules : st.schedules = w.state.schedules) : Grows w (w.after st) :=
  ⟨List.prefix_append _ _, hconcerts ▸ List.prefix_rfl, hschedules ▸ List.prefix_rfl⟩

theorem exists_concert (h : Grows w w') (hc : w.state.exists? c = true) :
    w'.state.exists? c = true := by
  rw [ListingStore.exists?, Option.isSome_iff_exists] at hc ⊢
  obtain ⟨entity, hfind⟩ := hc
  obtain ⟨hrow, hid⟩ := Table.find?_eq_some.mp hfind
  exact ⟨entity, Table.find?_eq_some.mpr ⟨h.concerts.subset hrow, hid⟩⟩

theorem listsConcerts (h : Grows w w') (hl : ListsConcerts w items) : ListsConcerts w' items := by
  obtain ⟨st, hst, hitems⟩ := hl
  exact ⟨st, h.past.subset hst, hitems⟩

theorem listsSchedules (h : Grows w w') (hl : ListsSchedules w c items) :
    ListsSchedules w' c items := by
  obtain ⟨before, st, hpast, hitems⟩ := hl
  exact ⟨before, st, hpast.trans h.past.sublist, hitems⟩

theorem lists (h : Grows w w') (hl : Lists w key items) : Lists w' key items :=
  ⟨fun hkey => h.listsConcerts (hl.concerts hkey),
    fun c hkey => h.listsSchedules (hl.schedules c hkey)⟩

end Grows

namespace Cached

variable {w w' : ListingWorld} {key : String} {st : ListingStore}

/-- What changes no cache entry only has to add. -/
theorem grow (h : Cached w) (hgrows : Grows w w') (hcache : w'.state.cache = w.state.cache) :
    Cached w' := by
  intro key text hkey
  obtain ⟨items, hl, htext⟩ := h key text (hcache ▸ hkey)
  exact ⟨items, hgrows.lists hl, htext⟩

/-- A command that only reads. -/
theorem read (h : Cached w) : Cached (w.after w.state) := h.grow (Grows.after rfl rfl) rfl

theorem setCache (h : Cached w) (text : Option String) (htext : ∀ t, text = some t →
    ∃ items, Lists w key items ∧ t = (Json.arr items).stringify) :
    Cached (w.after (w.state.setCache key text)) := by
  have hgrows : Grows w (w.after (w.state.setCache key text)) := Grows.after rfl rfl
  intro key' t hkey
  by_cases hk : key' = key
  · subst hk
    obtain ⟨items, hl, ht⟩ := htext t (by simpa [World.after, ListingStore.setCache] using hkey)
    exact ⟨items, hgrows.lists hl, ht⟩
  · obtain ⟨items, hl, ht⟩ := h key' t (by
      simpa [World.after, ListingStore.setCache, hk] using hkey)
    exact ⟨items, hgrows.lists hl, ht⟩

end Cached

/-- What the calls agree on. -/
def agreement : Agreement listingService where
  inv := Cached
  moves := Grows
  refl := Grows.refl
  trans := Grows.trans
  env := by
    intro w e st hinv hst
    cases e with
    | tick t =>
      simp only [Option.ite_none_right_eq_some, Option.some.injEq] at hst
      obtain ⟨_, rfl⟩ := hst
      have hgrows : Grows w (w.turned (w.state.setNow t)) :=
        ⟨List.prefix_rfl, List.prefix_rfl, List.prefix_rfl⟩
      exact ⟨hinv.grow hgrows rfl, hgrows⟩
    | quiet => contradiction
    | issued id => contradiction

end ListingWorld

open ListingWorld

section Scripts

variable {β : Type} {w : ListingWorld} {o : ListingOp} {key : String} {items : List Json}
  {c : RowId} {k : o.Reply → Lister β} {Q : ListingWorld → Except ListingError β → Prop}

/-- A command that is no INSERT. -/
theorem meets_quiet {p : Lister β} (hp : p = .ask o k ∨ p = .call o k) (ho : o.inserts = false)
    (h : ∀ now reply st, Grows w now → Cached now → o.exec now.state .quiet = some (reply, st) →
      Cached (now.after st) ∧ Grows now (now.after st) ∧
        (k reply).Meets agreement Q (now.after st)) :
    p.Meets agreement Q w := by
  have hall : ∀ now e reply st, Grows w now → Cached now →
      o.exec (World.state now) e = some (reply, st) →
      Cached (now.after st) ∧ Grows now (now.after st) ∧
        (k reply).Meets agreement Q (now.after st) := by
    intro now e reply st hnow hinv hx
    obtain rfl := ListingOp.quiet_of_exec ho hx
    exact h now reply st hnow hinv hx
  rcases hp with rfl | rfl
  · exact hall
  · exact hall

namespace CacheManager

/-- The cache has a list that may be there, or nothing. -/
theorem meets_get : (get key).Meets agreement (fun now result => result = .ok none ∨
    ∃ items, result = .ok (some (.arr items)) ∧ Lists now key items) w := by
  refine meets_quiet (Or.inr rfl) rfl fun now reply st _ hinv hx => ?_
  obtain ⟨rfl, rfl⟩ := Prod.mk.inj (Option.some.inj hx)
  have hgrows : Grows now (now.after now.state) := Grows.after rfl rfl
  refine ⟨hinv.read, hgrows, ?_⟩
  cases hkey : now.state.cache key with
  | none => exact fun _ _ _ => Or.inl rfl
  | some text =>
    obtain ⟨items, hl, rfl⟩ := hinv key text hkey
    simp only [Json.parse_stringify]
    exact fun later hlater _ => Or.inr ⟨items, rfl, (hgrows.trans hlater).lists hl⟩

theorem meets_set (hl : Lists w key items) :
    (set key (.arr items)).Meets agreement (fun _ result => result = .ok ()) w := by
  refine meets_quiet (Or.inr rfl) rfl fun now reply st hnow hinv hx => ?_
  obtain ⟨rfl, rfl⟩ := Prod.mk.inj (Option.some.inj hx)
  refine ⟨hinv.setCache (some _) ?_, Grows.after rfl rfl, fun _ _ _ => rfl⟩
  intro text htext
  exact ⟨items, hnow.lists hl, (Option.some.inj htext).symm⟩

theorem meets_del : (del key).Meets agreement (fun _ result => result = .ok ()) w := by
  refine meets_quiet (Or.inr rfl) rfl fun now reply st _ hinv hx => ?_
  obtain ⟨rfl, rfl⟩ := Prod.mk.inj (Option.some.inj hx)
  refine ⟨hinv.setCache none ?_, Grows.after rfl rfl, fun _ _ _ => rfl⟩
  intro text htext
  contradiction

end CacheManager

theorem ConcertRepository.meets_findAll : findAll.Meets agreement (fun now result =>
    ∃ concerts, result = .ok concerts ∧ ListsConcerts now (concerts.map Concert.toJson)) w := by
  refine meets_quiet (Or.inr rfl) rfl fun now reply st _ hinv hx => ?_
  obtain ⟨rfl, rfl⟩ := Prod.mk.inj (Option.some.inj hx)
  refine ⟨hinv.read, Grows.after rfl rfl, fun later hlater _ => ⟨_, rfl, ?_⟩⟩
  exact hlater.listsConcerts ⟨now.state, by simp [World.after], List.map_map⟩

theorem ConcertRepository.meets_existsById : (existsById c).Meets agreement
    (fun now result => ∃ found, result = .ok found ∧
      (found = true → now.state.exists? c = true)) w := by
  refine meets_quiet (Or.inr rfl) rfl fun now reply st _ hinv hx => ?_
  obtain ⟨rfl, rfl⟩ := Prod.mk.inj (Option.some.inj hx)
  exact ⟨hinv.read, Grows.after rfl rfl, fun later hlater _ => ⟨_, rfl, hlater.exists_concert⟩⟩

theorem ConcertRepository.meets_save_create {dto : CreateConcertDTO} :
    (save (Concert.create dto)).Meets agreement (fun now result =>
      ∃ id, result = .ok ⟨id, dto.title, dto.description⟩ ∧
        ⟨id, dto.title, dto.description⟩ ∈ now.state.concerts.rows) w := by
  rw [save]
  simp only [ConcertMapper.toEntity, Concert.create, if_true]
  intro now e reply st _ hinv hx
  obtain ⟨id, rfl⟩ := ListingOp.issued_of_exec rfl hx
  simp only [ListingOp.exec, Option.ite_none_right_eq_some, Option.some.injEq,
    Prod.mk.injEq] at hx
  obtain ⟨⟨_, hfresh⟩, rfl, rfl⟩ := hx
  have hgrows : Grows now (now.after (now.state.addConcert ⟨id, dto.title, dto.description⟩)) :=
    ⟨List.prefix_append _ _, Table.prefix_put_fresh hfresh, List.prefix_rfl⟩
  refine ⟨hinv.grow hgrows rfl, hgrows, fun later hlater _ => ⟨id, rfl, ?_⟩⟩
  exact hlater.concerts.subset (Table.mem_put.mpr (Or.inl rfl))

/-- The date is read first, and the rows are queried later. -/
theorem ConcertScheduleRepository.meets_findAllBookableByConcertId
    (hc : w.state.exists? c = true) : (findAllBookableByConcertId c).Meets agreement
      (fun now result => ∃ schedules, result = .ok schedules ∧
        ListsSchedules now c (schedules.map ListedSchedule.toJson)) w := by
  refine meets_quiet (Or.inl rfl) rfl fun now date st hnow hinv hx => ?_
  obtain ⟨rfl, rfl⟩ := Prod.mk.inj (Option.some.inj hx)
  refine ⟨hinv.read, Grows.after rfl rfl,
    meets_quiet (Or.inr rfl) rfl fun mid reply st hmid hinv' hx => ?_⟩
  obtain ⟨rfl, rfl⟩ := Prod.mk.inj (Option.some.inj hx)
  refine ⟨hinv'.read, Grows.after rfl rfl, fun later hlater _ => ⟨_, rfl, ?_⟩⟩
  have hread : now.state ∈ mid.past := hmid.past.subset (by simp [World.after])
  have hgrown : Grows now mid := (Grows.after rfl rfl).trans hmid
  refine hlater.listsSchedules ⟨now.state, mid.state, ?_, (hnow.trans hgrown).exists_concert hc, ?_⟩
  · exact (List.singleton_sublist.mpr hread).append (List.Sublist.refl [mid.state])
  · simp only [List.map_map, Function.comp_def]

theorem ConcertScheduleRepository.meets_save_create {dto : CreateConcertScheduleDTO} :
    (save (ListedSchedule.create dto)).Meets agreement (fun now result =>
      ∃ id, result = .ok { ListedSchedule.create dto with id := id } ∧
        ConcertScheduleEntity.of id dto ∈ now.state.schedules.rows) w := by
  rw [save]
  simp only [ListedScheduleMapper.toEntity, ListedSchedule.create, if_true]
  intro now e reply st _ hinv hx
  obtain ⟨id, rfl⟩ := ListingOp.issued_of_exec rfl hx
  simp only [ListingOp.exec, Option.ite_none_right_eq_some, Option.some.injEq,
    Prod.mk.injEq] at hx
  obtain ⟨⟨_, hfresh⟩, rfl, rfl⟩ := hx
  have hgrows : Grows now (now.after (now.state.addSchedule (ConcertScheduleEntity.of id dto))) :=
    ⟨List.prefix_append _ _, List.prefix_rfl, Table.prefix_put_fresh hfresh⟩
  refine ⟨hinv.grow hgrows rfl, hgrows, fun later hlater _ => ⟨id, rfl, ?_⟩⟩
  exact hlater.schedules.subset (Table.mem_put.mpr (Or.inl rfl))

namespace ConcertService

theorem meets_createSchedule {dto : CreateConcertScheduleDTO} (hinv : Cached w) :
    (createSchedule dto).Meets agreement (fun now result =>
      result = .error (.custom .concertNotFound) ∨
      ∃ id, result = .ok { ListedSchedule.create dto with id := id } ∧
        now.state.exists? dto.concertId = true ∧
        ConcertScheduleEntity.of id dto ∈ now.state.schedules.rows) w := by
  refine ConcertRepository.meets_existsById.bind hinv ?_ ?_
  · intro now found _ hinv' hfound
    obtain ⟨_, heq, hc⟩ := hfound now (Grows.refl now) hinv'
    obtain rfl := Except.ok.inj heq
    cases found with
    | false => exact fun _ _ _ => Or.inl rfl
    | true =>
      refine ConcertScheduleRepository.meets_save_create.imp fun later result hlater _ hsaved => ?_
      obtain ⟨id, hresult, hrow⟩ := hsaved
      exact Or.inr ⟨id, hresult, hlater.exists_concert (hc rfl), hrow⟩
  · intro now x hx
    obtain ⟨_, heq, _⟩ := hx
    contradiction

theorem meets_scanBookableSchedueles (hinv : Cached w) :
    (scanBookableSchedueles c).Meets agreement (fun now result =>
      result = .error (.custom .concertNotFound) ∨
      ∃ schedules, result = .ok schedules ∧
        ListsSchedules now c (schedules.map ListedSchedule.toJson)) w := by
  refine ConcertRepository.meets_existsById.bind hinv ?_ ?_
  · intro now found _ hinv' hfound
    obtain ⟨_, heq, hc⟩ := hfound now (Grows.refl now) hinv'
    obtain rfl := Except.ok.inj heq
    cases found with
    | false => exact fun _ _ _ => Or.inl rfl
    | true =>
      exact (ConcertScheduleRepository.meets_findAllBookableByConcertId (hc rfl)).imp
        fun _ _ _ _ hfound => Or.inr hfound
  · intro now x hx
    obtain ⟨_, heq, _⟩ := hx
    contradiction

end ConcertService

/-- An eviction after what succeeded. -/
theorem CacheManager.meets_then_del {p : Lister β} (hp : p.Meets agreement Q w)
    (hinv : Cached w) :
    (p.bind fun b => del key >>= fun _ => pure b).Meets agreement Q w := by
  refine hp.bind hinv ?_ fun _ _ hx => hx
  intro now b _ hinv' hb
  refine meets_del.bind hinv' ?_ ?_
  · intro later _ hlater _ _
    exact fun last hlast => hb last (hlater.trans hlast)
  · intro _ _ hx
    contradiction

/-- A list that was queried goes into the cache. -/
theorem CacheManager.meets_set_loaded {α : Type} {toJson : α → Json} {loaded : List α}
    (hl : Lists w key (loaded.map toJson)) (hinv : Cached w) :
    (set key (.arr (loaded.map toJson)) >>= fun _ => pure (Listed.loaded loaded)).Meets
      agreement (fun now result => ∃ listed items, result = .ok listed ∧
        listed.items toJson = some items ∧ Lists now key items) w := by
  refine (meets_set hl).bind hinv ?_ ?_
  · intro now _ hnow _ _ later hlater _
    exact ⟨_, _, rfl, rfl, (hnow.trans hlater).lists hl⟩
  · intro _ _ hx
    contradiction

theorem ScanConcertsUseCase.meets_execute (hinv : Cached w) :
    execute.Meets agreement (fun now result => ∃ listed items, result = .ok listed ∧
      listed.items Concert.toJson = some items ∧ Lists now getCacheKey items) w := by
  refine CacheManager.meets_get.bind hinv ?_ ?_
  · intro now b _ hinv' hb
    rcases hb now (Grows.refl now) hinv' with hnone | ⟨items, hsome, hl⟩
    · obtain rfl := Except.ok.inj hnone
      refine ConcertRepository.meets_findAll.bind hinv' ?_ ?_
      · intro later concerts _ hinv'' hconcerts
        obtain ⟨_, heq, hl⟩ := hconcerts later (Grows.refl later) hinv''
        obtain rfl := Except.ok.inj heq
        refine CacheManager.meets_set_loaded ⟨fun _ => hl, fun c hkey => ?_⟩ hinv''
        exact absurd hkey.symm (bookableKey_ne_concerts c)
      · intro _ _ hx
        obtain ⟨_, heq, _⟩ := hx
        contradiction
    · obtain rfl := Except.ok.inj hsome
      exact fun later hlater _ => ⟨.cached (.arr items), items, rfl, rfl, hlater.lists hl⟩
  · intro _ _ hx
    rcases hx with hx | ⟨_, hx, _⟩ <;> contradiction

theorem ScanBookableSchedulesUseCase.meets_execute (hinv : Cached w) :
    (execute c).Meets agreement (fun now result =>
      result = .error (.custom .concertNotFound) ∨ ∃ listed items, result = .ok listed ∧
        listed.items ListedSchedule.toJson = some items ∧
        Lists now (getCacheKey c) items) w := by
  refine CacheManager.meets_get.bind hinv ?_ ?_
  · intro now b _ hinv' hb
    rcases hb now (Grows.refl now) hinv' with hnone | ⟨items, hsome, hl⟩
    · obtain rfl := Except.ok.inj hnone
      refine (ConcertService.meets_scanBookableSchedueles hinv').bind hinv' ?_ ?_
      · intro later schedules _ hinv'' hschedules
        rcases hschedules later (Grows.refl later) hinv'' with herror | ⟨_, heq, hl⟩
        · contradiction
        obtain rfl := Except.ok.inj heq
        refine (CacheManager.meets_set_loaded ⟨fun hkey => ?_, fun c' hkey => ?_⟩ hinv'').imp
          fun _ _ _ _ hlisted => Or.inr hlisted
        · exact absurd hkey (bookableKey_ne_concerts c)
        · exact bookableKey_inj hkey ▸ hl
      · intro _ _ hx
        rcases hx with hx | ⟨_, hx, _⟩
        · exact Or.inl (congrArg Except.error (Except.error.inj hx))
        · contradiction
    · obtain rfl := Except.ok.inj hsome
      exact fun later hlater _ =>
        Or.inr ⟨.cached (.arr items), items, rfl, rfl, hlater.lists hl⟩
  · intro _ _ hx
    rcases hx with hx | ⟨_, hx, _⟩ <;> contradiction

end Scripts

namespace ListingCall

/-- What a call may have ended with, given what is and what was stored. -/
def Ends (w : ListingWorld) : ListingCall → Except ListingError ListingResult → Prop
  | .createConcert dto, result => ∃ id, result = .ok (.concert ⟨id, dto.title, dto.description⟩) ∧
      ⟨id, dto.title, dto.description⟩ ∈ w.state.concerts.rows
  | .scanConcerts, result => ∃ listed items, result = .ok (.concerts listed) ∧
      listed.items Concert.toJson = some items ∧ ListsConcerts w items
  | .createConcertSchedule dto, result => result = .error (.custom .concertNotFound) ∨
      ∃ id, result = .ok (.schedule { ListedSchedule.create dto with id := id }) ∧
        w.state.exists? dto.concertId = true ∧
        ConcertScheduleEntity.of id dto ∈ w.state.schedules.rows
  | .scanBookableSchedules concertId, result => result = .error (.custom .concertNotFound) ∨
      ∃ listed items, result = .ok (.schedules listed) ∧
        listed.items ListedSchedule.toJson = some items ∧ ListsSchedules w concertId items

theorem meets {w : ListingWorld} (call : ListingCall) (hinv : Cached w) :
    call.handle.Meets agreement (fun now => call.Ends now) w := by
  cases call with
  | createConcert dto =>
    refine (CacheManager.meets_then_del ConcertRepository.meets_save_create hinv).bind hinv ?_ ?_
    · intro now concert _ _ hconcert later hlater hinv'
      obtain ⟨id, heq, hrow⟩ := hconcert later hlater hinv'
      obtain rfl := Except.ok.inj heq
      exact ⟨id, rfl, hrow⟩
    · intro _ _ hx
      obtain ⟨_, hx, _⟩ := hx
      contradiction
  | scanConcerts =>
    refine (ScanConcertsUseCase.meets_execute hinv).bind hinv ?_ ?_
    · intro now concerts _ _ hconcerts later hlater hinv'
      obtain ⟨listed, items, heq, hitems, hl⟩ := hconcerts later hlater hinv'
      obtain rfl := Except.ok.inj heq
      exact ⟨_, items, rfl, hitems, hl.concerts rfl⟩
    · intro _ _ hx
      obtain ⟨_, _, hx, _⟩ := hx
      contradiction
  | createConcertSchedule dto =>
    refine (CacheManager.meets_then_del (ConcertService.meets_createSchedule hinv) hinv).bind
      hinv ?_ ?_
    · intro now schedule _ _ hschedule later hlater hinv'
      rcases hschedule later hlater hinv' with herror | ⟨id, heq, hrow⟩
      · contradiction
      obtain rfl := Except.ok.inj heq
      exact Or.inr ⟨id, rfl, hrow⟩
    · intro _ _ hx
      rcases hx with hx | ⟨_, hx, _⟩
      · exact Or.inl (congrArg Except.error (Except.error.inj hx))
      · contradiction
  | scanBookableSchedules c =>
    refine (ScanBookableSchedulesUseCase.meets_execute hinv).bind hinv ?_ ?_
    · intro now schedules _ _ hschedules later hlater hinv'
      rcases hschedules later hlater hinv' with herror | ⟨listed, items, heq, hitems, hl⟩
      · contradiction
      obtain rfl := Except.ok.inj heq
      exact Or.inr ⟨_, items, rfl, hitems, hl.schedules c rfl⟩
    · intro _ _ hx
      rcases hx with hx | ⟨_, _, hx, _⟩
      · exact Or.inl (congrArg Except.error (Except.error.inj hx))
      · contradiction

end ListingCall

/-- No listing is made up. However the calls interleave, and wherever they are
cut short, what was created stays stored, a list of concerts is one that the table
had at some time, a list of schedules has those of the table at some time that were
bookable by a clock reading before, and no cached text ever fails to parse. -/
theorem listings_tell_what_is_stored {start : ListingStore}
    {s : Pool listingService ListingError ListingResult ListingCall}
    (hcold : ∀ key, start.cache key = none)
    (h : Machine.Reachable (Pool.step ListingCall.handle) (Pool.init start) s) {i : Nat}
    {r : Running listingService ListingError ListingResult ListingCall}
    (hr : s.calls i = some r) :
    (∀ b, r.script = .done b → r.label.Ends s.world (.ok b)) ∧
      ∀ x, r.script = .fail x → r.label.Ends s.world (.error x) := by
  have hstart : Cached ⟨[], start⟩ := by
    intro key text hkey
    rw [hcold key] at hkey
    contradiction
  have hagreed := Pool.Agreed.reachable (A := agreement)
    (Q := fun call now => call.Ends now) hstart (fun call w hinv => call.meets hinv) h
  exact ⟨fun b hb => hagreed.done hr hb, fun x hx => hagreed.fail hr hx⟩

/-- A listing has read the clock when a schedule is created and time goes by, and
queries the rows after it. -/
def listedMeanwhile : List (Interleaving.Act listingService ListingCall) :=
  [.start 0 (.createConcert ⟨"", none⟩), .answer 0 (.issued 1), .answer 0 .quiet,
    .start 1 (.scanBookableSchedules 1), .answer 1 .quiet, .answer 1 .quiet, .answer 1 .quiet,
    .start 2 (.createConcertSchedule ⟨1, 0, 100, 200, 300⟩), .answer 2 .quiet,
    .answer 2 (.issued 1), .env (.tick 150), .answer 1 .quiet, .answer 2 .quiet, .answer 1 .quiet]

theorem listings_tell_what_is_stored_listedMeanwhile : ∃ s r,
    Machine.run (Pool.step ListingCall.handle) (Pool.init noConcerts) listedMeanwhile = some s ∧
      s.calls 1 = some r ∧ r.script.finished = true ∧ s.state.now = 150 ∧
      (∀ b, r.script = .done b → r.label.Ends s.world (.ok b)) ∧
      ∀ x, r.script = .fail x → r.label.Ends s.world (.error x) := by
  have hrun : (Machine.run (Pool.step ListingCall.handle) (Pool.init noConcerts)
      listedMeanwhile).map (fun s => ((s.calls 1).map fun r => r.script.finished, s.state.now)) =
      some (some true, 150) := by
    decide +kernel
  obtain ⟨s, hs, h⟩ := Option.map_eq_some_iff.mp hrun
  obtain ⟨hcall, hnow⟩ := Prod.mk.inj h
  obtain ⟨r, hr, hfinished⟩ := Option.map_eq_some_iff.mp hcall
  exact ⟨s, r, hs, hr, hfinished, hnow, listings_tell_what_is_stored (fun _ => rfl) ⟨_, hs⟩ hr⟩

end HighVolumeBooking
