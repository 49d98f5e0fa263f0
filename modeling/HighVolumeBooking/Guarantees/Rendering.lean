import HighVolumeBooking.Guarantees.Transparency
import HighVolumeBooking.Interface.Controller

namespace HighVolumeBooking

open Interleaving (gives_bind gives_done gives_fail gives_tryCatch)
open ScanBookableSchedulesUseCase (getCacheKey)

/-- What the response to v looks like to the client. -/
def rendered (v : JsValue) : Option Json := (ConcertScheduleResponse.from v).bind JsValue.toJson

/-- The response to a schedule with that concert, its dates as they are given. -/
def ListedSchedule.response (schedule : ListedSchedule) (concert : Concert) (date : Int → JsValue) :
    JsValue :=
  .obj [("id", .num schedule.id), ("concertId", .num schedule.concertId),
    ("bookingStartAt", date schedule.bookingStartAt), ("bookingEndAt", date schedule.bookingEndAt),
    ("startAt", date schedule.startAt), ("endAt", date schedule.endAt),
    ("concertTitle", .str concert.title)]

/-- A date as the cache gives it back. -/
def isoDate (d : Int) : JsValue := .str (toISOString d)

section Values

variable {schedule : ListedSchedule} {concert : Concert}

theorem from_loaded (h : schedule.concert = .loaded concert) :
    ConcertScheduleResponse.from schedule.toJs = some (schedule.response concert .date) := by
  rw [ListedSchedule.toJs, h]
  rfl

theorem from_cached (h : schedule.concert = .loaded concert) :
    ConcertScheduleResponse.from (.ofJson schedule.toJson) =
      some (schedule.response concert isoDate) := by
  rw [ListedSchedule.toJson, h]
  rfl

theorem from_without_concert (h : schedule.concert = .undefined) :
    ConcertScheduleResponse.from schedule.toJs = none := by
  rw [ListedSchedule.toJs, h]
  rfl

end Values

section Requests

variable {st st' : ListingStore} {dto : CreateConcertScheduleDTO} {concertId : RowId}
  {result : Except ControllerError JsValue}

/-- The schedule is stored and the cache evicted, and then the response cannot
be built. -/
theorem ConcertController.gives_createConcertSchedule (hc : st.exists? dto.concertId = true) :
    (createConcertSchedule dto).Gives st result st' ↔
      ∃ id, 0 < id ∧ st.schedules.find? id = none ∧ result = .error .typeError ∧
        st' = (st.addSchedule (ConcertScheduleEntity.of id dto)).setCache
          (getCacheKey dto.concertId) none := by
  have hfrom : ∀ id, ConcertScheduleResponse.from
      ({ ListedSchedule.create dto with id := id } : ListedSchedule).toJs = none :=
    fun id => from_without_concert rfl
  rw [createConcertSchedule, Interleaving.Script.bind_eq, gives_bind]
  simp only [gives_tryCatch, CreateConcertScheduleUseCase.gives_created hc]
  constructor
  · intro h
    rcases h with ⟨b, m, ⟨b', ⟨id, hpos, hfresh, hb', rfl⟩, hb⟩ | ⟨x, _, ⟨_, _, _, hx, _⟩, _⟩, h⟩ |
      ⟨x, ⟨b', _, hb⟩ | ⟨x', _, ⟨_, _, _, hx, _⟩, _⟩, _⟩
    · obtain rfl := Except.ok.inj hb
      obtain rfl := Except.ok.inj hb'
      rw [hfrom] at h
      obtain ⟨rfl, rfl⟩ := gives_fail.mp h
      exact ⟨id, hpos, hfresh, rfl, rfl⟩
    · contradiction
    · contradiction
    · contradiction
  · intro h
    obtain ⟨id, hpos, hfresh, rfl, rfl⟩ := h
    refine Or.inl ⟨_, _, Or.inl ⟨_, ⟨id, hpos, hfresh, rfl, rfl⟩, rfl⟩, ?_⟩
    rw [hfrom]
    exact gives_fail.mpr ⟨rfl, rfl⟩

/-- Every schedule that the query finds carries the concert. -/
theorem ListingStore.concert_of_bookable {entity : ConcertEntity} {schedule : ListedSchedule}
    {t : Int} (hc : st.concerts.find? concertId = some entity)
    (h : schedule ∈ st.bookable concertId t) :
    schedule.concert = .loaded (ConcertMapper.toDomain entity) := by
  simp only [bookable, List.map_map, List.mem_map, List.mem_filter, Bool.and_eq_true,
    beq_iff_eq] at h
  obtain ⟨row, ⟨_, hrow, _⟩, rfl⟩ := h
  simp only [Function.comp, ListedScheduleMapper.toDomain, join, hrow, hc]
  rfl

theorem mapM_map_some {α : Type} {f : α → JsValue} {g : JsValue → Option JsValue} {r : α → JsValue}
    {xs : List α} (hr : ∀ x ∈ xs, g (f x) = some (r x)) :
    (xs.map f).mapM g = some (xs.map r) := by
  induction xs with
  | nil => rfl
  | cons x xs ih =>
    simp [hr x List.mem_cons_self, ih fun y hy => hr y (List.mem_cons_of_mem x hy)]

/-- A listing whose items can all be rendered. -/
theorem ConcertController.gives_scanBookableSchedules {listed : Listed ListedSchedule}
    {items responses : List JsValue}
    (h : ∀ r m, (ScanBookableSchedulesUseCase.execute concertId).Gives st r m ↔
      r = .ok listed ∧ m = st')
    (hitems : listed.toJs ListedSchedule.toJs = .arr items)
    (hresponses : items.mapM ConcertScheduleResponse.from = some responses) {m : ListingStore} :
    (scanBookableSchedules concertId).Gives st result m ↔
      result = .ok (.arr responses) ∧ m = st' := by
  rw [scanBookableSchedules, Interleaving.Script.bind_eq, gives_bind]
  simp only [gives_tryCatch, h]
  constructor
  · intro hg
    rcases hg with ⟨b, _, ⟨_, ⟨hok, rfl⟩, hb⟩ | ⟨_, _, ⟨hx, _⟩, _⟩, hg⟩ |
      ⟨_, ⟨_, _, hb⟩ | ⟨_, _, ⟨hx, _⟩, _⟩, _⟩
    · obtain rfl := Except.ok.inj hb
      obtain rfl := Except.ok.inj hok
      rw [hitems] at hg
      simp only [hresponses] at hg
      exact gives_done.mp hg
    · contradiction
    · contradiction
    · contradiction
  · intro hg
    refine Or.inl ⟨listed, st', Or.inl ⟨listed, ⟨rfl, rfl⟩, rfl⟩, ?_⟩
    rw [hitems]
    simp only [hresponses]
    exact gives_done.mpr hg

/-- A listing of an existing concert that misses the cache and the next one,
which hits it, get the same response. -/
theorem ConcertController.rendered_alike {entity : ConcertEntity} {m m' : ListingStore}
    {result' : Except ControllerError JsValue} (hc : st.concerts.find? concertId = some entity)
    (hkey : st.cache (getCacheKey concertId) = none)
    (hmiss : (scanBookableSchedules concertId).Gives st result m)
    (hhit : (scanBookableSchedules concertId).Gives m result' m') :
    ∃ v v', result = .ok v ∧ result' = .ok v' ∧ v.toJson = v'.toJson := by
  have hexists : st.exists? concertId = true := by rw [ListingStore.exists?, hc]; rfl
  have hconcert : ∀ schedule ∈ st.bookable concertId st.now,
      schedule.concert = .loaded (ConcertMapper.toDomain entity) :=
    fun _ h => ListingStore.concert_of_bookable hc h
  obtain ⟨rfl, rfl⟩ := (gives_scanBookableSchedules
    (fun _ _ => ScanBookableSchedulesUseCase.gives_miss hkey hexists) rfl
    (mapM_map_some fun schedule h => from_loaded (hconcert schedule h))).mp hmiss
  have hcached : (st.setCache (getCacheKey concertId)
      (some (st.listing concertId st.now).stringify)).cache (getCacheKey concertId) =
      some (st.listing concertId st.now).stringify := by
    simp [ListingStore.setCache]
  have hitems : (Listed.cached (st.listing concertId st.now) : Listed ListedSchedule).toJs
      ListedSchedule.toJs = .arr ((st.bookable concertId st.now).map fun schedule =>
        .ofJson schedule.toJson) := by
    simp [Listed.toJs, ListingStore.listing, JsValue.ofJson, JsValue.ofJsonItems_eq_map]
  obtain ⟨rfl, rfl⟩ := (gives_scanBookableSchedules
    (fun _ _ => ScanBookableSchedulesUseCase.gives_hit hcached) hitems
    (mapM_map_some fun schedule h => from_cached (hconcert schedule h))).mp hhit
  refine ⟨_, _, rfl, rfl, ?_⟩
  simp only [JsValue.toJson, JsValue.toJsonItems_eq_map, List.map_map]
  rfl

/-- Every object that the use cases return for the created schedule is rendered,
to one JSON, and a request that has stored it reports no error. -/
structure RenderedAlike (st : ListingStore) (dto : CreateConcertScheduleDTO) : Prop where
  same : ∀ schedule m, (CreateConcertScheduleUseCase.execute dto).Gives st (.ok schedule) m →
    ∃ json, rendered schedule.toJs = some json ∧ ∀ t missed m' hit m'',
      (ConcertScheduleEntity.of schedule.id dto).openAt t = true →
      (ScanBookableSchedulesUseCase.execute dto.concertId).Gives (m.setNow t) (.ok missed) m' →
      (ScanBookableSchedulesUseCase.execute dto.concertId).Gives m' (.ok hit) m'' →
      ∀ listed ∈ [missed, hit], ∃ items, listed.toJs ListedSchedule.toJs = .arr items ∧
        ∃ v ∈ items, v.get "id" = some (.num schedule.id) ∧ rendered v = some json
  stored : ∀ result m, (ConcertController.createConcertSchedule dto).Gives st result m →
    (∃ row ∈ m.schedules.rows, row ∉ st.schedules.rows) → ∃ v, result = .ok v

theorem exists_unrendered (hc : st.exists? dto.concertId = true) :
    ∃ schedule m, (CreateConcertScheduleUseCase.execute dto).Gives st (.ok schedule) m ∧
      rendered schedule.toJs = none := by
  obtain ⟨id, hpos, hfresh⟩ := st.schedules.exists_fresh
  refine ⟨_, _, (CreateConcertScheduleUseCase.gives_created hc).mpr ⟨id, hpos, hfresh, rfl, rfl⟩, ?_⟩
  rw [rendered, from_without_concert rfl]
  rfl

/-- A created schedule is never rendered, and its request never succeeds. -/
theorem never_rendered_alike (hc : st.exists? dto.concertId = true) : ¬ RenderedAlike st dto := by
  intro h
  obtain ⟨schedule, m, hgives, hnone⟩ := exists_unrendered hc
  obtain ⟨json, hjson, _⟩ := h.same schedule m hgives
  rw [hnone] at hjson
  contradiction

end Requests

/-- A store with concert 1 alone. -/
def concertOnly : ListingStore :=
  ⟨.single _ ⟨1, "", none⟩, .empty _, fun _ => none, 0⟩

theorem never_rendered_alike_concertOnly : concertOnly.exists? 1 = true ∧
    ¬ RenderedAlike concertOnly ⟨1, 0, 10, 20, 30⟩ :=
  ⟨by decide, never_rendered_alike (by decide)⟩

/-- The first schedule of concert 1 is stored, and its request ends in a
TypeError. -/
theorem stored_with_error : ¬ RenderedAlike concertOnly ⟨1, 0, 10, 20, 30⟩ := by
  intro h
  have hexists : concertOnly.exists? 1 = true := by decide
  have hgives : (ConcertController.createConcertSchedule ⟨1, 0, 10, 20, 30⟩).Gives concertOnly
      (.error .typeError) _ :=
    (ConcertController.gives_createConcertSchedule hexists).mpr
      ⟨1, by decide, by decide, rfl, rfl⟩
  obtain ⟨v, hv⟩ := h.stored _ _ hgives
    ⟨ConcertScheduleEntity.of 1 ⟨1, 0, 10, 20, 30⟩, by decide, by decide⟩
  contradiction

end HighVolumeBooking
