import HighVolumeBooking.Application.Listing
import HighVolumeBooking.Common.Number
import HighVolumeBooking.Interleaving.Solo

namespace HighVolumeBooking

open Interleaving (Script gives_bind gives_call gives_command gives_done gives_fail)

/-! What the listing scripts give, from the commands up. -/

def ListingOp.inserts : ListingOp → Bool
  | .insertConcert _ => true
  | .insertSchedule _ => true
  | _ => false

theorem ListingOp.quiet_of_exec {st : ListingStore} {o : ListingOp} {e : ListingEvent}
    {x : o.Reply × ListingStore} (ho : o.inserts = false) (h : o.exec st e = some x) :
    e = .quiet := by
  cases o <;> cases e <;> first | rfl | contradiction

theorem ListingOp.issued_of_exec {st : ListingStore} {o : ListingOp} {e : ListingEvent}
    {x : o.Reply × ListingStore} (ho : o.inserts = true) (h : o.exec st e = some x) :
    ∃ id, e = .issued id := by
  cases o <;> cases e <;> first | exact ⟨_, rfl⟩ | contradiction

section Commands

variable {β : Type} {st st' m : ListingStore} {o : ListingOp} {reply : o.Reply}
  {k : o.Reply → Interleaving.Script listingService ListingError β} {result : Except ListingError β}

theorem gives_quiet {p : Lister β} (hp : p = .ask o k ∨ p = .call o k) (ho : o.inserts = false)
    (hx : o.exec st .quiet = some (reply, m)) :
    p.Gives st result st' ↔ (k reply).Gives m result st' := by
  rw [gives_command hp]
  constructor
  · intro h
    obtain ⟨e, reply', m', hx', h⟩ := h
    obtain rfl := ListingOp.quiet_of_exec ho hx'
    obtain ⟨rfl, rfl⟩ := Prod.mk.inj (Option.some.inj (hx.symm.trans hx'))
    exact h
  · intro h
    exact ⟨.quiet, reply, m, hx, h⟩

theorem gives_call_issued (ho : o.inserts = true) :
    (Script.call (S := listingService) o k).Gives st result st' ↔
      ∃ id reply m, o.exec st (.issued id) = some (reply, m) ∧ (k reply).Gives m result st' := by
  rw [gives_call]
  constructor
  · intro h
    obtain ⟨e, reply, m, hx, h⟩ := h
    obtain ⟨id, rfl⟩ := ListingOp.issued_of_exec ho hx
    exact ⟨id, reply, m, hx, h⟩
  · intro h
    obtain ⟨id, reply, m, hx, h⟩ := h
    exact ⟨.issued id, reply, m, hx, h⟩

end Commands

namespace ListingStore

/-- What the bookable query returns at t. -/
def bookable (st : ListingStore) (concertId : RowId) (t : Int) : List ListedSchedule :=
  ((st.schedules.rows.filter fun row => row.concertId == concertId && row.openAt t).map
    st.join).map ListedScheduleMapper.toDomain

/-- The JSON value that is cached for it. -/
def listing (st : ListingStore) (concertId : RowId) (t : Int) : Json :=
  .arr ((st.bookable concertId t).map ListedSchedule.toJson)

def setCache (st : ListingStore) (key : String) (text : Option String) : ListingStore :=
  { st with cache := Function.update st.cache key text }

def addConcert (st : ListingStore) (concert : Concert) : ListingStore :=
  { st with concerts := st.concerts.put (ConcertMapper.toEntity concert) }

def addSchedule (st : ListingStore) (schedule : ConcertScheduleEntity) : ListingStore :=
  { st with schedules := st.schedules.put schedule }

end ListingStore

/-- The row of a schedule that was created with that id. -/
def ConcertScheduleEntity.of (id : RowId) (dto : CreateConcertScheduleDTO) : ConcertScheduleEntity :=
  ⟨id, dto.concertId, dto.bookingStartAt, dto.bookingEndAt, dto.startAt, dto.endAt⟩

section Scripts

variable {st st' : ListingStore}

namespace CacheManager

variable {key : String} {v : Json}

theorem gives_get_none {result : Except ListingError (Option Json)} (hkey : st.cache key = none) :
    (get key).Gives st result st' ↔ result = .ok none ∧ st' = st := by
  rw [get, gives_quiet (Or.inr rfl) rfl rfl, hkey]
  exact gives_done

theorem gives_get_some {result : Except ListingError (Option Json)}
    (hkey : st.cache key = some v.stringify) :
    (get key).Gives st result st' ↔ result = .ok (some v) ∧ st' = st := by
  rw [get, gives_quiet (Or.inr rfl) rfl rfl, hkey]
  simp only [Json.parse_stringify]
  exact gives_done

theorem gives_set {result : Except ListingError Unit} :
    (set key v).Gives st result st' ↔
      result = .ok () ∧ st' = st.setCache key (some v.stringify) := by
  rw [set, gives_quiet (Or.inr rfl) rfl rfl]
  exact gives_done

theorem gives_del {result : Except ListingError Unit} :
    (del key).Gives st result st' ↔ result = .ok () ∧ st' = st.setCache key none := by
  rw [del, gives_quiet (Or.inr rfl) rfl rfl]
  exact gives_done

/-- Reading the cache changes nothing. -/
theorem state_of_get {result : Except ListingError (Option Json)}
    (h : (get key).Gives st result st') : st' = st := by
  rw [get, gives_quiet (Or.inr rfl) rfl rfl] at h
  cases hkey : st.cache key with
  | none =>
    rw [hkey] at h
    exact (gives_done.mp h).2
  | some text =>
    cases hparse : Json.parse text with
    | some v =>
      simp only [hkey, hparse] at h
      exact (gives_done.mp h).2
    | none =>
      simp only [hkey, hparse] at h
      exact (gives_fail.mp h).2

/-- A deletion after what succeeded. -/
theorem gives_then_del {β : Type} {p : Lister β} {result : Except ListingError β} :
    (p.bind fun b => del key >>= fun _ => pure b).Gives st result st' ↔
      (∃ b m, p.Gives st (.ok b) m ∧ result = .ok b ∧ st' = m.setCache key none) ∨
        ∃ x, p.Gives st (.error x) st' ∧ result = .error x := by
  simp [gives_bind, gives_del, gives_done]

theorem gives_created_then_del {β : Type} {p : Lister β} {P : RowId → Prop} {f : RowId → β}
    {g : RowId → ListingStore} {result : Except ListingError β}
    (hp : ∀ r m, p.Gives st r m ↔ ∃ id, 0 < id ∧ P id ∧ r = .ok (f id) ∧ m = g id) :
    (p.bind fun b => del key >>= fun _ => pure b).Gives st result st' ↔
      ∃ id, 0 < id ∧ P id ∧ result = .ok (f id) ∧ st' = (g id).setCache key none := by
  rw [gives_then_del]
  simp only [hp]
  constructor
  · intro h
    rcases h with ⟨b, m, ⟨id, hpos, hid, hb, rfl⟩, rfl, rfl⟩ | ⟨x, ⟨id, _, _, hx, _⟩, _⟩
    · exact ⟨id, hpos, hid, hb, rfl⟩
    · contradiction
  · intro h
    obtain ⟨id, hpos, hid, rfl, rfl⟩ := h
    exact Or.inl ⟨_, _, ⟨id, hpos, hid, rfl, rfl⟩, rfl, rfl⟩

end CacheManager

theorem ConcertRepository.gives_existsById {id : RowId} {result : Except ListingError Bool} :
    (existsById id).Gives st result st' ↔ result = .ok (st.exists? id) ∧ st' = st := by
  rw [existsById, gives_quiet (Or.inr rfl) rfl rfl]
  exact gives_done

theorem ConcertRepository.gives_findAll {result : Except ListingError (List Concert)} :
    findAll.Gives st result st' ↔
      result = .ok (st.concerts.rows.map ConcertMapper.toDomain) ∧ st' = st := by
  rw [findAll, gives_quiet (Or.inr rfl) rfl rfl]
  exact gives_done

theorem ConcertScheduleRepository.gives_findAllBookableByConcertId {concertId : RowId}
    {result : Except ListingError (List ListedSchedule)} :
    (findAllBookableByConcertId concertId).Gives st result st' ↔
      result = .ok (st.bookable concertId st.now) ∧ st' = st := by
  rw [findAllBookableByConcertId, gives_quiet (Or.inl rfl) rfl rfl, gives_quiet (Or.inr rfl) rfl rfl]
  exact gives_done

theorem ConcertScheduleRepository.gives_save_create {dto : CreateConcertScheduleDTO}
    {result : Except ListingError ListedSchedule} :
    (save (ListedSchedule.create dto)).Gives st result st' ↔
      ∃ id, 0 < id ∧ st.schedules.find? id = none ∧
        result = .ok { ListedSchedule.create dto with id := id } ∧
        st' = st.addSchedule (ConcertScheduleEntity.of id dto) := by
  rw [save]
  simp only [ListedScheduleMapper.toEntity, ListedSchedule.create, if_true]
  rw [gives_call_issued rfl]
  constructor
  · intro h
    obtain ⟨id, entity, m, hx, h⟩ := h
    obtain ⟨⟨hpos, hfresh⟩, hx⟩ := Option.ite_none_right_eq_some.mp hx
    obtain ⟨rfl, rfl⟩ := Prod.mk.inj (Option.some.inj hx)
    exact ⟨id, hpos, hfresh, gives_done.mp h⟩
  · intro h
    obtain ⟨id, hpos, hfresh, h⟩ := h
    exact ⟨id, _, _, if_pos ⟨hpos, hfresh⟩, gives_done.mpr h⟩

theorem ConcertRepository.gives_save_create {dto : CreateConcertDTO}
    {result : Except ListingError Concert} :
    (save (Concert.create dto)).Gives st result st' ↔
      ∃ id, 0 < id ∧ st.concerts.find? id = none ∧
        result = .ok { Concert.create dto with id := id } ∧
        st' = st.addConcert { Concert.create dto with id := id } := by
  rw [save]
  simp only [ConcertMapper.toEntity, Concert.create, if_true]
  rw [gives_call_issued rfl]
  constructor
  · intro h
    obtain ⟨id, entity, m, hx, h⟩ := h
    obtain ⟨⟨hpos, hfresh⟩, hx⟩ := Option.ite_none_right_eq_some.mp hx
    obtain ⟨rfl, rfl⟩ := Prod.mk.inj (Option.some.inj hx)
    exact ⟨id, hpos, hfresh, gives_done.mp h⟩
  · intro h
    obtain ⟨id, hpos, hfresh, h⟩ := h
    exact ⟨id, _, _, if_pos ⟨hpos, hfresh⟩, gives_done.mpr h⟩

namespace ConcertService

theorem gives_createSchedule {dto : CreateConcertScheduleDTO}
    {result : Except ListingError ListedSchedule} (hc : st.exists? dto.concertId = true) :
    (createSchedule dto).Gives st result st' ↔
      ∃ id, 0 < id ∧ st.schedules.find? id = none ∧
        result = .ok { ListedSchedule.create dto with id := id } ∧
        st' = st.addSchedule (ConcertScheduleEntity.of id dto) := by
  simp [createSchedule, gives_bind, ConcertRepository.gives_existsById, hc,
    ConcertScheduleRepository.gives_save_create]

theorem gives_createSchedule_missing {dto : CreateConcertScheduleDTO}
    {result : Except ListingError ListedSchedule} (hc : st.exists? dto.concertId = false) :
    (createSchedule dto).Gives st result st' ↔
      result = .error (.custom .concertNotFound) ∧ st' = st := by
  simp [createSchedule, gives_bind, ConcertRepository.gives_existsById, hc, gives_fail]

theorem gives_scanBookableSchedueles {concertId : RowId}
    {result : Except ListingError (List ListedSchedule)} (hc : st.exists? concertId = true) :
    (scanBookableSchedueles concertId).Gives st result st' ↔
      result = .ok (st.bookable concertId st.now) ∧ st' = st := by
  simp [scanBookableSchedueles, gives_bind, ConcertRepository.gives_existsById, hc,
    ConcertScheduleRepository.gives_findAllBookableByConcertId]

theorem gives_scanBookableSchedueles_missing {concertId : RowId}
    {result : Except ListingError (List ListedSchedule)} (hc : st.exists? concertId = false) :
    (scanBookableSchedueles concertId).Gives st result st' ↔
      result = .error (.custom .concertNotFound) ∧ st' = st := by
  simp [scanBookableSchedueles, gives_bind, ConcertRepository.gives_existsById, hc, gives_fail]

end ConcertService

namespace ScanBookableSchedulesUseCase

variable {concertId : RowId} {result : Except ListingError (Listed ListedSchedule)}

theorem gives_hit {items : List Json}
    (hkey : st.cache (getCacheKey concertId) = some (Json.arr items).stringify) :
    (execute concertId).Gives st result st' ↔ result = .ok (.cached (.arr items)) ∧ st' = st := by
  simp only [execute, Script.bind_eq, gives_bind, CacheManager.gives_get_some hkey]
  constructor
  · intro h
    rcases h with ⟨b, m, ⟨hb, rfl⟩, h⟩ | ⟨x, ⟨hx, _⟩, _⟩
    · obtain rfl := Except.ok.inj hb
      exact gives_done.mp h
    · contradiction
  · intro h
    exact Or.inl ⟨_, st, ⟨rfl, rfl⟩, gives_done.mpr h⟩

theorem gives_miss (hkey : st.cache (getCacheKey concertId) = none)
    (hc : st.exists? concertId = true) :
    (execute concertId).Gives st result st' ↔
      result = .ok (.loaded (st.bookable concertId st.now)) ∧
        st' = st.setCache (getCacheKey concertId)
          (some (st.listing concertId st.now).stringify) := by
  simp [execute, gives_bind, CacheManager.gives_get_none hkey, gives_done,
    ConcertService.gives_scanBookableSchedueles hc, CacheManager.gives_set, ListingStore.listing]

theorem gives_missing (hkey : st.cache (getCacheKey concertId) = none)
    (hc : st.exists? concertId = false) :
    (execute concertId).Gives st result st' ↔
      result = .error (.custom .concertNotFound) ∧ st' = st := by
  simp [execute, gives_bind, CacheManager.gives_get_none hkey,
    ConcertService.gives_scanBookableSchedueles_missing hc, and_comm]

end ScanBookableSchedulesUseCase

namespace CreateConcertScheduleUseCase

variable {dto : CreateConcertScheduleDTO} {result : Except ListingError ListedSchedule}

theorem gives_created (hc : st.exists? dto.concertId = true) :
    (execute dto).Gives st result st' ↔
      ∃ id, 0 < id ∧ st.schedules.find? id = none ∧
        result = .ok { ListedSchedule.create dto with id := id } ∧
        st' = (st.addSchedule (ConcertScheduleEntity.of id dto)).setCache
          (getEvictionCacheKey dto.concertId) none := by
  rw [execute, Script.bind_eq]
  exact CacheManager.gives_created_then_del fun _ _ => ConcertService.gives_createSchedule hc

theorem gives_missing (hc : st.exists? dto.concertId = false) :
    (execute dto).Gives st result st' ↔
      result = .error (.custom .concertNotFound) ∧ st' = st := by
  rw [execute, Script.bind_eq, CacheManager.gives_then_del]
  simp [ConcertService.gives_createSchedule_missing hc, and_comm]

end CreateConcertScheduleUseCase

theorem CreateConcertUseCase.gives_created {dto : CreateConcertDTO}
    {result : Except ListingError Concert} :
    (execute dto).Gives st result st' ↔
      ∃ id, 0 < id ∧ st.concerts.find? id = none ∧
        result = .ok { Concert.create dto with id := id } ∧
        st' = (st.addConcert { Concert.create dto with id := id }).setCache
          getEvictionCacheKey none := by
  rw [execute, Script.bind_eq]
  exact CacheManager.gives_created_then_del fun _ _ => ConcertRepository.gives_save_create

/-- A listing of the concerts touches no other cache entry. -/
theorem ScanConcertsUseCase.gives_frame {result : Except ListingError (Listed Concert)}
    (h : (execute).Gives st result st') :
    st' = st ∨ ∃ text, st' = st.setCache getCacheKey text := by
  rw [execute, Script.bind_eq, gives_bind] at h
  rcases h with ⟨concerts, m, hget, h⟩ | ⟨x, hget, _⟩
  · obtain rfl := CacheManager.state_of_get hget
    cases hcached : concerts.filter Json.truthy with
    | some v =>
      rw [hcached] at h
      exact Or.inl (gives_done.mp h).2
    | none =>
      simp only [hcached, Script.bind_eq, gives_bind, ConcertService.scanConcerts,
        ConcertRepository.gives_findAll, CacheManager.gives_set, Script.pure_eq, gives_done] at h
      rcases h with ⟨_, _, ⟨_, rfl⟩, ⟨_, _, ⟨_, rfl⟩, _, rfl⟩ | ⟨_, ⟨h, _⟩, _⟩⟩ | ⟨_, ⟨h, _⟩, _⟩
      · exact Or.inr ⟨_, rfl⟩
      · contradiction
      · contradiction
  · exact Or.inl (CacheManager.state_of_get hget)

end Scripts

end HighVolumeBooking
