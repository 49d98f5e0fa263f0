import HighVolumeBooking.ReadCommitted.Program

namespace HighVolumeBooking

export ReadCommitted (RowId)

def msPerSecond : Int := 1000
def msPerMinute : Int := 60 * msPerSecond
def msPerHour : Int := 60 * msPerMinute
def msPerDay : Int := 24 * msPerHour

/-! ECMAScript time components, of UTC or of local time values alike. -/

def day (t : Int) : Int := t / msPerDay
def hourFromTime (t : Int) : Int := t / msPerHour % 24
def minFromTime (t : Int) : Int := t / msPerMinute % 60
def secFromTime (t : Int) : Int := t / msPerSecond % 60
def msFromTime (t : Int) : Int := t % msPerSecond

def makeTime (hour min sec ms : Int) : Int :=
  hour * msPerHour + min * msPerMinute + sec * msPerSecond + ms

def makeDate (day time : Int) : Int := day * msPerDay + time

theorem makeDate_add_minutes (t m : Int) :
    makeDate (day t) (makeTime (hourFromTime t) (minFromTime t + m) (secFromTime t)
      (msFromTime t)) = t + m * msPerMinute := by
  simp only [makeDate, makeTime, day, hourFromTime, minFromTime, secFromTime, msFromTime, msPerDay,
    msPerHour, msPerMinute, msPerSecond]
  omega

/-- A server time zone: the offset of local time before the first transition,
and each transition with the offset from it on. -/
structure TimeZone where
  base : Int
  transitions : List (Int × Int)
  sorted : transitions.Pairwise fun x y => x.1 < y.1

namespace TimeZone

def utc : TimeZone := ⟨0, [], .nil⟩

def offsetAt (zone : TimeZone) (t : Int) : Int :=
  zone.transitions.foldl (fun o x => if x.1 ≤ t then x.2 else o) zone.base

def offsets (zone : TimeZone) : List Int := zone.base :: zone.transitions.map (·.2)

def localTime (zone : TimeZone) (t : Int) : Int := t + zone.offsetAt t

/-- The instants whose local time is t: none for a skipped time, several for a
repeated one. -/
def possibleInstants (zone : TimeZone) (t : Int) : List Int :=
  (zone.offsets.map (t - ·)).filter fun u => zone.localTime u = t

/-- The last local time before t that is not skipped, when t is: the one just
before a transition. -/
def lastLocalBefore (zone : TimeZone) (t : Int) : Option Int :=
  ((zone.transitions.map fun x => zone.localTime (x.1 - 1)).filter (· < t)).max?

/-- UTC(t): the earliest instant of a repeated time, and the offset from before
the transition for a skipped one. -/
def utcOf (zone : TimeZone) (t : Int) : Int :=
  match (zone.possibleInstants t).min? with
  | some u => u
  | none =>
    match (zone.lastLocalBefore t).bind fun b => (zone.possibleInstants b).max? with
    | some u => t - zone.offsetAt u
    | none => t - zone.base

end TimeZone

/-! The Date methods the code calls. A date is its time value. -/

def getMinutes (zone : TimeZone) (d : Int) : Int := minFromTime (zone.localTime d)

def setMinutes (zone : TimeZone) (d : Int) (min : Int) : Int :=
  let t := zone.localTime d
  zone.utcOf (makeDate (day t) (makeTime (hourFromTime t) min (secFromTime t) (msFromTime t)))

/-- Adding minutes through the local calendar adds their length to local time. -/
theorem setMinutes_getMinutes_add (zone : TimeZone) (d : Int) (m : Int) :
    setMinutes zone d (getMinutes zone d + m) =
      zone.utcOf (zone.localTime d + m * msPerMinute) := by
  exact congrArg zone.utcOf (makeDate_add_minutes (zone.localTime d) m)

/-- In a zone whose offset never changes, minutes are added as they are. -/
theorem setMinutes_fixed {zone : TimeZone} (h : zone.transitions = []) (d m : Int) :
    setMinutes zone d (getMinutes zone d + m) = d + m * msPerMinute := by
  have hoffset : ∀ t, zone.offsetAt t = zone.base := by simp [TimeZone.offsetAt, h]
  rw [setMinutes_getMinutes_add]
  simp only [TimeZone.utcOf, TimeZone.possibleInstants, TimeZone.offsets, TimeZone.localTime,
    hoffset, h, List.map_nil, List.map_cons]
  simp
  omega

/-- Year, month and day of month of a day number, by the proleptic Gregorian
calendar: 400 years are 146097 days, and years begin in March. -/
def civilFromDay (day : Int) : Int × Int × Int :=
  let z := day + 719468
  let era := z / 146097
  let dayOfEra := z % 146097
  let yearOfEra := (dayOfEra - dayOfEra / 1460 + dayOfEra / 36524 - dayOfEra / 146096) / 365
  let dayOfYear := dayOfEra - (365 * yearOfEra + yearOfEra / 4 - yearOfEra / 100)
  let march := (5 * dayOfYear + 2) / 153
  let month := if march < 10 then march + 3 else march - 9
  let year := yearOfEra + era * 400 + if month ≤ 2 then 1 else 0
  (year, month, dayOfYear - (153 * march + 2) / 5 + 1)

def padded (width : Nat) (n : Int) : String :=
  let s := toString n.natAbs
  String.ofList (List.replicate (width - s.length) '0') ++ s

def isoYear (year : Int) : String :=
  if 0 ≤ year ∧ year ≤ 9999 then padded 4 year
  else (if year < 0 then "-" else "+") ++ padded 6 year

def toISOString (d : Int) : String :=
  let (year, month, dayOfMonth) := civilFromDay (day d)
  isoYear year ++ "-" ++ padded 2 month ++ "-" ++ padded 2 dayOfMonth ++ "T" ++
    padded 2 (hourFromTime d) ++ ":" ++ padded 2 (minFromTime d) ++ ":" ++
    padded 2 (secFromTime d) ++ "." ++ padded 3 (msFromTime d) ++ "Z"

end HighVolumeBooking
