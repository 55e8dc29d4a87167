import Paging.Calendar.Date

/-!
Times of day, dates with a time, and instants. An instant is a number of nanoseconds since the first
of January 1970 in universal time; `Instant.ofDateTime?` and `Instant.toDateTime` change between the two
views of it.
-/

namespace Paging.Calendar

/-- A time of day. No minute has more than sixty seconds. -/
structure Time where
  hour : Nat
  minute : Nat
  second : Nat
  nanosecond : Nat
  hour_lt : hour < 24
  minute_lt : minute < 60
  second_lt : second < 60
  nanosecond_lt : nanosecond < 1000000000
  deriving DecidableEq, Repr

namespace Time

def of? (hour minute second nanosecond : Nat) : Option Time :=
  if h : hour < 24 ∧ minute < 60 ∧ second < 60 ∧ nanosecond < 1000000000 then
    some ⟨hour, minute, second, nanosecond, h.1, h.2.1, h.2.2.1, h.2.2.2⟩
  else none

def midnight : Time := ⟨0, 0, 0, 0, by decide, by decide, by decide, by decide⟩

instance : Ord Time where
  compare := compareLex (compareOn (·.hour)) (compareLex (compareOn (·.minute))
    (compareLex (compareOn (·.second)) (compareOn (·.nanosecond))))

def seconds (time : Time) : Nat := time.hour * 3600 + time.minute * 60 + time.second

/-- The time that comes this many seconds and nanoseconds after midnight. -/
def ofSeconds (seconds nanosecond : Nat) (hs : seconds < 86400) (hn : nanosecond < 1000000000) : Time :=
  ⟨seconds / 3600, seconds / 60 % 60, seconds % 60, nanosecond, by omega, by omega, by omega, hn⟩

end Time

/-- A date with a time of day, in no particular time zone. -/
structure DateTime where
  date : Date
  time : Time
  deriving DecidableEq, Repr

namespace DateTime

instance : Ord DateTime where
  compare := compareLex (compareOn (·.date)) (compareOn (·.time))

end DateTime

/-- A point in time, in nanoseconds since the start of 1970 in universal time. -/
structure Instant where
  nanoseconds : Int
  lower : -377705023201 * 1000000000 ≤ nanoseconds
  upper : nanoseconds < 253402207201 * 1000000000
  deriving DecidableEq, Repr

namespace Instant

/-- The day number of the first of January 1970. -/
def epochDay : Int := 719528

theorem epochDay_eq : yearStart 1970 = epochDay := by decide

def of? (nanoseconds : Int) : Option Instant :=
  if h : -377705023201 * 1000000000 ≤ nanoseconds ∧ nanoseconds < 253402207201 * 1000000000 then
    some ⟨nanoseconds, h.1, h.2⟩
  else none

instance : Ord Instant where
  compare := compareOn (·.nanoseconds)

/-- The instant at which a clock `offset` seconds ahead of universal time shows this date and time. -/
def ofDateTime? (wall : DateTime) (offset : Int) : Option Instant :=
  let seconds := (wall.date.dayNumber - epochDay) * 86400 + wall.time.seconds - offset
  of? (seconds * 1000000000 + wall.time.nanosecond)

def day (instant : Instant) : Int := instant.nanoseconds / (86400 * 1000000000) + epochDay

theorem dayInRange_day (instant : Instant) : Date.DayInRange instant.day := by
  have hl := instant.lower
  have hu := instant.upper
  unfold Date.DayInRange day epochDay
  have hfirst : yearStart (-9999) = -3652059 := by decide
  have hlast : yearStart 10000 = 3652425 := by decide
  omega

def toDateTime (instant : Instant) : DateTime where
  date := Date.ofDayNumber instant.day instant.dayInRange_day
  time := Time.ofSeconds (instant.nanoseconds / 1000000000 % 86400).toNat
    (instant.nanoseconds % 1000000000).toNat (by omega) (by omega)

end Instant

end Paging.Calendar
