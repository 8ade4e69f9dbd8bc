/-!
# Moments

A moment is a day of the proleptic Gregorian calendar with a time of day and the
offset of the clock from universal time, as it was written.  Moments are ordered
and equal as instants, so two clocks in different places can show the same one.

## Main definitions

* `Date` — a day that exists; years may be zero or negative.
* `Clock` — a time of day down to the nanosecond.
* `Moment` — a date, a clock and its offset east in minutes.
* `Moment.instant` — nanoseconds since the start of 1970 in universal time.
-/

namespace Compliance

/-! ## Days -/

/-- Whether a year has a twenty-ninth of February. -/
def isLeapYear (year : Int) : Bool :=
  year % 4 = 0 && (year % 100 ≠ 0 || year % 400 = 0)

/-- The number of days in a month; no other number is a month, and has none. -/
def daysInMonth (year : Int) : Nat → Nat
  | 1 | 3 | 5 | 7 | 8 | 10 | 12 => 31
  | 4 | 6 | 9 | 11 => 30
  | 2 => if isLeapYear year then 29 else 28
  | _ => 0

/-- A day of the calendar. -/
structure Date where
  year : Int
  month : Nat
  day : Nat
  exists_day : 1 ≤ day ∧ day ≤ daysInMonth year month
deriving DecidableEq

namespace Date

/-- The day with the given numbers, if the calendar has it. -/
def of? (year : Int) (month day : Nat) : Option Date :=
  if h : 1 ≤ day ∧ day ≤ daysInMonth year month then some ⟨year, month, day, h⟩ else none

/-- The first of January 1970. -/
def epoch : Date := ⟨1970, 1, 1, by decide⟩

/-- Days of the years before a year, counted from the first of January of year 1. -/
def daysBeforeYear (year : Int) : Int :=
  let past := year - 1
  365 * past + past / 4 - past / 100 + past / 400

/-- Days of a year before the first of a month. -/
def daysBeforeMonth (year : Int) : Nat → Nat
  | 0 => 0
  | month + 1 => daysBeforeMonth year month + daysInMonth year month

/-- Days since the first of January of year 1. -/
def ordinal (d : Date) : Int :=
  daysBeforeYear d.year + daysBeforeMonth d.year d.month + (d.day - 1)

/-- Whether a day is the last of its month. -/
def endsMonth (d : Date) : Bool := d.day = daysInMonth d.year d.month

/-- Whether the day before is the last of its month. -/
def startsMonth (d : Date) : Bool := d.day = 1

end Date

/-! ## Times of day -/

/-- The nanoseconds of a second. -/
def nanosPerSecond : Nat := 1000000000

/-- A time of day. -/
structure Clock where
  hour : Nat
  minute : Nat
  second : Nat
  nanosecond : Nat
  in_range : hour < 24 ∧ minute < 60 ∧ second < 60 ∧ nanosecond < nanosPerSecond
deriving DecidableEq

namespace Clock

/-- The time of day with the given numbers, if the clock shows it. -/
def of? (hour minute second nanosecond : Nat) : Option Clock :=
  if h : hour < 24 ∧ minute < 60 ∧ second < 60 ∧ nanosecond < nanosPerSecond then
    some ⟨hour, minute, second, nanosecond, h⟩
  else none

/-- The start of the day. -/
def midnight : Clock := ⟨0, 0, 0, 0, by decide⟩

def nanoseconds (c : Clock) : Nat :=
  ((c.hour * 60 + c.minute) * 60 + c.second) * nanosPerSecond + c.nanosecond

end Clock

/-! ## Moments -/

/-- A date and time of day on a clock that runs `offset` minutes ahead of universal time. -/
structure Moment where
  date : Date
  clock : Clock
  offset : Int
  offset_range : offset.natAbs < 24 * 60
deriving DecidableEq

namespace Moment

/-- A moment on the clock of universal time. -/
def universal (date : Date) (clock : Clock) : Moment := ⟨date, clock, 0, by decide⟩

instance : Inhabited Moment := ⟨universal Date.epoch Clock.midnight⟩

/-- A moment on a clock with the given offset, if the offset is less than a day. -/
def of? (date : Date) (clock : Clock) (offset : Int) : Option Moment :=
  if h : offset.natAbs < 24 * 60 then some ⟨date, clock, offset, h⟩ else none

/-- Nanoseconds since the start of 1970 in universal time. -/
def instant (m : Moment) : Int :=
  ((m.date.ordinal - Date.epoch.ordinal) * 86400 - m.offset * 60) * nanosPerSecond +
    m.clock.nanoseconds

/-- The order of instants. -/
def compare (a b : Moment) : Ordering := Ord.compare a.instant b.instant

/-- Whether two moments are the same instant. -/
def sameInstant (a b : Moment) : Bool := a.instant == b.instant

end Moment

end Compliance
