import Compliance.Moment
import Compliance.Text.Blank
import Compliance.Text.Digits
import Compliance.Text.Quoted

/-!
# The text of a moment

Reading tries three forms in turn: a day alone, which means its midnight in
universal time; a time stamp, which is a day, a time and an offset; and a day and
a time without an offset, taken in universal time.  Writing uses the day alone for
a midnight in universal time, and a time stamp otherwise.

## Conventions

The three forms are the documented ones of the `time` library (version 0.3):
`[year]-[month]-[day]`, RFC 3339, and `[year]-[month]-[day]T[hour]:[minute]:[second]`.

* *Years.*  A year has four digits.  In the first and the last form it may have a
  sign, so years run from -9999 to 9999.  RFC 3339 has the years from 0 to 9999; an
  earlier one is written in the plain form of the library, which no form reads back.
* *Leap seconds.*  A second 60 is read in a time stamp only, where it is the last
  second of a month in universal time.  It denotes the last nanosecond before the
  next month.
* *Fractions.*  A time stamp has any number of digits behind the point, and those
  behind the ninth are dropped, not rounded.  A fraction is written without trailing
  zeros.
* *Offsets.*  `Z` or `z`, or less than a day in hours and minutes.
* *Separators.*  Between day and time of a time stamp stands any ASCII character.

## Main definitions

* `Moment.read? s` — the moment that a text denotes.
* `Moment.text m` — the text of a moment.
-/

namespace Compliance

open Text

namespace Moment

/-! ## Reading -/

/-- The rest of a text behind one given character. -/
def after? (c : Char) : List Char → Option (List Char)
  | d :: rest => if d = c then some rest else none
  | [] => none

/-- An optional sign in front of a number. -/
def readSign : List Char → Bool × List Char
  | '-' :: rest => (true, rest)
  | '+' :: rest => (false, rest)
  | cs => (false, cs)

/-- A day: a year of four digits, a month and a day of two, with dashes between. -/
def readDay (negative : Bool) (cs : List Char) : Option (Date × List Char) := do
  let (year, cs) ← readFixed 4 cs
  let cs ← after? '-' cs
  let (month, cs) ← readFixed 2 cs
  let cs ← after? '-' cs
  let (day, cs) ← readFixed 2 cs
  let date ← Date.of? (if negative then -(year : Int) else year) month day
  return (date, cs)

/-- Hours, minutes and seconds of two digits each, with colons between; not yet checked. -/
def readTime (cs : List Char) : Option ((Nat × Nat × Nat) × List Char) := do
  let (hour, cs) ← readFixed 2 cs
  let cs ← after? ':' cs
  let (minute, cs) ← readFixed 2 cs
  let cs ← after? ':' cs
  let (second, cs) ← readFixed 2 cs
  return ((hour, minute, second), cs)

/-- A fraction of a second in nanoseconds: a point and at least one digit, of which those after
the ninth are dropped.  Without a point the fraction is zero. -/
def readFraction : List Char → Option (Nat × List Char)
  | '.' :: cs =>
    let (run, rest) := takeDigits cs
    if run.isEmpty then none
    else
      let kept := run.take 9
      some (readNat kept * Nat.pow 10 (9 - kept.length), rest)
  | cs => some (0, cs)

/-- An offset to the end of the text, in minutes: `Z`, or a sign, hours and minutes. -/
def readOffset : List Char → Option Int
  | ['Z'] | ['z'] => some 0
  | sign :: cs => do
    guard (sign = '+' ∨ sign = '-')
    let (hours, cs) ← readFixed 2 cs
    let cs ← after? ':' cs
    let (minutes, cs) ← readFixed 2 cs
    guard (cs = [] ∧ hours < 24 ∧ minutes < 60)
    let total : Int := hours * 60 + minutes
    return if sign = '-' then -total else total
  | [] => none

/-- Whether the last second of a minute of a local day is the last one of a month in universal
time, where a leap second may follow.  A clock ahead of universal time can only show it on the
first day of the next month, and no clock is a whole day behind. -/
def isLeapPlace (date : Date) (hour minute : Nat) (offset : Int) : Bool :=
  let universalMinute : Int := hour * 60 + minute - offset
  (universalMinute == 1439 && date.endsMonth)
    || (universalMinute == -1 && date.startsMonth)

/-- A day alone: its midnight in universal time. -/
def readDayOnly (cs : List Char) : Option Moment := do
  let (negative, cs) := readSign cs
  let (date, cs) ← readDay negative cs
  guard (cs = [])
  return universal date Clock.midnight

/-- A time stamp: a day, any one ASCII character, a time, a fraction and an offset.  A leap
second is the last nanosecond of the second before it. -/
def readStamp (cs : List Char) : Option Moment := do
  let (date, cs) ← readDay false cs
  let separator ← cs.head?
  guard (separator.toNat < 128)
  let ((hour, minute, second), cs) ← readTime cs.tail
  let (nanosecond, cs) ← readFraction cs
  let offset ← readOffset cs
  if second = 60 then
    let clock ← Clock.of? hour minute 59 999999999
    guard (isLeapPlace date hour minute offset)
    Moment.of? date clock offset
  else
    let clock ← Clock.of? hour minute second nanosecond
    Moment.of? date clock offset

/-- A day and a time without an offset, taken in universal time. -/
def readLocal (cs : List Char) : Option Moment := do
  let (negative, cs) := readSign cs
  let (date, cs) ← readDay negative cs
  let cs ← after? 'T' cs
  let ((hour, minute, second), cs) ← readTime cs
  guard (cs = [])
  let clock ← Clock.of? hour minute second 0
  return universal date clock

/-- The moment that a text denotes.  Outer blanks and one pair of quotes are dropped. -/
def read? (s : String) : Option Moment :=
  let cs := (unquote (trim s)).toList
  readDayOnly cs <|> readStamp cs <|> readLocal cs

/-! ## Writing -/

/-- A fraction of a second without trailing zeros. -/
def fractionDigits (nanosecond : Nat) : List Char :=
  ((padded 9 nanosecond).reverse.dropWhile (· = '0')).reverse

/-- A year with at least `width` characters, a minus sign among them. -/
def paddedYear (width : Nat) (year : Int) : List Char :=
  if year < 0 then '-' :: padded (width - 1) year.natAbs else padded width year.natAbs

/-- A day with dashes between its numbers, the year filled to `width` characters. -/
def dayText (width : Nat) (d : Date) : List Char :=
  paddedYear width d.year ++ '-' :: padded 2 d.month ++ '-' :: padded 2 d.day

/-- Minutes and seconds with colons in front. -/
def minuteText (c : Clock) : List Char := ':' :: padded 2 c.minute ++ ':' :: padded 2 c.second

/-- The sign, hours and minutes of an offset. -/
def offsetText (offset : Int) : List Char :=
  (if offset < 0 then '-' else '+') :: padded 2 (offset.natAbs / 60) ++
    ':' :: padded 2 (offset.natAbs % 60)

/-- A time stamp on the moment's own clock. -/
def stampText (m : Moment) : List Char :=
  dayText 4 m.date ++ 'T' :: padded 2 m.clock.hour ++ minuteText m.clock ++
    (if m.clock.nanosecond = 0 then [] else '.' :: fractionDigits m.clock.nanosecond) ++
    (if m.offset = 0 then ['Z'] else offsetText m.offset)

/-- The form for years that a time stamp cannot hold: blanks between the parts, the hour without
a leading zero, always a fraction, and seconds in the offset. -/
def plainText (m : Moment) : List Char :=
  let fraction := fractionDigits m.clock.nanosecond
  dayText (if m.date.year < 0 then 5 else 4) m.date ++
    ' ' :: natDigits m.clock.hour ++ minuteText m.clock ++
    '.' :: (if fraction.isEmpty then ['0'] else fraction) ++
    ' ' :: offsetText m.offset ++ [':', '0', '0']

/-- The text of a moment: the day alone at midnight in universal time, else a time stamp. -/
def text (m : Moment) : String :=
  String.ofList <|
    if m.offset = 0 ∧ m.clock = Clock.midnight then dayText 4 m.date
    else if m.date.year < 0 then plainText m
    else stampText m

end Moment

end Compliance
