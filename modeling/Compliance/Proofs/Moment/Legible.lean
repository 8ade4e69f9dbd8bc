import Compliance.Proofs.Moment.Text
import Mathlib.Data.Option.Basic

/-!
# Moments that are not read back

A year before 0 is read with a minus sign and four digits, in the forms that have
no offset.  As a day alone it is written with the sign among four characters, so
that a year of less than four digits loses one; and with a time of day it has a
form that no reader knows.  Of all moments that are read, these are the ones that
are not read back from their own text.

## Main definitions

* `Moment.Legible m` — the year is not before 0, or has four digits and the time is midnight.
* `Moment.read?_text_of_legible`, `Moment.read?_text_of_not_legible` — a moment that was read is
  read back from its text just if it is legible.
-/

namespace Compliance

open Text

namespace Moment

variable {m : Moment} {d : Date} {cs rest : List Char}

/-- A moment with a text that is read: in a year that has no sign, or at midnight in a year of
four digits with one. -/
def Legible (m : Moment) : Prop :=
  0 ≤ m.date.year ∨ m.date.year ≤ -1000 ∧ m.clock = Clock.midnight

instance (m : Moment) : Decidable m.Legible := inferInstanceAs (Decidable (_ ∨ _))

/-! ## The years of moments that are read -/

/-- What is read has a year of at most four digits, and where this is negative, no offset. -/
structure Readable (m : Moment) : Prop where
  small : m.date.year.natAbs < 10 ^ 4
  universal : m.date.year < 0 → m.offset = 0

theorem year_of_of? {year : Int} {month day : Nat} (h : Date.of? year month day = some d) :
    d.year = year := by
  rw [Date.of?] at h
  split at h
  · cases h
    rfl
  · cases h

/-- A year is read from four digits, and is not negative without a sign. -/
theorem year_of_readDay {negative : Bool} (h : readDay negative cs = some (d, rest)) :
    d.year.natAbs < 10 ^ 4 ∧ (negative = false → 0 ≤ d.year) := by
  simp only [readDay, Option.bind_eq_bind, Option.bind_eq_some_iff, Option.pure_def,
    Option.some.injEq] at h
  obtain ⟨⟨year, cs⟩, four, cs, -, ⟨month, cs⟩, -, cs, -, ⟨day, cs⟩, -, date, exists', same⟩ := h
  obtain ⟨rfl, -⟩ := Prod.mk.inj same
  rw [year_of_of? exists']
  have small := readFixed_lt four
  cases negative with
  | false => exact ⟨small, fun _ => Int.natCast_nonneg year⟩
  | true => exact ⟨(Int.natAbs_neg year).symm ▸ small, fun h => by cases h⟩

theorem readable_of_readDayOnly (h : readDayOnly cs = some m) : m.Readable := by
  simp only [readDayOnly, Option.bind_eq_bind, Option.bind_eq_some_iff, Option.pure_def,
    Option.some.injEq] at h
  obtain ⟨⟨d, rest⟩, day, _, -, rfl⟩ := h
  exact ⟨(year_of_readDay day).1, fun _ => rfl⟩

theorem readable_of_readStamp (h : readStamp cs = some m) : m.Readable := by
  simp only [readStamp, Option.bind_eq_bind, Option.bind_eq_some_iff] at h
  obtain ⟨⟨d, rest⟩, day, _, -, _, -, ⟨_, _⟩, -, ⟨_, _⟩, -, offset, -, made⟩ := h
  obtain ⟨small, positive⟩ := year_of_readDay day
  have of_made {c : Clock} (made : Moment.of? d c offset = some m) : m.Readable := by
    rw [Moment.of?] at made
    split at made
    · obtain rfl := Option.some.inj made
      exact ⟨small, fun negative => absurd (positive rfl) (Int.not_le.mpr negative)⟩
    · cases made
  split at made
  · simp only [Option.bind_eq_some_iff] at made
    obtain ⟨_, -, _, -, made⟩ := made
    exact of_made made
  · simp only [Option.bind_eq_some_iff] at made
    obtain ⟨_, -, made⟩ := made
    exact of_made made

/-- A time without an offset has the clock of universal time. -/
theorem readable_of_readLocal (h : readLocal cs = some m) : m.Readable := by
  simp only [readLocal, Option.bind_eq_bind, Option.bind_eq_some_iff, Option.pure_def,
    Option.some.injEq] at h
  obtain ⟨⟨d, rest⟩, day, _, -, ⟨_, _⟩, -, _, -, _, -, rfl⟩ := h
  exact ⟨(year_of_readDay day).1, fun _ => rfl⟩

theorem readable_of_read? {s : String} (h : read? s = some m) : m.Readable := by
  simp only [read?, Option.orElse_eq_orElse, Option.orElse_eq_or, Option.or_eq_some_iff] at h
  rcases h with day | ⟨-, stamp | ⟨-, localTime⟩⟩
  · exact readable_of_readDayOnly day
  · exact readable_of_readStamp stamp
  · exact readable_of_readLocal localTime

/-! ## Behind a minus sign -/

theorem readDay_dash (negative : Bool) (cs : List Char) : readDay negative ('-' :: cs) = none := by
  have fails : readFixed 4 ([] ++ '-' :: cs) = none := readFixed_eq_none (by decide) rfl cs
  rw [List.nil_append] at fails
  rw [readDay, fails]
  rfl

theorem readDay_short {negative : Bool} {run : List Char} (short : run.length < 4) :
    readDay negative (run ++ '-' :: cs) = none := by
  rw [readDay, readFixed_eq_none short rfl cs]
  rfl

/-- The days of negative years are read behind the sign. -/
theorem readDay_behind (negative : d.year < 0) (small : d.year.natAbs < 10 ^ 4)
    (rest : List Char) :
    readDay true (padded 4 d.year.natAbs ++
      '-' :: (padded 2 d.month ++ '-' :: (padded 2 d.day ++ rest))) = some (d, rest) := by
  obtain ⟨month, day⟩ := day_bounds d
  have same : -(d.year.natAbs : Int) = d.year := by omega
  have exists' : Date.of? d.year d.month d.day = some d := dif_pos d.exists_day
  simp only [readDay, readFixed_padded (show 0 < 4 by decide) small,
    readFixed_padded (show 0 < 2 by decide) month, readFixed_padded (show 0 < 2 by decide) day,
    after?, Option.bind_eq_bind, Option.bind_some, if_true, same, exists', Option.pure_def]

/-- A text with a minus sign is a day alone, or a day and a time without an offset. -/
theorem read_dash (cs : List Char) : (readDayOnly ('-' :: cs) <|> readStamp ('-' :: cs) <|>
    readLocal ('-' :: cs)) = (readDayOnly ('-' :: cs) <|> readLocal ('-' :: cs)) := by
  have fails : readStamp ('-' :: cs) = none := by
    rw [readStamp, readDay_dash]
    rfl
  rw [fails]
  rfl

/-- No reader goes on where no day is, or where a blank is behind it. -/
theorem read_dash_none
    (h : readDay true cs = none ∨ ∃ d rest, readDay true cs = some (d, ' ' :: rest)) :
    (readDayOnly ('-' :: cs) <|> readLocal ('-' :: cs)) = none := by
  rcases h with fails | ⟨d, rest, found⟩
  · simp only [readDayOnly, readLocal, readSign, fails]
    rfl
  · simp only [readDayOnly, readLocal, readSign, found]
    rfl

/-! ## The texts of negative years -/

/-- The day of a negative year behind its sign. -/
private def behindSign (width : Nat) (d : Date) : List Char :=
  padded width d.year.natAbs ++ '-' :: (padded 2 d.month ++ '-' :: padded 2 d.day)

private theorem dayText_negative (width fewer : Nat) (one : width - 1 = fewer) (h : d.year < 0) :
    dayText width d = '-' :: behindSign fewer d := by
  rw [dayText, paddedYear, if_pos h, behindSign, one]
  simp only [List.append_assoc, List.cons_append]

/-- A text that starts with a minus sign and ends with a digit has nothing to drop. -/
private theorem content_dash (front : List Char) {digits : List Char} (nonempty : digits ≠ [])
    (h : digits.all Char.isDigit = true) :
    (unquote (trim (String.ofList ('-' :: (front ++ digits))))).toList =
      '-' :: (front ++ digits) := by
  have first : StopsAt isBlank ('-' :: (front ++ digits)) := stopsAt_cons (by decide)
  have last : StopsAt isBlank ('-' :: (front ++ digits)).reverse := by
    obtain ⟨d, run, reversed⟩ := List.exists_cons_of_ne_nil (List.reverse_ne_nil_iff.mpr nonempty)
    rw [← List.all_reverse, reversed, List.all_cons, Bool.and_eq_true] at h
    rw [← List.cons_append, List.reverse_append, reversed]
    exact stopsAt_cons (isBlank_of_isPlain (isPlain_of_isDigit h.1))
  rw [trim_of_ends first last, unquote, String.toList_ofList]
  split
  · next quoted => cases (List.cons.inj quoted).1
  · exact String.toList_ofList

/-- The day of a negative year is all there is to read. -/
private theorem content_dayText (h : d.year < 0) :
    (unquote (trim (String.ofList (dayText 4 d)))).toList = '-' :: behindSign 3 d := by
  have nonempty : padded 2 d.day ≠ [] := by simp [padded, natDigits_ne_nil]
  have content := content_dash (padded 3 d.year.natAbs ++ '-' :: (padded 2 d.month ++ ['-']))
    nonempty (all_isDigit_padded 2 d.day)
  have whole : padded 3 d.year.natAbs ++ '-' :: (padded 2 d.month ++ ['-']) ++ padded 2 d.day =
      behindSign 3 d := by
    simp only [behindSign, List.append_assoc, List.cons_append, List.nil_append]
  rw [dayText_negative 4 3 rfl h, ← whole]
  exact content

/-- What stands behind the day in the form of its own that negative years have. -/
private def plainClock (m : Moment) : List Char :=
  natDigits m.clock.hour ++ (minuteText m.clock ++
    '.' :: ((if (fractionDigits m.clock.nanosecond).isEmpty then ['0']
      else fractionDigits m.clock.nanosecond) ++ ' ' :: (offsetText m.offset ++ [':'])))

private theorem content_plainText (h : m.date.year < 0) :
    (unquote (trim (String.ofList (plainText m)))).toList =
      '-' :: (behindSign 4 m.date ++ ' ' :: (plainClock m ++ ['0', '0'])) := by
  have zeros : (['0', '0'] : List Char).all Char.isDigit = true := by decide
  have content := content_dash (behindSign 4 m.date ++ ' ' :: plainClock m) (by simp) zeros
  have whole : plainText m =
      '-' :: (behindSign 4 m.date ++ ' ' :: plainClock m ++ ['0', '0']) := by
    rw [plainText, if_pos h, dayText_negative 5 4 rfl h, plainClock]
    simp only [List.append_assoc, List.cons_append, List.nil_append]
  rw [whole, content]
  simp only [List.append_assoc, List.cons_append]

/-- A number of as many digits as are asked for is not filled up. -/
private theorem padded_three {n : Nat} (h : 1000 ≤ n) : padded 3 n = padded 4 n := by
  have long : ¬ (natDigits n).length ≤ 3 := fun short =>
    Nat.not_lt.mpr h ((Nat.length_toDigits_le_iff (by decide) (by decide)).mp short)
  have three : 3 - (natDigits n).length = 0 := by omega
  have four : 4 - (natDigits n).length = 0 := by omega
  rw [padded, padded, three, four]

/-! ## Reading back -/

/-- **A legible moment is read back from its text**, if it was read from any. -/
theorem read?_text_of_legible {s : String} (h : read? s = some m) (legible : m.Legible) :
    read? m.text = some m := by
  obtain ⟨small, atZero⟩ := readable_of_read? h
  by_cases negative : m.date.year < 0
  · obtain positive | ⟨long, midnight⟩ := legible
    · exact absurd positive (Int.not_le.mpr negative)
    have alone : m.offset = 0 ∧ m.clock = Clock.midnight := ⟨atZero negative, midnight⟩
    have day := readDay_behind negative small []
    rw [List.append_nil, ← padded_three (by omega)] at day
    have found : readDayOnly ('-' :: behindSign 3 m.date) =
        some (universal m.date Clock.midnight) := by
      simp only [readDayOnly, readSign, behindSign, day, Option.bind_eq_bind, Option.bind_some]
      rfl
    rw [read?, text, if_pos alone, content_dayText negative, read_dash, found]
    obtain ⟨date, clock, offset, range⟩ := m
    obtain ⟨rfl, rfl⟩ := alone
    rfl
  · exact read?_text ⟨Int.not_lt.mp negative, by omega⟩

/-- **Any other moment that is read is not read back**: its text is that of no moment. -/
theorem read?_text_of_not_legible {s : String} (h : read? s = some m) (illegible : ¬ m.Legible) :
    read? m.text = none := by
  obtain ⟨small, atZero⟩ := readable_of_read? h
  obtain ⟨negative, odd⟩ := not_or.mp illegible
  replace negative := Int.not_le.mp negative
  by_cases midnight : m.clock = Clock.midnight
  · -- the sign takes the place of a digit that reading asks for
    have short : (padded 3 m.date.year.natAbs).length < 4 := by
      have few : ¬ m.date.year ≤ -1000 := fun long => odd ⟨long, midnight⟩
      rw [length_padded_of_lt (by decide) (by omega)]
      decide
    rw [read?, text, if_pos ⟨atZero negative, midnight⟩, content_dayText negative, read_dash,
      behindSign]
    exact read_dash_none (.inl (readDay_short short))
  · have day := readDay_behind negative small (' ' :: (plainClock m ++ ['0', '0']))
    rw [read?, text, if_neg (fun alone => midnight alone.2), if_pos negative,
      content_plainText negative, read_dash, behindSign]
    refine read_dash_none (.inr ⟨m.date, plainClock m ++ ['0', '0'], ?_⟩)
    simpa only [List.append_assoc, List.cons_append] using day

end Moment

end Compliance
