import Compliance.Proofs.Text.Plain
import Compliance.Moment.Text
import Mathlib.Data.List.TakeWhile

/-!
# Moments are read back

A moment in the years that time stamps have is written as a day or as a time
stamp, and either is read back as the moment it was: on the same day, at the same
time, with the same offset.

## Main definitions

* `Moment.Stampable m` — the year of `m` has four digits and no sign.
* `Moment.read?_text` — a moment is read back from its text.
-/

namespace Compliance

open Text

/-- A moment in a year that a time stamp can hold. -/
def Moment.Stampable (m : Moment) : Prop := 0 ≤ m.date.year ∧ m.date.year ≤ 9999

namespace Moment

/-! ## Days -/

theorem day_bounds (d : Date) : d.month < 10 ^ 2 ∧ d.day < 10 ^ 2 := by
  obtain ⟨low, high⟩ := d.exists_day
  have month : d.month < 13 := by
    refine Nat.lt_of_not_le fun large => ?_
    have none : daysInMonth d.year d.month = 0 := by
      simp only [daysInMonth]
      split <;> omega
    omega
  have day : daysInMonth d.year d.month ≤ 31 := by
    simp only [daysInMonth]
    split <;> try omega
    split <;> omega
  omega

theorem readDay_dayText {d : Date} (low : 0 ≤ d.year) (high : d.year ≤ 9999) (rest : List Char) :
    readDay false (dayText 4 d ++ rest) = some (d, rest) := by
  obtain ⟨month, day⟩ := day_bounds d
  have year : d.year.natAbs < 10 ^ 4 := by omega
  have same : (d.year.natAbs : Int) = d.year := by omega
  have exists' : Date.of? d.year d.month d.day = some d := dif_pos d.exists_day
  have written : dayText 4 d ++ rest = padded 4 d.year.natAbs ++
      '-' :: (padded 2 d.month ++ '-' :: (padded 2 d.day ++ rest)) := by
    rw [dayText, paddedYear, if_neg (Int.not_lt.mpr low)]
    simp only [List.append_assoc, List.cons_append]
  rw [written]
  simp only [readDay, readFixed_padded (show 0 < 4 by decide) year,
    readFixed_padded (show 0 < 2 by decide) month, readFixed_padded (show 0 < 2 by decide) day,
    after?, Option.bind_eq_bind, Option.bind_some, if_true, Bool.false_eq_true, if_false, same,
    exists', Option.pure_def]

/-! ## Times and offsets -/

theorem readTime_clock (c : Clock) (rest : List Char) :
    readTime (padded 2 c.hour ++ (minuteText c ++ rest)) =
      some ((c.hour, c.minute, c.second), rest) := by
  obtain ⟨hour, minute, second, -⟩ := c.in_range
  have written : padded 2 c.hour ++ (minuteText c ++ rest) = padded 2 c.hour ++
      ':' :: (padded 2 c.minute ++ ':' :: (padded 2 c.second ++ rest)) := by
    simp only [minuteText, List.append_assoc, List.cons_append]
  have two : 0 < 2 := by decide
  rw [written]
  simp only [readTime, readFixed_padded two (show c.hour < 10 ^ 2 by omega),
    readFixed_padded two (show c.minute < 10 ^ 2 by omega),
    readFixed_padded two (show c.second < 10 ^ 2 by omega),
    after?, Option.bind_eq_bind, Option.bind_some, if_true, Option.pure_def]

theorem readNat_append_zeros (cs : List Char) (count : Nat) :
    readNat (cs ++ List.replicate count '0') = readNat cs * Nat.pow 10 count := by
  rw [readNat, Nat.ofDigitChars_append, Nat.ofDigitChars_replicate_zero, Nat.mul_comm]
  rfl

/-- A fraction without its trailing zeros, with these behind it again. -/
theorem fractionDigits_append (n : Nat) (h : n < 10 ^ 9) :
    fractionDigits n ++ List.replicate (9 - (fractionDigits n).length) '0' = padded 9 n ∧
      (fractionDigits n).length ≤ 9 := by
  have split : ((padded 9 n).reverse.dropWhile (· = '0')).reverse ++
      ((padded 9 n).reverse.takeWhile (· = '0')).reverse = padded 9 n := by
    rw [← List.reverse_append, List.takeWhile_append_dropWhile, List.reverse_reverse]
  have zeros : ((padded 9 n).reverse.takeWhile (· = '0')).reverse =
      List.replicate ((padded 9 n).reverse.takeWhile (· = '0')).length '0' := by
    rw [List.eq_replicate_iff]
    refine ⟨List.length_reverse, fun c hc => ?_⟩
    simpa using List.mem_takeWhile_imp (List.mem_reverse.mp hc)
  have len := congrArg List.length split
  rw [List.length_append, length_padded_of_lt (by decide) h] at len
  rw [zeros, List.length_replicate] at len
  have count : 9 - (fractionDigits n).length =
      ((padded 9 n).reverse.takeWhile (· = '0')).length := by
    rw [fractionDigits]
    omega
  refine ⟨?_, by rw [fractionDigits]; omega⟩
  rw [count, ← zeros]
  exact split

/-- The fraction of a second is read back in front of an offset. -/
theorem readFraction_fraction {n : Nat} (h : n < 10 ^ 9) {rest : List Char}
    (stops : StopsAt Char.isDigit rest) (point : rest.head? ≠ some '.') :
    readFraction ((if n = 0 then [] else '.' :: fractionDigits n) ++ rest) = some (n, rest) := by
  split
  · next zero =>
    rw [List.nil_append, zero]
    simp only [readFraction]
    split
    · exact absurd rfl point
    · rfl
  · next nonzero =>
    obtain ⟨whole, short⟩ := fractionDigits_append n h
    have digits : (fractionDigits n).all Char.isDigit = true := by
      have every := all_isDigit_padded 9 n
      rw [← whole, List.all_append, Bool.and_eq_true] at every
      exact every.1
    have value : readNat (fractionDigits n) * Nat.pow 10 (9 - (fractionDigits n).length) = n := by
      rw [← readNat_append_zeros, whole, readNat_padded]
    have nonempty : (fractionDigits n).isEmpty = false := by
      rw [List.isEmpty_eq_false_iff]
      intro none
      rw [none] at value
      exact nonzero (value.symm.trans (Nat.zero_mul _))
    rw [List.cons_append, readFraction, takeDigits_append digits stops]
    simp only [nonempty, Bool.false_eq_true, if_false, List.take_of_length_le short, value]

/-- Neither digits nor a fraction go on into an offset. -/
private theorem offset_stops (offset : Int) :
    StopsAt Char.isDigit (if offset = 0 then ['Z'] else offsetText offset) ∧
      (if offset = 0 then ['Z'] else offsetText offset).head? ≠ some '.' := by
  split
  · exact ⟨stopsAt_cons rfl, by decide⟩
  · rw [offsetText]
    split
    · exact ⟨stopsAt_cons rfl, by simp⟩
    · exact ⟨stopsAt_cons rfl, by simp⟩

private theorem readOffset_signed {sign : Char} (known : sign = '+' ∨ sign = '-') {n : Nat}
    (h : n < 24 * 60) :
    readOffset (sign :: (padded 2 (n / 60) ++ ':' :: (padded 2 (n % 60) ++ []))) =
      some (if sign = '-' then -(n : Int) else n) := by
  have two : 0 < 2 := by decide
  have hours : n / 60 < 10 ^ 2 := by omega
  have minutes : n % 60 < 10 ^ 2 := by omega
  have inside : n / 60 < 24 ∧ n % 60 < 60 := by omega
  have total : ((n / 60 : Nat) : Int) * 60 + (n % 60 : Nat) = n := by omega
  dsimp only [readOffset, guard]
  split
  · next same =>
    rw [(List.cons.inj same).1] at known
    exact absurd known (by decide)
  · next same =>
    rw [(List.cons.inj same).1] at known
    exact absurd known (by decide)
  · next same =>
    obtain ⟨rfl, rfl⟩ := List.cons.inj same
    simp only [if_pos known, readFixed_padded two hours, readFixed_padded two minutes,
      after?, Option.bind_eq_bind, Option.bind_some, Option.pure_def, if_true, true_and,
      if_pos inside, total]
  · next same => cases same

theorem readOffset_offset {offset : Int} (h : offset.natAbs < 24 * 60) :
    readOffset (if offset = 0 then ['Z'] else offsetText offset) = some offset := by
  split
  · next zero =>
    rw [zero]
    rfl
  · have written : offsetText offset = (if offset < 0 then '-' else '+') ::
        (padded 2 (offset.natAbs / 60) ++ ':' :: (padded 2 (offset.natAbs % 60) ++ [])) := by
      rw [offsetText, List.append_nil, List.cons_append]
    rw [written]
    by_cases negative : offset < 0
    · rw [if_pos negative, readOffset_signed (Or.inr rfl) h, if_pos rfl]
      congr 1
      omega
    · rw [if_neg negative, readOffset_signed (Or.inl rfl) h, if_neg (by decide)]
      congr 1
      omega

/-! ## Time stamps -/

theorem readSign_of_isDigit {c : Char} (cs : List Char) (h : c.isDigit = true) :
    readSign (c :: cs) = (false, c :: cs) := by
  simp only [readSign]
  split
  · next hc =>
    obtain ⟨rfl, -⟩ := List.cons.inj hc
    exact absurd h (by decide)
  · next hc =>
    obtain ⟨rfl, -⟩ := List.cons.inj hc
    exact absurd h (by decide)
  · rfl

/-- What stands behind the day in a time stamp. -/
private def clockText (m : Moment) : List Char :=
  'T' :: (padded 2 m.clock.hour ++ (minuteText m.clock ++
    ((if m.clock.nanosecond = 0 then [] else '.' :: fractionDigits m.clock.nanosecond) ++
      (if m.offset = 0 then ['Z'] else offsetText m.offset))))

private theorem stampText_eq (m : Moment) : stampText m = dayText 4 m.date ++ clockText m := by
  simp only [stampText, clockText, List.append_assoc, List.cons_append]

theorem readStamp_stampText {m : Moment} (h : m.Stampable) : readStamp (stampText m) = some m := by
  obtain ⟨-, -, seconds, nanoseconds⟩ := m.clock.in_range
  obtain ⟨stops, point⟩ := offset_stops m.offset
  have clock : Clock.of? m.clock.hour m.clock.minute m.clock.second m.clock.nanosecond =
      some m.clock := dif_pos m.clock.in_range
  have self : Moment.of? m.date m.clock m.offset = some m := dif_pos m.offset_range
  rw [stampText_eq, readStamp, readDay_dayText h.1 h.2, clockText]
  simp only [Option.bind_eq_bind, Option.bind_some, List.head?_cons, List.tail_cons,
    readTime_clock, readFraction_fraction nanoseconds stops point,
    readOffset_offset m.offset_range, if_neg (Nat.ne_of_lt seconds), clock, self, guard]
  rfl

private theorem readSign_dayText {d : Date} (low : 0 ≤ d.year) (rest : List Char) :
    readSign (dayText 4 d ++ rest) = (false, dayText 4 d ++ rest) := by
  obtain ⟨first, more, run⟩ := List.exists_cons_of_length_pos
    (show 0 < (padded 4 d.year.natAbs).length by rw [length_padded]; omega)
  have digit : first.isDigit = true := by
    have every := all_isDigit_padded 4 d.year.natAbs
    rw [run, List.all_cons, Bool.and_eq_true] at every
    exact every.1
  rw [dayText, paddedYear, if_neg (Int.not_lt.mpr low), run]
  exact readSign_of_isDigit _ digit

theorem readDayOnly_dayText {d : Date} (low : 0 ≤ d.year) (high : d.year ≤ 9999) :
    readDayOnly (dayText 4 d) = some (universal d Clock.midnight) := by
  have sign := readSign_dayText low []
  have day := readDay_dayText low high []
  rw [List.append_nil] at sign day
  simp only [readDayOnly, sign, day, Option.bind_eq_bind, Option.bind_some, guard, if_true]
  rfl

theorem readDayOnly_stampText {m : Moment} (h : m.Stampable) :
    readDayOnly (stampText m) = none := by
  rw [stampText_eq, readDayOnly, readSign_dayText h.1]
  simp only [readDay_dayText h.1 h.2, Option.bind_eq_bind, Option.bind_some, guard, clockText,
    reduceCtorEq, if_false]
  rfl

/-! ## Texts -/

private theorem all_isPlain_padded (width n : Nat) : (padded width n).all isPlain = true :=
  isPlain_all_of_isDigit (all_isDigit_padded width n)

private theorem all_isPlain_dayText {d : Date} (low : 0 ≤ d.year) :
    (dayText 4 d).all isPlain = true := by
  have dash : isPlain '-' = true := by decide
  rw [dayText, paddedYear, if_neg (Int.not_lt.mpr low)]
  simp only [List.all_append, List.all_cons, all_isPlain_padded, dash, Bool.and_self]

private theorem all_isPlain_stampText {m : Moment} (low : 0 ≤ m.date.year) :
    (stampText m).all isPlain = true := by
  obtain ⟨-, -, -, nanoseconds⟩ := m.clock.in_range
  have fraction : (fractionDigits m.clock.nanosecond).all isPlain = true := by
    have every := all_isPlain_padded 9 m.clock.nanosecond
    rw [← (fractionDigits_append _ nanoseconds).1, List.all_append, Bool.and_eq_true] at every
    exact every.1
  have signs : isPlain '-' = true ∧ isPlain '+' = true ∧ isPlain 'T' = true ∧
      isPlain 'Z' = true ∧ isPlain ':' = true ∧ isPlain '.' = true := by decide
  obtain ⟨minus, plus, tee, zed, colon, point⟩ := signs
  have offset : (if m.offset = 0 then ['Z'] else offsetText m.offset).all isPlain = true := by
    split
    · simp [zed]
    · rw [offsetText]
      split <;> simp [all_isPlain_padded, minus, plus, colon]
  have seconds : (if m.clock.nanosecond = 0 then []
      else '.' :: fractionDigits m.clock.nanosecond).all isPlain = true := by
    split
    · rfl
    · rw [List.all_cons, point, fraction, Bool.and_self]
  simp only [stampText_eq, clockText, minuteText, List.all_append, List.all_cons,
    all_isPlain_dayText low, all_isPlain_padded, tee, colon, seconds, offset, Bool.and_self]

/-- The text of a moment is a plain one, which is read in one of the two forms. -/
theorem text_eq {m : Moment} (h : m.Stampable) :
    ∃ cs, m.text = String.ofList cs ∧ cs.all isPlain = true ∧
      (readDayOnly cs <|> readStamp cs) = some m := by
  by_cases alone : m.offset = 0 ∧ m.clock = Clock.midnight
  · refine ⟨dayText 4 m.date, by rw [text, if_pos alone], all_isPlain_dayText h.1, ?_⟩
    rw [readDayOnly_dayText h.1 h.2]
    obtain ⟨date, clock, offset, range⟩ := m
    obtain ⟨rfl, rfl⟩ := alone
    rfl
  · refine ⟨stampText m, ?_, all_isPlain_stampText h.1, ?_⟩
    · rw [text, if_neg alone, if_neg (Int.not_lt.mpr h.1)]
    · rw [readDayOnly_stampText h, readStamp_stampText h]
      rfl

/-- **A moment is read back from its text.** -/
theorem read?_text {m : Moment} (h : m.Stampable) : read? m.text = some m := by
  obtain ⟨cs, written, plain, found⟩ := text_eq h
  have content : (unquote (trim m.text)).toList = cs := by
    rw [written, trim_of_plain plain, unquote_of_plain plain, String.toList_ofList]
  simp only [read?, content]
  cases hd : readDayOnly cs with
  | some alone => simpa [hd] using found
  | none =>
    have stamp : readStamp cs = some m := by simpa [hd] using found
    simp [stamp]

end Moment

end Compliance
