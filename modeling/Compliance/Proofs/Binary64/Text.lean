import Compliance.Proofs.Binary64.Rounding
import Compliance.Proofs.Moment.Text
import Compliance.Value.Text

/-!
# Finite numbers are read back

A finite number is written as digits, a point, and more digits.  A whole one is
written exactly; the decimal of any other has a fraction, because a whole number
in the basin of a magnitude is the magnitude itself.

## Main definitions

* `Magnitude.WrittenAs x whole fraction` — the runs of digits that `x` is written with.
* `Binary64.read?_text` — a finite number is read back from its text.
-/

namespace Compliance

open Text

namespace Magnitude

/-! ## Whole magnitudes -/

theorem holds_units (x : Magnitude) (factor : Nat) (positive : 0 < factor) :
    x.basin.holds factor (4 * (x.units * factor)) = true := by
  have wide : 0 < 2 ^ x.scale * factor := Nat.mul_pos (Nat.two_pow_pos _) positive
  have centre : x.units * factor = x.significand * (2 ^ x.scale * factor) := by
    rw [units, Nat.shiftLeft_eq, Nat.mul_assoc]
  have low : x.basin.low * factor =
      4 * (x.units * factor) - x.reach * (2 ^ x.scale * factor) := by
    rw [← Nat.mul_assoc 4, ← Nat.mul_assoc x.reach, ← Nat.sub_mul]
    simp only [basin, reach, Nat.shiftLeft_eq, Nat.one_mul]
  have high : x.basin.high * factor = 4 * (x.units * factor) + 2 * (2 ^ x.scale * factor) := by
    rw [← Nat.mul_assoc 4, ← Nat.mul_assoc 2, ← Nat.add_mul]
    simp only [basin, Nat.shiftLeft_eq]
  simp only [Basin.holds, low, high]
  split
  · simp only [Bool.and_eq_true, decide_eq_true_eq]
    omega
  · next odd =>
    have nonzero : 0 < x.significand := by
      refine Nat.pos_of_ne_zero fun zero => odd ?_
      simp [basin, zero]
    have above : 0 < x.reach := by
      rw [reach]
      split <;> omega
    have first : 1 * (2 ^ x.scale * factor) ≤ x.significand * (2 ^ x.scale * factor) :=
      Nat.mul_le_mul_right _ nonzero
    have second : 1 * (2 ^ x.scale * factor) ≤ x.reach * (2 ^ x.scale * factor) :=
      Nat.mul_le_mul_right _ above
    simp only [Bool.and_eq_true, decide_eq_true_eq]
    omega

/-- A whole number in the basin of a magnitude is the magnitude. -/
theorem isWhole_of_holds {x : Magnitude} {n : Nat}
    (h : x.basin.holds 1 (4 * (n * unitsInOne)) = true) : x.isWhole = true := by
  obtain ⟨low, high, -⟩ := near_of_holds h
  have value : x.units = x.significand * 2 ^ x.scale := Nat.shiftLeft_eq _ _
  have one : unitsInOne = 1 <<< 1074 := rfl
  rw [Nat.one_shiftLeft] at one
  rw [isWhole, decide_eq_true_eq]
  generalize unitsInOne = one' at *
  by_cases coarse : 1074 ≤ x.scale
  · obtain ⟨more, hm⟩ := Nat.exists_eq_add_of_le coarse
    rw [value, hm, Nat.pow_add, ← one, Nat.mul_left_comm]
    exact Nat.mul_mod_right _ _
  · obtain ⟨more, hm⟩ := Nat.exists_eq_add_of_lt (Nat.lt_of_not_le coarse)
    have parts : n * one' = n * 2 ^ (more + 1) * 2 ^ x.scale := by
      rw [one, hm, Nat.mul_assoc, ← Nat.pow_add]
      congr 2
      omega
    have far : x.reach ≤ 2 := by
      rw [reach]
      split <;> omega
    have wide := Nat.two_pow_pos x.scale
    have reached : x.reach * (1 * 2 ^ x.scale) ≤ 2 * (1 * 2 ^ x.scale) :=
      Nat.mul_le_mul_right _ far
    rw [parts, Nat.one_mul] at low high
    rw [Nat.one_mul] at reached
    have same : x.significand = n * 2 ^ (more + 1) := by
      generalize n * 2 ^ (more + 1) = m at low high ⊢
      refine Nat.le_antisymm (Nat.le_of_not_lt fun above => ?_) (Nat.le_of_not_lt fun below => ?_)
      · have : (m + 1) * 2 ^ x.scale ≤ x.significand * 2 ^ x.scale := Nat.mul_le_mul_right _ above
        rw [Nat.succ_mul m] at this
        omega
      · have : (x.significand + 1) * 2 ^ x.scale ≤ m * 2 ^ x.scale := Nat.mul_le_mul_right _ below
        rw [Nat.succ_mul x.significand] at this
        omega
    rw [value, same, ← parts]
    exact Nat.mul_mod_left _ _

/-- The shortest decimal of a magnitude that is not whole has a fraction. -/
theorem exponent_shortest_neg {x : Magnitude} (tie : Tie) (h : x.isWhole = false) :
    (x.shortest tie).exponent < 0 := by
  refine Int.not_le.mp fun positive => ?_
  have nonzero : x.significand ≠ 0 := by
    intro zero
    simp [isWhole, units, zero] at h
  have inside := x.holds_shortest tie nonzero
  generalize x.shortest tie = d at inside positive
  have none : (-d.exponent).toNat = 0 := by omega
  rw [none, ← Nat.mul_assoc, Nat.mul_left_comm] at inside
  exact absurd (isWhole_of_holds inside) (by simp [h])

/-! ## The text of a magnitude -/

/-- The runs of digits in front of the point and behind it that a magnitude is written with, and
which denote it together. -/
structure WrittenAs (x : Magnitude) (whole fraction : List Char) : Prop where
  text : x.text = whole ++ '.' :: fraction
  whole_ne : whole ≠ []
  fraction_ne : fraction ≠ []
  whole_digits : whole.all Char.isDigit = true
  fraction_digits : fraction.all Char.isDigit = true
  value : ∀ negative,
    Binary64.ofDecimal negative (readNat (whole ++ fraction)) (-fraction.length) =
      .finite negative x

theorem writtenAs_of_isWhole {x : Magnitude} (h : x.isWhole = true) :
    x.WrittenAs (natDigits x.floor) ['0'] where
  text := by rw [Magnitude.text, if_pos h]
  whole_ne := natDigits_ne_nil _
  fraction_ne := List.cons_ne_nil _ _
  whole_digits := all_isDigit_natDigits _
  fraction_digits := rfl
  value negative := by
    have digits : readNat (natDigits x.floor ++ ['0']) = x.floor * 10 := by
      rw [readNat, Nat.ofDigitChars_append]
      have front : Nat.ofDigitChars 10 (natDigits x.floor) 0 = x.floor := readNat_natDigits _
      rw [front, Nat.ofDigitChars_cons, Nat.ofDigitChars_nil, Nat.mul_comm]
      rfl
    have exact' : x.units = x.floor * unitsInOne := by
      rw [isWhole, decide_eq_true_eq] at h
      exact (Nat.div_mul_cancel (Nat.dvd_of_mod_eq_zero h)).symm
    have inside := x.holds_units 10 (by decide)
    have point : 4 * (x.units * 10) = x.floor * 10 * (Nat.pow 10 0 * (4 * unitsInOne)) := by
      rw [exact', show Nat.pow 10 0 = 1 from rfl, Nat.one_mul, Nat.mul_right_comm,
        ← Nat.mul_left_comm]
    rw [point] at inside
    rw [digits]
    exact ofDecimal_of_holds negative inside

/-- Any other magnitude is written with its shortest decimal. -/
theorem writtenAs_of_not_isWhole {x : Magnitude} (h : x.isWhole = false) :
    ∃ whole fraction, x.WrittenAs whole fraction := by
  have nonzero : x.significand ≠ 0 := by
    intro zero
    simp [isWhole, units, zero] at h
  have negative := x.exponent_shortest_neg .up h
  have value := fun sign => x.ofDecimal_shortest sign .up nonzero
  have written : x.text = (x.shortest .up).positional := by
    rw [Magnitude.text, if_neg (by simp [h])]
  generalize x.shortest .up = d at negative value written
  obtain ⟨digits, exponent⟩ := d
  simp only at negative value
  obtain ⟨places, hp⟩ : ∃ places : Nat, (-exponent).toNat = places + 1 :=
    ⟨(-exponent).toNat - 1, by omega⟩
  have whole : exponent.toNat = 0 := by omega
  have long : places + 2 ≤ (padded (places + 2) digits).length := by
    rw [length_padded]
    exact Nat.le_max_left _ _
  have split : (padded (places + 2) digits).take
        ((padded (places + 2) digits).length - (places + 1)) ++
      (padded (places + 2) digits).drop
        ((padded (places + 2) digits).length - (places + 1)) = padded (places + 2) digits :=
    List.take_append_drop _ _
  have every := all_isDigit_padded (places + 2) digits
  rw [← split, List.all_append, Bool.and_eq_true] at every
  refine ⟨_, _, ?_, ?_, ?_, every.1, every.2, fun sign => ?_⟩
  · simp only [written, Decimal.positional, hp, whole, List.replicate_zero, List.append_nil]
    rw [if_neg (Nat.succ_ne_zero places)]
  · refine List.ne_nil_of_length_pos ?_
    rw [List.length_take]
    omega
  · refine List.ne_nil_of_length_pos ?_
    rw [List.length_drop]
    omega
  · have count : -(((padded (places + 2) digits).drop
        ((padded (places + 2) digits).length - (places + 1))).length : Int) = exponent := by
      rw [List.length_drop]
      omega
    rw [split, readNat_padded, count, value]

/-- **A magnitude is written as two runs of digits that denote it.** -/
theorem exists_writtenAs (x : Magnitude) : ∃ whole fraction, x.WrittenAs whole fraction := by
  cases h : x.isWhole with
  | true => exact ⟨_, _, writtenAs_of_isWhole h⟩
  | false => exact writtenAs_of_not_isWhole h

end Magnitude

/-! ## Reading -/

/-- Digits with a point among them are read as they stand. -/
theorem readPlain_append {whole fraction : List Char} (hw : whole.all Char.isDigit = true)
    (hf : fraction.all Char.isDigit = true) (nonempty : whole ≠ []) :
    readPlain (whole ++ '.' :: fraction) =
      some (readNat (whole ++ fraction), fraction.length, []) := by
  have front : takeDigits (whole ++ '.' :: fraction) = (whole, '.' :: fraction) :=
    takeDigits_append hw (stopsAt_cons rfl)
  have back : takeDigits fraction = (fraction, []) := by
    have := takeDigits_append hf (stopsAt_nil Char.isDigit)
    rwa [List.append_nil] at this
  have notEmpty : whole.isEmpty = false := List.isEmpty_eq_false_iff.mpr nonempty
  simp only [readPlain, front, back, notEmpty, Bool.false_and, Bool.false_eq_true, if_false]

private theorem toLower_of_isDigit {c : Char} (h : c.isDigit = true) : c.toLower = c := by
  simp only [Char.isDigit, Bool.and_eq_true, decide_eq_true_eq] at h
  refine dif_neg fun upper => ?_
  have : (65 : UInt32) ≤ 57 := UInt32.le_trans upper.1 h.2
  exact absurd this (by decide)

/-- A text that starts with a digit is no word for a number. -/
private theorem map_toLower_ne {c d : Char} {cs ds : List Char} (hc : c.isDigit = true)
    (hd : d.isDigit = false) : (c :: cs).map Char.toLower ≠ d :: ds := by
  intro h
  rw [List.map_cons, List.cons.injEq, toLower_of_isDigit hc] at h
  rw [← h.1, hc] at hd
  cases hd

/-- Two runs of digits with a point between are read as the decimal that they are. -/
theorem Binary64.read?_decimal {whole fraction : List Char} (nonempty : whole ≠ [])
    (hw : whole.all Char.isDigit = true) (hf : fraction.all Char.isDigit = true) (negative : Bool) :
    Binary64.read? (String.ofList ((if negative then ['-'] else []) ++ whole ++ '.' :: fraction)) =
      some (ofDecimal negative (readNat (whole ++ fraction)) (-fraction.length)) := by
  have plain := readPlain_append hw hf nonempty
  obtain ⟨first, more, rfl⟩ := List.exists_cons_of_ne_nil nonempty
  have digit : first.isDigit = true := by
    rw [List.all_cons, Bool.and_eq_true] at hw
    exact hw.1
  have signed : Moment.readSign
      ((if negative then ['-'] else []) ++ first :: more ++ '.' :: fraction) =
        (negative, first :: more ++ '.' :: fraction) := by
    cases negative with
    | true => rfl
    | false => exact Moment.readSign_of_isDigit _ digit
  have inf : (first :: more ++ '.' :: fraction).map Char.toLower ≠ "inf".toList :=
    map_toLower_ne digit rfl
  have infinity : (first :: more ++ '.' :: fraction).map Char.toLower ≠ "infinity".toList :=
    map_toLower_ne digit rfl
  have nan : (first :: more ++ '.' :: fraction).map Char.toLower ≠ "nan".toList :=
    map_toLower_ne digit rfl
  simp only [Binary64.read?, String.toList_ofList, signed]
  rw [if_neg (not_or.mpr ⟨inf, infinity⟩), if_neg nan, plain]
  simp only [readPower, Option.bind_eq_bind, Option.bind_some, Option.pure_def]
  generalize readNat (first :: more ++ fraction) = n
  have near : max (-(400 + ((natDigits n).length : Int) + (fraction.length : Int)))
      (min (400 + ((natDigits n).length : Int) + (fraction.length : Int)) 0) -
        (fraction.length : Int) = -(fraction.length : Int) := by
    omega
  rw [near]

/-- **A finite number is read back from its text**, its sign included. -/
theorem Binary64.read?_text (negative : Bool) (x : Magnitude) :
    Binary64.read? (Binary64.finite negative x).text = some (.finite negative x) := by
  obtain ⟨whole, fraction, h⟩ := x.exists_writtenAs
  have written : (Binary64.finite negative x).text =
      String.ofList ((if negative then ['-'] else []) ++ whole ++ '.' :: fraction) := by
    rw [Binary64.text, h.text]
    cases negative <;> simp
  rw [written, Binary64.read?_decimal h.whole_ne h.whole_digits h.fraction_digits, h.value]

end Compliance
