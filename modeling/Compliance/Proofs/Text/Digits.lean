import Compliance.Text.Digits
import Mathlib.Algebra.Group.Nat.Defs
import Mathlib.Data.List.TakeDrop

/-!
# Runs of digits in a text

How far a run reaches is a matter of the character behind it.  A number that is
written and followed by anything but a digit is read back, and so is one of a
fixed width, whatever follows.

## Main definitions

* `StopsAt p rest` — no run of characters with `p` goes on into `rest`.
* `takeDigits_append` — a run of digits is taken up to where it stops.
* `readFixed_padded` — a number of a fixed width is read back.
-/

namespace Compliance.Text

/-! ## Where runs stop -/

/-- No run of characters that pass a test goes on into a text. -/
def StopsAt (p : Char → Bool) (rest : List Char) : Prop :=
  ∀ c, rest.head? = some c → p c = false

theorem stopsAt_nil (p : Char → Bool) : StopsAt p [] := by
  simp [StopsAt]

theorem stopsAt_cons {p : Char → Bool} {c : Char} {rest : List Char} (h : p c = false) :
    StopsAt p (c :: rest) := by
  rintro d ⟨rfl⟩
  exact h

theorem takeWhile_append {p : Char → Bool} {run rest : List Char} (h : run.all p = true)
    (stops : StopsAt p rest) : (run ++ rest).takeWhile p = run := by
  rw [List.takeWhile_append_of_pos (List.all_eq_true.mp h)]
  cases rest with
  | nil => simp
  | cons c rest => rw [List.takeWhile_cons, stops c rfl]; simp

theorem dropWhile_append {p : Char → Bool} {run rest : List Char} (h : run.all p = true)
    (stops : StopsAt p rest) : (run ++ rest).dropWhile p = rest := by
  rw [List.dropWhile_append_of_pos (List.all_eq_true.mp h)]
  cases rest with
  | nil => simp
  | cons c rest => rw [List.dropWhile_cons, stops c rfl]; simp

theorem span_append {p : Char → Bool} {run rest : List Char} (h : run.all p = true)
    (stops : StopsAt p rest) : (run ++ rest).span p = (run, rest) := by
  rw [List.span_eq_takeWhile_dropWhile, takeWhile_append h stops, dropWhile_append h stops]

theorem takeDigits_append {run rest : List Char} (h : run.all Char.isDigit = true)
    (stops : StopsAt Char.isDigit rest) : takeDigits (run ++ rest) = (run, rest) :=
  span_append h stops

/-! ## Written numbers -/

theorem natDigits_ne_nil (n : Nat) : natDigits n ≠ [] := Nat.toDigits_ne_nil

@[simp] theorem isEmpty_natDigits (n : Nat) : (natDigits n).isEmpty = false := by
  rw [List.isEmpty_eq_false_iff]
  exact natDigits_ne_nil n

@[simp] theorem all_isDigit_natDigits (n : Nat) : (natDigits n).all Char.isDigit = true := by
  rw [List.all_eq_true]
  intro _
  exact isDigit_of_mem_natDigits

/-- A run of digits denotes a number of at most so many. -/
theorem readNat_lt {cs : List Char} (h : cs.all Char.isDigit = true) :
    readNat cs < 10 ^ cs.length := by
  induction cs with
  | nil => decide
  | cons c cs ih =>
    rw [List.all_cons, Bool.and_eq_true] at h
    have rest := ih h.2
    have digit := h.1
    simp only [Char.isDigit, Bool.and_eq_true, decide_eq_true_eq, ge_iff_le,
      UInt32.le_iff_toNat_le] at digit
    have small : c.toNat - '0'.toNat ≤ 9 := by
      have high : c.toNat ≤ 57 := digit.2
      exact Nat.sub_le_of_le_add high
    have whole : readNat (c :: cs) = 10 ^ cs.length * (c.toNat - '0'.toNat) + readNat cs := by
      rw [readNat, Nat.ofDigitChars_cons, Nat.ofDigitChars_eq_ofDigitChars_zero, Nat.mul_zero,
        Nat.zero_add, readNat]
    have most := Nat.mul_le_mul_left (10 ^ cs.length) small
    rw [whole, List.length_cons, Nat.pow_succ]
    omega

theorem readNat_replicate_zero_append (count : Nat) (cs : List Char) :
    readNat (List.replicate count '0' ++ cs) = readNat cs := by
  rw [readNat, Nat.ofDigitChars_append, Nat.ofDigitChars_replicate_zero, Nat.mul_zero, readNat]

@[simp] theorem readNat_padded (width n : Nat) : readNat (padded width n) = n := by
  rw [padded, readNat_replicate_zero_append, readNat_natDigits]

@[simp] theorem all_isDigit_padded (width n : Nat) :
    (padded width n).all Char.isDigit = true := by
  rw [padded, List.all_append, all_isDigit_natDigits, Bool.and_true, List.all_eq_true]
  intro c hc
  rw [List.eq_of_mem_replicate hc]
  rfl

theorem length_padded (width n : Nat) :
    (padded width n).length = max width (natDigits n).length := by
  rw [padded, List.length_append, List.length_replicate]
  omega

/-- A number of at most so many digits has that width. -/
theorem length_padded_of_lt {width n : Nat} (positive : 0 < width) (h : n < 10 ^ width) :
    (padded width n).length = width := by
  have short : (natDigits n).length ≤ width :=
    (Nat.length_toDigits_le_iff (by decide) positive).mpr h
  rw [length_padded]
  omega

/-- **A number of a fixed width is read back**, whatever follows. -/
theorem readFixed_padded {width n : Nat} (positive : 0 < width) (h : n < 10 ^ width)
    (rest : List Char) : readFixed width (padded width n ++ rest) = some (n, rest) := by
  have len := length_padded_of_lt positive h
  have run : (padded width n ++ rest).take width = padded width n := List.take_left' len
  have after : (padded width n ++ rest).drop width = rest := List.drop_left' len
  simp only [readFixed, run, after]
  rw [if_pos ⟨len, all_isDigit_padded width n⟩, readNat_padded]

theorem readFixed_lt {width n : Nat} {cs rest : List Char}
    (h : readFixed width cs = some (n, rest)) : n < 10 ^ width := by
  rw [readFixed] at h
  split at h
  · next run =>
    cases h
    have small := readNat_lt run.2
    rwa [run.1] at small
  · cases h

/-- No number of a fixed width is read where fewer digits stand. -/
theorem readFixed_eq_none {width : Nat} {run : List Char} (short : run.length < width) {c : Char}
    (h : c.isDigit = false) (rest : List Char) : readFixed width (run ++ c :: rest) = none := by
  obtain ⟨more, rfl⟩ := Nat.exists_eq_add_of_lt short
  have reached : (run ++ c :: rest).take (run.length + more + 1) = run ++ c :: rest.take more := by
    rw [Nat.add_assoc, List.take_length_add_append, List.take_succ_cons]
  rw [readFixed, reached]
  simp [h]

end Compliance.Text
