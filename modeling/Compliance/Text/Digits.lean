/-!
# Decimal digits

Natural numbers as runs of the digits `0` to `9`.

## Main definitions

* `natDigits n`, `natText n` — the digits of `n`, without leading zeros.
* `padded width n` — the same with zeros in front up to a width.
* `readNat cs` — the number that a run of digits denotes.
* `takeDigits cs` — the longest run of digits at the start, with what follows it.
* `readUpTo? limit cs` — a number that has a largest value.
-/

namespace Compliance.Text

def natDigits (n : Nat) : List Char := Nat.toDigits 10 n

/-- A natural number in decimal. -/
def natText (n : Nat) : String := String.ofList (natDigits n)

/-- An integer in decimal, with a sign only where it is negative. -/
def intText (i : Int) : String :=
  if i < 0 then String.ofList ('-' :: natDigits i.natAbs) else natText i.natAbs

/-- The digits of a number with zeros in front up to a width. -/
def padded (width n : Nat) : List Char :=
  List.replicate (width - (natDigits n).length) '0' ++ natDigits n

/-- The number that a run of digits denotes. -/
def readNat (cs : List Char) : Nat := Nat.ofDigitChars 10 cs 0

@[simp] theorem readNat_natDigits (n : Nat) : readNat (natDigits n) = n :=
  Nat.ofDigitChars_toDigits (by decide) (by decide)

theorem isDigit_of_mem_natDigits {n : Nat} {c : Char} (h : c ∈ natDigits n) : c.isDigit = true :=
  Nat.isDigit_of_mem_toDigits (by decide) (by decide) h

/-- The longest run of digits at the start of a text, and the rest. -/
def takeDigits (cs : List Char) : List Char × List Char := cs.span Char.isDigit

/-- Exactly `count` digits at the start of a text, as a number, and the rest. -/
def readFixed (count : Nat) (cs : List Char) : Option (Nat × List Char) :=
  let run := cs.take count
  if run.length = count ∧ run.all Char.isDigit then some (readNat run, cs.drop count) else none

/-- A number without a sign or with a plus sign, at most `limit`. -/
def readUpTo? (limit : Nat) (cs : List Char) : Option Nat :=
  let run := match cs with
    | '+' :: rest => rest
    | _ => cs
  if run.isEmpty || !run.all Char.isDigit || limit < readNat run then none else some (readNat run)

end Compliance.Text
