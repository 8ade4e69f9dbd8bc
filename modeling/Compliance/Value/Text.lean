import Compliance.Binary64.Shortest
import Compliance.Moment.Text
import Compliance.Value

/-!
# The text of a value

Values are written as the literals of the language.  Numbers never have an
exponent: a whole floating number is written with all its digits and `.0`, so
that it reads back as a floating number, and any other one with the fewest
digits that read back, of two equally near ones the larger.

## Main definitions

* `Number.text`, `Value.text` — the literal of a number and of a value.
* `Binary64.read? s` — the number nearest to a decimal text.
-/

namespace Compliance

open Text

/-! ## Decimals -/

/-- A decimal without an exponent, with a point only where it has a fraction. -/
def Decimal.positional (d : Decimal) : List Char :=
  let places := (-d.exponent).toNat
  let run := padded (places + 1) d.digits ++ List.replicate d.exponent.toNat '0'
  if places = 0 then run
  else run.take (run.length - places) ++ '.' :: run.drop (run.length - places)

/-- A magnitude: all digits and `.0` where it is whole, else its shortest decimal. -/
def Magnitude.text (x : Magnitude) : List Char :=
  if x.isWhole then natDigits x.floor ++ ['.', '0'] else (x.shortest .up).positional

def Binary64.text : Binary64 → String
  | .nan => "NaN"
  | .infinite negative => if negative then "-inf" else "inf"
  | .finite negative x => String.ofList (if negative then '-' :: x.text else x.text)

/-! ## Reading decimals -/

/-- Digits, a point and more digits, either run possibly empty: the digits together, and how many
stand behind the point. -/
def readPlain (cs : List Char) : Option (Nat × Nat × List Char) :=
  let (whole, rest) := takeDigits cs
  let (fraction, rest) := match rest with
    | '.' :: more => takeDigits more
    | _ => ([], rest)
  if whole.isEmpty && fraction.isEmpty then none
  else some (readNat (whole ++ fraction), fraction.length, rest)

/-- A signed power of ten to the end of the text. -/
def readPower : List Char → Option Int
  | [] => some 0
  | c :: rest =>
    let (negative, run) := Moment.readSign rest
    if (c = 'e' ∨ c = 'E') ∧ ¬ run.isEmpty ∧ run.all Char.isDigit then
      some (if negative then -(readNat run : Int) else readNat run)
    else none

/-- The binary64 number nearest to a decimal text, which may have a power of ten behind it; `inf`
or `infinity` and `NaN` are the texts of the others, in letters of either case.  A power far
outside the format has the effect of any other such power, so it is brought near first. -/
def Binary64.read? (s : String) : Option Binary64 :=
  let (negative, cs) := Moment.readSign s.toList
  let word := cs.map Char.toLower
  if word = "inf".toList ∨ word = "infinity".toList then some (.infinite negative)
  else if word = "nan".toList then some .nan
  else do
    let (digits, places, rest) ← readPlain cs
    let power ← readPower rest
    let bound : Int := 400 + (natDigits digits).length + places
    return Binary64.ofDecimal negative digits (max (-bound) (min bound power) - places)

/-! ## Values -/

/-- The literal of a number. -/
def Number.text : Number → String
  | .int value => intText value.toInt
  | .float value => value.text

/-- A moment as the operand of a predicate and as a value is written. -/
def Moment.literal (m : Moment) : String := "date " ++ quote m.text

/-- The literal of a value. -/
def Value.text : Value → String
  | .string s => quote s
  | .number n => n.text
  | .boolean b => if b then "true" else "false"
  | .date m => m.literal
  | .null => "null"

end Compliance
