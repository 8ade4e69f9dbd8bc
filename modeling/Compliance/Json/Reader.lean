import Compliance.Text.Digits
import Compliance.Value

/-!
# From text to JSON trees

A JSON text is one document and nothing else but white space.  The tree that comes
out follows the text: members of objects keep their order and may repeat, and a
scalar that has the right form but no meaning is kept as `none`.  Whoever reads the
tree decides whether the scalar matters.

## Conventions

Documents are read as the `serde_json` library (version 1) reads them, with the
features it has by default.

* *Form.*  The grammar of RFC 8259 and no more: no comments, no commas at the end, no
  leading zeros, no control characters in strings.
* *Integers.*  Numbers without fraction and exponent that fit 64 bits with a sign are
  integers.  Larger ones, and a negative zero, are floating numbers.
* *Rounding.*  As many leading digits as fit 64 bits without a sign make a significand.
  It is rounded to binary64 and multiplied or divided by a rounded power of ten, so the
  last bit can differ from that of the nearest number.  Too large a number has no
  meaning, too small a one is zero.
* *Strings.*  Half of a surrogate pair has no meaning.
* *Depth.*  Here there is no limit, because the library has none for what it skips.
  What it keeps may have `Inventory.maxDepth` containers inside each other, which
  `JsonTree.settled?` checks.

## Main definitions

* `JsonTree` — a document as it was written.
* `NumberText.value?` — what a number denotes.
* `JsonTree.read?` — the document that a text is.
-/

namespace Compliance

open Text

/-- A JSON document as it was written. -/
inductive JsonTree where
  | null
  | boolean (value : Bool)
  | number (value : Option Number)
  | string (value : Option String)
  | array (items : List JsonTree)
  | object (members : List (Option String × JsonTree))

namespace JsonTree

instance : Inhabited JsonTree := ⟨.null⟩

/-! ## Characters -/

/-- White space between the parts of a document. -/
def isSpace (c : Char) : Bool := c = ' ' || c = '\n' || c = '\t' || c = '\r'

/-- A text from its first character on that is no white space. -/
def skipSpace (cs : List Char) : List Char := cs.dropWhile isSpace

def behind? : List Char → List Char → Option (List Char)
  | [], cs => some cs
  | c :: start, d :: cs => if c = d then behind? start cs else none
  | _ :: _, [] => none

end JsonTree

/-! ## Numbers -/

/-- A number as it was written: its sign, the digits before and behind its point, and its power of
ten. -/
structure NumberText where
  negative : Bool
  whole : List Char
  fraction : List Char
  power : Option (Bool × List Char)
deriving DecidableEq, Repr

namespace NumberText

/-- As many leading digits as keep a number within an unsigned word of 64 bits, added to it, and
the digits left over. -/
def accumulate (n : Nat) : List Char → Nat × List Char
  | [] => (n, [])
  | c :: cs =>
    let next := n * 10 + (c.toNat - '0'.toNat)
    if next < 1 <<< 64 then accumulate next cs else (n, c :: cs)

/-- The largest power of ten that is rounded once. -/
def largestPower : Nat := 308

/-- The magnitude nearest to a power of ten. -/
def powerOfTen (k : Nat) : Magnitude := (Magnitude.ofRatio? (Nat.pow 10 k) 1).getD Magnitude.zero

/-- A magnitude times a power of ten, if it is not too large. -/
def scaleUp (x : Magnitude) (k : Nat) : Option Magnitude :=
  if k ≤ largestPower then x.mul? (powerOfTen k)
  else if x = Magnitude.zero then some x
  else none

/-- A magnitude divided a number of times by the largest power of ten that is rounded once. -/
def shrink : Nat → Magnitude → Option Magnitude
  | 0, x => some x
  | times + 1, x =>
    if x = Magnitude.zero then some x
    else
      match x.div? (powerOfTen largestPower) with
      | some y => shrink times y
      | none => none

/-- A magnitude divided by a power of ten, in steps that are each rounded. -/
def scaleDown (x : Magnitude) (k : Nat) : Option Magnitude := do
  let times := (k - 1) / largestPower
  let y ← shrink times x
  y.div? (powerOfTen (k - times * largestPower))

/-- A significand times a power of ten, if it is not too large. -/
def scale (significand : Nat) (power : Int) : Option Magnitude := do
  let x ← Magnitude.ofRatio? significand 1
  if 0 ≤ power then scaleUp x power.toNat else scaleDown x (-power).toNat

/-- The floating number of a sign, a significand and a power of ten, with a further power as it
was written. -/
def floating (negative : Bool) (significand : Nat) (start : Int)
    (power : Option (Bool × List Char)) : Option Number :=
  let made (x : Option Magnitude) : Option Number := x.map fun x => .float (.finite negative x)
  match power with
  | none => made (scale significand start)
  | some (down, digits) =>
    let k := readNat digits
    if k < 1 <<< 31 then made (scale significand (if down then start - k else start + k))
    else if significand = 0 ∨ down then made (some Magnitude.zero)
    else none

/-- The integer of a sign and a word, or the floating number nearest to it where it does not fit
64 bits or is a negative zero. -/
def integral (negative : Bool) (n : Nat) : Option Number :=
  if negative then
    if n = 0 ∨ 1 <<< 63 < n then floating true n 0 none else some (.int (Int64.ofInt (-n)))
  else if n < 1 <<< 63 then some (.int (Int64.ofInt n))
  else floating false n 0 none

/-- What a number denotes, if binary64 reaches that far. -/
def value? (t : NumberText) : Option Number :=
  let (significand, dropped) := accumulate 0 t.whole
  if t.fraction.isEmpty && t.power.isNone && dropped.isEmpty then integral t.negative significand
  else
    let (significand, ignored) := accumulate significand t.fraction
    let places := t.fraction.length - ignored.length
    floating t.negative significand ((dropped.length : Int) - places) t.power

/-! ### Reading -/

/-- At least one digit. -/
def readDigits? (cs : List Char) : Option (List Char × List Char) :=
  let (run, rest) := takeDigits cs
  if run.isEmpty then none else some (run, rest)

/-- The digits before the point: no zero in front of another digit. -/
def readWhole? (cs : List Char) : Option (List Char × List Char) := do
  let (run, rest) ← readDigits? cs
  if run.head? = some '0' ∧ 1 < run.length then none else some (run, rest)

/-- A point with digits behind it, or nothing. -/
def readFraction? : List Char → Option (List Char × List Char)
  | '.' :: cs => readDigits? cs
  | cs => some ([], cs)

/-- A power of ten with an optional sign, or nothing. -/
def readPower? : List Char → Option (Option (Bool × List Char) × List Char)
  | c :: cs =>
    if c = 'e' ∨ c = 'E' then do
      let (down, cs) := match cs with
        | '-' :: more => (true, more)
        | '+' :: more => (false, more)
        | _ => (false, cs)
      let (run, rest) ← readDigits? cs
      return (some (down, run), rest)
    else some (none, c :: cs)
  | [] => some (none, [])

/-- A number, from its sign or first digit on. -/
def read? (cs : List Char) : Option (NumberText × List Char) := do
  let (negative, cs) := match cs with
    | '-' :: more => (true, more)
    | _ => (false, cs)
  let (whole, cs) ← readWhole? cs
  let (fraction, cs) ← readFraction? cs
  let (power, cs) ← readPower? cs
  return (⟨negative, whole, fraction, power⟩, cs)

end NumberText

/-! ## Strings -/

/-- A part of a string as it was written. -/
inductive StringPart where
  /-- A character, by itself or by an escape of one letter. -/
  | plain (c : Char)
  /-- A unit of sixteen bits by its number. -/
  | unit (n : Nat)
deriving DecidableEq, Repr

namespace StringPart

/-- What an escape of one letter stands for. -/
def shortEscape? : Char → Option Char
  | '"' => some '"'
  | '\\' => some '\\'
  | '/' => some '/'
  | 'b' => some (Char.ofNat 0x08)
  | 'f' => some (Char.ofNat 0x0C)
  | 'n' => some '\n'
  | 'r' => some '\r'
  | 't' => some '\t'
  | _ => none

/-- The value of a hexadecimal digit of either case. -/
def hexValue? (c : Char) : Option Nat :=
  if c.isDigit then some (c.toNat - '0'.toNat)
  else if 'a' ≤ c ∧ c ≤ 'f' then some (c.toNat - 'a'.toNat + 10)
  else if 'A' ≤ c ∧ c ≤ 'F' then some (c.toNat - 'A'.toNat + 10)
  else none

/-- The number of a unit in four hexadecimal digits. -/
def unitOf? (a b c d : Char) : Option Nat := do
  return (((← hexValue? a) * 16 + (← hexValue? b)) * 16 + (← hexValue? c)) * 16 + (← hexValue? d)

/-- The parts of a string from behind its opening quote, and what follows its closing one. -/
def readAll : List Char → Option (List StringPart × List Char)
  | [] => none
  | '"' :: rest => some ([], rest)
  | '\\' :: 'u' :: a :: b :: c :: d :: rest => do
    let n ← unitOf? a b c d
    let (parts, rest) ← readAll rest
    return (.unit n :: parts, rest)
  | '\\' :: c :: rest => do
    let escaped ← shortEscape? c
    let (parts, rest) ← readAll rest
    return (.plain escaped :: parts, rest)
  | c :: rest =>
    if c = '\\' ∨ c.toNat < 0x20 then none
    else do
      let (parts, rest) ← readAll rest
      return (.plain c :: parts, rest)

/-- Whether a unit is the first half of a pair. -/
def isHigh (n : Nat) : Bool := 0xD800 ≤ n && n < 0xDC00

/-- Whether a unit is the second half of a pair. -/
def isLow (n : Nat) : Bool := 0xDC00 ≤ n && n < 0xE000

/-- The character beyond 16 bits that two halves stand for. -/
def pairOf (high low : Nat) : Char :=
  Char.ofNat (0x10000 + (high - 0xD800) * 0x400 + (low - 0xDC00))

/-- The characters of parts, if every half of a pair has the other half next to it. -/
def characters? : List StringPart → Option (List Char)
  | [] => some []
  | .plain c :: more => (characters? more).map (c :: ·)
  | .unit high :: .unit low :: more =>
    if isHigh high then
      if isLow low then (characters? more).map (pairOf high low :: ·) else none
    else if isLow high then none
    else (characters? (.unit low :: more)).map (Char.ofNat high :: ·)
  | .unit n :: more =>
    if isHigh n || isLow n then none else (characters? more).map (Char.ofNat n :: ·)

end StringPart

namespace JsonTree

/-- A string from behind its opening quote. -/
def readString? (cs : List Char) : Option (Option String × List Char) := do
  let (parts, rest) ← StringPart.readAll cs
  return ((StringPart.characters? parts).map String.ofList, rest)

/-! ## Documents -/

mutual

/-- A document at the start of a text, in which at most `fuel` parts begin. -/
def readValue : Nat → List Char → Option (JsonTree × List Char)
  | 0, _ => none
  | fuel + 1, cs =>
    match skipSpace cs with
    | '"' :: rest => do
      let (value, rest) ← readString? rest
      return (.string value, rest)
    | '[' :: rest =>
      match skipSpace rest with
      | ']' :: rest => some (.array [], rest)
      | rest => do
        let (items, rest) ← readItems fuel rest
        return (.array items, rest)
    | '{' :: rest =>
      match skipSpace rest with
      | '}' :: rest => some (.object [], rest)
      | rest => do
        let (members, rest) ← readMembers fuel rest
        return (.object members, rest)
    | 't' :: rest => (behind? "rue".toList rest).map fun rest => (.boolean true, rest)
    | 'f' :: rest => (behind? "alse".toList rest).map fun rest => (.boolean false, rest)
    | 'n' :: rest => (behind? "ull".toList rest).map fun rest => (.null, rest)
    | cs => do
      let (text, rest) ← NumberText.read? cs
      return (.number text.value?, rest)

/-- The items of an array through its closing bracket. -/
def readItems : Nat → List Char → Option (List JsonTree × List Char)
  | 0, _ => none
  | fuel + 1, cs => do
    let (item, rest) ← readValue fuel cs
    match skipSpace rest with
    | ',' :: rest =>
      let (items, rest) ← readItems fuel rest
      return (item :: items, rest)
    | ']' :: rest => return ([item], rest)
    | _ => none

/-- The members of an object through its closing brace. -/
def readMembers : Nat → List Char → Option (List (Option String × JsonTree) × List Char)
  | 0, _ => none
  | fuel + 1, cs =>
    match skipSpace cs with
    | '"' :: rest => do
      let (key, rest) ← readString? rest
      match skipSpace rest with
      | ':' :: rest =>
        let (value, rest) ← readValue fuel rest
        match skipSpace rest with
        | ',' :: rest =>
          let (members, rest) ← readMembers fuel rest
          return ((key, value) :: members, rest)
        | '}' :: rest => return ([(key, value)], rest)
        | _ => none
      | _ => none
    | _ => none

end

/-- The document that a text is.  No more parts begin in a text than it has characters; a part of
an array or object counts twice, once for itself and once for its place. -/
def read? (s : String) : Option JsonTree :=
  match readValue (2 * s.length + 2) s.toList with
  | some (document, rest) => if (skipSpace rest).isEmpty then some document else none
  | none => none

end JsonTree

end Compliance
