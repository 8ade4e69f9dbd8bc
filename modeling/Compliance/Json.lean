import Compliance.Binary64.Shortest
import Compliance.Value.Text

/-!
# JSON documents and their text

Documents as trees, written compactly or indented.  A floating number is written
with the fewest digits that read back, of two equally near ones the even one, and
without an exponent as long as its point lies near its digits; what is not finite
has no JSON form and is written as `null`.  Only quotes, backslashes and control
characters are escaped.

## Main definitions

* `Json` — documents; objects keep the order of their members.
* `Json.sorted` — the document with the members of all objects in order of keys.
* `Json.compact`, `Json.pretty` — the two forms of text.
-/

namespace Compliance

open Text

/-- A JSON document. -/
inductive Json where
  | null
  | boolean (value : Bool)
  | integer (value : Int)
  | float (value : Binary64)
  | string (value : String)
  | array (items : List Json)
  | object (members : List (String × Json))

namespace Json

instance : Inhabited Json := ⟨.null⟩

/-- A natural number as a document. -/
def ofNat (n : Nat) : Json := .integer n

/-- A number in its form. -/
def ofNumber : Number → Json
  | .int value => .integer value.toInt
  | .float value => .float value

/-- Texts as a document. -/
def ofTexts (texts : List String) : Json := .array (texts.map .string)

/-! ## Order of members -/

/-- Puts a member in front of the first one with a larger key. -/
def insertMember (member : String × Json) : List (String × Json) → List (String × Json)
  | [] => [member]
  | next :: more =>
    if member.1 < next.1 then member :: next :: more else next :: insertMember member more

mutual

/-- The document with the members of all objects in order of their keys. -/
def sorted : Json → Json
  | .array items => .array (sortedItems items)
  | .object members => .object (sortedMembers members)
  | other => other

/-- Each of some documents with its objects in order. -/
def sortedItems : List Json → List Json
  | [] => []
  | item :: more => item.sorted :: sortedItems more

/-- Members in order of their keys, with the objects below in order too. -/
def sortedMembers : List (String × Json) → List (String × Json)
  | [] => []
  | (key, value) :: more => insertMember (key, value.sorted) (sortedMembers more)

end

/-! ## Scalars -/

def hexDigit (n : Nat) : Char := Nat.digitChar n

/-- How a character is written in a JSON string. -/
def escape (c : Char) : List Char :=
  if c = '"' then ['\\', '"']
  else if c = '\\' then ['\\', '\\']
  else if c.toNat = 0x08 then ['\\', 'b']
  else if c = '\t' then ['\\', 't']
  else if c = '\n' then ['\\', 'n']
  else if c.toNat = 0x0C then ['\\', 'f']
  else if c = '\r' then ['\\', 'r']
  else if c.toNat < 0x20 then
    ['\\', 'u', '0', '0', hexDigit (c.toNat / 16), hexDigit (c.toNat % 16)]
  else [c]

/-- A string in quotes. -/
def stringText (s : String) : String :=
  String.ofList ('"' :: s.toList.flatMap escape ++ ['"'])

/-- A power of ten behind a number: it always has a sign, and no leading zeros. -/
def powerText (power : Int) : List Char :=
  'e' :: (if power < 0 then '-' else '+') :: natDigits power.natAbs

/-- A decimal: positional where its point lies from five places before its digits to the
sixteenth, else its first digit, the others behind a point, and a power of ten. -/
def decimalText (d : Decimal) : List Char :=
  let digits := natDigits d.digits
  let point : Int := digits.length + d.exponent
  if -5 < point ∧ point ≤ 16 then
    if 0 ≤ d.exponent then d.positional ++ ['.', '0'] else d.positional
  else
    let fraction := if digits.length = 1 then [] else '.' :: digits.drop 1
    digits.take 1 ++ fraction ++ powerText (point - 1)

/-- A floating number. -/
def floatText : Binary64 → String
  | .finite negative x =>
    let run := decimalText (x.shortest .even)
    String.ofList (if negative then '-' :: run else run)
  | _ => "null"

/-! ## Documents -/

mutual

/-- The text of a document without any white space. -/
def compact : Json → String
  | .null => "null"
  | .boolean value => if value then "true" else "false"
  | .integer value => intText value
  | .float value => floatText value
  | .string value => stringText value
  | .array items => "[" ++ compactItems items ++ "]"
  | .object members => "\x7b" ++ compactMembers members ++ "\x7d"

/-- Documents with commas between. -/
def compactItems : List Json → String
  | [] => ""
  | [item] => item.compact
  | item :: next :: more => item.compact ++ "," ++ compactItems (next :: more)

/-- Members with commas between. -/
def compactMembers : List (String × Json) → String
  | [] => ""
  | [(key, value)] => stringText key ++ ":" ++ value.compact
  | (key, value) :: next :: more =>
    stringText key ++ ":" ++ value.compact ++ "," ++ compactMembers (next :: more)

end

/-- The start of a line at a level of indentation. -/
def lineStart (level : Nat) : String := String.ofList ('\n' :: List.replicate (2 * level) ' ')

mutual

/-- The text of a document with one item or member on a line, two blanks deeper at each level. -/
def prettyAt (level : Nat) : Json → String
  | .array [] => "[]"
  | .array (item :: more) =>
    "[" ++ prettyItems (level + 1) (item :: more) ++ lineStart level ++ "]"
  | .object [] => "\x7b\x7d"
  | .object (member :: more) =>
    "\x7b" ++ prettyMembers (level + 1) (member :: more) ++ lineStart level ++ "\x7d"
  | .null => "null"
  | .boolean value => if value then "true" else "false"
  | .integer value => intText value
  | .float value => floatText value
  | .string value => stringText value

/-- Documents on lines of their own. -/
def prettyItems (level : Nat) : List Json → String
  | [] => ""
  | [item] => lineStart level ++ item.prettyAt level
  | item :: next :: more =>
    lineStart level ++ item.prettyAt level ++ "," ++ prettyItems level (next :: more)

/-- Members on lines of their own. -/
def prettyMembers (level : Nat) : List (String × Json) → String
  | [] => ""
  | [(key, value)] => lineStart level ++ stringText key ++ ": " ++ value.prettyAt level
  | (key, value) :: next :: more =>
    lineStart level ++ stringText key ++ ": " ++ value.prettyAt level ++ "," ++
      prettyMembers level (next :: more)

end

/-- The indented text of a document. -/
def pretty (document : Json) : String := document.prettyAt 0

end Json

end Compliance
