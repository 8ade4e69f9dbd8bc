import Compliance.Binary64
import Compliance.Moment

/-!
# Scalar values

What a literal of the language stands for and what a property of a resource
holds: strings, numbers, booleans, dates, and null.  Numbers are integers of
64 bits or binary64 numbers and keep which of the two they are.  Two notions of
equality live side by side: `same` tells apart all that can be written apart,
and `agrees`, which predicates use, lets a whole number equal its floating
counterpart.

## Main definitions

* `Number`, `Value`, `ValueKind` — the values and their kinds.
* `Number.compare?` — the order of numbers across both forms.
* `Value.same`, `Value.agrees` — the two equalities.
-/

namespace Compliance

/-! ## Numbers -/

/-- A number in one of its two forms. -/
inductive Number where
  | int (value : Int64)
  | float (value : Binary64)
deriving DecidableEq

namespace Number

instance : Inhabited Number := ⟨.int 0⟩

/-- The binary64 number nearest to a number. -/
def toBinary64 : Number → Binary64
  | .int value => Binary64.ofInt value.toInt
  | .float value => value

/-- The order of two numbers: exact between integers, else that of the nearest binary64 numbers. -/
def compare? : Number → Number → Option Ordering
  | .int a, .int b => some (compare a.toInt b.toInt)
  | a, b => a.toBinary64.compare? b.toBinary64

/-- Whether two numbers are equal in that order. -/
def agrees (a b : Number) : Bool := a.compare? b == some .eq

/-- Whether two numbers have the same form and value. -/
def same : Number → Number → Bool
  | .int a, .int b => a == b
  | .float a, .float b => a.sameValue b
  | _, _ => false

end Number

/-! ## Values -/

/-- The kinds of values. -/
inductive ValueKind where
  | string
  | number
  | boolean
  | date
  | null
deriving DecidableEq, Repr, Inhabited

/-- The word of the language for a kind. -/
def ValueKind.name : ValueKind → String
  | .string => "string"
  | .number => "number"
  | .boolean => "boolean"
  | .date => "date"
  | .null => "null"

/-- A scalar value. -/
inductive Value where
  | string (value : String)
  | number (value : Number)
  | boolean (value : Bool)
  | date (value : Moment)
  | null
deriving DecidableEq, Inhabited

namespace Value

def kind : Value → ValueKind
  | .string _ => .string
  | .number _ => .number
  | .boolean _ => .boolean
  | .date _ => .date
  | .null => .null

def string? : Value → Option String
  | .string s => some s
  | _ => none

def number? : Value → Option Number
  | .number n => some n
  | _ => none

def date? : Value → Option Moment
  | .date m => some m
  | _ => none

def isNull : Value → Bool
  | .null => true
  | _ => false

/-- Whether two values are of one kind and equal, numbers in their form too; moments are equal
as instants. -/
def same : Value → Value → Bool
  | .string a, .string b => a == b
  | .number a, .number b => a.same b
  | .boolean a, .boolean b => a == b
  | .date a, .date b => a.sameInstant b
  | .null, .null => true
  | _, _ => false

/-- The equality of predicates: numbers are equal by value, all else as `same` says. -/
def agrees : Value → Value → Bool
  | .number a, .number b => a.agrees b
  | a, b => a.same b

end Value

end Compliance
