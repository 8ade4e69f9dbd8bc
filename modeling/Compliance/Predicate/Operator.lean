import Compliance.Moment.Text
import Compliance.Predicate

/-!
# Operators and their operands

An operator with its operands makes a predicate.  How many operands it takes is
checked before their kinds, and the predicate carries them in the order in which
they were given.

## Main definitions

* `Operator` — what stands between a property and its operands.
* `Operator.arity` — how many operands an operator takes.
* `OperandFault` — why operands do not fit.
* `Predicate.build op operands` — the predicate, or what is wrong with the operands.
-/

namespace Compliance

open Text

/-! ## Operators -/

/-- An operator of the language; `negated` ones have `not` or `!` in their text. -/
inductive Operator where
  | null (negated : Bool)
  | equals (negated : Bool)
  | member (negated : Bool)
  | number (bound : Bound)
  /-- A range of numbers or of dates, as its operands have it. -/
  | between
  | empty (negated : Bool)
  | string (negated : Bool) (place : Occurrence)
  /-- Equality with one of the booleans. -/
  | switch (on : Bool)
  | address (relation : Relation)
  | network (negated : Bool)
  | family (family : Family)
  | date (negated : Bool) (side : Side)
deriving DecidableEq, Repr

/-- How many operands an operator takes. -/
inductive Arity where
  | none
  | one
  | two
  /-- Any number. -/
  | list
deriving DecidableEq, Repr

/-- How an arity reads in a message. -/
def Arity.phrase : Arity → String
  | .none => "no operands"
  | .one => "1 operand"
  | .two => "2 operands"
  | .list => "a list of operands"

/-- Whether a number of operands is right. -/
def Arity.accepts : Arity → Nat → Bool
  | .none, n => n == 0
  | .one, n => n == 1
  | .two, n => n == 2
  | .list, _ => true

/-- The text of a bound. -/
def Bound.sign : Bound → String
  | .less => "<"
  | .atMost => "<="
  | .greater => ">"
  | .atLeast => ">="

/-- The text of a relation. -/
def Relation.sign : Relation → String
  | .equal => "=="
  | .notEqual => "!="
  | .bound b => b.sign

def Occurrence.word : Occurrence → String
  | .atStart => "starts_with"
  | .atEnd => "ends_with"
  | .anywhere => "contains"

def Family.word : Family → String
  | .v4 => "ipv4"
  | .v6 => "ipv6"

def Side.word : Side → String
  | .before => "before"
  | .after => "after"

namespace Operator

/-- The word in front of what is negated. -/
def notWord (negated : Bool) : String := if negated then "not " else ""

/-- How many operands the operator takes. -/
def arity : Operator → Arity
  | .null _ | .empty _ | .switch _ | .family _ => .none
  | .member _ => .list
  | .between => .two
  | .equals _ | .number _ | .string _ _ | .address _ | .network _ | .date _ _ => .one

/-- The operator as it is written. -/
def keyword : Operator → String
  | .null negated => "is " ++ notWord negated ++ "null"
  | .equals negated => if negated then "!=" else "=="
  | .member negated => notWord negated ++ "within"
  | .number bound => bound.sign
  | .between => "between"
  | .empty negated => "is " ++ notWord negated ++ "empty"
  | .string negated place => notWord negated ++ place.word
  | .switch on => if on then "enabled" else "disabled"
  | .address relation => "ip " ++ relation.sign
  | .network negated => "ip " ++ notWord negated ++ "within"
  | .family f => "is " ++ f.word
  | .date negated side => notWord negated ++ side.word

end Operator

/-! ## Operands -/

/-- Why operands do not fit an operator. -/
inductive OperandFault where
  /-- There are too many or too few. -/
  | count (operator : Operator) (found : Nat)
  /-- One is of the wrong kind. -/
  | kind (operator : Operator) (expected found : ValueKind)
  /-- The bounds of a range are not two numbers or two dates. -/
  | mixedBounds (low high : ValueKind)
  | nullBound
  /-- A string is no address. -/
  | address (text : String)
  /-- A string is no network. -/
  | network (fault : NetworkFault)
  /-- A string is no date. -/
  | date (text : String)
deriving DecidableEq

/-- The wording of a fault. -/
def OperandFault.message : OperandFault → String
  | .count op found =>
    "'" ++ op.keyword ++ "' takes " ++ op.arity.phrase ++ ", got " ++ natText found
  | .kind op expected found =>
    "'" ++ op.keyword ++ "' expects a " ++ expected.name ++ " operand, got " ++ found.name
  | .mixedBounds low high =>
    "'between' bounds must both be numbers or both be dates, got " ++ low.name ++ " and " ++
      high.name
  | .nullBound => "'between' does not accept a null bound"
  | .address written => "invalid IP address '" ++ written ++ "'"
  | .network fault => "invalid network: " ++ fault.message
  | .date written => "invalid date '" ++ written ++ "'"

namespace Operator

/-- The operand as a number. -/
def numberOperand (op : Operator) : Value → Except OperandFault Number
  | .number n => .ok n
  | v => .error (.kind op .number v.kind)

def stringOperand (op : Operator) : Value → Except OperandFault String
  | .string s => .ok s
  | v => .error (.kind op .string v.kind)

/-- The operand as an address; blanks around its text are dropped. -/
def addressOperand (op : Operator) (v : Value) : Except OperandFault Address :=
  match op.stringOperand v with
  | .error fault => .error fault
  | .ok s =>
    match Address.read? (trim s) with
    | some a => .ok a
    | none => .error (.address s)

def networkOperand (op : Operator) (v : Value) : Except OperandFault Network :=
  match op.stringOperand v with
  | .error fault => .error fault
  | .ok s =>
    match Network.read s with
    | .ok n => .ok n
    | .error fault => .error (.network fault)

/-- The operand as a date, which may be written as a plain string. -/
def dateOperand (op : Operator) : Value → Except OperandFault Moment
  | .date m => .ok m
  | .string s =>
    match Moment.read? s with
    | some m => .ok m
    | none => .error (.date s)
  | v => .error (.kind op .date v.kind)

end Operator

/-! ## Predicates -/

namespace Predicate

/-- A range between two values, both numbers or both dates. -/
def between : Value → Value → Except OperandFault Predicate
  | .null, _ => .error .nullBound
  | _, .null => .error .nullBound
  | .number low, .number high => .ok (.numberBetween low high)
  | .date low, .date high => .ok (.dateBetween low high)
  | low, high => .error (.mixedBounds low.kind high.kind)

/-- The predicate that an operator makes with its operands. -/
def build (op : Operator) (operands : List Value) : Except OperandFault Predicate :=
  match op, operands with
  | .null negated, [] => .ok (.null negated)
  | .equals negated, [v] => .ok (.equals negated v)
  | .member negated, vs => .ok (.member negated vs)
  | .number bound, [v] => (op.numberOperand v).map (.number bound)
  | .between, [low, high] => between low high
  | .empty negated, [] => .ok (.empty negated)
  | .string negated place, [v] => (op.stringOperand v).map (.string negated place)
  | .switch on, [] => .ok (.equals false (.boolean on))
  | .address relation, [v] => (op.addressOperand v).map (.address relation)
  | .network negated, [v] => (op.networkOperand v).map (.network negated)
  | .family f, [] => .ok (.family f)
  | .date negated side, [v] => (op.dateOperand v).map (.date negated side)
  | _, _ => .error (.count op operands.length)

end Predicate

end Compliance
