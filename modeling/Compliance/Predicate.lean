import Compliance.Address.Text
import Compliance.Value

/-!
# Predicates

A predicate is a condition on one scalar value.  Predicates about numbers,
strings, addresses and dates hold of no value of another kind, and their negated
forms do not either; only equality, membership and nullness are negated plainly.
An absent value counts as null.

## Main definitions

* `Predicate` — the conditions of the language.
* `Predicate.holds p candidate` — whether a candidate satisfies a predicate.
-/

namespace Compliance

/-! ## Relations -/

/-- A bound on one side. -/
inductive Bound where
  | less
  | atMost
  | greater
  | atLeast
deriving DecidableEq, Repr

/-- Whether an order satisfies a bound. -/
def Bound.holds : Bound → Ordering → Bool
  | .less, o => o.isLT
  | .atMost, o => o.isLE
  | .greater, o => o.isGT
  | .atLeast, o => o.isGE

/-- Equality, its negation, or a bound. -/
inductive Relation where
  | equal
  | notEqual
  | bound (bound : Bound)
deriving DecidableEq, Repr

/-- Whether an order satisfies a relation. -/
def Relation.holds : Relation → Ordering → Bool
  | .equal, o => o.isEq
  | .notEqual, o => o.isNe
  | .bound b, o => b.holds o

/-- Where a string is looked for in another. -/
inductive Occurrence where
  | atStart
  | atEnd
  | anywhere
deriving DecidableEq, Repr

/-- Whether a run of characters occurs somewhere in another. -/
def occursIn (run : List Char) : List Char → Bool
  | [] => run.isEmpty
  | c :: cs => run.isPrefixOf (c :: cs) || occursIn run cs

/-- Whether a string occurs in another at the place asked for. -/
def Occurrence.holds (place : Occurrence) (part whole : String) : Bool :=
  match place with
  | .atStart => part.toList.isPrefixOf whole.toList
  | .atEnd => part.toList.isSuffixOf whole.toList
  | .anywhere => occursIn part.toList whole.toList

/-- One of the two families of addresses. -/
inductive Family where
  | v4
  | v6
deriving DecidableEq, Repr

/-- Whether an address is of a family. -/
def Family.holds : Family → Address → Bool
  | .v4, a => a.isV4
  | .v6, a => a.isV6

/-- One of the two sides of a date. -/
inductive Side where
  | before
  | after
deriving DecidableEq, Repr

/-- Whether an order lies on a side of a date. -/
def Side.holds : Side → Ordering → Bool
  | .before, o => o.isLT
  | .after, o => o.isGT

/-! ## Predicates -/

/-- A condition on a scalar value; `negated` forms have `not` in their text. -/
inductive Predicate where
  | null (negated : Bool)
  /-- Equality with a value of any kind. -/
  | equals (negated : Bool) (value : Value)
  /-- Membership in a list of values. -/
  | member (negated : Bool) (values : List Value)
  | number (bound : Bound) (value : Number)
  | numberBetween (low high : Number)
  /-- Emptiness of a string. -/
  | empty (negated : Bool)
  | string (negated : Bool) (place : Occurrence) (part : String)
  | address (relation : Relation) (value : Address)
  | network (negated : Bool) (block : Network)
  | family (family : Family)
  | date (negated : Bool) (side : Side) (value : Moment)
  | dateBetween (low high : Moment)
deriving DecidableEq

namespace Predicate

instance : Inhabited Predicate := ⟨.null false⟩

/-- The address that a string denotes, blanks around it dropped. -/
def address? (v : Value) : Option Address :=
  v.string?.bind fun s => Address.read? (Text.trim s)

/-- Whether a value is a number that satisfies a bound. -/
def numberIs (bound : Bound) (n : Number) (v : Value) : Bool :=
  (v.number?.bind (·.compare? n)).any bound.holds

/-- Whether a value satisfies the predicate. -/
def holdsOf (p : Predicate) (v : Value) : Bool :=
  match p with
  | .null negated => negated ^^ v.isNull
  | .equals negated expected => negated ^^ v.agrees expected
  | .member negated values => negated ^^ values.any v.agrees
  | .number bound n => numberIs bound n v
  | .numberBetween low high => numberIs .atLeast low v && numberIs .atMost high v
  | .empty negated => v.string?.any fun s => negated ^^ s.isEmpty
  | .string negated place part => v.string?.any fun s => negated ^^ place.holds part s
  | .address relation a => ((address? v).bind (·.compare? a)).any relation.holds
  | .network negated block => (address? v).any fun a => negated ^^ block.contains a
  | .family f => (address? v).any f.holds
  | .date negated side m => v.date?.any fun d => negated ^^ side.holds (d.compare m)
  | .dateBetween low high =>
    v.date?.any fun d => (d.compare low).isGE && (d.compare high).isLE

/-- Whether a candidate satisfies the predicate; an absent one counts as null. -/
def holds (p : Predicate) (candidate : Option Value) : Bool :=
  p.holdsOf (candidate.getD .null)

/-- Whether two predicates are the same condition with the same operands. -/
def same : Predicate → Predicate → Bool
  | .null m, .null n => m == n
  | .equals m a, .equals n b => m == n && a.same b
  | .member m as, .member n bs =>
    m == n && as.length == bs.length && (as.zip bs).all fun (a, b) => a.same b
  | .number r a, .number s b => r == s && a.same b
  | .numberBetween a b, .numberBetween c d => a.same c && b.same d
  | .empty m, .empty n => m == n
  | .string m r a, .string n s b => m == n && r == s && a == b
  | .address r a, .address s b => r == s && a == b
  | .network m a, .network n b => m == n && a == b
  | .family a, .family b => a == b
  | .date m r a, .date n s b => m == n && r == s && a.sameInstant b
  | .dateBetween a b, .dateBetween c d => a.sameInstant c && b.sameInstant d
  | _, _ => false

end Predicate

end Compliance
