import Compliance.Predicate.Operator
import Compliance.Value.Text

/-!
# The text of a predicate

A predicate is written as its operator and its operands, so that reading the text
back gives the predicate again.

## Main definitions

* `Predicate.text p` — the text of a predicate.
-/

namespace Compliance

open Text

namespace Predicate

/-- The operator that a predicate is written with. -/
def operator : Predicate → Operator
  | .null negated => .null negated
  | .equals negated _ => .equals negated
  | .member negated _ => .member negated
  | .number bound _ => .number bound
  | .numberBetween _ _ => .between
  | .empty negated => .empty negated
  | .string negated place _ => .string negated place
  | .address relation _ => .address relation
  | .network negated _ => .network negated
  | .family f => .family f
  | .date negated side _ => .date negated side
  | .dateBetween _ _ => .between

/-- The operands of a predicate as they are written behind its operator. -/
def operandText : Predicate → Option String
  | .null _ | .empty _ | .family _ => none
  | .equals _ v => some v.text
  | .member _ vs => some ("[" ++ ", ".intercalate (vs.map Value.text) ++ "]")
  | .number _ n => some n.text
  | .numberBetween low high => some (low.text ++ " and " ++ high.text)
  | .string _ _ part => some (quote part)
  | .address _ a => some ("\"" ++ a.text ++ "\"")
  | .network _ block => some ("\"" ++ block.text ++ "\"")
  | .date _ _ m => some m.literal
  | .dateBetween low high => some (low.literal ++ " and " ++ high.literal)

/-- The text of a predicate: its operator and, where it has any, its operands. -/
def text (p : Predicate) : String :=
  match p.operandText with
  | none => p.operator.keyword
  | some operands => p.operator.keyword ++ " " ++ operands

end Predicate

end Compliance
