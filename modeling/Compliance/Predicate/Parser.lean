import Compliance.Value.Literal

/-!
# From tokens to predicates

An operator decides which operands follow it: none, one literal, two with `and`
between, or a list in brackets.  Operands that do not fit are a fault of the
place where the operator starts.

## Main definitions

* `Parser.operation` — an operator with its operands.
* `Parser.predicate` — a predicate.
-/

namespace Compliance.Parser

/-- The relation that a token is the sign of. -/
def relation? : Token → Option Relation
  | .equal => some .equal
  | .notEqual => some .notEqual
  | .less => some (.bound .less)
  | .atMost => some (.bound .atMost)
  | .greater => some (.bound .greater)
  | .atLeast => some (.bound .atLeast)
  | _ => none

/-- The operator that compares values by a relation. -/
def comparison : Relation → Operator
  | .equal => .equals false
  | .notEqual => .equals true
  | .bound b => .number b

/-- The operator that a word negates or names by itself, of those that take operands. -/
def wordOperator? (negated : Bool) : String → Option Operator
  | "within" => some (.member negated)
  | "starts_with" => some (.string negated .atStart)
  | "ends_with" => some (.string negated .atEnd)
  | "contains" => some (.string negated .anywhere)
  | "before" => some (.date negated .before)
  | "after" => some (.date negated .after)
  | _ => none

def withLiteral (op : Operator) : Parser (Operator × List Value) := do
  return (op, [← literal])

/-- An operator with the operands it takes: a list for membership, else one literal. -/
def withOperands (op : Operator) : Parser (Operator × List Value) := do
  match op with
  | .member _ => return (op, ← literals)
  | _ => withLiteral op

/-- The operator for a state behind `is`.  Only two of the states can be negated. -/
def stateOperator? (negated : Bool) : Token → Option Operator
  | .word "null" => some (.null negated)
  | .word "empty" => some (.empty negated)
  | .word "ipv4" => if negated then none else some (.family .v4)
  | .word "ipv6" => if negated then none else some (.family .v6)
  | _ => none

/-- What follows `is`: a state, for some of them with `not` in front. -/
def state : Parser (Operator × List Value) := do
  let negated : Bool := (← token) = .word "not"
  if negated then advance
  match stateOperator? negated (← token) with
  | some op =>
    advance
    return (op, [])
  | none =>
    unexpected (if negated then "'null' or 'empty'" else "'null', 'empty', 'ipv4' or 'ipv6'")

/-- What follows `not`: an operator that has a negated form, and its operands. -/
def negation : Parser (Operator × List Value) := do
  match ← token with
  | .word text =>
    match wordOperator? true text with
    | some op =>
      advance
      withOperands op
    | none => unexpected "an operator after 'not'"
  | _ => unexpected "an operator after 'not'"

/-- What follows `ip`: a comparison with an address, or membership in a network. -/
def addressing : Parser (Operator × List Value) := do
  match relation? (← token) with
  | some relation =>
    advance
    withLiteral (.address relation)
  | none =>
    match ← token with
    | .word "within" =>
      advance
      withLiteral (.network false)
    | .word "not" =>
      advance
      if (← token) ≠ .word "within" then unexpected "'within'"
      advance
      withLiteral (.network true)
    | _ => unexpected "a comparison or 'within' after 'ip'"

/-- What follows `between`: two literals with `and` between. -/
def range : Parser (Operator × List Value) := do
  let low ← literal
  expectWord "and"
  let high ← literal
  return (.between, [low, high])

/-- An operator that starts with a word, and its operands. -/
def wordOperation : String → Parser (Operator × List Value)
  | "is" => do advance; state
  | "not" => do advance; negation
  | "ip" => do advance; addressing
  | "between" => do advance; range
  | "enabled" => do advance; return (.switch true, [])
  | "disabled" => do advance; return (.switch false, [])
  | text =>
    match wordOperator? false text with
    | some op => do advance; withOperands op
    | none => unexpected "a predicate"

def operation : Parser (Operator × List Value) := do
  match relation? (← token) with
  | some relation =>
    advance
    withLiteral (comparison relation)
  | none =>
    match ← token with
    | .word text => wordOperation text
    | _ => unexpected "a predicate"

def predicate : Parser Predicate := do
  let place ← position
  let (op, operands) ← operation
  match Predicate.build op operands with
  | .ok p => return p
  | .error fault => throw ⟨place, .operand fault⟩

end Compliance.Parser
