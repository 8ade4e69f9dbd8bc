import Compliance.Predicate.Text
import Compliance.Token.Lexer

/-!
# Statements

A statement says something about one member of a resource: about a scalar
property, about one entry of a map-shaped property, about all elements of a
nested property, or about the targets of an association.  Statements form trees,
and each is written on one line.

## Main definitions

* `Statement` — the trees.
* `Statement.text` — the text of a statement.
* `Statement.same` — equality up to the values that predicates do not tell apart.
-/

namespace Compliance

open Text

/-- A node of a tree of conditions. -/
inductive Statement where
  /-- `name predicate` -/
  | property (name : String) (predicate : Predicate)
  /-- `name["key"] predicate`, one entry of a map-shaped property. -/
  | entry (name key : String) (predicate : Predicate)
  /-- A name with a block: each element of a nested property satisfies the children. -/
  | nested (name : String) (children : List Statement)
  /-- `>name`, and with a block: each target of an association satisfies the children.  Without
  children the association only has to exist. -/
  | association (name : String) (children : List Statement)

namespace Statement

instance : Inhabited Statement := ⟨.property "" default⟩

/-- The name of the member that a statement is about. -/
def name : Statement → String
  | .property name _ => name
  | .entry name _ _ => name
  | .nested name _ => name
  | .association name _ => name

/-- The statements in the block of a statement. -/
def children : Statement → List Statement
  | .property _ _ => []
  | .entry _ _ _ => []
  | .nested _ children => children
  | .association _ children => children

/-! ## Text -/

/-- A name as it is written in a statement: bare where it reads back as one word, else quoted.
`and` is quoted because between statements it separates. -/
def nameText (name : String) : String :=
  if isWord name && name != "and" then name else quote name

mutual

def text : Statement → String
  | .property name predicate => nameText name ++ " " ++ predicate.text
  | .entry name key predicate => nameText name ++ "[" ++ quote key ++ "] " ++ predicate.text
  | .nested name children => nameText name ++ " \x7b" ++ blockText children ++ " \x7d"
  | .association name [] => ">" ++ nameText name
  | .association name (child :: more) =>
    ">" ++ nameText name ++ " \x7b" ++ blockText (child :: more) ++ " \x7d"

/-- Statements behind an opening brace, a blank before each and `and` between two. -/
def blockText : List Statement → String
  | [] => ""
  | [statement] => " " ++ statement.text
  | statement :: next :: more => " " ++ statement.text ++ " and" ++ blockText (next :: more)

end

/-! ## Equality -/

mutual

/-- Whether two statements have the same form, names and operands. -/
def same : Statement → Statement → Bool
  | .property m p, .property n q => m == n && p.same q
  | .entry m k p, .entry n l q => m == n && k == l && p.same q
  | .nested m ss, .nested n ts => m == n && sameAll ss ts
  | .association m ss, .association n ts => m == n && sameAll ss ts
  | _, _ => false

/-- Whether two lists hold the same statements in the same order. -/
def sameAll : List Statement → List Statement → Bool
  | [], [] => true
  | s :: ss, t :: ts => s.same t && sameAll ss ts
  | _, _ => false

end

end Statement

end Compliance
