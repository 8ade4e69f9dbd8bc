import Compliance.Predicate.Parser
import Compliance.Production

/-!
# From tokens to statements

A block is a list of statements in braces; between two of them there may be the
word `and`.  A statement may hold a block again, so a block is read with the
number of levels that may still open below, and none opens at the last one.

## Main definitions

* `Parser.statementWith block` — a statement, its own block read by `block`.
* `Parser.block levels` — a block of statements.
-/

namespace Compliance.Parser

open Parsing

variable {σ : Type} [Parsing σ]

/-- What follows the name of a statement: a key and a predicate, a block, or a predicate. -/
def statementTail (block : Reading σ (List Statement)) (name : String) : Reading σ Statement := do
  match ← take token with
  | .bracketOpen =>
    take advance
    let key ← take string
    take (expect .bracketClose)
    return .entry name key (← take predicate)
  | .braceOpen => return .nested name (← block)
  | _ => return .property name (← take predicate)

/-- One statement. -/
def statementWith (block : Reading σ (List Statement)) : Reading σ Statement :=
  enter .statement do
    if (← take token) = .greater then
      take advance
      let name ← take (nameOf "an association name")
      let children ← if (← take token) = .braceOpen then block else pure []
      return .association name children
    else
      let name ← take (nameOf "a statement")
      statementTail block name

/-- A statement behind another one, which `and` may join. -/
def nextStatement (statement : Reading σ Statement) : Reading σ Statement := do
  if (← take token) = .word "and" then take advance
  statement

/-- Statements up to the end of their block.  `and` in front of the first one is a name. -/
def statements (statement : Reading σ Statement) : Reading σ (List Statement) := do
  if (← take get).atBlockEnd then return []
  let first ← statement
  let more ← repeatWhile (fun c => !c.atBlockEnd) (nextStatement statement)
  return first :: more

/-- A block with at most `levels` levels of blocks, itself among them. -/
def block : Nat → Reading σ (List Statement)
  | 0 => enter .block (take refuseBlock)
  | levels + 1 => enter .block do
    Parsing.openBlock
    let children ← inside (statements (statementWith (block levels)))
    take closeBlock
    return children

/-- At the last level no block opens. -/
theorem block_zero : (block 0 : Parser (List Statement)) = refuseBlock := rfl

theorem block_succ (levels : Nat) : (block (levels + 1) : Parser (List Statement)) = (do
    openBlock
    let children ← statements (statementWith (block levels))
    closeBlock
    return children) := rfl

end Compliance.Parser
