import Compliance.Statement.Parser

/-!
# From tokens to rules

The parts of declarations that a reader takes whole or not at all: settings,
references to other files, and rules with their blocks.

## Main definitions

* `Parser.setting`, `Parser.inclusion` — a `set` and a `use`.
* `Parser.header` — the keyword and name of a declaration.
* `Parser.rule levels` — a rule.
-/

namespace Compliance.Parser

open Declaration

/-- `set key = value` -/
def setting (file : String) : Parser Assignment := do
  let origin ← origin file
  expectWord "set"
  let key ← reference "a config key"
  expect .assign
  return { key, value := ← literal, origin }

/-- The kind among some that a token is the keyword of. -/
def keywordAmong? (kinds : List DeclarationKind) : Token → Option DeclarationKind
  | .word text => kinds.find? (·.keyword = text)
  | _ => none

/-- `use kind "path"`, for one of some kinds. -/
def inclusion (file : String) (kinds : List DeclarationKind) :
    Parser (DeclarationKind × Inclusion) := do
  let origin ← origin file
  expectWord "use"
  match keywordAmong? kinds (← token) with
  | some kind =>
    advance
    return (kind, { path := ← string, origin })
  | none => unexpected (" or ".intercalate (kinds.map fun kind => "'" ++ kind.keyword ++ "'"))

/-- The keyword and name that start a declaration, and where it starts. -/
def header (file : String) (kind : DeclarationKind) : Parser (String × Origin) := do
  let origin ← origin file
  expectWord kind.keyword
  let name ← nameOf ("a " ++ kind.keyword ++ " name")
  return (name, origin)

/-- A brace that closes nothing is passed over, and is a fault. -/
def strayBrace {α : Type} : Parser α := fun c =>
  .error ⟨c.current.position, .strayBrace⟩ c.advance

/-! ## Rules -/

/-- The parts of a rule read so far, settings last first. -/
structure RuleParts where
  settings : List Assignment := []
  conditions : Option (List Statement) := none
  assertions : Option (List Statement) := none

open Parsing

variable {σ : Type} [Parsing σ]

/-- One more part of a rule.  Neither of the two blocks may come twice. -/
def rulePart (file name : String) (levels : Nat) (parts : RuleParts) : Reading σ RuleParts :=
  enter (.member .rule) do
    match ← take token with
    | .word "set" => return { parts with settings := (← take (setting file)) :: parts.settings }
    | .word "with" =>
      if parts.conditions.isSome then take (refuse (.repeatedBlock name "with"))
      take advance
      return { parts with conditions := some (← block levels) }
    | .word "assert" =>
      if parts.assertions.isSome then take (refuse (.repeatedBlock name "assert"))
      take advance
      return { parts with assertions := some (← block levels) }
    | _ => take (unexpected "'set', 'with' or 'assert'")

/-- The block of a rule, with at most `levels` levels of blocks below it. -/
def ruleBody (file name : String) (levels : Nat) : Reading σ (RuleParts × List Statement) := do
  Parsing.openBlock
  let parts ← inside (foldWhile (fun c => !c.atBlockEnd) (rulePart file name levels) {})
  match parts.assertions with
  | none => take (refuse (.missingAssertions name))
  | some assertions =>
    take closeBlock
    return (parts, assertions)

/-- A rule, with at most `levels` levels of blocks. -/
def rule (file : String) (levels : Nat) : Reading σ Rule :=
  enter (.declaration .rule) do
    let (name, origin) ← take (header file .rule)
    take (expectWord "on")
    let target ← take (reference "a resource type")
    let (parts, assertions) ← match levels with
      | 0 => take refuseBlock
      | below + 1 => ruleBody file name below
    return {
      name, target, assertions, origin
      settings := parts.settings.reverse
      conditions := parts.conditions.getD [] }

end Compliance.Parser
