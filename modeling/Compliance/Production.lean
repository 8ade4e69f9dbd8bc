import Compliance.Declaration
import Compliance.Token.Cursor

/-!
# Productions

A text is read by productions: declarations, their members, blocks and statements.
What a production does is written once, for every state of reading.  On a cursor
alone it takes tokens; another state may also watch which productions are entered,
and how many blocks are open around them.

## Main definitions

* `Production` — what is entered while a text is read.
* `Parsing` — the states that productions are written for.
-/

namespace Compliance

/-- What is entered while a text is read. -/
inductive Production where
  | declaration (kind : DeclarationKind)
  /-- A member of a declaration of a kind. -/
  | member (kind : DeclarationKind)
  /-- A block of statements. -/
  | block
  | statement
deriving DecidableEq

/-- A state of reading that productions are written for. -/
class Parsing (σ : Type) extends HasCursor σ where
  /-- A parser of tokens, which enters no production. -/
  take : {α : Type} → Parser α → Reading σ α
  /-- What a production does, behind its being entered. -/
  enter : {α : Type} → Production → Reading σ α → Reading σ α
  /-- The brace that opens a block. -/
  openBlock : Reading σ Unit
  /-- What is read in a block, between its braces. -/
  inside : {α : Type} → Reading σ α → Reading σ α

namespace Parsing

/-- A cursor knows of tokens only. -/
@[default_instance] instance : Parsing Cursor where
  take parser := parser
  enter _ act := act
  openBlock := Parser.openBlock
  inside act := act

section

variable {α : Type} (parser : Parser α) (production : Production)

@[simp] theorem take_cursor : (take parser : Parser α) = parser := rfl

@[simp] theorem enter_cursor : (enter production parser : Parser α) = parser := rfl

@[simp] theorem openBlock_cursor : (openBlock : Parser Unit) = Parser.openBlock := rfl

@[simp] theorem inside_cursor : (inside parser : Parser α) = parser := rfl

end

end Parsing

end Compliance
