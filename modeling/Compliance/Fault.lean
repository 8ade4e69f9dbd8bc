import Compliance.Declaration
import Compliance.Json

/-!
# Faults of a source text

What can be wrong with a text as a whole: its lexical faults and its faults of
grammar, each with the place where it shows.

## Main definitions

* `SyntaxCause` — what is wrong, with `message` for the wording.
* `SyntaxFault` — a cause at a position.
* `SyntaxError` — a fault in a named file.
-/

namespace Compliance

open Text

/-- The deepest nesting of blocks, those of declarations and of statements together. -/
def maxNesting : Nat := 128

/-- What is wrong with a text. -/
inductive SyntaxCause where
  | lexical (fault : LexicalFault)
  /-- Something else should stand here; `phrase` says what. -/
  | expected (phrase : String) (found : Token)
  /-- A name is the empty string; `phrase` says whose. -/
  | emptyName (phrase : String)
  /-- A block would be nested deeper than `maxNesting`. -/
  | tooDeep
  /-- A closing brace that closes nothing. -/
  | strayBrace
  /-- A declaration of another kind than the file is read for. -/
  | wrongKind (wanted found : DeclarationKind)
  /-- A rule has two blocks of one kind. -/
  | repeatedBlock (rule block : String)
  | missingAssertions (rule : String)
  | date (text : String)
  /-- The operands do not fit their operator. -/
  | operand (fault : OperandFault)
deriving DecidableEq

/-- The wording of a cause. -/
def SyntaxCause.message : SyntaxCause → String
  | .lexical fault => fault.message
  | .expected phrase found => "expected " ++ phrase ++ ", got " ++ found.describe
  | .emptyName phrase => phrase ++ " must not be empty"
  | .tooDeep => "nesting too deep (more than " ++ natText maxNesting ++ " levels)"
  | .strayBrace => "unexpected '\x7d'"
  | .wrongKind wanted found =>
    "expected a " ++ wanted.keyword ++ " declaration, found " ++ found.keyword
  | .repeatedBlock rule block => "rule '" ++ rule ++ "' has more than one " ++ block ++ " block"
  | .missingAssertions rule => "rule '" ++ rule ++ "' has no assert block"
  | .date written => "invalid date '" ++ written ++ "'"
  | .operand fault => fault.message

/-- A cause where it shows. -/
structure SyntaxFault where
  position : Position
  cause : SyntaxCause
deriving DecidableEq

/-- A fault in a file. -/
structure SyntaxError where
  file : String
  position : Position
  cause : SyntaxCause
deriving DecidableEq

/-- The fault as one of a file. -/
def SyntaxFault.inFile (fault : SyntaxFault) (file : String) : SyntaxError :=
  ⟨file, fault.position, fault.cause⟩

/-- A lexical error as one of a file. -/
def LexicalError.inFile (error : LexicalError) (file : String) : SyntaxError :=
  ⟨file, error.position, .lexical error.fault⟩

namespace SyntaxError

/-- What is wrong, without the place. -/
def message (e : SyntaxError) : String := e.cause.message

/-- An error on one line: the place, and what is wrong there. -/
def text (e : SyntaxError) : String :=
  e.file ++ ":" ++ natText e.position.line ++ ":" ++ natText e.position.column ++ ": " ++ e.message

/-- An error as a document. -/
def toJson (e : SyntaxError) : Json :=
  .object [("file", .string e.file), ("line", .ofNat e.position.line),
    ("column", .ofNat e.position.column), ("message", .string e.message)]

end SyntaxError

end Compliance
