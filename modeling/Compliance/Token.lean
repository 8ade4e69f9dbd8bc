import Compliance.Text.Digits

/-!
# Tokens

The smallest units of a source text with meaning, and where they stand.
Keywords are words like any other: which words mean something is a matter of the
place they stand in.

## Main definitions

* `Token` — a word, a literal, a sign, or the end of the text.
* `Token.describe` — a token as error messages quote it.
* `Position` — a line and a column, both counted from 1.
* `Placed` — a token with the position of its first character.
-/

namespace Compliance

open Text

/-- A unit of source text. -/
inductive Token where
  /-- A name or keyword. -/
  | word (text : String)
  /-- A quoted string, its escapes resolved. -/
  | string (content : String)
  /-- An integer literal. -/
  | int (value : Int64)
  /-- A floating literal as it was written. -/
  | float (text : String)
  | braceOpen
  | braceClose
  | bracketOpen
  | bracketClose
  | colon
  | comma
  /-- The `=` of a setting. -/
  | assign
  | equal
  | notEqual
  | less
  | atMost
  /-- Greater, and in front of a name the sign of an association. -/
  | greater
  | atLeast
  /-- The end of the text. -/
  | eof
deriving DecidableEq, Repr

namespace Token

instance : Inhabited Token := ⟨.eof⟩

/-- A token as error messages quote it. -/
def describe : Token → String
  | .word text => "'" ++ text ++ "'"
  | .string content => "string \"" ++ content ++ "\""
  | .int value => "number " ++ intText value.toInt
  | .float text => "number " ++ text
  | .braceOpen => "'\x7b'"
  | .braceClose => "'\x7d'"
  | .bracketOpen => "'['"
  | .bracketClose => "']'"
  | .colon => "':'"
  | .comma => "','"
  | .assign => "'='"
  | .equal => "'=='"
  | .notEqual => "'!='"
  | .less => "'<'"
  | .atMost => "'<='"
  | .greater => "'>'"
  | .atLeast => "'>='"
  | .eof => "end of input"

end Token

/-! ## Positions -/

/-- A place in a text: the line, and the character in it, both counted from 1. -/
structure Position where
  line : Nat
  column : Nat
deriving DecidableEq, Repr, Inhabited

namespace Position

/-- The place of the first character. -/
def start : Position := ⟨1, 1⟩

/-- The place behind one more character. -/
def advance (p : Position) (c : Char) : Position :=
  if c = '\n' then ⟨p.line + 1, 1⟩ else ⟨p.line, p.column + 1⟩

/-- The place behind a run of characters. -/
def after (p : Position) (cs : List Char) : Position := cs.foldl advance p

@[simp] theorem after_append (p : Position) (cs ds : List Char) :
    p.after (cs ++ ds) = (p.after cs).after ds := by
  simp [after]

theorem line_after (p : Position) (cs : List Char) :
    (p.after cs).line = p.line + cs.count '\n' := by
  induction cs generalizing p with
  | nil => simp [after]
  | cons c cs ih =>
    have step : p.after (c :: cs) = (p.advance c).after cs := by simp [after]
    rw [step, ih]
    by_cases h : c = '\n'
    · subst h
      simp [advance]
      omega
    · simp [advance, h]

end Position

/-- A token where it stands. -/
structure Placed where
  token : Token
  position : Position
deriving DecidableEq, Repr, Inhabited

end Compliance
