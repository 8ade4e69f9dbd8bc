import Compliance.Fault

/-!
# Reading tokens

A cursor stands on one token of a text and knows the tokens ahead and how many
blocks are open.  A parser moves a cursor on, and either has a value or stops at
a fault; the cursor of a fault is kept, because reading may go on behind it.
The cursor never moves past its last token, which is the end of the text.  What is
known beside the cursor while a text is read makes up a state of reading.

## Main definitions

* `Cursor` — a place among tokens.
* `HasCursor`, `Reading` — states of reading, and what moves them on.
* `Parser` — what moves a cursor.
* `Parser.foldWhile`, `Parser.repeatWhile` — repeating a parser.
* `Parser.foldWhile_induction` — induction on the steps of a repetition.
* `Parser.openBlock`, `Parser.closeBlock` — the braces of a block.
* `Parser.nameOf`, `Parser.reference` — names and references.
-/

namespace Compliance

/-! ## Cursors -/

/-- A place among the tokens of a text. -/
structure Cursor where
  current : Placed
  ahead : List Placed
  /-- The number of open blocks. -/
  depth : Nat
deriving DecidableEq, Inhabited

namespace Cursor

def ofTokens : List Placed → Cursor
  | [] => ⟨⟨.eof, Position.start⟩, [], 0⟩
  | t :: ts => ⟨t, ts, 0⟩

def token (c : Cursor) : Token := c.current.token

/-- How many tokens lie ahead. -/
def size (c : Cursor) : Nat := c.ahead.length

/-- The cursor on the next token; on the last token it stays. -/
def advance (c : Cursor) : Cursor :=
  match c.ahead with
  | [] => c
  | t :: ts => { c with current := t, ahead := ts }

@[simp] theorem size_advance (c : Cursor) : c.advance.size = c.size - 1 := by
  simp only [advance, size]
  split <;> simp_all

/-- Whether no member of a block can start here: its block or the text ends. -/
def atBlockEnd (c : Cursor) : Bool := c.token = .braceClose || c.token = .eof

end Cursor

/-! ## States of reading -/

/-- A state of reading: a cursor, and possibly more beside it. -/
class HasCursor (σ : Type) where
  cursor : σ → Cursor

instance : HasCursor Cursor where
  cursor := id

@[simp] theorem HasCursor.cursor_self (c : Cursor) : cursor c = c := rfl

/-- What moves a state of reading on and has a value, or stops at a fault. -/
abbrev Reading (σ α : Type) := EStateM SyntaxFault σ α

/-! ## Parsers -/

/-- What moves a cursor on and has a value, or stops at a fault. -/
abbrev Parser (α : Type) := Reading Cursor α

namespace Parser

def token : Parser Token := fun c => .ok c.token c

def position : Parser Position := fun c => .ok c.current.position c

/-- Moves to the next token. -/
def advance : Parser Unit := fun c => .ok () c.advance

/-- Stops at a fault of the current token. -/
def refuse {α : Type} (cause : SyntaxCause) : Parser α := fun c =>
  .error ⟨c.current.position, cause⟩ c

/-- Stops because the current token is not what it should be. -/
def unexpected {α : Type} (phrase : String) : Parser α := fun c =>
  .error ⟨c.current.position, .expected phrase c.token⟩ c

/-- One given token. -/
def expect (t : Token) : Parser Unit := do
  if (← token) = t then advance else unexpected t.describe

/-- One given word. -/
def expectWord (word : String) : Parser Unit := expect (.word word)

/-- Where the current token comes from. -/
def origin (file : String) : Parser Origin := do
  return ⟨file, (← position).line⟩

/-! ## Repetition -/

section

variable {σ α β : Type} [HasCursor σ]

open HasCursor

/-- Carries a value through steps as long as a test of the cursor allows one more.  A step that
moves nothing is the last one. -/
def foldWhile (goOn : Cursor → Bool) (step : β → Reading σ β) (b : β) : Reading σ β := fun s =>
  if goOn (cursor s) then
    match step b s with
    | .ok next t =>
      if (cursor t).size < (cursor s).size then foldWhile goOn step next t else .ok next t
    | .error fault t => .error fault t
  else .ok b s
termination_by s => (cursor s).size

/-- Repeats a part as long as a test of the cursor allows it, and has its values in order. -/
def repeatWhile (goOn : Cursor → Bool) (item : Reading σ α) : Reading σ (List α) := do
  let values ← foldWhile goOn (fun values => do return (← item) :: values) []
  return values.reverse

variable {goOn : Cursor → Bool} {step : β → Reading σ β} {b next : β} {s t : σ}
  {fault : SyntaxFault}

theorem foldWhile_end (ends : goOn (cursor s) = false) : foldWhile goOn step b s = .ok b s := by
  rw [foldWhile, if_neg (by simp [ends])]

theorem foldWhile_cons (continues : goOn (cursor s) = true) (read : step b s = .ok next t)
    (less : (cursor t).size < (cursor s).size) :
    foldWhile goOn step b s = foldWhile goOn step next t := by
  rw [foldWhile, if_pos continues, read]
  exact if_pos less

/-- A step that moves nothing is the last. -/
theorem foldWhile_last (continues : goOn (cursor s) = true) (read : step b s = .ok next t)
    (last : ¬ (cursor t).size < (cursor s).size) : foldWhile goOn step b s = .ok next t := by
  rw [foldWhile, if_pos continues, read]
  exact if_neg last

theorem foldWhile_stop (continues : goOn (cursor s) = true) (stops : step b s = .error fault t) :
    foldWhile goOn step b s = .error fault t := by
  rw [foldWhile, if_pos continues, stops]

/-- Induction on the steps of a repetition: the test allows no more, a step is followed by others or
is the last, or it stops at a fault. -/
theorem foldWhile_induction (goOn : Cursor → Bool) (step : β → Reading σ β) {motive : β → σ → Prop}
    (finish : ∀ b s, goOn (cursor s) = false → motive b s)
    (more : ∀ b s next t, goOn (cursor s) = true → step b s = .ok next t →
      (cursor t).size < (cursor s).size → motive next t → motive b s)
    (last : ∀ b s next t, goOn (cursor s) = true → step b s = .ok next t →
      ¬ (cursor t).size < (cursor s).size → motive b s)
    (stop : ∀ b s fault t, goOn (cursor s) = true → step b s = .error fault t → motive b s)
    (b : β) (s : σ) : motive b s := by
  induction size : (cursor s).size using Nat.strongRecOn generalizing b s with
  | ind size ih =>
    subst size
    cases continues : goOn (cursor s) with
    | false => exact finish b s continues
    | true =>
      cases read : step b s with
      | error fault t => exact stop b s fault t continues read
      | ok next t =>
        by_cases less : (cursor t).size < (cursor s).size
        · exact more b s next t continues read less (ih _ less next t rfl)
        · exact last b s next t continues read less

end

/-! ## Blocks -/

def openBlock : Parser Unit := do
  expect .braceOpen
  modify fun c => { c with depth := c.depth + 1 }

def closeBlock : Parser Unit := do
  expect .braceClose
  modify fun c => { c with depth := c.depth - 1 }

/-- Stops where a block should start that would be nested too deep. -/
def refuseBlock {α : Type} : Parser α := do
  if (← token) = .braceOpen then refuse .tooDeep else unexpected Token.braceOpen.describe

/-! ## Names and references -/

def string : Parser String := do
  match ← token with
  | .string content =>
    advance
    return content
  | _ => unexpected "a string"

/-- A name: a word or a quoted string that is not empty. -/
def nameOf (phrase : String) : Parser String := do
  let name ← match ← token with
    | .word text => pure text
    | .string content => pure content
    | _ => unexpected phrase
  if name.isEmpty then refuse (.emptyName phrase)
  advance
  return name

/-- A colon and the word behind it. -/
def segment (phrase : String) : Parser String := do
  advance
  match ← token with
  | .word text =>
    advance
    return text
  | _ => unexpected ("the next segment of " ++ phrase)

/-- A reference: a quoted string, or words with colons between.  Its shape is not checked here. -/
def reference (phrase : String) : Parser String := do
  match ← token with
  | .string content =>
    advance
    return content
  | .word first =>
    advance
    let more ← repeatWhile (fun c => c.token = .colon) (segment phrase)
    return ":".intercalate (first :: more)
  | _ => unexpected phrase

end Parser

end Compliance
