import Compliance.Token.Cursor

/-!
# Literals

The literals of the language: strings, numbers, the words for the two booleans,
`null`, and dates, which are a quoted text behind the word `date`.

## Main definitions

* `Parser.literal` — one literal.
* `Parser.literals` — literals in brackets.
-/

namespace Compliance.Parser

def wordValue? : String → Option Value
  | "true" | "yes" | "on" => some (.boolean true)
  | "false" | "no" | "off" => some (.boolean false)
  | "null" => some .null
  | _ => none

def date : Parser Moment := do
  match ← token with
  | .string text =>
    match Moment.read? text with
    | some moment =>
      advance
      return moment
    | none => refuse (.date text)
  | _ => unexpected "a quoted date after 'date'"

def literal : Parser Value := do
  match ← token with
  | .string content =>
    advance
    return .string content
  | .int value =>
    advance
    return .number (.int value)
  | .float text =>
    advance
    return .number (.float ((Binary64.read? text).getD .nan))
  | .word "date" =>
    advance
    return .date (← date)
  | .word text =>
    match wordValue? text with
    | some value =>
      advance
      return value
    | none => unexpected "a literal value"
  | _ => unexpected "a literal value"

/-- Whether a comma with something before the closing bracket behind it comes next. -/
def moreFollows (c : Cursor) : Bool :=
  c.token = .comma && c.advance.token != .bracketClose

/-- Literals in brackets with commas between, and possibly one more comma behind the last. -/
def literals : Parser (List Value) := do
  expect .bracketOpen
  if (← token) = .bracketClose then
    advance
    return []
  let first ← literal
  let more ← repeatWhile moreFollows do
    advance
    literal
  if (← token) = .comma then advance
  expect .bracketClose
  return first :: more

end Compliance.Parser
