import Compliance.Text.Blank
import Compliance.Text.Letter
import Compliance.Text.Quoted
import Compliance.Token

/-!
# From text to tokens

A text is a sequence of elements: white space, comments, and tokens.  `element`
says what the first element of a text is and how far it reaches; `Token.scan`
places the tokens one after another.  Every list it returns ends with the end of
the text, which is also the only place where that token stands.

## Main definitions

* `Text.isWordStart`, `Text.isWordPart` — the characters of words.
* `element` — the first element of a text.
* `First` — the ways in which a text starts with an element.
* `Token.scan` — the tokens of a text, or its first lexical error.
-/

namespace Compliance

namespace Text

/-- A character that a word can start with. -/
def isWordStart (c : Char) : Bool := isLetter c || c = '_'

/-- A character that a word can go on with. -/
def isWordPart (c : Char) : Bool := isLetter c || isNumeral c || c = '_' || c = '-'

def isWord (s : String) : Bool :=
  match s.toList with
  | [] => false
  | c :: rest => isWordStart c && rest.all isWordPart

end Text

open Text

/-! ## Elements -/

/-- What is wrong with an element. -/
inductive LexicalFault where
  | unterminatedComment
  | unterminatedString
  | unterminatedEscape
  /-- An integer beyond 64 bits. -/
  | integer (text : String)
  /-- A character that no element starts with. -/
  | character (c : Char)
deriving DecidableEq, Repr

/-- The wording of a fault. -/
def LexicalFault.message : LexicalFault → String
  | .unterminatedComment => "unterminated block comment"
  | .unterminatedString => "unterminated string literal"
  | .unterminatedEscape => "unterminated escape in string"
  | .integer text => "invalid integer '" ++ text ++ "'"
  | .character c => "unexpected character '" ++ String.singleton c ++ "'"

/-- An element of a text: the token it is, if it is one, and how many characters it has beyond
its first. -/
structure Element where
  token : Option Token
  extra : Nat
deriving DecidableEq, Repr

/-- The length of a block comment from behind its opening sign through its closing sign. -/
def commentWidth : List Char → Option Nat
  | [] => none
  | '*' :: '/' :: _ => some 2
  | _ :: rest => (commentWidth rest).map (· + 1)

/-- The sign that starts with a character, and how many characters more it has. -/
def sign (c : Char) (rest : List Char) : Option (Token × Nat) :=
  let doubled := rest.head? = some '='
  match c with
  | '=' => if doubled then some (.equal, 1) else some (.assign, 0)
  | '!' => if doubled then some (.notEqual, 1) else none
  | '<' => if doubled then some (.atMost, 1) else some (.less, 0)
  | '>' => if doubled then some (.atLeast, 1) else some (.greater, 0)
  | '{' => some (.braceOpen, 0)
  | '}' => some (.braceClose, 0)
  | '[' => some (.bracketOpen, 0)
  | ']' => some (.bracketClose, 0)
  | ':' => some (.colon, 0)
  | ',' => some (.comma, 0)
  | _ => none

/-- Whether a number starts here: with a digit, or with a minus right before one. -/
def startsNumber (c : Char) (rest : List Char) : Bool :=
  c.isDigit || (c = '-' && rest.head?.any Char.isDigit)

/-- The integer that a signed run of digits denotes, if it has 64 bits. -/
def readInt64 (cs : List Char) : Option Int64 :=
  let value : Int := match cs with
    | '-' :: run => -(readNat run : Int)
    | _ => readNat cs
  if Int64.minValue.toInt ≤ value ∧ value ≤ Int64.maxValue.toInt then some (Int64.ofInt value)
  else none

/-- A number: digits, and with a point and more digits behind it a floating one.  A point that no
digit follows is not part of it. -/
def number (c : Char) (rest : List Char) : Except LexicalFault Element :=
  let run := rest.takeWhile Char.isDigit
  match rest.drop run.length with
  | '.' :: d :: more =>
    if d.isDigit then
      let fraction := d :: more.takeWhile Char.isDigit
      .ok ⟨some (.float (String.ofList (c :: run ++ '.' :: fraction))),
        run.length + 1 + fraction.length⟩
    else integer run
  | _ => integer run
where
  /-- The digits alone, as an integer. -/
  integer (run : List Char) : Except LexicalFault Element :=
    match readInt64 (c :: run) with
    | some value => .ok ⟨some (.int value), run.length⟩
    | none => .error (.integer (String.ofList (c :: run)))

/-- The first element of the text that starts with `c` and goes on with `rest`. -/
def element (c : Char) (rest : List Char) : Except LexicalFault Element :=
  if c = '/' ∧ rest.head? = some '/' then
    .ok ⟨none, (rest.takeWhile (· ≠ '\n')).length⟩
  else if c = '/' ∧ rest.head? = some '*' then
    match commentWidth rest.tail with
    | some width => .ok ⟨none, width + 1⟩
    | none => .error .unterminatedComment
  else if isBlank c then .ok ⟨none, 0⟩
  else if c = '"' then
    match readQuoted rest with
    | .ok (content, width) => .ok ⟨some (.string (String.ofList content)), width⟩
    | .error .unterminated => .error .unterminatedString
    | .error .danglingEscape => .error .unterminatedEscape
  else if startsNumber c rest then number c rest
  else
    match sign c rest with
    | some (token, extra) => .ok ⟨some token, extra⟩
    | none =>
      if isWordStart c then
        let more := rest.takeWhile isWordPart
        .ok ⟨some (.word (String.ofList (c :: more))), more.length⟩
      else .error (.character c)

/-! ## What elements are -/

section

variable {c : Char} {rest : List Char} {found : Element}

/-- A number is an integer, or a floating literal of the digits on both sides of a point. -/
theorem number_cases (h : number c rest = .ok found) : (∃ i, found.token = some (.int i)) ∨
    ∃ (d : Char) (more : List Char), d.isDigit = true ∧ found.token = some (.float (String.ofList
      (c :: rest.takeWhile Char.isDigit ++ '.' :: d :: more.takeWhile Char.isDigit))) := by
  have whole (run : List Char) (h : number.integer c run = .ok found) :
      ∃ i, found.token = some (.int i) := by
    unfold number.integer at h
    split at h
    · next value _ =>
      cases h
      exact ⟨value, rfl⟩
    · cases h
  unfold number at h
  simp only at h
  split at h
  · next d more _ =>
    split at h
    · next digit =>
      cases h
      exact .inr ⟨d, more, digit, rfl⟩
    · exact .inl (whole _ h)
  · exact .inl (whole _ h)

/-- What the first element of a text is, by what the text starts with. -/
inductive First (c : Char) (rest : List Char) : Element → Prop
  | lineComment : c = '/' → rest.head? = some '/' →
    First c rest ⟨none, (rest.takeWhile (· ≠ '\n')).length⟩
  | blockComment {width : Nat} : c = '/' → rest.head? = some '*' →
    commentWidth rest.tail = some width → First c rest ⟨none, width + 1⟩
  | blank : isBlank c = true → First c rest ⟨none, 0⟩
  | quoted {content : List Char} {width : Nat} : c = '"' → readQuoted rest = .ok (content, width) →
    First c rest ⟨some (.string (String.ofList content)), width⟩
  | number {found : Element} : startsNumber c rest = true → number c rest = .ok found →
    First c rest found
  | sign {token : Token} {extra : Nat} : sign c rest = some (token, extra) →
    First c rest ⟨some token, extra⟩
  | word : isWordStart c = true →
    First c rest ⟨some (.word (String.ofList (c :: rest.takeWhile isWordPart))),
      (rest.takeWhile isWordPart).length⟩

theorem first_of_element (h : element c rest = .ok found) : First c rest found := by
  unfold element at h
  split at h
  · next slashes =>
    cases h
    exact .lineComment slashes.1 slashes.2
  split at h
  · next opening =>
    split at h
    · next width closed =>
      cases h
      exact .blockComment opening.1 opening.2 closed
    · cases h
  split at h
  · next blank =>
    cases h
    exact .blank blank
  split at h
  · next quote =>
    split at h
    · next content width read =>
      cases h
      exact .quoted quote read
    · cases h
    · cases h
  split at h
  · next starts => exact .number starts h
  split at h
  · next read =>
    cases h
    exact .sign read
  split at h
  · next start =>
    cases h
    exact .word start
  · cases h

end

/-! ## Texts -/

/-- A lexical error at the first character of the faulty element. -/
structure LexicalError where
  position : Position
  fault : LexicalFault
deriving DecidableEq, Repr

namespace Token

/-- The tokens of a text whose first character stands at a position. -/
def scanFrom (position : Position) : List Char → Except LexicalError (List Placed)
  | [] => .ok [⟨.eof, position⟩]
  | c :: rest =>
    match element c rest with
    | .error fault => .error ⟨position, fault⟩
    | .ok found =>
      match scanFrom (position.after (c :: rest.take found.extra)) (rest.drop found.extra) with
      | .error error => .error error
      | .ok tokens =>
        match found.token with
        | some token => .ok (⟨token, position⟩ :: tokens)
        | none => .ok tokens
termination_by cs => cs.length
decreasing_by
  simp only [List.length_drop, List.length_cons]
  omega

/-- The tokens of a text in order, with the end of the text last. -/
def scan (source : String) : Except LexicalError (List Placed) :=
  scanFrom Position.start source.toList

end Token

end Compliance
