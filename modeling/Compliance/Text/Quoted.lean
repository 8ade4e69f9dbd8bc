/-!
# Quoted text

A text between double quotes: how it is written, how it is read back, and the
removal of a pair of quotes around a text.  The quote and the backslash are
written with a backslash in front, line feed and tabulator as `\n` and `\t`, and
every other character as itself.  A reader keeps the backslash of any other
escape, and a quoted text never runs over the end of its line.

## Main definitions

* `quote s` — `s` as a quoted text.
* `readQuoted cs` — the content of a quoted text whose opening quote is already
  gone, with the number of characters up to and including the closing quote.
* `unquote s` — `s` without one pair of surrounding quotes.
-/

namespace Compliance.Text

/-! ## Writing -/

/-- How one character is written between quotes. -/
def escape : Char → List Char
  | '"' => ['\\', '"']
  | '\\' => ['\\', '\\']
  | '\n' => ['\\', 'n']
  | '\t' => ['\\', 't']
  | c => [c]

/-- The characters of a text between its quotes. -/
def escapeAll (cs : List Char) : List Char := cs.flatMap escape

/-- A text in double quotes, so that reading gives it back. -/
def quote (s : String) : String :=
  String.ofList ('"' :: escapeAll s.toList ++ ['"'])

/-! ## Reading -/

/-- Why a quoted text does not end. -/
inductive QuoteFault where
  /-- The line or the text ends before the closing quote. -/
  | unterminated
  /-- The text ends right after a backslash. -/
  | danglingEscape
deriving DecidableEq, Repr

/-- What an escape stands for: an unknown one stands for itself, backslash included. -/
def unescape : Char → List Char
  | '"' => ['"']
  | '\\' => ['\\']
  | 'n' => ['\n']
  | 't' => ['\t']
  | c => ['\\', c]

/-- The content of a quoted text from behind its opening quote, and how many characters it
takes with the closing quote. -/
def readQuoted : List Char → Except QuoteFault (List Char × Nat)
  | [] => .error .unterminated
  | '\n' :: _ => .error .unterminated
  | '"' :: _ => .ok ([], 1)
  | '\\' :: [] => .error .danglingEscape
  | '\\' :: c :: rest =>
    match readQuoted rest with
    | .ok (content, width) => .ok (unescape c ++ content, width + 2)
    | .error fault => .error fault
  | c :: rest =>
    match readQuoted rest with
    | .ok (content, width) => .ok (c :: content, width + 1)
    | .error fault => .error fault

/-- What was written is read back, whatever follows the closing quote. -/
theorem readQuoted_escapeAll (cs rest : List Char) :
    readQuoted (escapeAll cs ++ '"' :: rest) = .ok (cs, (escapeAll cs).length + 1) := by
  induction cs with
  | nil => simp [escapeAll, readQuoted]
  | cons c cs ih =>
    have key : escapeAll (c :: cs) = escape c ++ escapeAll cs := by simp [escapeAll]
    rw [key, List.append_assoc]
    simp only [escape]
    split
    · simp [readQuoted, ih, unescape]
    · simp [readQuoted, ih, unescape]
    · simp [readQuoted, ih, unescape]
    · simp [readQuoted, ih, unescape]
    · rename_i hquote hback hline _
      rw [List.singleton_append, readQuoted]
      · simp [ih]
      · exact hline
      · exact hquote
      · exact fun h _ => hback h
      · exact fun _ _ h _ => hback h

/-! ## Surrounding quotes -/

/-- A text without one pair of surrounding double quotes; a text that is not in quotes stays. -/
def unquote (s : String) : String :=
  match s.toList with
  | '"' :: rest => if rest.getLast? = some '"' then String.ofList rest.dropLast else s
  | _ => s

end Compliance.Text
