import Compliance.Proofs.Token.Joined
import Compliance.Proofs.Token.Scanned

/-!
# Tokens and their characters

A token has a form: a word is made of the characters of words, a floating literal of
digits on both sides of a point, and a string may hold anything.  A text may write a
token in more than one way, as an escape may stand for itself and an integer may have
zeros in front; one of the ways is `Token.text`.  In all of them it is a token of one of
the forms, and every element of a text that is a token is one of the ways to write it.

## Main definitions

* `Token.text` — a token as a source text has it.
* `Token.Formed` — the forms of tokens.
* `Inside inner content` — what may stand between the quotes of a string.
* `Token.Written t cs` — all the ways to write a token.
* `written_of_element` — an element that is a token is one of the ways to write it.
-/

namespace Compliance

open Text

namespace Token

/-- A token as a source text has it. -/
def text : Token → String
  | .word text => text
  | .string content => quote content
  | .int value => intText value.toInt
  | .float text => text
  | .braceOpen => "\x7b"
  | .braceClose => "\x7d"
  | .bracketOpen => "["
  | .bracketClose => "]"
  | .colon => ":"
  | .comma => ","
  | .assign => "="
  | .equal => "=="
  | .notEqual => "!="
  | .less => "<"
  | .atMost => "<="
  | .greater => ">"
  | .atLeast => ">="
  | .eof => ""

/-- A token that is always written the same. -/
def isSign : Token → Bool
  | .word _ | .string _ | .int _ | .float _ | .eof => false
  | _ => true

/-- The forms of tokens.  A word starts with a character that words can start with and goes on with
those they can go on with; a floating literal has digits, a point and digits, and may have a minus
in front; there is any string, any integer of 64 bits and any sign.  The end of a text is not
written. -/
def Formed : Token → Prop
  | .word text => isWord text = true
  | .float text => ∃ negative whole fraction, fraction ≠ [] ∧ Decimal text negative whole fraction
  | .eof => False
  | _ => True

end Token

/-! ## Ways to write a token -/

/-- What may stand between the quotes of a string, and what it stands for.  A backslash and any
character behind it are one escape. -/
inductive Inside : List Char → List Char → Prop
  | nil : Inside [] []
  | plain {c : Char} {inner content : List Char} : c ≠ '"' → c ≠ '\\' → c ≠ '\n' →
      Inside inner content → Inside (c :: inner) (c :: content)
  | escape {c : Char} {inner content : List Char} :
      Inside inner content → Inside ('\\' :: c :: inner) (unescape c ++ content)

/-- What characters write a token, wherever they stand. -/
inductive Token.Written : Token → List Char → Prop
  | word {text : String} : isWord text = true → Written (.word text) text.toList
  | string {inner content : List Char} : Inside inner content →
      Written (.string (String.ofList content)) ('"' :: inner ++ ['"'])
  | int {value : Int64} {negative : Bool} {digits : List Char} : digits ≠ [] →
      digits.all Char.isDigit = true →
      value.toInt = (if negative then -(readNat digits : Int) else readNat digits) →
      Written (.int value) ((if negative then ['-'] else []) ++ digits)
  | float {text : String} {negative : Bool} {whole fraction : List Char} : fraction ≠ [] →
      Decimal text negative whole fraction → Written (.float text) text.toList
  | sign {t : Token} : t.isSign = true → Written t t.text.toList

/-- Only a token of one of the forms is ever written. -/
theorem Token.Written.formed {t : Token} {cs : List Char} (h : t.Written cs) : t.Formed := by
  cases h with
  | word whole => exact whole
  | string | int => trivial
  | float nonempty parts => exact ⟨_, _, _, nonempty, parts⟩
  | sign fixed => cases t <;> trivial

theorem Token.Written.ne_nil {t : Token} {cs : List Char} (h : t.Written cs) : cs ≠ [] := by
  cases h with
  | @word text whole =>
    intro empty
    rw [isWord, empty] at whole
    cases whole
  | string => simp
  | int nonempty => simp [nonempty]
  | float _ parts => simp [parts.text_eq]
  | sign fixed =>
    cases t with
    | word | string | int | float | eof => cases fixed
    | _ => simp [text]

/-! ## Elements -/

section

variable {c : Char} {rest : List Char} {found : Element} {t : Token}

/-- What is read as a quoted text is something that may stand between quotes, and a quote. -/
theorem inside_of_readQuoted {cs content : List Char} {width : Nat}
    (h : readQuoted cs = .ok (content, width)) :
    ∃ inner, Inside inner content ∧ cs.take width = inner ++ ['"'] := by
  fun_induction readQuoted cs generalizing content width with
  | case1 | case2 | case4 | case6 | case8 => cases h
  | case3 rest =>
    cases h
    exact ⟨[], .nil, rfl⟩
  | case5 c rest inner innerWidth read ih =>
    cases h
    obtain ⟨written, inside, taken⟩ := ih read
    exact ⟨'\\' :: c :: written, inside.escape, by simp [taken]⟩
  | case7 c rest line quote dangling escape inner innerWidth read ih =>
    cases h
    obtain ⟨written, inside, taken⟩ := ih read
    have noEscape : c ≠ '\\' := by
      rintro rfl
      cases rest with
      | nil => exact dangling rfl rfl
      | cons d rest => exact escape d rest rfl rfl
    exact ⟨c :: written, inside.plain quote noEscape line, by simp [taken]⟩

theorem text_of_sign {extra : Nat} (h : sign c rest = some (t, extra)) :
    t.isSign = true ∧ c :: rest.take extra = t.text.toList := by
  have doubled (same : rest.head? = some '=') : rest.take 1 = ['='] := by
    obtain ⟨more, rfl⟩ := List.head?_eq_some_iff.mp same
    rfl
  unfold sign at h
  simp only at h
  split at h <;> try split at h
  all_goals
    first
    | cases h; exact ⟨rfl, rfl⟩
    | next same => cases h; exact ⟨rfl, by rw [doubled same]; rfl⟩
    | cases h

/-- Digits with a sign or without are read as the integer that they are, if it has 64 bits. -/
theorem readInt64_eq_some_iff {value : Int64} {negative : Bool} {digits : List Char}
    (nonempty : digits ≠ []) (all : digits.all Char.isDigit = true) :
    readInt64 ((if negative then ['-'] else []) ++ digits) = some value ↔
      value.toInt = (if negative then -(readNat digits : Int) else readNat digits) := by
  have inRange (i : Int) : (if Int64.minValue.toInt ≤ i ∧ i ≤ Int64.maxValue.toInt then
      some (Int64.ofInt i) else none) = some value ↔ value.toInt = i := by
    constructor
    · intro h
      split at h
      · next range =>
        cases h
        exact Int64.toInt_ofInt_of_le range.1 (Int.lt_of_le_of_lt range.2 (by decide))
      · cases h
    · rintro rfl
      rw [if_pos ⟨value.minValue_le_toInt, value.toInt_le⟩, Int64.ofInt_toInt]
  cases negative with
  | true => exact inRange _
  | false =>
    obtain ⟨d, more, rfl⟩ := List.exists_cons_of_ne_nil nonempty
    have noMinus : d ≠ '-' := by
      rintro rfl
      rw [List.all_cons, Bool.and_eq_true] at all
      exact absurd all.1 (by decide)
    have read : readInt64 (d :: more) = if Int64.minValue.toInt ≤ (readNat (d :: more) : Int) ∧
        (readNat (d :: more) : Int) ≤ Int64.maxValue.toInt then
          some (Int64.ofInt (readNat (d :: more))) else none := by
      simp only [readInt64]
      split
      · next same => exact absurd (List.cons.inj same).1 noMinus
      · rfl
    exact read ▸ inRange _

theorem take_length_takeWhile (p : Char → Bool) (cs : List Char) :
    cs.take (cs.takeWhile p).length = cs.takeWhile p :=
  List.prefix_iff_eq_take.mp (List.takeWhile_prefix p) |>.symm

theorem written_of_number (starts : startsNumber c rest = true) (h : number c rest = .ok found)
    (ht : found.token = some t) : t.Written (c :: rest.take found.extra) := by
  obtain ⟨negative, whole, nonempty, digits, parts⟩ := exists_whole starts
  by_cases fraction : ∃ d more, rest.drop (rest.takeWhile Char.isDigit).length =
      '.' :: d :: more ∧ d.isDigit = true
  · obtain ⟨d, more, behind, digit⟩ := fraction
    rw [number_of_fraction behind digit] at h
    cases h
    cases ht
    have all : (d :: more.takeWhile Char.isDigit).all Char.isDigit = true := by
      rw [List.all_cons, digit, List.all_takeWhile]
      rfl
    have decimal : Token.Decimal (String.ofList (c :: rest.takeWhile Char.isDigit ++
        '.' :: d :: more.takeWhile Char.isDigit)) negative whole
          (d :: more.takeWhile Char.isDigit) :=
      ⟨by rw [parts], nonempty, digits, all⟩
    have written := Token.Written.float (by simp) decimal
    have taken : rest.take ((rest.takeWhile Char.isDigit).length + 1 +
        (d :: more.takeWhile Char.isDigit).length) =
          rest.takeWhile Char.isDigit ++ '.' :: d :: more.takeWhile Char.isDigit := by
      rw [Nat.add_assoc, List.take_add, take_length_takeWhile, behind, Nat.add_comm 1]
      simp [take_length_takeWhile]
    rw [String.toList_ofList] at written
    rw [taken]
    exact written
  · have notFraction : ∀ d more, rest.drop (rest.takeWhile Char.isDigit).length =
        '.' :: d :: more → d.isDigit = false := fun d more behind => by
      rw [← Bool.not_eq_true]
      exact fun digit => fraction ⟨d, more, behind, digit⟩
    rw [number_of_whole notFraction, number.integer] at h
    split at h
    · next value read =>
      cases h
      cases ht
      rw [take_length_takeWhile, parts]
      rw [parts] at read
      exact .int nonempty digits ((readInt64_eq_some_iff nonempty digits).mp read)
    · cases h

/-- **An element that is a token writes it.** -/
theorem written_of_element (h : element c rest = .ok found) (ht : found.token = some t) :
    t.Written (c :: rest.take found.extra) := by
  cases first_of_element h with
  | lineComment | blockComment | blank => cases ht
  | quoted quote read =>
    cases ht
    subst quote
    obtain ⟨inner, inside, taken⟩ := inside_of_readQuoted read
    rw [taken]
    exact .string inside
  | number starts read => exact written_of_number starts read ht
  | sign read =>
    cases ht
    obtain ⟨fixed, written⟩ := text_of_sign read
    rw [written]
    exact .sign fixed
  | word start =>
    cases ht
    have word : isWord (String.ofList (c :: rest.takeWhile isWordPart)) = true := by
      rw [isWord, String.toList_ofList]
      simp only [start, Bool.true_and]
      exact List.all_takeWhile
    have written := Token.Written.word word
    rw [String.toList_ofList] at written
    rw [take_length_takeWhile]
    exact written

end

end Compliance
