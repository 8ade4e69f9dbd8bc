import Compliance.Proofs.Binary64.Text
import Compliance.Token.Lexer

/-!
# The tokens of a text

The tokens of a text end with the end of the text, and every other one is an
element of it.  So no word among them is empty, and a floating literal is digits
with a point among them, with or without a minus in front; all of these can be
read, and a parser of such tokens need not look for either.

## Main definitions

* `Token.Decimal text negative whole fraction` — the parts of a floating literal.
* `Token.Genuine` — a token as texts have it.
* `Token.genuine_of_scan` — all tokens of a text are.
* `Token.exists_decimal_of_scan` — every floating literal in a text has its parts.
-/

namespace Compliance

open Text

namespace Token

/-- A floating literal with a sign or without, digits, a point, and more digits. -/
structure Decimal (text : String) (negative : Bool) (whole fraction : List Char) : Prop where
  text_eq : text = String.ofList ((if negative then ['-'] else []) ++ whole ++ '.' :: fraction)
  whole_ne : whole ≠ []
  whole_digits : whole.all Char.isDigit = true
  fraction_digits : fraction.all Char.isDigit = true

/-- The number that the parts of a floating literal are rounded to. -/
theorem Decimal.read? {text : String} {negative : Bool} {whole fraction : List Char}
    (h : Decimal text negative whole fraction) : Binary64.read? text =
      some (.ofDecimal negative (readNat (whole ++ fraction)) (-fraction.length)) := by
  rw [h.text_eq, Binary64.read?_decimal h.whole_ne h.whole_digits h.fraction_digits]

/-- A token as texts have it: a word is not empty, and a floating literal can be read. -/
def Genuine : Token → Prop
  | .word text => text ≠ ""
  | .float text => (Binary64.read? text).isSome = true
  | _ => True

end Token

/-! ## Elements -/

variable {c : Char} {rest : List Char} {found : Element} {t : Token}

/-- A sign is a token like any other, and no floating literal. -/
theorem genuine_of_sign {extra : Nat} (h : sign c rest = some (t, extra)) :
    t.Genuine ∧ ∀ text, t ≠ .float text := by
  unfold sign at h
  simp only at h
  split at h <;> try split at h
  all_goals first | cases h; exact ⟨trivial, nofun⟩ | cases h

/-- What a number starts with: a digit, or a minus with a digit behind it. -/
theorem exists_whole (h : startsNumber c rest = true) :
    ∃ (negative : Bool) (whole : List Char), whole ≠ [] ∧ whole.all Char.isDigit = true ∧
      c :: rest.takeWhile Char.isDigit = (if negative then ['-'] else []) ++ whole := by
  have run : (rest.takeWhile Char.isDigit).all Char.isDigit = true := List.all_takeWhile
  simp only [startsNumber, Bool.or_eq_true, Bool.and_eq_true, decide_eq_true_eq] at h
  rcases h with digit | ⟨rfl, behind⟩
  · exact ⟨false, c :: rest.takeWhile Char.isDigit, by simp, by simp [digit, run], rfl⟩
  · refine ⟨true, rest.takeWhile Char.isDigit, ?_, run, rfl⟩
    cases rest with
    | nil => cases behind
    | cons d more =>
      have digit : d.isDigit = true := by simpa using behind
      simp [digit]

/-- An element that is a floating literal has the parts of one. -/
theorem exists_decimal_of_element {text : String} (h : element c rest = .ok found)
    (ht : found.token = some (.float text)) :
    ∃ negative whole fraction, Token.Decimal text negative whole fraction := by
  cases first_of_element h with
  | lineComment | blockComment | blank | quoted | word => cases ht
  | number starts number =>
    rcases number_cases number with ⟨i, int⟩ | ⟨d, more, digit, float⟩
    · cases ht.symm.trans int
    · cases ht.symm.trans float
      obtain ⟨negative, whole, nonempty, every, written⟩ := exists_whole starts
      have fraction : (d :: more.takeWhile Char.isDigit).all Char.isDigit = true := by
        rw [List.all_cons, digit, List.all_takeWhile]
        rfl
      exact ⟨negative, whole, _, by rw [written], nonempty, every, fraction⟩
  | sign read =>
    cases ht
    exact absurd rfl ((genuine_of_sign read).2 text)

/-- **Every element that is a token is one as texts have it.** -/
theorem genuine_of_element (h : element c rest = .ok found) (ht : found.token = some t) :
    t.Genuine := by
  cases first_of_element h with
  | lineComment | blockComment | blank => cases ht
  | quoted =>
    cases ht
    trivial
  | number starts number =>
    rcases number_cases number with ⟨i, int⟩ | ⟨_, _, -, float⟩
    · cases ht.symm.trans int
      trivial
    · cases ht.symm.trans float
      obtain ⟨negative, whole, fraction, parts⟩ := exists_decimal_of_element h ht
      rw [Token.Genuine, parts.read?]
      rfl
  | sign read =>
    cases ht
    exact (genuine_of_sign read).1
  | word =>
    cases ht
    simp [Token.Genuine]

/-! ## Texts -/

namespace Token

variable {source : String} {tokens : List Placed}

/-- The tokens of a text from some character on end with its end. -/
theorem ends_of_scanFrom {cs : List Char} {position : Position}
    (h : scanFrom position cs = .ok tokens) :
    (tokens.map Placed.token).getLast? = some .eof := by
  fun_induction scanFrom position cs generalizing tokens with
  | case1 position =>
    cases h
    rfl
  | case2 | case3 => cases h
  | case4 position c rest found read others rest' token isToken ih =>
    cases h
    simp [List.getLast?_cons, ih rest']
  | case5 position c rest found read others rest' isGap ih =>
    cases h
    exact ih rest'

theorem exists_element_of_scanFrom {cs : List Char} {position : Position}
    (h : scanFrom position cs = .ok tokens) (ht : t ∈ tokens.map Placed.token) :
    t = .eof ∨ ∃ c rest found, element c rest = .ok found ∧ found.token = some t := by
  fun_induction scanFrom position cs generalizing tokens with
  | case1 position =>
    cases h
    exact .inl (List.mem_singleton.mp ht)
  | case2 | case3 => cases h
  | case4 position c rest found read others rest' token isToken ih =>
    cases h
    rw [List.map_cons, List.mem_cons] at ht
    rcases ht with rfl | later
    · exact .inr ⟨c, rest, found, read, isToken⟩
    · exact ih rest' later
  | case5 position c rest found read others rest' isGap ih =>
    cases h
    exact ih rest' ht

/-- **The tokens of a text are as texts have them, and the last is its end.** -/
theorem genuine_of_scan (h : scan source = .ok tokens) :
    (tokens.map Placed.token).getLast? = some .eof ∧ ∀ t ∈ tokens.map Placed.token, t.Genuine := by
  refine ⟨ends_of_scanFrom h, fun t ht => ?_⟩
  rcases exists_element_of_scanFrom h ht with rfl | ⟨c, rest, found, read, isToken⟩
  · trivial
  · exact genuine_of_element read isToken

/-- **Every floating literal in a text has the parts of one.** -/
theorem exists_decimal_of_scan (h : scan source = .ok tokens) {text : String}
    (ht : Token.float text ∈ tokens.map Placed.token) :
    ∃ negative whole fraction, Decimal text negative whole fraction := by
  rcases exists_element_of_scanFrom h ht with last | ⟨c, rest, found, read, float⟩
  · cases last
  · exact exists_decimal_of_element read float

end Token

end Compliance
