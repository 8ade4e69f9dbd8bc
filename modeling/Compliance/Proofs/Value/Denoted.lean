import Compliance.Proofs.Binary64.Nearest
import Compliance.Proofs.Moment.Legible
import Compliance.Proofs.Predicate.Grammar

/-!
# Values that are read back from their literal

A text denotes a value if it is one literal and nothing else.  Every value has a
text, but not every text of a value denotes it: an infinity, which a floating
literal of too many digits has for its value, is written as a word that is no
literal, and the dates of some negative years are written in a way that is not
read.

## Main definitions

* `Value.Denotes source v` — the text `source` is a literal of `v`.
* `Value.denotes_iff` — what a text denotes is a matter of its tokens.
* `Moment.literal_denotes_iff_legible` — which dates are read back from their literal.
* `Number.reread_unless_overflow` — which numbers are.
-/

namespace Compliance

open Text

/-! ## Texts of values -/

namespace Value

variable {source : String} {v : Value}

/-- A text is one literal, whose value is `v`, and nothing else. -/
def Denotes (source : String) (v : Value) : Prop :=
  ∃ tokens c, Token.scan source = .ok tokens ∧
    Parser.literal (Cursor.ofTokens tokens) = .ok v c ∧ c.tokens = [.eof]

/-- A text that cannot be cut into tokens denotes nothing. -/
theorem not_denotes_of_scan_error {error : LexicalError} (h : Token.scan source = .error error)
    (v : Value) : ¬ Denotes source v := by
  rintro ⟨tokens, c, scanned, -⟩
  rw [h] at scanned
  cases scanned

/-- **What a text denotes is a matter of its tokens.** -/
theorem denotes_iff {tokens : List Placed} (scanned : Token.scan source = .ok tokens) :
    Denotes source v ↔ ∃ ts, tokens.map Placed.token = ts ++ [.eof] ∧ Grammar.Literal ts v := by
  obtain ⟨first, others, rfl⟩ : ∃ first others, tokens = first :: others := by
    refine List.exists_cons_of_ne_nil ?_
    rintro rfl
    exact absurd (Token.genuine_of_scan scanned).1 nofun
  have among : (Cursor.ofTokens (first :: others)).Scanned :=
    Cursor.scanned_of_scan scanned (List.suffix_refl _)
  constructor
  · rintro ⟨_, c, scanned', read, ends⟩
    obtain rfl := Except.ok.inj (scanned.symm.trans scanned')
    obtain ⟨ts, takes, literal⟩ := Parser.literal_sound among read
    refine ⟨ts, ?_, literal⟩
    rw [← ends, ← takes.tokens]
    rfl
  · rintro ⟨ts, whole, literal⟩
    obtain ⟨front, back, split, hf, hb⟩ := List.map_eq_append_iff.mp whole
    obtain ⟨last, rfl, eof⟩ := List.map_eq_singleton_iff.mp hb
    refine ⟨_, ⟨last, [], 0⟩, scanned, Parser.literal_run literal ?_, ?_⟩
    · exact Cursor.takes_iff.mpr ⟨front, split, rfl, hf.symm⟩
    · rw [← eof]
      rfl

end Value

/-! ## Dates -/

namespace Moment

/-- The literal of a date denotes what the text in it is read as. -/
theorem denotes_literal_iff {m : Moment} {v : Value} :
    Value.Denotes m.literal v ↔ ∃ d, read? m.text = some d ∧ v = .date d := by
  obtain ⟨placed, scanned, whole⟩ := Token.scan_of_spells m.spells separate_nil
  rw [Value.denotes_iff scanned, whole]
  constructor
  · rintro ⟨ts, same, literal⟩
    have same := List.append_cancel_right same
    cases literal with
    | @date text d read =>
      obtain rfl : m.text = text := by simpa [tokens] using same
      exact ⟨d, read, rfl⟩
    | _ => simp [tokens] at same
  · rintro ⟨d, read, rfl⟩
    exact ⟨_, rfl, .date read⟩

/-- A year of three digits before 0 is written with one digit less than it is read with. -/
theorem literal_not_denotes :
    (∃ m, read? "-0001-01-01" = some m ∧ m.text = "-001-01-01") ∧ read? "-001-01-01" = none := by
  decide +kernel

/-- **A date is read back just if it is legible.**  Of all moments that are read from a text, the
ones of the years from 0 on, and the midnights of years of four digits before, are written as the
same moment, and the literal denotes it.  Any other one is written as a text that is that of no
moment, in a literal that denotes nothing. -/
theorem literal_denotes_iff_legible {s : String} {m : Moment} (h : read? s = some m) :
    (m.Legible → read? m.text = some m ∧ Value.Denotes m.literal (.date m)) ∧
    ((∃ d, read? m.text = some d ∧ d.sameInstant m = true) ↔ m.Legible) ∧
    ((∃ d, Value.Denotes m.literal (.date d) ∧ d.sameInstant m = true) ↔ m.Legible) ∧
    (¬ m.Legible → read? m.text = none ∧ ∀ v, ¬ Value.Denotes m.literal v) := by
  have self : m.sameInstant m = true := beq_self_eq_true _
  by_cases legible : m.Legible
  · have back := read?_text_of_legible h legible
    have denotes := denotes_literal_iff.mpr ⟨m, back, rfl⟩
    exact ⟨fun _ => ⟨back, denotes⟩, iff_of_true ⟨m, back, self⟩ legible,
      iff_of_true ⟨m, denotes, self⟩ legible, fun odd => absurd legible odd⟩
  · have unreadable := read?_text_of_not_legible h legible
    have nothing (v : Value) : ¬ Value.Denotes m.literal v := by
      rw [denotes_literal_iff, unreadable]
      rintro ⟨d, ⟨⟩, -⟩
    refine ⟨fun fine => absurd fine legible, iff_of_false ?_ legible, iff_of_false ?_ legible,
      fun _ => ⟨unreadable, nothing⟩⟩
    · rw [unreadable]
      rintro ⟨d, ⟨⟩, -⟩
    · rintro ⟨d, denotes, -⟩
      exact nothing _ denotes

/-- On the two sides of the year that four characters with a sign can hold. -/
theorem literal_denotes_before_zero :
    (∃ m, read? "-1000-02-03" = some m ∧ Value.Denotes m.literal (.date m)) ∧
      ∃ m, read? "-0999-02-03" = some m ∧ ∀ v, ¬ Value.Denotes m.literal v := by
  have early : read? "-1000-02-03" = some (universal ⟨-1000, 2, 3, by decide⟩ Clock.midnight) := by
    decide +kernel
  have late : read? "-0999-02-03" = some (universal ⟨-999, 2, 3, by decide⟩ Clock.midnight) := by
    decide +kernel
  exact ⟨⟨_, early, ((literal_denotes_iff_legible early).1 (by decide)).2⟩,
    ⟨_, late, ((literal_denotes_iff_legible late).2.2.2 (by decide)).2⟩⟩

end Moment

/-! ## Numbers -/

theorem Parser.literal_int {c : Cursor} {i : Int64} (current : c.token = .int i) :
    literal c = .ok (.number (.int i)) c.advance := by
  simp only [literal, token_bind, current, advance_bind, pure_run]

theorem Parser.literal_float {c : Cursor} {text : String} {x : Binary64}
    (read : Binary64.read? text = some x) (current : c.token = .float text) :
    literal c = .ok (.number (.float x)) c.advance := by
  simp only [literal, token_bind, current, advance_bind, pure_run, read, Option.getD_some]

namespace Number

/-- The text of a number is one literal, whose value is an equal number of the same form. -/
def Rereads (n : Number) : Prop :=
  ∃ n', Value.Denotes n.text (.number n') ∧ n'.same n = true

theorem same_self {n : Number} (h : n.Writable) : n.same n = true := by
  cases n with
  | int i => exact beq_self_eq_true i
  | float x =>
    cases x with
    | finite negative x =>
      simp only [same, Binary64.sameValue, Binary64.compare?]
      simp [Binary64.isNan]
    | _ => cases h

/-- A finite number is one token, which is read as the number. -/
theorem denotes_text {n : Number} (h : n.Writable) :
    (∃ tokens, Token.scan n.text = .ok tokens ∧ tokens.map Placed.token = [n.token, .eof]) ∧
      Value.Denotes n.text (.number n) := by
  obtain ⟨tokens, scanned, whole⟩ := Token.scan_of_spells (spells h) separate_nil
  refine ⟨⟨tokens, scanned, whole⟩, (Value.denotes_iff scanned).mpr ⟨[n.token], whole, ?_⟩⟩
  cases n with
  | int i => exact .int i
  | float x =>
    cases x with
    | finite negative x => exact .float (Binary64.read?_text negative x)
    | _ => cases h

/-- An infinity is written as a word that is no literal, and a minus in front of it is no token. -/
theorem not_denotes_infinite (negative : Bool) (v : Value) :
    ¬ Value.Denotes (Binary64.infinite negative).text v := by
  cases negative with
  | true =>
    have minus : Token.scan "-inf" = .error ⟨Position.start, .character '-'⟩ := by decide +kernel
    exact Value.not_denotes_of_scan_error minus v
  | false =>
    have word : Token.scan "inf" = .ok [⟨.word "inf", ⟨1, 1⟩⟩, ⟨.eof, ⟨1, 4⟩⟩] := by
      decide +kernel
    intro denotes
    obtain ⟨ts, same, literal⟩ := (Value.denotes_iff word).mp denotes
    change [Token.word "inf"] ++ [.eof] = ts ++ [.eof] at same
    have same := List.append_cancel_right same
    cases literal with
    | yes known | no known =>
      obtain rfl := Token.word.inj (List.cons.inj same).1
      simp at known
    | _ => simp at same

/-- A number is read back from its text just if it is finite. -/
theorem rereads_iff {n : Number} : n.Rereads ↔ n.Writable := by
  constructor
  · rintro ⟨n', denotes, same⟩
    cases n with
    | int i => trivial
    | float x =>
      cases x with
      | finite negative x => rfl
      | infinite negative => exact absurd denotes (not_denotes_infinite negative _)
      | nan =>
        cases n' with
        | int i => cases same
        | float y =>
          simp [Number.same, Binary64.sameValue, Binary64.compare?, Binary64.isNan] at same
  · intro finite
    exact ⟨n, (denotes_text finite).2, same_self finite⟩

/-! ## Floating literals -/

/-- A one with zeros behind it and a point. -/
def roundLiteral (count : Nat) : String :=
  String.ofList ('1' :: List.replicate count '0' ++ '.' :: ['0'])

private theorem decimal_roundLiteral (count : Nat) :
    Token.Decimal (roundLiteral count) false ('1' :: List.replicate count '0') ['0'] where
  text_eq := rfl
  whole_ne := List.cons_ne_nil _ _
  whole_digits := by
    rw [List.all_cons, List.all_eq_true.mpr fun c hc => by rw [List.eq_of_mem_replicate hc]; rfl]
    rfl
  fraction_digits := rfl

private theorem spells_roundLiteral (count : Nat) :
    Spells Separate (roundLiteral count).toList [.float (roundLiteral count)] := by
  have parts := decimal_roundLiteral count
  rw [roundLiteral, String.toList_ofList]
  exact spells_float false parts.whole_ne (List.cons_ne_nil _ _) parts.whole_digits
    parts.fraction_digits

private theorem readNat_roundLiteral (count : Nat) :
    readNat ('1' :: List.replicate count '0' ++ ['0']) = 10 ^ (count + 1) := by
  rw [List.cons_append, ← List.replicate_succ', ← List.singleton_append,
    Moment.readNat_append_zeros]
  exact Nat.one_mul _

/-- A floating literal may have more digits than any finite number: it is read as an infinity,
which is not read back. -/
theorem literal_not_reread :
    (∃ placed, Token.scan (roundLiteral 309) = .ok placed ∧
      placed.map Placed.token = [.float (roundLiteral 309), .eof]) ∧
      Binary64.read? (roundLiteral 309) = some (.infinite false) ∧
      ¬ (Number.float (.infinite false)).Rereads := by
  refine ⟨Token.scan_of_spells (spells_roundLiteral 309) separate_nil, ?_, ?_⟩
  · rw [(decimal_roundLiteral 309).read?, readNat_roundLiteral]
    decide +kernel
  · rintro ⟨n', denotes, -⟩
    exact not_denotes_infinite false _ denotes

/-- The value of a floating literal is finite just if the literal is less than `overflow`. -/
theorem writable_ofDecimal_iff (negative : Bool) (digits places : Nat) :
    (Number.float (.ofDecimal negative digits (-places))).Writable ↔
      digits < Magnitude.overflow * 10 ^ places := by
  have finite := Binary64.isFinite_ofDecimal negative digits (-places)
  have zero : (-(places : Int)).toNat = 0 := by omega
  rw [zero, Nat.pow_zero, Nat.mul_one, Int.neg_neg, Int.toNat_natCast] at finite
  exact finite

/-- Every floating literal of a text has a value, which is finite unless the literal is too
large. -/
theorem exists_value_of_scan {source : String} {tokens : List Placed} {text : String}
    (scanned : Token.scan source = .ok tokens)
    (ht : Token.float text ∈ tokens.map Placed.token) :
    ∃ negative whole fraction x, Token.Decimal text negative whole fraction ∧
      Binary64.read? text = some x ∧ ((Number.float x).Writable ↔
        readNat (whole ++ fraction) < Magnitude.overflow * 10 ^ fraction.length) := by
  obtain ⟨negative, whole, fraction, parts⟩ := Token.exists_decimal_of_scan scanned ht
  exact ⟨negative, whole, fraction, _, parts, parts.read?, writable_ofDecimal_iff _ _ _⟩

/-- **Every number of a text is read back, unless it is too large.**  An integer literal is read as
an integer, which is one token again and read as itself.  A floating literal is read as the nearest
floating number; this is one token again and read as itself just if the literal is less than
`overflow`, and else its text denotes nothing. -/
theorem reread_unless_overflow {source : String} {tokens : List Placed} {t : Token}
    (scanned : Token.scan source = .ok tokens) (ht : t ∈ tokens.map Placed.token) :
    (∀ i, t = .int i →
      (∀ c : Cursor, c.token = t → Parser.literal c = .ok (.number (.int i)) c.advance) ∧
      (Number.int i).Rereads ∧
      ∃ placed, Token.scan (Number.int i).text = .ok placed ∧
        placed.map Placed.token = [.int i, .eof]) ∧
    ∀ text, t = .float text → ∃ negative whole fraction x,
      Token.Decimal text negative whole fraction ∧
      (∀ c : Cursor, c.token = t → Parser.literal c = .ok (.number (.float x)) c.advance) ∧
      ((Number.float x).Rereads ↔
        readNat (whole ++ fraction) < Magnitude.overflow * 10 ^ fraction.length) ∧
      ((Number.float x).Rereads → ∃ placed, Token.scan (Number.float x).text = .ok placed ∧
        placed.map Placed.token = [.float x.text, .eof]) := by
  constructor
  · rintro i rfl
    have writable : (Number.int i).Writable := trivial
    exact ⟨fun _ => Parser.literal_int, rereads_iff.mpr writable, (denotes_text writable).1⟩
  · rintro text rfl
    obtain ⟨negative, whole, fraction, x, parts, read, finite⟩ := exists_value_of_scan scanned ht
    exact ⟨negative, whole, fraction, x, parts, fun _ => Parser.literal_float read,
      rereads_iff.trans finite, fun back => (denotes_text (rereads_iff.mp back)).1⟩

/-- An integer and a floating literal of one text. -/
theorem reread_int_and_float : ∃ tokens, Token.scan "-7 2.5" = .ok tokens ∧
    tokens.map Placed.token = [.int (-7), .float "2.5", .eof] ∧ (Number.int (-7)).Rereads ∧
    ∃ negative whole fraction x, Token.Decimal "2.5" negative whole fraction ∧
      ((Number.float x).Rereads ↔
        readNat (whole ++ fraction) < Magnitude.overflow * 10 ^ fraction.length) := by
  have scanned : Token.scan "-7 2.5" =
      .ok [⟨.int (-7), ⟨1, 1⟩⟩, ⟨.float "2.5", ⟨1, 4⟩⟩, ⟨.eof, ⟨1, 7⟩⟩] := by decide +kernel
  have int := reread_unless_overflow scanned (List.mem_cons_self ..)
  have float := reread_unless_overflow scanned (List.mem_cons_of_mem _ (List.mem_cons_self ..))
  obtain ⟨negative, whole, fraction, x, parts, -, reread, -⟩ := float.2 "2.5" rfl
  exact ⟨_, scanned, rfl, (int.1 (-7) rfl).2.1, negative, whole, fraction, x, parts, reread⟩

end Number

end Compliance
