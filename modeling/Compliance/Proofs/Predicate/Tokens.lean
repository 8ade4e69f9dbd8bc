import Compliance.Predicate.Text
import Compliance.Proofs.Address.Text
import Compliance.Proofs.Binary64.Text
import Compliance.Proofs.Token.Spelling

/-!
# The tokens of values and predicates

A predicate without its spaces and signs of punctuation: which tokens its text
has.  Values can be written as tokens if they are no infinities, and dates of the
years that time stamps have.

## Main definitions

* `Value.Writable`, `Predicate.Writable` — there are literals for all values in it.
* `Value.tokens`, `Operator.tokens`, `Predicate.tokens` — what the text is made of.
* `Predicate.spells` — the text of a predicate spells its tokens.
-/

namespace Compliance

open Text

/-! ## Values -/

/-- A number is written as a literal unless it is an infinity or no number. -/
def Number.Writable : Number → Prop
  | .int _ => True
  | .float x => x.isFinite = true

/-- The token of a number. -/
def Number.token : Number → Token
  | .int i => .int i
  | .float x => .float x.text

theorem Number.spells {n : Number} (h : n.Writable) :
    Spells Separate n.text.toList [n.token] := by
  cases n with
  | int i => exact spells_int i
  | float x =>
    cases x with
    | nan => cases h
    | infinite negative => cases h
    | finite negative x =>
      obtain ⟨whole, fraction, hx⟩ := x.exists_writtenAs
      have written : (Binary64.finite negative x).text = String.ofList
          ((if negative then '-' :: whole else whole) ++ '.' :: fraction) := by
        rw [Binary64.text, hx.text]
        cases negative <;> rfl
      rw [text, token, written, String.toList_ofList]
      exact spells_float negative hx.whole_ne hx.fraction_ne hx.whole_digits hx.fraction_digits

/-- The tokens of a date. -/
def Moment.tokens (m : Moment) : List Token := [.word "date", .string m.text]

theorem Moment.spells (m : Moment) : Spells Separate m.literal.toList m.tokens := by
  have date : Spells Separate "date".toList [.word "date"] := spells_word (by decide +kernel)
  have written : m.literal.toList = "date".toList ++ ' ' :: (quote m.text).toList := by
    rw [literal, String.toList_append]
    rfl
  rw [written]
  exact date.spaced ((spells_quoted m.text).weaken fun _ _ => trivial)

namespace Value

/-- A value has a literal. -/
def Writable : Value → Prop
  | .number n => n.Writable
  | .date m => m.Stampable
  | _ => True

/-- The tokens of a literal. -/
def tokens : Value → List Token
  | .string s => [.string s]
  | .number n => [n.token]
  | .boolean b => [.word (if b then "true" else "false")]
  | .date m => m.tokens
  | .null => [.word "null"]

/-- A literal spells its tokens. -/
theorem spells {v : Value} (h : v.Writable) : Spells Separate v.text.toList v.tokens := by
  cases v with
  | string s => exact (spells_quoted s).weaken fun _ _ => trivial
  | number n => exact Number.spells h
  | boolean b => cases b <;> exact spells_word (by decide +kernel)
  | date m => exact m.spells
  | null => exact spells_word (by decide +kernel)

/-- The tokens of literals that each stand behind another one. -/
def moreTokens (vs : List Value) : List Token := vs.flatMap fun v => .comma :: v.tokens

/-- The tokens of literals with commas between. -/
def listTokens : List Value → List Token
  | [] => []
  | v :: more => v.tokens ++ moreTokens more

theorem spells_list {vs : List Value} (h : ∀ v ∈ vs, v.Writable) :
    Spells Separate (", ".intercalate (vs.map text)).toList (listTokens vs) := by
  induction vs with
  | nil => exact Spells.nil
  | cons v more ih =>
    rw [List.forall_mem_cons] at h
    cases more with
    | nil =>
      rw [List.map_cons, List.map_nil, String.intercalate_singleton, listTokens, moreTokens,
        List.flatMap_nil, List.append_nil]
      exact spells h.1
    | cons next more =>
      have comma : Spells Anything [','] [.comma] := spells_sign fun _ _ => rfl
      have blank : Spells Anything [' '] [] := spells_blanks rfl
      have behind := comma.before (blank.before (ih h.2))
      rw [List.map_cons, List.map_cons, String.intercalate_cons_cons, String.toList_append,
        String.toList_append, List.append_assoc]
      exact (spells h.1).append behind fun rest _ => separate_cons _ rfl

end Value

/-! ## Operators -/

/-- The token of a bound. -/
def Bound.token : Bound → Token
  | .less => .less
  | .atMost => .atMost
  | .greater => .greater
  | .atLeast => .atLeast

/-- The token of a relation. -/
def Relation.token : Relation → Token
  | .equal => .equal
  | .notEqual => .notEqual
  | .bound b => b.token

/-- The sign of a relation spells its token, up to a separator. -/
theorem Relation.spells (r : Relation) : Spells Separate r.sign.toList [r.token] := by
  have single : ∀ {c : Char} {one two : Token},
      (∀ rest, Compliance.sign c rest =
        if rest.head? = some '=' then some (two, 1) else some (one, 0)) →
      Spells Separate [c] [one] := by
    intro c one two h
    refine spells_sign fun rest hr => ?_
    rw [List.nil_append, h, if_neg (head?_ne_of_separate hr)]
    rfl
  have double : ∀ {c : Char} {token : Token},
      (∀ rest, Compliance.sign c ('=' :: rest) = some (token, 1)) →
      Spells Separate [c, '='] [token] :=
    fun h => spells_sign fun rest _ => h rest
  cases r with
  | equal => exact double fun _ => rfl
  | notEqual => exact double fun _ => rfl
  | bound b =>
    cases b with
    | less => exact single fun _ => rfl
    | atMost => exact double fun _ => rfl
    | greater => exact single fun _ => rfl
    | atLeast => exact double fun _ => rfl

namespace Operator

/-- The token in front of what is negated. -/
def notTokens (negated : Bool) : List Token := if negated then [.word "not"] else []

/-- The tokens of an operator. -/
def tokens : Operator → List Token
  | .null negated => .word "is" :: notTokens negated ++ [.word "null"]
  | .equals negated => [if negated then .notEqual else .equal]
  | .member negated => notTokens negated ++ [.word "within"]
  | .number bound => [bound.token]
  | .between => [.word "between"]
  | .empty negated => .word "is" :: notTokens negated ++ [.word "empty"]
  | .string negated place => notTokens negated ++ [.word place.word]
  | .switch on => [.word (if on then "enabled" else "disabled")]
  | .address relation => [.word "ip", relation.token]
  | .network negated => .word "ip" :: notTokens negated ++ [.word "within"]
  | .family f => [.word "is", .word f.word]
  | .date negated side => notTokens negated ++ [.word side.word]

private theorem spells_not (negated : Bool) {w : String} (h : isWord w = true) :
    Spells Separate (notWord negated ++ w).toList (notTokens negated ++ [.word w]) := by
  rw [String.toList_append]
  cases negated with
  | false => exact spells_word h
  | true =>
    have wordNot : Spells Separate "not".toList [.word "not"] := spells_word (by decide +kernel)
    exact wordNot.spaced (spells_word h)

private theorem spells_not_behind {front : String} (negated : Bool) {first w : String}
    (blank : front = first ++ " ") (hf : isWord first = true) (h : isWord w = true) :
    Spells Separate (front ++ notWord negated ++ w).toList
      (.word first :: notTokens negated ++ [.word w]) := by
  rw [blank, String.append_assoc, String.toList_append, String.toList_append, List.append_assoc]
  exact (spells_word hf).spaced (spells_not negated h)

/-- An operator spells its tokens, up to a separator. -/
theorem spells (op : Operator) : Spells Separate op.keyword.toList op.tokens := by
  cases op with
  | null negated =>
    exact spells_not_behind negated rfl (by decide +kernel) (by decide +kernel)
  | equals negated =>
    cases negated with
    | false => exact Relation.equal.spells
    | true => exact Relation.notEqual.spells
  | member negated => exact spells_not negated (by decide +kernel)
  | number bound => exact (Relation.bound bound).spells
  | between => exact spells_word (by decide +kernel)
  | empty negated =>
    exact spells_not_behind negated rfl (by decide +kernel) (by decide +kernel)
  | string negated place =>
    refine spells_not negated ?_
    cases place <;> decide +kernel
  | switch on =>
    refine spells_word ?_
    cases on <;> decide +kernel
  | address relation =>
    rw [keyword, String.toList_append]
    have ip : Spells Separate "ip".toList [.word "ip"] := spells_word (by decide +kernel)
    exact ip.spaced relation.spells
  | network negated =>
    exact spells_not_behind negated rfl (by decide +kernel) (by decide +kernel)
  | family f =>
    have is : Spells Separate "is".toList [.word "is"] := spells_word (by decide +kernel)
    have word : isWord f.word = true := by cases f <;> decide +kernel
    rw [keyword, String.toList_append]
    exact is.spaced (spells_word word)
  | date negated side =>
    refine spells_not negated ?_
    cases side <;> decide +kernel

end Operator

/-! ## Predicates -/

namespace Predicate

/-- All values in a predicate have literals. -/
def Writable : Predicate → Prop
  | .equals _ v => v.Writable
  | .member _ vs => ∀ v ∈ vs, v.Writable
  | .number _ n => n.Writable
  | .numberBetween low high => low.Writable ∧ high.Writable
  | .date _ _ m => m.Stampable
  | .dateBetween low high => low.Stampable ∧ high.Stampable
  | _ => True

/-- The tokens of the operands of a predicate. -/
def operandTokens : Predicate → List Token
  | .null _ | .empty _ | .family _ => []
  | .equals _ v => v.tokens
  | .member _ vs => .bracketOpen :: Value.listTokens vs ++ [.bracketClose]
  | .number _ n => [n.token]
  | .numberBetween low high => [low.token, .word "and", high.token]
  | .string _ _ part => [.string part]
  | .address _ a => [.string a.text]
  | .network _ block => [.string block.text]
  | .date _ _ m => m.tokens
  | .dateBetween low high => low.tokens ++ .word "and" :: high.tokens

/-- The tokens of a predicate. -/
def tokens (p : Predicate) : List Token := p.operator.tokens ++ p.operandTokens

private theorem spells_and {low high : String} {ts us : List Token}
    (hl : Spells Separate low.toList ts) (hh : Spells Separate high.toList us) :
    Spells Separate (low ++ " and " ++ high).toList (ts ++ .word "and" :: us) := by
  have wordAnd : Spells Separate "and".toList [.word "and"] := spells_word (by decide +kernel)
  rw [String.toList_append, String.toList_append, List.append_assoc]
  exact hl.spaced (wordAnd.spaced hh)

/-- The operands of a predicate spell their tokens, up to a separator. -/
theorem spells_operands {p : Predicate} (h : p.Writable) {operands : String}
    (ho : p.operandText = some operands) : Spells Separate operands.toList p.operandTokens := by
  have quoted : ∀ s : String, Spells Separate (quote s).toList [.string s] := fun s =>
    (spells_quoted s).weaken fun _ _ => trivial
  cases p with
  | null | empty | family => cases ho
  | equals negated v =>
    obtain rfl := Option.some.inj ho
    exact Value.spells h
  | member negated vs =>
    obtain rfl := Option.some.inj ho
    have opening : Spells Anything ['['] [.bracketOpen] := spells_sign fun _ _ => rfl
    have closing : Spells Separate [']'] [.bracketClose] := spells_sign fun _ _ => rfl
    rw [String.toList_append, String.toList_append, List.append_assoc]
    refine opening.before ((Value.spells_list h).append closing fun rest _ => ?_)
    exact separate_cons _ rfl
  | number bound n =>
    obtain rfl := Option.some.inj ho
    exact Number.spells h
  | numberBetween low high =>
    obtain rfl := Option.some.inj ho
    exact spells_and (Number.spells h.1) (Number.spells h.2)
  | string negated place part =>
    obtain rfl := Option.some.inj ho
    exact quoted part
  | address relation a =>
    obtain rfl := Option.some.inj ho
    rw [← Address.quote_text]
    exact quoted a.text
  | network negated block =>
    obtain rfl := Option.some.inj ho
    rw [← Network.quote_text]
    exact quoted block.text
  | date negated side m =>
    obtain rfl := Option.some.inj ho
    exact m.spells
  | dateBetween low high =>
    obtain rfl := Option.some.inj ho
    exact spells_and low.spells high.spells

/-- **A predicate spells its tokens**, up to a separator. -/
theorem spells {p : Predicate} (h : p.Writable) : Spells Separate p.text.toList p.tokens := by
  rw [text, tokens]
  cases ho : p.operandText with
  | none =>
    have noOperands : p.operandTokens = [] := by
      cases p <;> first | rfl | cases ho
    rw [noOperands, List.append_nil]
    exact p.operator.spells
  | some operands =>
    rw [String.toList_append, String.toList_append, List.append_assoc]
    exact p.operator.spells.spaced (spells_operands h ho)

end Predicate

end Compliance
