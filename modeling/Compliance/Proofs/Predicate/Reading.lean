import Compliance.Predicate.Parser
import Compliance.Proofs.Predicate.Tokens
import Compliance.Proofs.Token.Reading

/-!
# Predicates are read back

The tokens of a value are read as the value, and those of a predicate as an
operator with operands, of which the predicate is made again.

## Main definitions

* `Predicate.operands` — the operands that a predicate is made of.
* `Parser.reads_literal`, `Parser.reads_predicate` — values and predicates are read back.
-/

namespace Compliance

/-- The operands that a predicate is made of. -/
def Predicate.operands : Predicate → List Value
  | .null _ | .empty _ | .family _ => []
  | .equals _ v => [v]
  | .member _ vs => vs
  | .number _ n => [.number n]
  | .numberBetween low high => [.number low, .number high]
  | .string _ _ part => [.string part]
  | .address _ a => [.string a.text]
  | .network _ block => [.string block.text]
  | .date _ _ m => [.date m]
  | .dateBetween low high => [.date low, .date high]

/-- A predicate is made of its operator and operands. -/
theorem Predicate.build_operands (p : Predicate) : build p.operator p.operands = .ok p := by
  cases p with
  | address relation a =>
    have read : (Operator.address relation).addressOperand (.string a.text) = .ok a := by
      rw [Operator.addressOperand, Operator.stringOperand]
      simp only [Address.trim_text, Address.read?_text]
    simp only [operator, operands, build, read]
    rfl
  | network negated block =>
    have read : (Operator.network negated).networkOperand (.string block.text) = .ok block := by
      rw [Operator.networkOperand, Operator.stringOperand]
      simp only [Network.read_text]
    simp only [operator, operands, build, read]
    rfl
  | _ => rfl

namespace Parser

variable {follow : Token → Prop}

/-! ## Literals -/

theorem reads_date {m : Moment} (h : m.Stampable) : Reads follow date [.string m.text] m := by
  refine Reads.token ?_
  simp only [Moment.read?_text h]
  exact Reads.advance Reads.pure

/-- **A literal is read back** from its tokens. -/
theorem reads_literal {v : Value} (h : v.Writable) : Reads follow literal v.tokens v := by
  cases v with
  | string s => exact Reads.token (Reads.advance Reads.pure)
  | number n =>
    cases n with
    | int i => exact Reads.token (Reads.advance Reads.pure)
    | float x =>
      cases x with
      | nan => cases h
      | infinite negative => cases h
      | finite negative x =>
        have value : (Binary64.read? (Binary64.finite negative x).text).getD .nan =
            .finite negative x := by
          rw [Binary64.read?_text]
          rfl
        have reads : Reads follow literal [.float (Binary64.finite negative x).text]
            (.number (.float ((Binary64.read? (Binary64.finite negative x).text).getD .nan))) :=
          Reads.token (Reads.advance Reads.pure)
        rwa [value] at reads
  | boolean b => cases b <;> exact Reads.token (Reads.advance Reads.pure)
  | date m =>
    refine Reads.token (Reads.advance ?_)
    exact (reads_date h).map Value.date
  | null => exact Reads.token (Reads.advance Reads.pure)

theorem exists_head?_tokens (v : Value) : ∃ t, v.tokens.head? = some t ∧ t ≠ .bracketClose := by
  cases v with
  | number n => cases n <;> exact ⟨_, rfl, by simp [Number.token]⟩
  | _ => exact ⟨_, rfl, by simp⟩

/-- Literals behind another one are read, each behind a comma. -/
theorem readsEach_moreTokens {vs : List Value} (h : ∀ v ∈ vs, v.Writable) :
    ReadsEach moreFollows AnyToken (do advance; literal) vs (Value.moreTokens vs) := by
  induction vs with
  | nil => exact .nil
  | cons v more ih =>
    rw [List.forall_mem_cons] at h
    refine .cons rfl trivial (Reads.advance (reads_literal h.1)) (fun c rest hc => ?_) (ih h.2)
    obtain ⟨t, first, other⟩ := exists_head?_tokens v
    obtain ⟨ts, ht⟩ := List.head?_eq_some_iff.mp first
    change c.tokens = .comma :: v.tokens ++ rest at hc
    rw [ht] at hc
    have comma := Cursor.token_of_tokens hc
    have behind := Cursor.token_of_tokens (Cursor.tokens_advance hc)
    simp [moreFollows, comma, behind, other]

/-- **Literals in brackets are read back.** -/
theorem reads_literals {vs : List Value} (h : ∀ v ∈ vs, v.Writable) :
    Reads follow literals (.bracketOpen :: Value.listTokens vs ++ [.bracketClose]) vs := by
  refine Reads.expect ?_
  change Reads follow _ (Value.listTokens vs ++ [.bracketClose]) vs
  cases vs with
  | nil => exact Reads.token (Reads.advance Reads.pure)
  | cons v more =>
    rw [List.forall_mem_cons] at h
    obtain ⟨t, first, other⟩ := exists_head?_tokens v
    have repeated : Reads (· = Token.bracketClose) (repeatWhile moreFollows (do advance; literal))
        (Value.moreTokens more) more := by
      refine (readsEach_moreTokens h.2).reads_repeatWhile (fun _ _ => trivial) ?_
      rintro c t rest hc rfl
      simp [moreFollows, Cursor.token_of_tokens hc]
    have whole : Value.listTokens (v :: more) ++ [.bracketClose] =
        v.tokens ++ (Value.moreTokens more ++ [.bracketClose]) := List.append_assoc ..
    rw [whole]
    refine Reads.peek (by rw [List.head?_append, first]; rfl) ?_
    rw [if_neg other]
    refine (reads_literal h.1).bind (repeated.bind_cons (Reads.token ?_) rfl)
    exact Reads.expect Reads.pure

/-! ## Operators -/

variable {ts : List Token} {read : Operator × List Value}

theorem reads_withLiteral (op : Operator) {v : Value} (h : v.Writable) :
    Reads follow (withLiteral op) v.tokens (op, [v]) :=
  (reads_literal h).map fun v => (op, [v])

theorem relation?_token (r : Relation) : relation? r.token = some r := by
  cases r with
  | bound b => cases b <;> rfl
  | _ => rfl

theorem relation_token_ne (r : Relation) {t : Token} (other : relation? t = none) :
    r.token ≠ t := by
  rintro rfl
  rw [relation?_token] at other
  cases other

/-- An operator starts with a word or a sign, and never with a bracket or brace. -/
theorem exists_first_operator (op : Operator) :
    ∃ t ts, op.tokens = t :: ts ∧ t ≠ .bracketOpen ∧ t ≠ .braceOpen := by
  have negatable : ∀ (negated : Bool) (w : String), ∃ t ts,
      Operator.notTokens negated ++ [.word w] = t :: ts ∧ t ≠ .bracketOpen ∧ t ≠ .braceOpen := by
    intro negated w
    cases negated <;> exact ⟨_, _, rfl, by simp⟩
  cases op with
  | equals negated => cases negated <;> exact ⟨_, _, rfl, by simp⟩
  | number bound =>
    exact ⟨_, _, rfl, relation_token_ne (.bound bound) rfl, relation_token_ne (.bound bound) rfl⟩
  | member negated => exact negatable negated "within"
  | string negated place => exact negatable negated place.word
  | date negated side => exact negatable negated side.word
  | _ => exact ⟨_, _, rfl, by simp⟩

theorem reads_comparison (r : Relation) {v : Value} (h : v.Writable) :
    Reads follow operation (r.token :: v.tokens) (comparison r, [v]) := by
  refine Reads.token ?_
  rw [relation?_token]
  exact Reads.advance (reads_withLiteral (comparison r) h)

theorem reads_word {w : String} (h : Reads follow (wordOperation w) (.word w :: ts) read) :
    Reads follow operation (.word w :: ts) read := by
  refine Reads.token ?_
  exact Reads.token h

/-- A word that takes operands, with `not` in front where it is negated. -/
theorem reads_operands {negated : Bool} {w : String} {op : Operator}
    (known : wordOperator? negated w = some op)
    (h : Reads follow (withOperands op) ts read) :
    Reads follow operation (Operator.notTokens negated ++ .word w :: ts) read := by
  cases negated with
  | false =>
    refine reads_word ?_
    simp only [wordOperation]
    split
    iterate 6 exact absurd known (by simp [wordOperator?])
    simp only [known]
    exact Reads.advance h
  | true =>
    refine reads_word (Reads.advance ?_)
    refine Reads.token ?_
    simp only [known]
    exact Reads.advance h

theorem reads_state {negated : Bool} {w : String} {op : Operator}
    (known : stateOperator? negated (.word w) = some op) (plain : w ≠ "not") :
    Reads follow operation (.word "is" :: Operator.notTokens negated ++ [.word w]) (op, []) := by
  refine reads_word (Reads.advance ?_)
  cases negated with
  | false =>
    refine Reads.token ?_
    have no : ¬ Token.word w = .word "not" := fun same => plain (Token.word.inj same)
    simp only [no, decide_false, Bool.false_eq_true, if_false]
    refine Reads.token ?_
    simp only [known]
    exact Reads.advance Reads.pure
  | true =>
    refine Reads.token (Reads.advance (Reads.token ?_))
    simp only [decide_true, known]
    exact Reads.advance Reads.pure

theorem reads_network (negated : Bool) {v : Value} (h : v.Writable) :
    Reads follow operation
      (.word "ip" :: Operator.notTokens negated ++ [.word "within"] ++ v.tokens)
      (.network negated, [v]) := by
  refine reads_word (Reads.advance ?_)
  cases negated with
  | false => exact Reads.token (Reads.token (Reads.advance (reads_withLiteral _ h)))
  | true =>
    refine Reads.token (Reads.token (Reads.advance (Reads.token ?_)))
    rw [if_neg (not_not_intro rfl)]
    exact Reads.advance (reads_withLiteral _ h)

theorem reads_address (r : Relation) {v : Value} (h : v.Writable) :
    Reads follow operation (.word "ip" :: r.token :: v.tokens) (.address r, [v]) := by
  refine reads_word (Reads.advance (Reads.token ?_))
  rw [relation?_token]
  exact Reads.advance (reads_withLiteral _ h)

theorem reads_range {low high : Value} (hl : low.Writable) (hh : high.Writable) :
    Reads follow operation (.word "between" :: (low.tokens ++ .word "and" :: high.tokens))
      (.between, [low, high]) := by
  refine reads_word (Reads.advance ((reads_literal hl).bind (Reads.expect ?_)))
  exact (reads_literal hh).map fun high => (Operator.between, [low, high])

/-! ## Predicates -/

/-- **The tokens of a predicate are read as its operator and operands.** -/
theorem reads_operation {p : Predicate} (h : p.Writable) :
    Reads follow operation p.tokens (p.operator, p.operands) := by
  cases p with
  | null negated =>
    have known : stateOperator? negated (.word "null") = some (.null negated) := rfl
    rw [Predicate.tokens, Predicate.operandTokens, List.append_nil]
    exact reads_state known (by decide)
  | equals negated v =>
    cases negated with
    | false => exact reads_comparison .equal h
    | true => exact reads_comparison .notEqual h
  | member negated vs =>
    have known : wordOperator? negated "within" = some (.member negated) := rfl
    change Reads follow operation (Operator.notTokens negated ++ [_] ++ _) _
    rw [List.append_assoc]
    exact reads_operands known ((reads_literals h).map fun vs => (Operator.member negated, vs))
  | number bound n =>
    have writable : (Value.number n).Writable := h
    exact reads_comparison (.bound bound) writable
  | numberBetween low high =>
    have writable : (Value.number low).Writable ∧ (Value.number high).Writable := h
    exact reads_range writable.1 writable.2
  | empty negated =>
    have known : stateOperator? negated (.word "empty") = some (.empty negated) := rfl
    rw [Predicate.tokens, Predicate.operandTokens, List.append_nil]
    exact reads_state known (by decide)
  | string negated place part =>
    have known : wordOperator? negated place.word = some (.string negated place) := by
      cases place <;> rfl
    have writable : (Value.string part).Writable := trivial
    change Reads follow operation (Operator.notTokens negated ++ [_] ++ _) _
    rw [List.append_assoc]
    exact reads_operands known (reads_withLiteral _ writable)
  | address relation a =>
    have writable : (Value.string a.text).Writable := trivial
    exact reads_address relation writable
  | network negated block =>
    have writable : (Value.string block.text).Writable := trivial
    exact reads_network negated writable
  | family f =>
    have known : stateOperator? false (.word f.word) = some (.family f) := by cases f <;> rfl
    exact reads_state known (by cases f <;> decide)
  | date negated side m =>
    have known : wordOperator? negated side.word = some (.date negated side) := by
      cases side <;> rfl
    have writable : (Value.date m).Writable := h
    change Reads follow operation (Operator.notTokens negated ++ [_] ++ _) _
    rw [List.append_assoc]
    exact reads_operands known (reads_withLiteral _ writable)
  | dateBetween low high =>
    have writable : (Value.date low).Writable ∧ (Value.date high).Writable := h
    exact reads_range writable.1 writable.2

/-- **A predicate is read back** from its tokens. -/
theorem reads_predicate {p : Predicate} (h : p.Writable) : Reads follow predicate p.tokens p := by
  refine Reads.position fun place => ?_
  intro c next rest hc hn
  obtain ⟨d, hd, behind⟩ := reads_operation h c next rest hc hn
  refine ⟨d, ?_, behind⟩
  rw [bind_ok hd]
  simp only [Predicate.build_operands]
  rfl

end Parser

end Compliance
