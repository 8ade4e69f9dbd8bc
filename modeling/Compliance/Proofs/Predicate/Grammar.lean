import Compliance.Proofs.Predicate.Reading
import Compliance.Proofs.Token.Taking

/-!
# The grammar of predicates

Which tokens are a literal, a list of literals, or a predicate, said without a
parser, and that the parsers accept just these.  An operator is given by its
tokens, and what may follow them by the number of operands that it takes.

## Main definitions

* `Grammar.Literal`, `Grammar.Literals` — literals, and lists of them in brackets.
* `Grammar.Operands`, `Grammar.Clause` — operands, and predicates.
* `Parser.predicate_eq_ok` — predicates are accepted by this grammar.
-/

namespace Compliance

/-! ## Grammar -/

namespace Grammar

/-- The tokens of a literal: a string, a number, a word for a value, or a date. -/
inductive Literal : List Token → Value → Prop
  | string (s : String) : Literal [.string s] (.string s)
  | int (n : Int64) : Literal [.int n] (.number (.int n))
  | float {text : String} {x : Binary64} :
    Binary64.read? text = some x → Literal [.float text] (.number (.float x))
  | yes {w : String} : w ∈ ["true", "yes", "on"] → Literal [.word w] (.boolean true)
  | no {w : String} : w ∈ ["false", "no", "off"] → Literal [.word w] (.boolean false)
  | null : Literal [.word "null"] .null
  | date {text : String} {m : Moment} :
    Moment.read? text = some m → Literal [.word "date", .string text] (.date m)

/-- The tokens of literals that each stand behind a comma. -/
inductive MoreLiterals : List Token → List Value → Prop
  | nil : MoreLiterals [] []
  | cons {ts us : List Token} {v : Value} {vs : List Value} :
    Literal ts v → MoreLiterals us vs → MoreLiterals (.comma :: (ts ++ us)) (v :: vs)

/-- The tokens of literals in brackets, with commas between and possibly one more at the end. -/
inductive Literals : List Token → List Value → Prop
  | nil : Literals [.bracketOpen, .bracketClose] []
  | cons {ts us last : List Token} {v : Value} {vs : List Value} :
    Literal ts v → MoreLiterals us vs → last = [] ∨ last = [.comma] →
      Literals (.bracketOpen :: (ts ++ (us ++ (last ++ [.bracketClose])))) (v :: vs)

/-- The tokens of as many operands as an operator takes. -/
inductive Operands : Arity → List Token → List Value → Prop
  | none : Operands .none [] []
  | one {ts : List Token} {v : Value} : Literal ts v → Operands .one ts [v]
  | two {ts us : List Token} {low high : Value} :
    Literal ts low → Literal us high → Operands .two (ts ++ .word "and" :: us) [low, high]
  | list {ts : List Token} {vs : List Value} : Literals ts vs → Operands .list ts vs

/-- The tokens of a predicate: those of an operator, and of operands that it takes. -/
inductive Clause : List Token → Predicate → Prop
  | mk {op : Operator} {ts : List Token} {operands : List Value} {p : Predicate} :
    Operands op.arity ts operands → Predicate.build op operands = .ok p →
      Clause (op.tokens ++ ts) p

/-- A literal has a first token, which closes nothing. -/
theorem Literal.exists_first {ts : List Token} {v : Value} (h : Literal ts v) :
    ∃ t us, ts = t :: us ∧ t ≠ .bracketClose := by
  cases h <;> exact ⟨_, _, rfl, by simp⟩

end Grammar

namespace Parser

open Grammar Cursor

variable {c d e : Cursor} {v : Value} {vs : List Value} {op : Operator}

/-! ## Literals -/

theorem literal_of_wordValue? {w : String} (h : wordValue? w = some v) : Literal [.word w] v := by
  unfold wordValue? at h
  split at h <;> cases h
  all_goals first | exact .null | exact .yes (by simp) | exact .no (by simp)

theorem literal_word {w : String} (current : c.token = .word w) (value : wordValue? w = some v) :
    literal c = .ok v c.advance := by
  have other : w ≠ "date" := by
    rintro rfl
    cases value
  rw [literal, token_bind]
  simp only [current, value, advance_bind, pure_run]

theorem date_eq_ok {m : Moment} : date c = .ok m d ↔
    ∃ text, c.token = .string text ∧ Moment.read? text = some m ∧ d = c.advance := by
  rw [date, token_bind]
  cases current : c.token with
  | string text =>
    cases read : Moment.read? text with
    | none => simp [read, refuse_ne_ok]
    | some moment => simp [read, advance_bind, pure_eq_ok, eq_comm]
  | _ => simp [unexpected_ne_ok]

theorem literal_run {ts : List Token} (h : Literal ts v) (takes : c.Takes ts d) :
    literal c = .ok v d := by
  obtain ⟨t, us, rfl, -⟩ := h.exists_first
  obtain ⟨current, -, behind⟩ := takes_cons.mp takes
  cases h with
  | string s | int n =>
    simp only [literal, token_bind, current, advance_bind, pure_run, takes_nil.mp behind]
  | float read =>
    simp only [literal, token_bind, current, advance_bind, pure_run, read, Option.getD_some,
      takes_nil.mp behind]
  | yes hw | no hw =>
    simp only [List.mem_cons, List.not_mem_nil, or_false] at hw
    rw [takes_nil.mp behind]
    rcases hw with rfl | rfl | rfl <;> exact literal_word current rfl
  | null =>
    rw [takes_nil.mp behind]
    exact literal_word current rfl
  | @date text m read =>
    obtain ⟨quoted, -, behind⟩ := takes_cons.mp behind
    have moment : date c.advance = .ok m d :=
      date_eq_ok.mpr ⟨text, quoted, read, takes_nil.mp behind⟩
    simp only [literal, token_bind, current, advance_bind, bind_ok moment, pure_run]

theorem literal_sound (hc : c.Scanned) (h : literal c = .ok v d) :
    ∃ ts, c.Takes ts d ∧ Literal ts v := by
  rw [literal, token_bind] at h
  cases current : c.token with
  | string s =>
    simp only [current, advance_bind, pure_eq_ok] at h
    obtain ⟨rfl, rfl⟩ := h
    exact ⟨_, hc.takes_one current (by simp), .string s⟩
  | int n =>
    simp only [current, advance_bind, pure_eq_ok] at h
    obtain ⟨rfl, rfl⟩ := h
    exact ⟨_, hc.takes_one current (by simp), .int n⟩
  | float text =>
    simp only [current, advance_bind, pure_eq_ok] at h
    obtain ⟨rfl, rfl⟩ := h
    have genuine := hc.genuine_token
    rw [current] at genuine
    obtain ⟨x, read⟩ := Option.isSome_iff_exists.mp genuine
    rw [read, Option.getD_some]
    exact ⟨_, hc.takes_one current (by simp), .float read⟩
  | word w =>
    by_cases date : w = "date"
    · subst date
      simp only [current, advance_bind, bind_eq_ok, pure_eq_ok, date_eq_ok] at h
      obtain ⟨m, e, ⟨text, quoted, read, rfl⟩, rfl, rfl⟩ := h
      refine ⟨_, ?_, .date read⟩
      exact (hc.takes_cons (by simp)).mpr ⟨current, hc.advance.takes_one quoted (by simp)⟩
    · simp only [current] at h
      cases value : wordValue? w with
      | none => simp [value, unexpected_ne_ok] at h
      | some v =>
        simp only [value, advance_bind, pure_eq_ok] at h
        obtain ⟨rfl, rfl⟩ := h
        exact ⟨_, hc.takes_one current (by simp), literal_of_wordValue? value⟩
  | _ => simp [current, unexpected_ne_ok] at h

/-- **A literal is accepted by its grammar.** -/
theorem literal_eq_ok (hc : c.Scanned) :
    literal c = .ok v d ↔ ∃ ts, c.Takes ts d ∧ Literal ts v := by
  constructor
  · exact literal_sound hc
  · rintro ⟨ts, takes, tokens⟩
    exact literal_run tokens takes

/-! ## Lists -/

/-- A literal behind a comma. -/
private abbrev nextLiteral : Parser Value := do
  advance
  literal

private theorem nextLiteral_moves (c : Cursor) (v : Value) (e : Cursor) (hc : c.Scanned)
    (more : moreFollows c = true) (h : nextLiteral c = .ok v e) : e.Scanned ∧ e.size < c.size := by
  simp only [moreFollows, Bool.and_eq_true, decide_eq_true_eq] at more
  rw [nextLiteral, advance_bind] at h
  obtain ⟨ts, takes, -⟩ := literal_sound hc.advance h
  have whole : c.Takes (.comma :: ts) e := (hc.takes_cons (by simp)).mpr ⟨more.1, takes⟩
  have size := whole.size
  rw [List.length_cons] at size
  exact ⟨whole.scanned hc, by omega⟩

/-- Literals that each stand behind a comma, up to where none follows. -/
private theorem rounds_nextLiteral (hc : c.Scanned) : Rounds moreFollows nextLiteral c vs d ↔
    (∃ us, c.Takes us d ∧ MoreLiterals us vs) ∧ moreFollows d = false := by
  constructor
  · intro h
    induction h with
    | done stops => exact ⟨⟨[], .nil _, .nil⟩, stops⟩
    | @more c d e v vs more first _ ih =>
      obtain ⟨⟨us, behind, others⟩, stops⟩ := ih (nextLiteral_moves c v e hc more first).1
      refine ⟨?_, stops⟩
      simp only [moreFollows, Bool.and_eq_true, decide_eq_true_eq] at more
      obtain ⟨ts, takes, tokens⟩ := literal_sound hc.advance first
      refine ⟨.comma :: (ts ++ us), ?_, .cons tokens others⟩
      exact (hc.takes_cons (by simp)).mpr ⟨more.1, takes_append.mpr ⟨e, takes, behind⟩⟩
  · rintro ⟨⟨us, takes, others⟩, stops⟩
    induction others generalizing c with
    | nil =>
      rw [takes_nil.mp takes] at stops ⊢
      exact .done stops
    | @cons ts us v vs tokens _ ih =>
      obtain ⟨comma, -, behind⟩ := takes_cons.mp takes
      obtain ⟨e, first, rest⟩ := takes_append.mp behind
      obtain ⟨t, us', rfl, other⟩ := tokens.exists_first
      have next : c.advance.token = t := (takes_cons.mp first).1
      have more : moreFollows c = true := by simp [moreFollows, comma, next, other]
      exact .more more (literal_run tokens first) (ih (first.scanned hc.advance) rest)

/-- The end of a list. -/
private def listEnd (values : List Value) : Parser (List Value) := do
  if (← token) = .comma then advance
  expect .bracketClose
  return values

private theorem listEnd_eq_ok (hc : c.Scanned) {values : List Value} : listEnd values c = .ok vs d ↔
    vs = values ∧ ∃ last, (last = [] ∨ last = [.comma]) ∧ c.Takes (last ++ [.bracketClose]) d := by
  rw [listEnd, token_bind]
  constructor
  · intro h
    by_cases comma : c.token = .comma
    · simp only [if_pos comma, advance_bind, bind_eq_ok, expect_eq_ok, pure_eq_ok] at h
      obtain ⟨_, e, ⟨close, rfl⟩, rfl, rfl⟩ := h
      refine ⟨rfl, [.comma], .inr rfl, ?_⟩
      exact (hc.takes_cons (by simp)).mpr ⟨comma, hc.advance.takes_one close (by simp)⟩
    · simp only [if_neg comma, bind_eq_ok, expect_eq_ok, pure_eq_ok] at h
      obtain ⟨_, e, ⟨close, rfl⟩, rfl, rfl⟩ := h
      exact ⟨rfl, [], .inl rfl, hc.takes_one close (by simp)⟩
  · rintro ⟨rfl, last, rfl | rfl, takes⟩
    · obtain ⟨close, -, behind⟩ := takes_cons.mp takes
      have comma : c.token ≠ .comma := by simp [close]
      rw [if_neg comma, takes_nil.mp behind]
      exact bind_eq_ok.mpr ⟨(), _, expect_eq_ok.mpr ⟨close, rfl⟩, rfl⟩
    · obtain ⟨comma, -, behind⟩ := takes_cons.mp takes
      obtain ⟨close, -, behind⟩ := takes_cons.mp behind
      rw [if_pos comma, advance_bind, takes_nil.mp behind]
      exact bind_eq_ok.mpr ⟨(), _, expect_eq_ok.mpr ⟨close, rfl⟩, rfl⟩

private theorem moreFollows_of_end {last : List Token} (shape : last = [] ∨ last = [.comma])
    (takes : c.Takes (last ++ [.bracketClose]) d) : moreFollows c = false := by
  obtain rfl | rfl := shape
  · have close := (takes_cons.mp takes).1
    simp [moreFollows, close]
  · have close := (takes_cons.mp (takes_cons.mp takes).2.2).1
    simp [moreFollows, close]

private theorem literals_eq : literals = (do
    expect .bracketOpen
    if (← token) = .bracketClose then
      advance
      return []
    let first ← literal
    let more ← repeatWhile moreFollows nextLiteral
    listEnd (first :: more)) := rfl

private theorem literals_run (hc : c.Scanned) {ts : List Token} (list : Literals ts vs)
    (takes : c.Takes ts d) : literals c = .ok vs d := by
  rw [literals_eq, bind_eq_ok]
  cases list with
  | nil =>
    obtain ⟨opens, -, behind⟩ := takes_cons.mp takes
    obtain ⟨close, -, behind⟩ := takes_cons.mp behind
    refine ⟨(), _, expect_eq_ok.mpr ⟨opens, rfl⟩, ?_⟩
    rw [token_bind, if_pos close, advance_bind, takes_nil.mp behind]
    rfl
  | @cons ts us last v vs tokens others shape =>
    obtain ⟨opens, -, behind⟩ := takes_cons.mp takes
    obtain ⟨e, takes, behind⟩ := takes_append.mp behind
    obtain ⟨f, takes', takes''⟩ := takes_append.mp behind
    have he := takes.scanned hc.advance
    have more : repeatWhile moreFollows nextLiteral e = .ok vs f := by
      rw [repeatWhile_eq_ok nextLiteral_moves he, rounds_nextLiteral he]
      exact ⟨⟨us, takes', others⟩, moreFollows_of_end shape takes''⟩
    obtain ⟨t, ts', rfl, other⟩ := tokens.exists_first
    have close : c.advance.token ≠ .bracketClose := (takes_cons.mp takes).1 ▸ other
    refine ⟨(), _, expect_eq_ok.mpr ⟨opens, rfl⟩, ?_⟩
    rw [token_bind, if_neg close, bind_ok (literal_run tokens takes), bind_ok more]
    exact (listEnd_eq_ok (takes'.scanned he)).mpr ⟨rfl, last, shape, takes''⟩

private theorem literals_sound (hc : c.Scanned) (h : literals c = .ok vs d) :
    ∃ ts, c.Takes ts d ∧ Literals ts vs := by
  rw [literals_eq] at h
  simp only [bind_eq_ok, expect_eq_ok, token_bind] at h
  obtain ⟨_, _, ⟨opens, rfl⟩, h⟩ := h
  by_cases close : c.advance.token = .bracketClose
  · simp only [if_pos close, advance_bind, pure_eq_ok] at h
    obtain ⟨rfl, rfl⟩ := h
    refine ⟨_, ?_, .nil⟩
    exact (hc.takes_cons (by simp)).mpr ⟨opens, hc.advance.takes_one close (by simp)⟩
  · simp only [if_neg close, bind_eq_ok] at h
    obtain ⟨v, e, first, more, f, rounds, behind⟩ := h
    obtain ⟨ts, takes, tokens⟩ := literal_sound hc.advance first
    have he := takes.scanned hc.advance
    rw [repeatWhile_eq_ok nextLiteral_moves he, rounds_nextLiteral he] at rounds
    obtain ⟨⟨us, takes', others⟩, -⟩ := rounds
    obtain ⟨rfl, last, shape, takes''⟩ := (listEnd_eq_ok (takes'.scanned he)).mp behind
    refine ⟨_, (hc.takes_cons (by simp)).mpr ⟨opens, ?_⟩, .cons tokens others shape⟩
    exact takes_append.mpr ⟨e, takes, takes_append.mpr ⟨f, takes', takes''⟩⟩

/-- **A list of literals is accepted by its grammar.** -/
theorem literals_eq_ok (hc : c.Scanned) :
    literals c = .ok vs d ↔ ∃ ts, c.Takes ts d ∧ Literals ts vs := by
  constructor
  · exact literals_sound hc
  · rintro ⟨ts, takes, list⟩
    exact literals_run hc list takes

/-! ## Operators -/

/-- What is read behind the tokens of an operator. -/
def operandsOf (op : Operator) : Parser (Operator × List Value) :=
  match op.arity with
  | .none => return (op, [])
  | .one => withLiteral op
  | .two => range
  | .list => do return (op, ← literals)

section Run

variable {w : String} {negated : Bool}

theorem operation_word (current : c.token = .word w) : operation c = wordOperation w c := by
  simp only [operation, token_bind, current, relation?]

theorem operation_relation (relation : Relation) (takes : c.Takes [relation.token] e) :
    operation c = withLiteral (comparison relation) e := by
  obtain ⟨current, -, behind⟩ := takes_cons.mp takes
  rw [operation, token_bind, current, relation?_token, takes_nil.mp behind]
  rfl

theorem wordOperation_eq (known : wordOperator? false w = some op) :
    wordOperation w = (do advance; withOperands op) := by
  unfold wordOperation
  split
  iterate 6 exact absurd known (by simp [wordOperator?])
  rw [known]

/-- An operation is read by its name, with `not` in front where it is negated. -/
theorem operation_named (known : wordOperator? negated w = some op)
    (takes : c.Takes (Operator.notTokens negated ++ [.word w]) e) :
    operation c = withOperands op e := by
  cases negated with
  | false =>
    obtain ⟨current, -, behind⟩ := takes_cons.mp takes
    rw [operation_word current, wordOperation_eq known, advance_bind, takes_nil.mp behind]
  | true =>
    obtain ⟨wordNot, -, behind⟩ := takes_cons.mp takes
    obtain ⟨current, -, behind⟩ := takes_cons.mp behind
    rw [operation_word wordNot, wordOperation, advance_bind, negation, token_bind,
      takes_nil.mp behind]
    simp only [current, known, advance_bind]

theorem operation_state (known : stateOperator? negated (.word w) = some op) (plain : w ≠ "not")
    (takes : c.Takes (.word "is" :: (Operator.notTokens negated ++ [.word w])) e) :
    operation c = .ok (op, []) e := by
  obtain ⟨wordIs, -, behind⟩ := takes_cons.mp takes
  rw [operation_word wordIs, wordOperation, advance_bind, state, token_bind]
  cases negated with
  | false =>
    obtain ⟨current, -, behind⟩ := takes_cons.mp behind
    have other : ¬ Token.word w = .word "not" := fun same => plain (Token.word.inj same)
    simp only [current, other, decide_false, Bool.false_eq_true, if_false, token_bind, known,
      advance_bind, takes_nil.mp behind]
    rfl
  | true =>
    obtain ⟨wordNot, -, behind⟩ := takes_cons.mp behind
    obtain ⟨current, -, behind⟩ := takes_cons.mp behind
    simp only [wordNot, decide_true, if_true, advance_bind, token_bind, current, known,
      takes_nil.mp behind]
    rfl

theorem operation_address {relation : Relation}
    (takes : c.Takes [.word "ip", relation.token] e) :
    operation c = withLiteral (.address relation) e := by
  obtain ⟨ip, -, behind⟩ := takes_cons.mp takes
  obtain ⟨current, -, behind⟩ := takes_cons.mp behind
  rw [operation_word ip, wordOperation, advance_bind, addressing, token_bind, current,
    relation?_token, takes_nil.mp behind]
  rfl

theorem operation_network
    (takes : c.Takes (.word "ip" :: (Operator.notTokens negated ++ [.word "within"])) e) :
    operation c = withLiteral (.network negated) e := by
  obtain ⟨ip, -, behind⟩ := takes_cons.mp takes
  rw [operation_word ip, wordOperation, advance_bind, addressing, token_bind]
  cases negated with
  | false =>
    obtain ⟨current, -, behind⟩ := takes_cons.mp behind
    simp only [current, relation?, token_bind, advance_bind, takes_nil.mp behind]
  | true =>
    obtain ⟨wordNot, -, behind⟩ := takes_cons.mp behind
    obtain ⟨current, -, behind⟩ := takes_cons.mp behind
    simp only [wordNot, relation?, token_bind, advance_bind, current, takes_nil.mp behind]
    rfl

end Run

/-- **Behind its tokens an operator reads its operands.** -/
theorem operation_run (takes : c.Takes op.tokens e) : operation c = operandsOf op e := by
  cases op with
  | null negated =>
    have known : stateOperator? negated (.word "null") = some (.null negated) := rfl
    exact operation_state known (by decide) takes
  | equals negated =>
    cases negated with
    | false => exact operation_relation .equal takes
    | true => exact operation_relation .notEqual takes
  | member negated =>
    have known : wordOperator? negated "within" = some (.member negated) := rfl
    exact operation_named known takes
  | number bound => exact operation_relation (.bound bound) takes
  | between =>
    obtain ⟨current, -, behind⟩ := takes_cons.mp takes
    rw [operation_word current, takes_nil.mp behind]
    rfl
  | empty negated =>
    have known : stateOperator? negated (.word "empty") = some (.empty negated) := rfl
    exact operation_state known (by decide) takes
  | string negated place =>
    have known : wordOperator? negated place.word = some (.string negated place) := by
      cases place <;> rfl
    exact operation_named known takes
  | switch on =>
    obtain ⟨current, -, behind⟩ := takes_cons.mp takes
    rw [operation_word current, takes_nil.mp behind]
    cases on <;> rfl
  | address relation => exact operation_address takes
  | network negated => exact operation_network takes
  | family f =>
    have known : stateOperator? false (.word f.word) = some (.family f) := by cases f <;> rfl
    exact operation_state known (by cases f <;> decide) takes
  | date negated side =>
    have known : wordOperator? negated side.word = some (.date negated side) := by
      cases side <;> rfl
    exact operation_named known takes

/-! ### Accepted operators -/

theorem tokens_comparison (relation : Relation) :
    (comparison relation).tokens = [relation.token] := by
  cases relation <;> rfl

theorem tokens_of_wordOperator? {negated : Bool} {w : String}
    (known : wordOperator? negated w = some op) :
    op.tokens = Operator.notTokens negated ++ [.word w] := by
  unfold wordOperator? at known
  split at known <;> cases known <;> rfl

theorem tokens_of_stateOperator? {negated : Bool} {t : Token}
    (known : stateOperator? negated t = some op) :
    op.tokens = .word "is" :: (Operator.notTokens negated ++ [t]) ∧ t ≠ .eof := by
  unfold stateOperator? at known
  cases negated <;> split at known <;> cases known <;> exact ⟨rfl, by simp⟩

theorem relation?_eq_some {t : Token} {relation : Relation} (known : relation? t = some relation) :
    t = relation.token := by
  unfold relation? at known
  split at known <;> cases known <;> rfl

section Accepted

variable {w : String} {x : Operator × List Value}

theorem exists_of_state (hc : c.Scanned) (wordIs : c.token = .word "is")
    (h : state c.advance = .ok x d) : ∃ (op : Operator) (e : Cursor), c.Takes op.tokens e := by
  rw [state, token_bind] at h
  by_cases wordNot : c.advance.token = .word "not"
  · simp only [wordNot, decide_true, if_true, advance_bind, token_bind] at h
    cases known : stateOperator? true c.advance.advance.token with
    | none => simp [known, unexpected] at h
    | some op =>
      obtain ⟨tokens, other⟩ := tokens_of_stateOperator? known
      refine ⟨op, c.advance.advance.advance, ?_⟩
      rw [tokens]
      refine (hc.takes_cons (by simp)).mpr ⟨wordIs, ?_⟩
      exact (hc.advance.takes_cons (by simp)).mpr ⟨wordNot, hc.advance.advance.takes_one rfl other⟩
  · simp only [wordNot, decide_false, Bool.false_eq_true, if_false, token_bind] at h
    cases known : stateOperator? false c.advance.token with
    | none => simp [known, unexpected] at h
    | some op =>
      obtain ⟨tokens, other⟩ := tokens_of_stateOperator? known
      refine ⟨op, c.advance.advance, ?_⟩
      rw [tokens]
      exact (hc.takes_cons (by simp)).mpr ⟨wordIs, hc.advance.takes_one rfl other⟩

/-- What is accepted behind `not` is an operator that has a negated form. -/
theorem exists_of_negation (hc : c.Scanned) (wordNot : c.token = .word "not")
    (h : negation c.advance = .ok x d) : ∃ (op : Operator) (e : Cursor), c.Takes op.tokens e := by
  rw [negation, token_bind] at h
  cases current : c.advance.token with
  | word w =>
    cases known : wordOperator? true w with
    | none => simp [current, known, unexpected] at h
    | some op =>
      refine ⟨op, c.advance.advance, ?_⟩
      rw [tokens_of_wordOperator? known]
      exact (hc.takes_cons (by simp)).mpr ⟨wordNot, hc.advance.takes_one current (by simp)⟩
  | _ => simp [current, unexpected] at h

/-- What is accepted behind `ip` is a comparison, or membership in a network. -/
theorem exists_of_addressing (hc : c.Scanned) (ip : c.token = .word "ip")
    (h : addressing c.advance = .ok x d) : ∃ (op : Operator) (e : Cursor), c.Takes op.tokens e := by
  rw [addressing, token_bind] at h
  cases known : relation? c.advance.token with
  | some relation =>
    refine ⟨.address relation, c.advance.advance, (hc.takes_cons (by simp)).mpr ⟨ip, ?_⟩⟩
    exact hc.advance.takes_one (relation?_eq_some known) (relation_token_ne relation rfl)
  | none =>
    simp only [known, token_bind] at h
    by_cases within : c.advance.token = .word "within"
    · refine ⟨.network false, c.advance.advance, (hc.takes_cons (by simp)).mpr ⟨ip, ?_⟩⟩
      exact hc.advance.takes_one within (by simp)
    by_cases wordNot : c.advance.token = .word "not"
    · simp only [wordNot, advance_bind, token_bind] at h
      by_cases within' : c.advance.advance.token = .word "within"
      · refine ⟨.network true, c.advance.advance.advance, (hc.takes_cons (by simp)).mpr ⟨ip, ?_⟩⟩
        exact (hc.advance.takes_cons (by simp)).mpr
          ⟨wordNot, hc.advance.advance.takes_one within' (by simp)⟩
      · rw [if_pos within', bind_eq_ok] at h
        obtain ⟨_, _, refused, -⟩ := h
        exact absurd refused (unexpected_ne_ok _ _)
    · generalize c.advance.token = t at h within wordNot
      simp [unexpected_ne_ok] at h

/-- What is accepted behind a word starts with an operator. -/
theorem exists_of_word (hc : c.Scanned) (current : c.token = .word w)
    (h : wordOperation w c = .ok x d) : ∃ (op : Operator) (e : Cursor), c.Takes op.tokens e := by
  generalize run : wordOperation w = p at h
  unfold wordOperation at run
  split at run <;> subst run
  · exact exists_of_state hc current h
  · exact exists_of_negation hc current h
  · exact exists_of_addressing hc current h
  · exact ⟨.between, c.advance, hc.takes_one current (by simp)⟩
  · exact ⟨.switch true, c.advance, hc.takes_one current (by simp)⟩
  · exact ⟨.switch false, c.advance, hc.takes_one current (by simp)⟩
  · cases known : wordOperator? false w with
    | none => simp [known, unexpected] at h
    | some op =>
      refine ⟨op, c.advance, ?_⟩
      rw [tokens_of_wordOperator? known]
      exact hc.takes_one current (by simp)

/-- **Whatever is accepted starts with the tokens of an operator.** -/
theorem exists_operator (hc : c.Scanned) (h : operation c = .ok x d) :
    ∃ (op : Operator) (e : Cursor), c.Takes op.tokens e := by
  cases known : relation? c.token with
  | some relation =>
    refine ⟨comparison relation, c.advance, ?_⟩
    rw [tokens_comparison]
    exact hc.takes_one (relation?_eq_some known) (relation_token_ne relation rfl)
  | none =>
    rw [operation, token_bind] at h
    simp only [known, token_bind] at h
    cases current : c.token with
    | word w =>
      simp only [current] at h
      exact exists_of_word hc current h
    | _ => simp [current, unexpected] at h

end Accepted

/-! ## Predicates -/

variable {x : Operator × List Value} {p : Predicate}

theorem withLiteral_eq_ok (hc : c.Scanned) :
    withLiteral op c = .ok x d ↔ ∃ ts v, c.Takes ts d ∧ Literal ts v ∧ x = (op, [v]) := by
  simp only [withLiteral, bind_eq_ok, pure_eq_ok, literal_eq_ok hc]
  grind

theorem range_eq_ok (hc : c.Scanned) : range c = .ok x d ↔ ∃ ts us low high,
    c.Takes (ts ++ .word "and" :: us) d ∧ Literal ts low ∧ Literal us high ∧
      x = (.between, [low, high]) := by
  simp only [range, expectWord, bind_eq_ok, pure_eq_ok, expect_eq_ok]
  constructor
  · rintro ⟨low, e, first, _, _, ⟨wordAnd, rfl⟩, high, f, second, rfl, rfl⟩
    obtain ⟨ts, takes, tokens⟩ := literal_sound hc first
    have he := takes.scanned hc
    obtain ⟨us, behind, tokens'⟩ := literal_sound he.advance second
    refine ⟨ts, us, low, high, takes_append.mpr ⟨e, takes, ?_⟩, tokens, tokens', rfl⟩
    exact (he.takes_cons (by simp)).mpr ⟨wordAnd, behind⟩
  · rintro ⟨ts, us, low, high, takes, tokens, tokens', rfl⟩
    obtain ⟨e, takes, behind⟩ := takes_append.mp takes
    obtain ⟨wordAnd, -, behind⟩ := takes_cons.mp behind
    exact ⟨low, e, literal_run tokens takes, (), _, ⟨wordAnd, rfl⟩, high, d,
      literal_run tokens' behind, rfl, rfl⟩

/-- **An operator takes the operands of its arity.** -/
theorem operandsOf_eq_ok (hc : c.Scanned) : operandsOf op c = .ok x d ↔
    ∃ ts vs, c.Takes ts d ∧ Operands op.arity ts vs ∧ x = (op, vs) := by
  rw [operandsOf]
  cases arity : op.arity with
  | none =>
    simp only [pure_eq_ok]
    constructor
    · rintro ⟨rfl, rfl⟩
      exact ⟨[], [], .nil _, .none, rfl⟩
    · rintro ⟨ts, vs, takes, operands, rfl⟩
      cases operands
      exact ⟨rfl, takes_nil.mp takes⟩
  | one =>
    simp only [withLiteral_eq_ok hc]
    constructor
    · rintro ⟨ts, v, takes, tokens, rfl⟩
      exact ⟨ts, [v], takes, .one tokens, rfl⟩
    · rintro ⟨ts, vs, takes, operands, rfl⟩
      cases operands with
      | one tokens => exact ⟨ts, _, takes, tokens, rfl⟩
  | two =>
    have only : op = .between := by cases op <;> first | rfl | cases arity
    subst only
    simp only [range_eq_ok hc]
    constructor
    · rintro ⟨ts, us, low, high, takes, first, second, rfl⟩
      exact ⟨_, [low, high], takes, .two first second, rfl⟩
    · rintro ⟨ts, vs, takes, operands, rfl⟩
      cases operands with
      | two first second => exact ⟨_, _, _, _, takes, first, second, rfl⟩
  | list =>
    simp only [bind_eq_ok, pure_eq_ok, literals_eq_ok hc]
    constructor
    · rintro ⟨vs, e, ⟨ts, takes, tokens⟩, rfl, rfl⟩
      exact ⟨ts, vs, takes, .list tokens, rfl⟩
    · rintro ⟨ts, vs, takes, operands, rfl⟩
      cases operands with
      | list tokens => exact ⟨vs, d, ⟨ts, takes, tokens⟩, rfl, rfl⟩

/-- **An operator is accepted with its operands.** -/
theorem operation_eq_ok (hc : c.Scanned) : operation c = .ok x d ↔
    ∃ op ts vs, c.Takes (op.tokens ++ ts) d ∧ Operands op.arity ts vs ∧ x = (op, vs) := by
  constructor
  · intro h
    -- No two operators have the same tokens, so whichever is found is the one that was read.
    obtain ⟨op, e, takes⟩ := exists_operator hc h
    rw [operation_run takes, operandsOf_eq_ok (takes.scanned hc)] at h
    obtain ⟨ts, vs, behind, operands, rfl⟩ := h
    exact ⟨op, ts, vs, takes_append.mpr ⟨e, takes, behind⟩, operands, rfl⟩
  · rintro ⟨op, ts, vs, takes, operands, rfl⟩
    obtain ⟨e, takes, behind⟩ := takes_append.mp takes
    rw [operation_run takes, operandsOf_eq_ok (takes.scanned hc)]
    exact ⟨ts, vs, behind, operands, rfl⟩

/-- **Predicates are accepted by their grammar.** -/
theorem predicate_eq_ok (hc : c.Scanned) :
    predicate c = .ok p d ↔ ∃ ts, c.Takes ts d ∧ Clause ts p := by
  rw [predicate, position_bind]
  simp only [bind_eq_ok, operation_eq_ok hc]
  constructor
  · rintro ⟨x, e, ⟨op, ts, vs, takes, operands, rfl⟩, h⟩
    cases built : Predicate.build op vs with
    | error fault =>
      simp only [built] at h
      cases h
    | ok q =>
      simp only [built, pure_eq_ok] at h
      obtain ⟨rfl, rfl⟩ := h
      exact ⟨op.tokens ++ ts, takes, .mk operands built⟩
  · rintro ⟨_, takes, clause⟩
    cases clause with
    | @mk op ts vs _ operands built =>
      refine ⟨(op, vs), d, ⟨op, ts, vs, takes, operands, rfl⟩, ?_⟩
      simp only [built, pure_run]

end Parser

end Compliance
