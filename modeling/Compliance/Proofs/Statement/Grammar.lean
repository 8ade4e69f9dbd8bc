import Compliance.Proofs.Predicate.Grammar
import Compliance.Proofs.Statement.Reading

/-!
# The grammar of blocks

Which tokens are a block of statements, said without a parser, and that the parser
accepts just these.  No word is reserved: `and` behind a statement joins it to the
next one, and is a name only where no statement is in front of it or an `and` has
joined already.  An association has a block if a brace follows its name, so what
are the tokens of a statement depends on the one behind them.

## Main definitions

* `Grammar.Name`, `Grammar.Stmt` — names, and statements in front of a token.
* `Grammar.Block levels` — blocks with at most that many levels.
* `Parser.block_eq_ok` — blocks are accepted by this grammar.
* `Parser.block_accepts` — what a block takes from the tokens of a text, and what it has.
-/

namespace Compliance

/-! ## Grammar -/

namespace Grammar

/-- The token of a name: a word, or a string that is not empty. -/
inductive Name : Token → String → Prop
  | word (w : String) : Name (.word w) w
  | string {s : String} : s ≠ "" → Name (.string s) s

section

variable (inner : List Token → List Statement → Prop)

/-- What stands behind the name of a statement: a key and a predicate, a block, or a predicate. -/
inductive Tail (name : String) : List Token → Statement → Prop
  | entry (key : String) {ts : List Token} {p : Predicate} : Clause ts p →
    Tail name ([.bracketOpen, .string key, .bracketClose] ++ ts) (.entry name key p)
  | nested {ts : List Token} {ss : List Statement} : inner ts ss → Tail name ts (.nested name ss)
  | property {ts : List Token} {p : Predicate} : Clause ts p → Tail name ts (.property name p)

/-- The tokens of a statement in front of another token.  The blocks in it are said by `inner`. -/
inductive Stmt : List Token → Token → Statement → Prop
  | named {t next : Token} {name : String} {ts : List Token} {s : Statement} :
    Name t name → Tail inner name ts s → Stmt (t :: ts) next s
  | bare {t next : Token} {name : String} : Name t name → next ≠ .braceOpen →
    Stmt [.greater, t] next (.association name [])
  | target {t next : Token} {name : String} {ts : List Token} {ss : List Statement} :
    Name t name → inner ts ss → Stmt (.greater :: t :: ts) next (.association name ss)

end

section

variable (stmt : List Token → Token → Statement → Prop)

/-- The tokens behind a statement up to the end of its block.  Where `and` is the next token it
joins, and where it is not, nothing does. -/
inductive More : List Token → List Statement → Prop
  | close : More [.braceClose] []
  | joined {ts us : List Token} {next : Token} {s : Statement} {ss : List Statement} :
    stmt ts next s → More (next :: us) ss → More (.word "and" :: (ts ++ next :: us)) (s :: ss)
  | plain {ts us : List Token} {next : Token} {s : Statement} {ss : List Statement} :
    ts.head? ≠ some (.word "and") → stmt ts next s → More (next :: us) ss →
      More (ts ++ next :: us) (s :: ss)

/-- The tokens behind the opening brace of a block. -/
inductive Row : List Token → List Statement → Prop
  | close : Row [.braceClose] []
  | cons {ts us : List Token} {next : Token} {s : Statement} {ss : List Statement} :
    stmt ts next s → More stmt (next :: us) ss → Row (ts ++ next :: us) (s :: ss)

end

/-- The tokens of a block with at most `levels` levels of blocks, itself among them. -/
def Block : Nat → List Token → List Statement → Prop
  | 0, _, _ => False
  | levels + 1, ts, ss => ∃ us, ts = .braceOpen :: us ∧ Row (Stmt (Block levels)) us ss

theorem Name.ne_greater {t : Token} {name : String} (h : Name t name) : t ≠ .greater := by
  cases h <;> simp

theorem Name.ne_eof {t : Token} {name : String} (h : Name t name) : t ≠ .eof := by
  cases h <;> simp

/-- A predicate starts neither like a key nor like a block. -/
theorem Clause.exists_first {ts : List Token} {p : Predicate} (h : Clause ts p) :
    ∃ t us, ts = t :: us ∧ t ≠ .bracketOpen ∧ t ≠ .braceOpen := by
  cases h with
  | @mk op ts operands p _ _ =>
    obtain ⟨t, us, first, other⟩ := Parser.exists_first_operator op
    exact ⟨t, us ++ ts, by rw [first]; rfl, other⟩

theorem Block.exists_rest {levels : Nat} {ts : List Token} {ss : List Statement}
    (h : Block levels ts ss) : ∃ us, ts = .braceOpen :: us := by
  cases levels with
  | zero => cases h
  | succ levels =>
    obtain ⟨us, rfl, -⟩ := h
    exact ⟨us, rfl⟩

/-- A statement has a first token, which ends no block. -/
theorem Stmt.exists_first {inner : List Token → List Statement → Prop} {ts : List Token}
    {next : Token} {s : Statement} (h : Stmt inner ts next s) :
    ∃ t us, ts = t :: us ∧ t ≠ .braceClose ∧ t ≠ .eof := by
  cases h with
  | named name _ => cases name <;> exact ⟨_, _, rfl, by simp⟩
  | bare _ _ | target _ _ => exact ⟨_, _, rfl, by simp⟩

theorem More.exists_first {stmt : List Token → Token → Statement → Prop} {ts : List Token}
    {ss : List Statement} (h : More stmt ts ss) : ∃ t us, ts = t :: us := by
  cases h with
  | close | joined => exact ⟨_, _, rfl⟩
  | @plain ts => cases ts <;> exact ⟨_, _, rfl⟩

end Grammar

namespace Parser

open Grammar Cursor

variable {c d e : Cursor}

/-! ## Names -/

private theorem checked_eq_ok {phrase name s : String} : (do
      if s.isEmpty then refuse (.emptyName phrase)
      advance
      return s : Parser String) c = .ok name d ↔ s ≠ "" ∧ name = s ∧ d = c.advance := by
  by_cases empty : s = ""
  · simp [empty, bind_eq_ok, refuse_ne_ok]
  · have isEmpty : s.isEmpty = false := by simpa using empty
    simp only [isEmpty, Bool.false_eq_true, if_false, advance_bind, pure_eq_ok, ne_eq, empty,
      not_false_eq_true, true_and]

/-- **A name is accepted if it is a word or a string that is not empty.** -/
theorem nameOf_eq_ok (hc : c.Scanned) {phrase name : String} :
    nameOf phrase c = .ok name d ↔ Name c.token name ∧ d = c.advance := by
  have genuine := hc.genuine_token
  rw [nameOf, token_bind]
  cases current : c.token with
  | word w =>
    rw [current] at genuine
    refine checked_eq_ok.trans ⟨?_, ?_⟩
    · rintro ⟨-, rfl, rfl⟩
      exact ⟨.word _, rfl⟩
    · rintro ⟨⟨⟩, rfl⟩
      exact ⟨genuine, rfl, rfl⟩
  | string s =>
    refine checked_eq_ok.trans ⟨?_, ?_⟩
    · rintro ⟨nonempty, rfl, rfl⟩
      exact ⟨.string nonempty, rfl⟩
    · rintro ⟨named, rfl⟩
      cases named with
      | string nonempty => exact ⟨nonempty, rfl, rfl⟩
  | _ =>
    constructor
    · intro h
      obtain ⟨_, _, refused, -⟩ := bind_eq_ok.mp h
      exact absurd refused (unexpected_ne_ok _ _)
    · rintro ⟨⟨⟩, -⟩

/-! ## Statements -/

section

variable {inner : Parser (List Statement)} {Inner : List Token → List Statement → Prop}
  {name : String} {s : Statement} {ss : List Statement}

/-- The blocks that a parser reads start with a brace, and are said by a relation. -/
structure Accepts (inner : Parser (List Statement)) (Inner : List Token → List Statement → Prop) :
    Prop where
  iff : ∀ {c d : Cursor} {ss : List Statement}, c.Scanned →
    (inner c = .ok ss d ↔ ∃ ts, c.Takes ts d ∧ Inner ts ss)
  opens : ∀ {ts : List Token} {ss : List Statement}, Inner ts ss → ∃ us, ts = .braceOpen :: us

private theorem statementTail_run (hi : Accepts inner Inner) (hc : c.Scanned) {ts : List Token}
    (tail : Tail Inner name ts s) (takes : c.Takes ts d) :
    statementTail inner name c = .ok s d := by
  simp only [statementTail, Parsing.take_cursor]
  rw [token_bind]
  cases tail with
  | entry key clause =>
    obtain ⟨bracket, -, behind⟩ := takes_cons.mp takes
    obtain ⟨quoted, -, behind⟩ := takes_cons.mp behind
    obtain ⟨close, -, behind⟩ := takes_cons.mp behind
    have said := (predicate_eq_ok hc.advance.advance.advance).mpr ⟨_, behind, clause⟩
    simp only [bracket, advance_bind, bind_eq_ok, string_eq_ok, expect_eq_ok, pure_eq_ok]
    exact ⟨key, _, ⟨quoted, rfl⟩, (), _, ⟨close, rfl⟩, _, d, said, rfl, rfl⟩
  | nested block =>
    obtain ⟨us, rfl⟩ := hi.opens block
    have brace := (takes_cons.mp takes).1
    simp only [brace, bind_eq_ok, hi.iff hc, pure_eq_ok]
    exact ⟨_, d, ⟨_, takes, block⟩, rfl, rfl⟩
  | property clause =>
    obtain ⟨t, us, rfl, bracket, brace⟩ := clause.exists_first
    rw [← (takes_cons.mp takes).1] at bracket brace
    simp only [bind_eq_ok, pure_eq_ok, predicate_eq_ok hc]
    exact ⟨_, d, ⟨_, takes, clause⟩, rfl, rfl⟩

private theorem statementTail_sound (hi : Accepts inner Inner) (hc : c.Scanned)
    (h : statementTail inner name c = .ok s d) : ∃ ts, c.Takes ts d ∧ Tail Inner name ts s := by
  simp only [statementTail, Parsing.take_cursor] at h
  rw [token_bind] at h
  by_cases bracket : c.token = .bracketOpen
  · simp only [bracket, advance_bind, bind_eq_ok, string_eq_ok, expect_eq_ok, pure_eq_ok] at h
    obtain ⟨key, _, ⟨quoted, rfl⟩, _, _, ⟨close, rfl⟩, p, e, said, rfl, rfl⟩ := h
    obtain ⟨ts, takes, clause⟩ := (predicate_eq_ok hc.advance.advance.advance).mp said
    refine ⟨_, ?_, .entry key clause⟩
    refine (hc.takes_cons (by simp)).mpr ⟨bracket, ?_⟩
    refine (hc.advance.takes_cons (by simp)).mpr ⟨quoted, ?_⟩
    exact (hc.advance.advance.takes_cons (by simp)).mpr ⟨close, takes⟩
  by_cases brace : c.token = .braceOpen
  · simp only [brace, bind_eq_ok, hi.iff hc, pure_eq_ok] at h
    obtain ⟨ss, e, ⟨ts, takes, block⟩, rfl, rfl⟩ := h
    exact ⟨ts, takes, .nested block⟩
  · simp only [bind_eq_ok, pure_eq_ok, predicate_eq_ok hc] at h
    obtain ⟨p, e, ⟨ts, takes, clause⟩, rfl, rfl⟩ := h
    exact ⟨ts, takes, .property clause⟩

/-- A statement is read in front of the token behind it. -/
private theorem statementWith_run (hi : Accepts inner Inner) (hc : c.Scanned) {ts : List Token}
    (stmt : Stmt Inner ts d.token s) (takes : c.Takes ts d) :
    statementWith inner c = .ok s d := by
  simp only [statementWith, Parsing.enter_cursor, Parsing.take_cursor]
  rw [token_bind]
  cases stmt with
  | named named tail =>
    obtain ⟨rfl, -, behind⟩ := takes_cons.mp takes
    rw [if_neg named.ne_greater, bind_eq_ok]
    exact ⟨_, _, (nameOf_eq_ok hc).mpr ⟨named, rfl⟩, statementTail_run hi hc.advance tail behind⟩
  | bare named other =>
    obtain ⟨greater, -, behind⟩ := takes_cons.mp takes
    obtain ⟨rfl, -, behind⟩ := takes_cons.mp behind
    obtain rfl := takes_nil.mp behind
    rw [if_pos greater, advance_bind, bind_eq_ok]
    refine ⟨_, _, (nameOf_eq_ok hc.advance).mpr ⟨named, rfl⟩, ?_⟩
    simp only [token_bind, if_neg other, bind_eq_ok, pure_eq_ok]
    exact ⟨[], _, ⟨rfl, rfl⟩, rfl, rfl⟩
  | target named block =>
    obtain ⟨greater, -, behind⟩ := takes_cons.mp takes
    obtain ⟨rfl, -, behind⟩ := takes_cons.mp behind
    obtain ⟨us, rfl⟩ := hi.opens block
    have brace := (takes_cons.mp behind).1
    rw [if_pos greater, advance_bind, bind_eq_ok]
    refine ⟨_, _, (nameOf_eq_ok hc.advance).mpr ⟨named, rfl⟩, ?_⟩
    simp only [token_bind, if_pos brace, bind_eq_ok, hi.iff hc.advance.advance, pure_eq_ok]
    exact ⟨_, d, ⟨_, behind, block⟩, rfl, rfl⟩

/-- What is read as a statement is one in front of the token behind it. -/
private theorem statementWith_sound (hi : Accepts inner Inner) (hc : c.Scanned)
    (h : statementWith inner c = .ok s d) : ∃ ts, c.Takes ts d ∧ Stmt Inner ts d.token s := by
  simp only [statementWith, Parsing.enter_cursor, Parsing.take_cursor] at h
  rw [token_bind] at h
  by_cases greater : c.token = .greater
  · rw [if_pos greater, advance_bind, bind_eq_ok] at h
    simp only [nameOf_eq_ok hc.advance, token_bind] at h
    obtain ⟨name, _, ⟨named, rfl⟩, behind⟩ := h
    have more : c.advance.ahead ≠ [] := hc.advance.ahead_ne_nil named.ne_eof
    by_cases brace : c.advance.advance.token = .braceOpen
    · simp only [if_pos brace, bind_eq_ok, hi.iff hc.advance.advance, pure_eq_ok] at behind
      obtain ⟨ss, e, ⟨ts, takes, block⟩, rfl, rfl⟩ := behind
      refine ⟨_, (hc.takes_cons (by simp)).mpr ⟨greater, ?_⟩, .target named block⟩
      exact .cons rfl more takes
    · simp only [if_neg brace, bind_eq_ok, pure_eq_ok] at behind
      obtain ⟨_, _, ⟨rfl, rfl⟩, rfl, rfl⟩ := behind
      refine ⟨_, (hc.takes_cons (by simp)).mpr ⟨greater, ?_⟩, .bare named brace⟩
      exact .cons rfl more (.nil _)
  · rw [if_neg greater, bind_eq_ok] at h
    simp only [nameOf_eq_ok hc] at h
    obtain ⟨name, _, ⟨named, rfl⟩, behind⟩ := h
    obtain ⟨ts, takes, tail⟩ := statementTail_sound hi hc.advance behind
    exact ⟨_, .cons rfl (hc.ahead_ne_nil named.ne_eof) takes, .named named tail⟩

/-- **A statement is accepted in front of the token that it stops at.** -/
theorem statementWith_eq_ok (hi : Accepts inner Inner) (hc : c.Scanned) :
    statementWith inner c = .ok s d ↔ ∃ ts, c.Takes ts d ∧ Stmt Inner ts d.token s := by
  constructor
  · exact statementWith_sound hi hc
  · rintro ⟨ts, takes, stmt⟩
    exact statementWith_run hi hc stmt takes

/-! ## Rows -/

/-- What is accepted behind another statement, with or without a joint. -/
private theorem nextStatement_eq_ok (hi : Accepts inner Inner) (hc : c.Scanned) :
    nextStatement (statementWith inner) c = .ok s d ↔
      ∃ ts, Stmt Inner ts d.token s ∧ (c.Takes (.word "and" :: ts) d ∨
        ts.head? ≠ some (.word "and") ∧ c.Takes ts d) := by
  simp only [nextStatement, Parsing.take_cursor]
  rw [token_bind]
  by_cases wordAnd : c.token = .word "and"
  · rw [if_pos wordAnd, advance_bind, statementWith_eq_ok hi hc.advance]
    constructor
    · rintro ⟨ts, takes, stmt⟩
      exact ⟨ts, stmt, .inl ((hc.takes_cons (by simp)).mpr ⟨wordAnd, takes⟩)⟩
    · rintro ⟨ts, stmt, joined | ⟨other, takes⟩⟩
      · exact ⟨ts, (takes_cons.mp joined).2.2, stmt⟩
      · obtain ⟨t, us, rfl, -⟩ := stmt.exists_first
        obtain ⟨rfl, -⟩ := takes_cons.mp takes
        exact absurd (congrArg some wordAnd) other
  · rw [if_neg wordAnd, statementWith_eq_ok hi hc]
    constructor
    · rintro ⟨ts, takes, stmt⟩
      refine ⟨ts, stmt, .inr ⟨?_, takes⟩⟩
      obtain ⟨t, us, rfl, -⟩ := stmt.exists_first
      obtain ⟨rfl, -⟩ := takes_cons.mp takes
      exact fun same => wordAnd (Option.some.inj same)
    · rintro ⟨ts, stmt, joined | ⟨other, takes⟩⟩
      · exact absurd (takes_cons.mp joined).1 wordAnd
      · exact ⟨ts, takes, stmt⟩

private theorem nextStatement_moves (hi : Accepts inner Inner) (c : Cursor) (s : Statement)
    (e : Cursor) (hc : c.Scanned) (_ : (!c.atBlockEnd) = true)
    (h : nextStatement (statementWith inner) c = .ok s e) : e.Scanned ∧ e.size < c.size := by
  obtain ⟨ts, stmt, takes⟩ := (nextStatement_eq_ok hi hc).mp h
  obtain ⟨t, us, rfl, -⟩ := stmt.exists_first
  rcases takes with takes | ⟨-, takes⟩
  all_goals
    have size := takes.size
    simp only [List.length_cons] at size
    exact ⟨takes.scanned hc, by omega⟩

/-- Statements behind another one, up to a closing brace. -/
private theorem rounds_closed (hi : Accepts inner Inner) (hc : c.Scanned) :
    (∃ d, Rounds (fun c => !c.atBlockEnd) (nextStatement (statementWith inner)) c ss d ∧
      d.token = .braceClose ∧ e = d.advance) ↔ ∃ ts, c.Takes ts e ∧ More (Stmt Inner) ts ss := by
  constructor
  · rintro ⟨d, rounds, close, rfl⟩
    -- The closing brace is taken too, so that every statement has a token behind it.
    induction rounds with
    | done => exact ⟨_, hc.takes_one close (by simp), .close⟩
    | @more c d f s ss continues first _ ih =>
      obtain ⟨us, behind, more⟩ := ih (nextStatement_moves hi c s f hc continues first).1 close
      obtain ⟨next, us, rfl⟩ := more.exists_first
      have follows : f.token = next := (takes_cons.mp behind).1
      obtain ⟨ts, stmt, takes⟩ := (nextStatement_eq_ok hi hc).mp first
      rw [follows] at stmt
      rcases takes with joined | ⟨other, takes⟩
      · refine ⟨_, ?_, .joined stmt more⟩
        exact takes_append.mpr ⟨f, joined, behind⟩
      · exact ⟨_, takes_append.mpr ⟨f, takes, behind⟩, .plain other stmt more⟩
  · rintro ⟨ts, takes, more⟩
    induction more generalizing c with
    | close =>
      obtain ⟨close, -, behind⟩ := takes_cons.mp takes
      refine ⟨c, .done ?_, close, takes_nil.mp behind⟩
      simp [Cursor.atBlockEnd, close]
    | @joined ts us next s ss stmt _ ih =>
      rw [← List.cons_append] at takes
      obtain ⟨f, joined, behind⟩ := takes_append.mp takes
      obtain ⟨follows, -⟩ := takes_cons.mp behind
      obtain ⟨d, rounds, closed⟩ := ih (joined.scanned hc) behind
      refine ⟨d, .more ?_ ((nextStatement_eq_ok hi hc).mpr ?_) rounds, closed⟩
      · simp [Cursor.atBlockEnd, (takes_cons.mp joined).1]
      · rw [follows]
        exact ⟨ts, stmt, .inl joined⟩
    | @plain ts us next s ss other stmt _ ih =>
      obtain ⟨f, takes, behind⟩ := takes_append.mp takes
      obtain ⟨follows, -⟩ := takes_cons.mp behind
      obtain ⟨d, rounds, closed⟩ := ih (takes.scanned hc) behind
      refine ⟨d, .more ?_ ((nextStatement_eq_ok hi hc).mpr ?_) rounds, closed⟩
      · obtain ⟨t, us, rfl, close, eof⟩ := stmt.exists_first
        simp [Cursor.atBlockEnd, (takes_cons.mp takes).1, close, eof]
      · rw [follows]
        exact ⟨ts, stmt, .inr ⟨other, takes⟩⟩

/-- **Statements up to a closing brace are accepted.** -/
theorem statements_closed (hi : Accepts inner Inner) (hc : c.Scanned) :
    (∃ d, statements (statementWith inner) c = .ok ss d ∧ d.token = .braceClose ∧
      e = d.advance) ↔ ∃ ts, c.Takes ts e ∧ Row (Stmt Inner) ts ss := by
  have parts : statements (statementWith inner) c = (if c.atBlockEnd then pure [] else do
      let first ← statementWith inner
      let more ← repeatWhile (fun c => !c.atBlockEnd) (nextStatement (statementWith inner))
      return first :: more : Parser (List Statement)) c := rfl
  rw [parts]
  cases ends : c.atBlockEnd with
  | true =>
    simp only [if_true, pure_eq_ok]
    constructor
    · rintro ⟨_, ⟨rfl, rfl⟩, close, rfl⟩
      exact ⟨_, hc.takes_one close (by simp), .close⟩
    · rintro ⟨_, takes, row⟩
      cases row with
      | close =>
        obtain ⟨close, -, behind⟩ := takes_cons.mp takes
        exact ⟨c, ⟨rfl, rfl⟩, close, takes_nil.mp behind⟩
      | cons stmt _ =>
        obtain ⟨t, us, rfl, close, eof⟩ := stmt.exists_first
        simp [Cursor.atBlockEnd, (takes_cons.mp takes).1, close, eof] at ends
  | false =>
    simp only [Bool.false_eq_true, if_false, bind_eq_ok, statementWith_eq_ok hi hc, pure_eq_ok]
    constructor
    · rintro ⟨d, ⟨s, f, ⟨ts, takes, stmt⟩, more, _, rest, rfl, rfl⟩, closed⟩
      have hf := takes.scanned hc
      rw [repeatWhile_eq_ok (nextStatement_moves hi) hf] at rest
      obtain ⟨us, behind, more⟩ := (rounds_closed hi hf).mp ⟨d, rest, closed⟩
      obtain ⟨next, us, rfl⟩ := more.exists_first
      rw [(takes_cons.mp behind).1] at stmt
      exact ⟨_, takes_append.mpr ⟨f, takes, behind⟩, .cons stmt more⟩
    · rintro ⟨_, takes, row⟩
      cases row with
      | close => simp [Cursor.atBlockEnd, (takes_cons.mp takes).1] at ends
      | @cons ts us next s ss stmt more =>
        obtain ⟨f, takes, behind⟩ := takes_append.mp takes
        have hf := takes.scanned hc
        obtain ⟨d, rest, closed⟩ := (rounds_closed hi hf).mpr ⟨_, behind, more⟩
        rw [← repeatWhile_eq_ok (nextStatement_moves hi) hf] at rest
        rw [← (takes_cons.mp behind).1] at stmt
        exact ⟨d, ⟨s, f, ⟨ts, takes, stmt⟩, ss, d, rest, rfl, rfl⟩, closed⟩

end

/-! ## Blocks -/

variable {levels : Nat} {ss : List Statement}

private theorem accepts_succ (hi : Accepts (block levels) (Block levels)) :
    Accepts (block (levels + 1)) (Block (levels + 1)) := by
  refine ⟨fun {c d ss} hc => ?_, Block.exists_rest⟩
  -- Between the braces one more block is open: the same tokens are taken by another cursor.
  have inside := hc.advance.withDepth (c.depth + 1)
  have outside : c.advance = { c.advance with depth := c.depth } := by
    conv_rhs => rw [← depth_advance c]
  rw [block_succ]
  simp only [bind_eq_ok, openBlock_eq_ok, closeBlock_eq_ok, pure_eq_ok]
  constructor
  · rintro ⟨_, _, ⟨brace, rfl⟩, _, e, said, _, _, ⟨close, rfl⟩, rfl, rfl⟩
    obtain ⟨us, takes, row⟩ := (statements_closed hi inside).mp ⟨e, said, close, rfl⟩
    refine ⟨.braceOpen :: us, (hc.takes_cons (by simp)).mpr ⟨brace, ?_⟩, us, rfl, row⟩
    have depth : e.depth = c.depth + 1 := by
      rw [← depth_advance e]
      exact takes.depth
    rw [outside, depth, Nat.add_sub_cancel]
    exact takes.withDepth c.depth
  · rintro ⟨_, takes, us, rfl, row⟩
    obtain ⟨brace, -, behind⟩ := takes_cons.mp takes
    have within' := behind.withDepth (c.depth + 1)
    obtain ⟨e, said, close, same⟩ := (statements_closed hi inside).mpr ⟨us, within', row⟩
    have depth : e.depth = c.depth + 1 := by
      rw [← depth_advance e, ← same]
    refine ⟨(), _, ⟨brace, rfl⟩, _, e, said, (), d, ⟨close, ?_⟩, rfl, rfl⟩
    rw [depth, Nat.add_sub_cancel, ← same, ← depth_advance c, ← behind.depth]

theorem accepts_block (levels : Nat) : Accepts (block levels) (Block levels) := by
  induction levels with
  | zero =>
    refine ⟨fun {c d ss} _ => ?_, Block.exists_rest⟩
    rw [block_zero, refuseBlock, token_bind]
    constructor
    · intro h
      by_cases brace : c.token = .braceOpen
      · rw [if_pos brace] at h
        exact absurd h (refuse_ne_ok _ _)
      · rw [if_neg brace] at h
        exact absurd h (unexpected_ne_ok _ _)
    · rintro ⟨ts, -, ⟨⟩⟩
  | succ levels ih => exact accepts_succ ih

/-- **Blocks are accepted by their grammar.** -/
theorem block_eq_ok (hc : c.Scanned) :
    block levels c = .ok ss d ↔ ∃ ts, c.Takes ts d ∧ Block levels ts ss :=
  (accepts_block levels).iff hc

/-- **The block parser accepts exactly its grammar.**  From any of the tokens of a text on, and with
any number of blocks open, it has some statements and stops at some token if and only if the tokens
in front of that one are a block of these statements, which opens at most as many more blocks as
are left up to the limit. -/
theorem block_accepts {source : String} {tokens : List Placed}
    (scanned : Token.scan source = .ok tokens) (among : c.current :: c.ahead <:+ tokens) :
    block (maxNesting - c.depth) c = .ok ss d ↔ ∃ consumed,
      c.current :: c.ahead = consumed ++ d.current :: d.ahead ∧ d.depth = c.depth ∧
        Block (maxNesting - c.depth) (consumed.map Placed.token) ss := by
  rw [block_eq_ok (scanned_of_scan scanned among)]
  constructor
  · rintro ⟨ts, takes, said⟩
    obtain ⟨consumed, split, depth, rfl⟩ := takes_iff.mp takes
    exact ⟨consumed, split, depth, said⟩
  · rintro ⟨consumed, split, depth, said⟩
    exact ⟨_, takes_iff.mpr ⟨consumed, split, depth, rfl⟩, said⟩

/-- The word `and` as the first name of a block, and behind it as a joint. -/
theorem block_accepts_and : ∃ (tokens : List Placed) (d : Cursor),
    Token.scan "\x7band is null and >b\x7d" = .ok tokens ∧ d.token = .eof ∧
      block maxNesting (.ofTokens tokens) =
        .ok [.property "and" (.null false), .association "b" []] d := by
  let consumed : List Placed := [⟨.braceOpen, ⟨1, 1⟩⟩, ⟨.word "and", ⟨1, 2⟩⟩, ⟨.word "is", ⟨1, 6⟩⟩,
    ⟨.word "null", ⟨1, 9⟩⟩, ⟨.word "and", ⟨1, 14⟩⟩, ⟨.greater, ⟨1, 18⟩⟩, ⟨.word "b", ⟨1, 19⟩⟩,
    ⟨.braceClose, ⟨1, 20⟩⟩]
  let last : Placed := ⟨.eof, ⟨1, 21⟩⟩
  have scanned : Token.scan "\x7band is null and >b\x7d" = .ok (consumed ++ [last]) := by
    decide +kernel
  have clause : Clause [.word "is", .word "null"] (.null false) :=
    @Clause.mk (.null false) [] [] (.null false) .none rfl
  have first : Stmt (Block 127) [.word "and", .word "is", .word "null"] (.word "and")
      (.property "and" (.null false)) := .named (.word "and") (.property clause)
  have second : Stmt (Block 127) [.greater, .word "b"] .braceClose (.association "b" []) :=
    .bare (.word "b") (by decide)
  have more : More (Stmt (Block 127)) [.word "and", .greater, .word "b", .braceClose]
      [.association "b" []] := .joined second .close
  refine ⟨_, ⟨last, [], 0⟩, scanned, rfl, ?_⟩
  refine (@block_accepts (.ofTokens (consumed ++ [last])) _ _ _ _ scanned ?_).mpr ?_
  · exact List.suffix_refl _
  · exact ⟨consumed, rfl, rfl, _, rfl, .cons first more⟩

end Parser

end Compliance
