import Compliance.Proofs.Predicate.Reading
import Compliance.Proofs.Statement.Tokens
import Compliance.Statement.Parser

/-!
# Statements are read back

A block reads the statements of a row, however they are joined, as long as no
block of theirs is nested deeper than the levels that are left.  The first one
that is stops the reading, and for no other cause.

## Main definitions

* `Parser.Handles stmt levels s` — `stmt` reads `s`, or stops if `s` has more levels.
* `Parser.handles_statement` — a statement is handled at any number of levels.
* `Parser.handles_block` — so is a block of statements.
-/

namespace Compliance.Parser

open Statement Text

variable {follow : Token → Prop}

/-! ## Names -/

theorem nameToken_ne_and (name : String) : nameToken name ≠ .word "and" := by
  rw [nameToken]
  split
  · next word =>
    rw [Bool.and_eq_true, bne_iff_ne] at word
    intro same
    exact word.2 (Token.word.inj same)
  · simp

/-- A name is a word or a string, and no other token. -/
theorem nameToken_cases (name : String) :
    nameToken name = .word name ∨ nameToken name = .string name := by
  rw [nameToken]
  split
  · exact Or.inl rfl
  · exact Or.inr rfl

theorem reads_nameOf {name : String} (phrase : String) (h : name ≠ "") :
    Reads follow (nameOf phrase) [nameToken name] name := by
  have nonempty : name.isEmpty = false := by
    rw [Bool.eq_false_iff]
    intro empty
    exact h (String.isEmpty_iff.mp empty)
  have behind : ∀ t, Reads follow (do
      if name.isEmpty then refuse (.emptyName phrase)
      advance
      return name) [t] name := by
    intro t
    simp only [nonempty, Bool.false_eq_true, if_false]
    exact Reads.advance Reads.pure
  rcases nameToken_cases name with token | token
  · rw [token]
    exact Reads.token (Reads.bind Reads.pure (behind (.word name)))
  · rw [token]
    exact Reads.token (Reads.bind Reads.pure (behind (.string name)))

/-! ## Statements -/

theorem exists_head?_statement (s : Statement) : ∃ t, s.tokens.head? = some t ∧
    t ≠ .word "and" ∧ t ≠ .braceOpen ∧ t ≠ .braceClose ∧ t ≠ .eof := by
  have name : ∀ name : String, nameToken name ≠ .word "and" ∧ nameToken name ≠ .braceOpen ∧
      nameToken name ≠ .braceClose ∧ nameToken name ≠ .eof := by
    intro name
    refine ⟨nameToken_ne_and name, ?_⟩
    rcases nameToken_cases name with token | token <;> simp [token]
  cases s with
  | property m _ => exact ⟨nameToken m, rfl, name m⟩
  | entry m _ _ => exact ⟨nameToken m, rfl, name m⟩
  | nested m _ => exact ⟨nameToken m, rfl, name m⟩
  | association m children =>
    cases children with
    | nil => exact ⟨.greater, rfl, by simp⟩
    | cons _ _ => exact ⟨.greater, rfl, by simp⟩

/-- Tokens that open no block. -/
def NoBlock (t : Token) : Prop := t ≠ .braceOpen

section

variable {inner : Parser (List Statement)} {name : String} {s : Statement} {ts us : List Token}
  {cause : SyntaxCause}

/-- A statement that is no association starts with its name. -/
private theorem reads_named (hn : name ≠ "") (h : Reads follow (statementTail inner name) ts s) :
    Reads follow (statementWith inner) (nameToken name :: ts) s := by
  have plain : nameToken name ≠ .greater := by
    rcases nameToken_cases name with token | token <;> simp [token]
  refine Reads.token ?_
  rw [if_neg plain]
  exact (reads_nameOf "a statement" hn).bind h

private theorem stops_named (hn : name ≠ "") (h : Stops (statementTail inner name) ts cause) :
    Stops (statementWith inner) (nameToken name :: ts) cause := by
  have plain : nameToken name ≠ .greater := by
    rcases nameToken_cases name with token | token <;> simp [token]
  refine Stops.token ?_
  rw [if_neg plain]
  exact (reads_nameOf "a statement" hn).bind_stops h

private theorem exists_head?_predicate (p : Predicate) :
    ∃ t, p.tokens.head? = some t ∧ t ≠ .bracketOpen ∧ t ≠ .braceOpen := by
  obtain ⟨t, ts, first, bracket, brace⟩ := exists_first_operator p.operator
  exact ⟨t, by rw [Predicate.tokens, first]; rfl, bracket, brace⟩

private theorem reads_propertyTail {p : Predicate} (hp : p.Writable) :
    Reads follow (statementTail inner name) p.tokens (property name p) := by
  obtain ⟨t, first, bracket, brace⟩ := exists_head?_predicate p
  refine Reads.peek first ?_
  split
  · exact absurd rfl bracket
  · exact absurd rfl brace
  · exact (reads_predicate hp).map (property name)

/-- What is said about an entry is its key and a predicate. -/
private theorem reads_entryTail {key : String} {p : Predicate} (hp : p.Writable) :
    Reads follow (statementTail inner name)
      ([.bracketOpen, .string key, .bracketClose] ++ p.tokens) (entry name key p) := by
  have string : Reads AnyToken string [.string key] key := Reads.token (Reads.advance Reads.pure)
  refine Reads.token (Reads.advance (string.bind (Reads.expect ?_)))
  exact (reads_predicate hp).map (entry name key)

private theorem reads_nestedTail {children : List Statement}
    (h : Reads follow inner (.braceOpen :: ts) children) :
    Reads follow (statementTail inner name) (.braceOpen :: ts) (nested name children) :=
  Reads.token (h.map (nested name))

private theorem stops_nestedTail (h : Stops inner (.braceOpen :: ts) cause) :
    Stops (statementTail inner name) (.braceOpen :: ts) cause := by
  refine Stops.token ?_
  exact h.bind

/-- An association without children, where no block follows. -/
private theorem reads_bare (hn : name ≠ "") :
    Reads NoBlock (statementWith inner) [.greater, nameToken name] (association name []) := by
  refine Reads.token (Reads.advance ?_)
  refine Reads.bind (reads_nameOf "an association name" hn) (Reads.look fun t ht => ?_)
  rw [if_neg ht]
  exact Reads.bind Reads.pure Reads.pure

private theorem reads_target {children : List Statement} (hn : name ≠ "")
    (h : Reads follow inner (.braceOpen :: ts) children) :
    Reads follow (statementWith inner) (.greater :: nameToken name :: .braceOpen :: ts)
      (association name children) := by
  refine Reads.token (Reads.advance ((reads_nameOf _ hn).bind (Reads.token ?_)))
  exact h.map (association name)

private theorem stops_target (hn : name ≠ "") (h : Stops inner (.braceOpen :: ts) cause) :
    Stops (statementWith inner) (.greater :: nameToken name :: .braceOpen :: ts) cause := by
  refine Stops.token (reads_advance.bind_stops
    ((reads_nameOf "an association name" hn).bind_stops (Stops.token ?_)))
  exact h.bind

end

/-! ## Rows -/

/-- Between the braces of a block, statements go on in front of any of them. -/
private theorem goes_on {joint : List Token} (hj : IsJoint joint) (s : Statement) {c : Cursor}
    {rest : List Token} (hc : c.tokens = joint ++ s.tokens ++ rest) :
    (!c.atBlockEnd) = true := by
  obtain ⟨t, first, -, -, close, eof⟩ := exists_head?_statement s
  obtain ⟨ts, hts⟩ := List.head?_eq_some_iff.mp first
  obtain rfl | rfl := hj
  · rw [hts] at hc
    have current := Cursor.token_of_tokens hc
    simp [Cursor.atBlockEnd, current, close, eof]
  · have current := Cursor.token_of_tokens hc
    simp [Cursor.atBlockEnd, current]

private theorem exists_head?_joint {joint : List Token} (hj : IsJoint joint) (s : Statement) :
    ∃ t, (joint ++ s.tokens).head? = some t ∧ NoBlock t := by
  obtain ⟨t, first, -, brace, -, -⟩ := exists_head?_statement s
  obtain rfl | rfl := hj
  · exact ⟨t, first, brace⟩
  · exact ⟨.word "and", rfl, by simp [NoBlock]⟩

private theorem reads_nextStatement {stmt : Parser Statement} {joint : List Token}
    (hj : IsJoint joint) {s : Statement} (h : Reads follow stmt s.tokens s) :
    Reads follow (nextStatement stmt) (joint ++ s.tokens) s := by
  obtain rfl | rfl := hj
  · obtain ⟨t, first, wordAnd, -⟩ := exists_head?_statement s
    refine Reads.peek first ?_
    rw [if_neg wordAnd]
    exact h
  · exact Reads.token (Reads.advance h)

private theorem stops_nextStatement {stmt : Parser Statement} {joint : List Token}
    (hj : IsJoint joint) {s : Statement} {cause : SyntaxCause} (h : Stops stmt s.tokens cause) :
    Stops (nextStatement stmt) (joint ++ s.tokens) cause := by
  obtain rfl | rfl := hj
  · obtain ⟨t, first, wordAnd, -⟩ := exists_head?_statement s
    refine Stops.peek first ?_
    rw [if_neg wordAnd]
    exact h
  · exact Stops.token (reads_advance.bind_stops h)

private theorem readsEach_behind {stmt : Parser Statement} {ss : List Statement} {ts : List Token}
    (h : Behind ss ts) (each : ∀ s ∈ ss, Reads NoBlock stmt s.tokens s) :
    ReadsEach (fun c => !c.atBlockEnd) NoBlock (nextStatement stmt) ss ts := by
  induction h with
  | nil => exact .nil
  | @cons joint s more ts hj _ ih =>
    rw [List.forall_mem_cons] at each
    obtain ⟨t, first, fits⟩ := exists_head?_joint hj s
    rw [← List.append_assoc]
    exact .cons first fits (reads_nextStatement hj each.1) (fun c rest hc => goes_on hj s hc)
      (ih each.2)

/-- The first statement that stops the reading, and those in front of it. -/
private theorem exists_stop {stmt : Parser Statement} {cause : SyntaxCause} {ss : List Statement}
    {ts : List Token} (h : Behind ss ts)
    (each : ∀ s ∈ ss, Reads NoBlock stmt s.tokens s ∨ Stops stmt s.tokens cause)
    (one : ∃ s ∈ ss, Stops stmt s.tokens cause) :
    ∃ front us, ReadsEach (fun c => !c.atBlockEnd) NoBlock (nextStatement stmt) front us ∧
      ∃ joint, ∃ s : Statement, ∃ rest, IsJoint joint ∧ Stops stmt s.tokens cause ∧
        ts = us ++ (joint ++ s.tokens) ++ rest := by
  induction h with
  | nil => exact absurd one (by simp)
  | @cons joint s more ts hj _ ih =>
    rw [List.forall_mem_cons] at each
    rcases each.1 with reads | stops
    · obtain ⟨bad, hm, stops⟩ := one
      rcases List.mem_cons.mp hm with rfl | hm
      · exact ⟨[], [], .nil, joint, bad, ts, hj, stops, (List.append_assoc ..).symm⟩
      · obtain ⟨front, us, good, joint', s', rest, hj', stops', rfl⟩ := ih each.2 ⟨bad, hm, stops⟩
        obtain ⟨t, first, fits⟩ := exists_head?_joint hj s
        refine ⟨s :: front, joint ++ s.tokens ++ us, .cons first fits (reads_nextStatement hj reads)
          (fun c rest hc => goes_on hj s hc) good, joint', s', rest, hj', stops', ?_⟩
        simp only [List.append_assoc]
    · exact ⟨[], [], .nil, joint, s, ts, hj, stops, (List.append_assoc ..).symm⟩

/-- **Statements in a row are read back**, up to the end of their block. -/
theorem reads_statements {stmt : Parser Statement} {ss : List Statement} {ts : List Token}
    (h : Row ss ts) (each : ∀ s ∈ ss, Reads NoBlock stmt s.tokens s) :
    Reads (· = .braceClose) (statements stmt) ts ss := by
  intro c next rest hc hn
  rw [statements, Parsing.take_cursor, get_bind]
  cases h with
  | nil =>
    subst hn
    have stops : c.atBlockEnd = true := by
      simp [Cursor.atBlockEnd, Cursor.token_of_tokens hc]
    rw [if_pos stops]
    exact ⟨c, rfl, hc⟩
  | @cons s more ts behind =>
    rw [List.forall_mem_cons] at each
    have continues : (!c.atBlockEnd) = true :=
      goes_on (Or.inl rfl) s (by rw [hc, List.append_assoc]; rfl)
    have others := readsEach_behind behind each.2
    have closes : ∀ t, t = Token.braceClose → NoBlock t := by
      rintro t rfl
      simp [NoBlock]
    have repeated : Reads (· = Token.braceClose)
        (repeatWhile (fun c => !c.atBlockEnd) (nextStatement stmt)) ts more := by
      refine others.reads_repeatWhile closes ?_
      rintro c t rest hc rfl
      simp [Cursor.atBlockEnd, Cursor.token_of_tokens hc]
    rw [if_neg (by simpa using continues)]
    refine Reads.bind_of_fits each.1 (repeated.map fun more => s :: more) (others.fits closes)
      c next rest hc hn

/-- A statement that stops the reading stops that of its row. -/
theorem stops_statements {stmt : Parser Statement} {cause : SyntaxCause} {ss : List Statement}
    {ts : List Token} (h : Row ss ts)
    (each : ∀ s ∈ ss, Reads NoBlock stmt s.tokens s ∨ Stops stmt s.tokens cause)
    (one : ∃ s ∈ ss, Stops stmt s.tokens cause) : Stops (statements stmt) ts cause := by
  intro c next rest hc
  rw [statements, Parsing.take_cursor, get_bind]
  cases h with
  | nil => exact absurd one (by simp)
  | @cons s more ts behind =>
    rw [List.forall_mem_cons] at each
    have continues : (!c.atBlockEnd) = true :=
      goes_on (Or.inl rfl) s (by rw [hc, List.append_assoc]; rfl)
    rw [if_neg (by simpa using continues)]
    obtain ⟨bad, hm, stops⟩ := one
    rcases List.mem_cons.mp hm with rfl | hm
    · exact stops.append.bind c next rest hc
    rcases each.1 with reads | stops
    · obtain ⟨front, us, good, joint, s', after, hj, stops', rfl⟩ :=
        exists_stop behind each.2 ⟨bad, hm, stops⟩
      obtain ⟨t, first, fits⟩ := exists_head?_joint hj s'
      have repeated := good.stops_repeatWhile first fits (stops_nextStatement hj stops')
        fun c rest hc => goes_on hj s' hc
      have closes : Fits NoBlock AnyToken (us ++ (joint ++ s'.tokens) ++ after) := by
        rw [List.append_assoc]
        refine (good.fits fun _ h => h).append (fits_of_head? ?_ fits)
        rw [List.head?_append, first]
        rfl
      exact reads.bind_stops_of_fits repeated.append.bind closes c next rest hc
    · exact stops.append.bind c next rest hc

/-! ## Blocks -/

theorem reads_openBlock : Reads follow openBlock [.braceOpen] () := by
  refine Reads.expect ?_
  intro c _ _ hc _
  exact ⟨{ c with depth := c.depth + 1 }, rfl, hc⟩

theorem reads_closeBlock : Reads follow closeBlock [.braceClose] () := by
  refine Reads.expect ?_
  intro c _ _ hc _
  exact ⟨{ c with depth := c.depth - 1 }, rfl, hc⟩

theorem stops_block_zero {ts : List Token} : Stops (block 0) (.braceOpen :: ts) .tooDeep := by
  rw [block_zero]
  refine Stops.token ?_
  rw [if_pos rfl]
  intro c _ _ _
  exact ⟨_, c, rfl, rfl⟩

/-- A block of statements is read back, if its statements are one level below. -/
theorem reads_block {levels : Nat} {ss : List Statement} {ts : List Token} (h : Row ss ts)
    (each : ∀ s ∈ ss, Reads NoBlock (statementWith (block levels)) s.tokens s) :
    Reads follow (block (levels + 1)) (.braceOpen :: (ts ++ [.braceClose])) ss := by
  rw [block_succ]
  refine reads_openBlock.bind ((reads_statements h each).bind_cons ?_ rfl)
  exact reads_closeBlock.bind Reads.pure

theorem stops_block {levels : Nat} {cause : SyntaxCause} {ss : List Statement} {ts : List Token}
    (h : Row ss ts) (each : ∀ s ∈ ss, Reads NoBlock (statementWith (block levels)) s.tokens s ∨
      Stops (statementWith (block levels)) s.tokens cause)
    (one : ∃ s ∈ ss, Stops (statementWith (block levels)) s.tokens cause) :
    Stops (block (levels + 1)) (.braceOpen :: (ts ++ [.braceClose])) cause := by
  rw [block_succ]
  exact reads_openBlock.bind_stops (stops_statements h each one).bind.append

/-! ## Trees -/

/-- A parser of statements reads a statement if enough levels are left for its blocks, and else
stops because they are nested too deep. -/
structure Handles (stmt : Parser Statement) (levels : Nat) (s : Statement) : Prop where
  reads : s.height ≤ levels → Reads NoBlock stmt s.tokens s
  stops : levels < s.height → Stops stmt s.tokens .tooDeep

/-- The statements of a block are handled one level below it. -/
theorem handles_block {levels : Nat} {ss : List Statement} {ts : List Token}
    (row : Row ss ts) (each : ∀ n, ∀ s ∈ ss, Handles (statementWith (block n)) n s) :
    (heightAll ss + 1 ≤ levels →
        Reads follow (block levels) (.braceOpen :: (ts ++ [.braceClose])) ss) ∧
      (levels < heightAll ss + 1 →
        Stops (block levels) (.braceOpen :: (ts ++ [.braceClose])) .tooDeep) := by
  cases levels with
  | zero => exact ⟨fun h => absurd h (by omega), fun _ => stops_block_zero⟩
  | succ n =>
    constructor
    · intro enough
      have low := heightAll_le_iff.mp (Nat.le_of_succ_le_succ enough)
      exact reads_block row fun s hs => (each n s hs).reads (low s hs)
    · intro high
      refine stops_block row (fun s hs => ?_) ?_
      · rcases Nat.lt_or_ge n s.height with above | below
        · exact Or.inr ((each n s hs).stops above)
        · exact Or.inl ((each n s hs).reads below)
      · obtain ⟨s, hs, above⟩ := exists_of_lt_heightAll (Nat.lt_of_succ_lt_succ high)
        exact ⟨s, hs, (each n s hs).stops above⟩

mutual

/-- **A statement is handled at any number of levels.** -/
theorem handles_statement : ∀ (s : Statement), s.Writable →
    ∀ levels, Handles (statementWith (block levels)) levels s
  | .property name p, h, levels =>
    ⟨fun _ => reads_named h.1 (reads_propertyTail h.2), fun high => absurd high (by simp [height])⟩
  | .entry name key p, h, levels =>
    ⟨fun _ => reads_named h.1 (reads_entryTail h.2), fun high => absurd high (by simp [height])⟩
  | .nested name children, h, levels => by
    have below := fun n s hs => handles_statements children h.2 n s hs
    obtain ⟨reads, stops⟩ := @handles_block NoBlock levels _ _ (row_blockTokens children) below
    exact ⟨fun low => reads_named h.1 (reads_nestedTail (reads low)),
      fun high => stops_named h.1 (stops_nestedTail (stops high))⟩
  | .association name [], h, levels =>
    ⟨fun _ => reads_bare h.1, fun high => absurd high (by simp [height])⟩
  | .association name (child :: more), h, levels => by
    have below := fun n s hs => handles_statements (child :: more) h.2 n s hs
    obtain ⟨reads, stops⟩ := @handles_block NoBlock levels _ _ (row_blockTokens _) below
    exact ⟨fun low => reads_target h.1 (reads low), fun high => stops_target h.1 (stops high)⟩

theorem handles_statements : ∀ (ss : List Statement), AllWritable ss →
    ∀ levels, ∀ s ∈ ss, Handles (statementWith (block levels)) levels s
  | [], _, _ => by simp
  | s :: more, h, levels => by
    rw [List.forall_mem_cons]
    exact ⟨handles_statement s h.1 levels, handles_statements more h.2 levels⟩

end

end Compliance.Parser
