import Compliance.Proofs.Declaration.Congruent

/-!
# What parsers are composed of

All that declarations are read with is composed of a few small parsers, in sequence and in
repetition.  What holds of these and is kept by both holds of literals, predicates, blocks
of statements and rules, however deep they are nested.  Only predicates are looked at for
themselves, because there an operator and its operands are judged after they are read.

## Main definitions

* `Parser.Composed good` — `good` holds of the small parsers and is kept.
* `Parser.Composed.operation`, `Parser.Composed.block`, `Parser.Composed.rule` — then it
  holds of operators with their operands, of blocks of statements and of rules.
* `Parser.Composed.throughout` — and of all that declarations are read with.
-/

namespace Compliance.Parser

open Declaration

/-- A property that holds of the small parsers and is kept by sequences and repetitions. -/
structure Composed (good : ∀ {α : Type}, Parser α → Prop) : Prop where
  pure : ∀ {α : Type} (a : α), good (Pure.pure a : Parser α)
  bind : ∀ {α β : Type} {P : Parser α} {k : α → Parser β},
    good P → (∀ a, good (k a)) → good (P >>= k)
  foldWhile : ∀ {β : Type} {goOn : Cursor → Bool} {step : β → Parser β},
    (∀ b, good (step b)) → ∀ b, good (foldWhile goOn step b)
  token : good token
  position : good position
  cursor : good (get : Parser Cursor)
  advance : good advance
  /-- Opening and closing a block. -/
  deepen : ∀ f : Nat → Nat, good (modify fun c => { c with depth := f c.depth } : Parser Unit)
  unexpected : ∀ {α : Type} (phrase : String), good (unexpected phrase : Parser α)
  /-- Operands are refused by predicates only. -/
  refuse : ∀ {α : Type} (cause : SyntaxCause), (∀ fault, cause ≠ .operand fault) →
    good (refuse cause : Parser α)
  strayBrace : ∀ {α : Type}, good (strayBrace : Parser α)
  predicate : good operation → good predicate

namespace Composed

variable {good : ∀ {α : Type}, Parser α → Prop} {α β : Type} {P : Parser α}

/-! ## Tests and repetitions -/

theorem ite {test : Prop} [Decidable test] {Q : Parser α} (hP : good P) (hQ : good Q) :
    good (if test then P else Q) := by
  split
  · exact hP
  · exact hQ

/-- Something may come first where a test says so. -/
theorem first (h : Composed good) {test : Prop} [Decidable test] {Q : Parser PUnit}
    {k : PUnit → Parser α} (hQ : good Q) (hk : good (k ⟨⟩)) :
    good (if test then Q >>= k else k ⟨⟩) :=
  ite (h.bind hQ fun _ => hk) hk

theorem repeatWhile (h : Composed good) {goOn : Cursor → Bool} (hP : good P) :
    good (repeatWhile goOn P) :=
  h.bind (h.foldWhile (fun _ => h.bind hP fun _ => h.pure _) []) fun _ => h.pure _

/-! ## Blocks and names -/

theorem expect (h : Composed good) (t : Token) : good (expect t) :=
  h.bind h.token fun _ => ite h.advance (h.unexpected _)

theorem origin (h : Composed good) (file : String) : good (origin file) :=
  h.bind h.position fun _ => h.pure _

theorem openBlock (h : Composed good) : good openBlock :=
  h.bind (h.expect _) fun _ => h.deepen (· + 1)

theorem closeBlock (h : Composed good) : good closeBlock :=
  h.bind (h.expect _) fun _ => h.deepen (· - 1)

theorem refuseBlock (h : Composed good) : good (refuseBlock : Parser α) :=
  h.bind h.token fun _ => ite (h.refuse _ nofun) (h.unexpected _)

theorem string (h : Composed good) : good string := by
  refine h.bind h.token fun t => ?_
  split
  · exact h.bind h.advance fun _ => h.pure _
  · exact h.unexpected _

theorem nameOf (h : Composed good) (phrase : String) : good (nameOf phrase) := by
  refine h.bind h.token fun t => ?_
  have behind (name : String) : good (do
      if name.isEmpty then Parser.refuse (.emptyName phrase)
      Parser.advance
      return name : Parser String) :=
    h.first (h.refuse _ nofun) (h.bind h.advance fun _ => h.pure _)
  split
  · exact behind _
  · exact behind _
  · exact h.bind (h.unexpected _) behind

theorem segment (h : Composed good) (phrase : String) : good (segment phrase) := by
  refine h.bind h.advance fun _ => h.bind h.token fun t => ?_
  split
  · exact h.bind h.advance fun _ => h.pure _
  · exact h.unexpected _

theorem reference (h : Composed good) (phrase : String) : good (reference phrase) := by
  refine h.bind h.token fun t => ?_
  split
  · exact h.bind h.advance fun _ => h.pure _
  · refine h.bind h.advance fun _ => ?_
    exact h.bind (h.repeatWhile (h.segment phrase)) fun _ => h.pure _
  · exact h.unexpected _

/-! ## Literals -/

theorem date (h : Composed good) : good date := by
  refine h.bind h.token fun t => ?_
  split
  · split
    · exact h.bind h.advance fun _ => h.pure _
    · exact h.refuse _ nofun
  · exact h.unexpected _

theorem literal (h : Composed good) : good literal := by
  refine h.bind h.token fun t => ?_
  split
  · exact h.bind h.advance fun _ => h.pure _
  · exact h.bind h.advance fun _ => h.pure _
  · exact h.bind h.advance fun _ => h.pure _
  · exact h.bind h.advance fun _ => h.bind h.date fun _ => h.pure _
  · split
    · exact h.bind h.advance fun _ => h.pure _
    · exact h.unexpected _
  · exact h.unexpected _

theorem literals (h : Composed good) : good literals := by
  refine h.bind (h.expect _) fun _ => h.bind h.token fun _ => ite ?_ ?_
  · exact h.bind h.advance fun _ => h.pure _
  · refine h.bind h.literal fun first => ?_
    have more : good (Parser.repeatWhile moreFollows (do Parser.advance; Parser.literal)) :=
      h.repeatWhile (h.bind h.advance fun _ => h.literal)
    refine h.bind more fun more => h.bind h.token fun _ => h.first h.advance ?_
    exact h.bind (h.expect _) fun _ => h.pure _

/-! ## Operators -/

theorem withLiteral (h : Composed good) (op : Operator) : good (withLiteral op) :=
  h.bind h.literal fun _ => h.pure _

theorem withOperands (h : Composed good) (op : Operator) : good (withOperands op) := by
  cases op with
  | member negated => exact h.bind h.literals fun _ => h.pure _
  | _ => exact h.withLiteral _

theorem state (h : Composed good) : good state := by
  refine h.bind h.token fun t => ?_
  refine h.first h.advance (h.bind h.token fun t => ?_)
  split
  · exact h.bind h.advance fun _ => h.pure _
  · exact h.unexpected _

theorem negation (h : Composed good) : good negation := by
  refine h.bind h.token fun t => ?_
  split
  · split
    · exact h.bind h.advance fun _ => h.withOperands _
    · exact h.unexpected _
  · exact h.unexpected _

theorem addressing (h : Composed good) : good addressing := by
  refine h.bind h.token fun t => ?_
  split
  · exact h.bind h.advance fun _ => h.withLiteral _
  · refine h.bind h.token fun t => ?_
    split
    · exact h.bind h.advance fun _ => h.withLiteral _
    · refine h.bind h.advance fun _ => h.bind h.token fun _ => ?_
      exact h.first (h.unexpected _) (h.bind h.advance fun _ => h.withLiteral _)
    · exact h.unexpected _

theorem range (h : Composed good) : good range := by
  refine h.bind h.literal fun low => h.bind (h.expect _) fun _ => ?_
  exact h.bind h.literal fun _ => h.pure _

theorem wordOperation (h : Composed good) (text : String) : good (wordOperation text) := by
  rw [wordOperation.eq_def]
  split
  · exact h.bind h.advance fun _ => h.state
  · exact h.bind h.advance fun _ => h.negation
  · exact h.bind h.advance fun _ => h.addressing
  · exact h.bind h.advance fun _ => h.range
  · exact h.bind h.advance fun _ => h.pure _
  · exact h.bind h.advance fun _ => h.pure _
  · split
    · exact h.bind h.advance fun _ => h.withOperands _
    · exact h.unexpected _

theorem operation (h : Composed good) : good operation := by
  refine h.bind h.token fun t => ?_
  split
  · exact h.bind h.advance fun _ => h.withLiteral _
  · refine h.bind h.token fun t => ?_
    split
    · exact h.wordOperation _
    · exact h.unexpected _

/-! ## Statements -/

theorem statementTail (h : Composed good) {block : Parser (List Statement)} (hb : good block)
    (name : String) : good (statementTail block name) := by
  have judged := h.predicate h.operation
  refine h.bind h.token fun t => ?_
  split
  · refine h.bind h.advance fun _ => h.bind h.string fun key => ?_
    exact h.bind (h.expect _) fun _ => h.bind judged fun _ => h.pure _
  · exact h.bind hb fun _ => h.pure _
  · exact h.bind judged fun _ => h.pure _

theorem statementWith (h : Composed good) {block : Parser (List Statement)} (hb : good block) :
    good (statementWith block) := by
  refine h.bind h.token fun t => ite ?_ ?_
  · refine h.bind h.advance fun _ => h.bind (h.nameOf _) fun name => ?_
    refine h.bind h.token fun t => ?_
    split
    · exact h.bind hb fun _ => h.pure _
    · exact h.pure _
  · exact h.bind (h.nameOf _) fun _ => h.statementTail hb _

theorem statements (h : Composed good) {statement : Parser Statement} (hs : good statement) :
    good (statements statement) := by
  refine h.bind h.cursor fun c => ite (h.pure _) (h.bind hs fun first => ?_)
  have next : good (do
      if (← Parser.token) = .word "and" then Parser.advance
      statement) :=
    h.bind h.token fun _ => h.first h.advance hs
  exact h.bind (h.repeatWhile next) fun _ => h.pure _

/-- **It holds of blocks**, at any depth of nesting. -/
theorem block (h : Composed good) (levels : Nat) : good (block levels) := by
  induction levels with
  | zero => exact h.refuseBlock
  | succ levels ih =>
    refine h.bind h.openBlock fun _ => ?_
    refine h.bind (h.statements (h.statementWith ih)) fun children => ?_
    exact h.bind h.closeBlock fun _ => h.pure _

/-! ## Settings, references and rules -/

variable {file : String}

theorem setting (h : Composed good) : good (setting file) := by
  refine h.bind (h.origin _) fun origin => h.bind (h.expect _) fun _ => ?_
  refine h.bind (h.reference _) fun key => h.bind (h.expect _) fun _ => ?_
  exact h.bind h.literal fun _ => h.pure _

theorem inclusion (h : Composed good) (kinds : List DeclarationKind) :
    good (inclusion file kinds) := by
  refine h.bind (h.origin _) fun origin => h.bind (h.expect _) fun _ => ?_
  refine h.bind h.token fun t => ?_
  split
  · exact h.bind h.advance fun _ => h.bind h.string fun _ => h.pure _
  · exact h.unexpected _

theorem header (h : Composed good) (kind : DeclarationKind) : good (header file kind) := by
  refine h.bind (h.origin _) fun origin => h.bind (h.expect _) fun _ => ?_
  exact h.bind (h.nameOf _) fun _ => h.pure _

theorem rulePart (h : Composed good) (name : String) (levels : Nat) (parts : RuleParts) :
    good (rulePart file name levels parts) := by
  refine h.bind h.token fun t => ?_
  split
  · exact h.bind h.setting fun _ => h.pure _
  · exact h.first (h.refuse _ nofun) (h.bind h.advance fun _ =>
      h.bind (h.block levels) fun _ => h.pure _)
  · exact h.first (h.refuse _ nofun) (h.bind h.advance fun _ =>
      h.bind (h.block levels) fun _ => h.pure _)
  · exact h.unexpected _

theorem ruleBody (h : Composed good) (name : String) (levels : Nat) :
    good (ruleBody file name levels) := by
  refine h.bind h.openBlock fun _ => ?_
  refine h.bind (h.foldWhile (h.rulePart name levels) {}) fun parts => ?_
  split
  · exact h.refuse _ nofun
  · exact h.bind h.closeBlock fun _ => h.pure _

/-- **It holds of rules.** -/
theorem rule (h : Composed good) (levels : Nat) : good (rule file levels) := by
  refine h.bind (h.header .rule) fun (name, origin) => h.bind (h.expect _) fun _ => ?_
  refine h.bind (h.reference _) fun target => ?_
  cases levels with
  | zero => exact h.bind h.refuseBlock fun _ => h.pure _
  | succ below => exact h.bind (h.ruleBody name below) fun _ => h.pure _

/-- **It holds of all that declarations are read with.** -/
theorem throughout (h : Composed good) : Throughout good where
  pure := h.pure
  token := h.token
  unexpected := h.unexpected
  wrongKind _ _ := h.refuse _ nofun
  strayBrace := h.strayBrace
  openBlock := h.openBlock
  closeBlock := h.closeBlock
  refuseBlock := h.refuseBlock
  setting _ := h.setting
  inclusion _ := h.inclusion
  header _ := h.header
  rule _ := h.rule

end Composed

end Compliance.Parser
