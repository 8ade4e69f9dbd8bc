import Compliance.Proofs.Declaration.Extended
import Compliance.Proofs.Token.Braces

/-!
# Balanced parts of declarations

Every part of a declaration keeps the count of open blocks right, down to its literals:
the parsers step over a brace nowhere but where they open and close a block.

## Main definitions

* `Parser.Level.block` — blocks of statements, at any depth of nesting.
* `Parser.Level.rule` — rules.
* `Parser.Level.setting`, `Parser.Level.inclusion` — the other members of declarations.
-/

namespace Compliance.Parser

variable {c : Cursor}

/-! ## Literals -/

theorem Level.date : Level date := fun c hc => by
  refine .token_bind ?_
  split
  · next current =>
    split
    · exact .advance_bind hc current (fun _ => rfl) (.pure _)
    · exact .refuse _
  · exact .unexpected _

theorem Level.literal : Level literal := fun c hc => by
  refine .token_bind ?_
  split
  · next current => exact .advance_bind hc current (fun _ => rfl) (.pure _)
  · next current => exact .advance_bind hc current (fun _ => rfl) (.pure _)
  · next current => exact .advance_bind hc current (fun _ => rfl) (.pure _)
  · next current =>
    exact .advance_bind hc current (fun _ => rfl) ((date.bind fun _ => .pure _) hc.advance)
  · next current =>
    split
    · exact .advance_bind hc current (fun _ => rfl) (.pure _)
    · exact .unexpected _
  · exact .unexpected _

/-- One more literal, where a comma is in front of it. -/
theorem Stays.nextLiteral (hc : c.Scanned) (follows : moreFollows c = true) :
    (do advance; Parser.literal : Parser Value).Stays c := by
  simp only [moreFollows, Bool.and_eq_true, decide_eq_true_eq] at follows
  exact .advance_bind hc follows.1 (fun _ => rfl) (Level.literal hc.advance)

theorem Level.literals : Level literals := by
  refine (Level.expect fun _ => rfl).bind fun _ c hc => .token_bind ?_
  split
  · next current => exact .advance_bind hc current (fun _ => rfl) (.pure _)
  · refine (literal.bind fun first => ?_) hc
    refine (Level.repeatWhile fun hc follows => .nextLiteral hc follows).bind fun more c hc => ?_
    refine .token_bind ?_
    have closed : Level (do Parser.expect .bracketClose; return first :: more) :=
      (Level.expect fun _ => rfl).bind fun _ => .pure _
    split
    · next current => exact .advance_bind hc current (fun _ => rfl) (closed hc.advance)
    · exact closed hc

/-! ## Predicates -/

theorem Level.withLiteral (op : Operator) : Level (withLiteral op) :=
  literal.bind fun _ => .pure _

theorem Level.withOperands (op : Operator) : Level (withOperands op) := by
  unfold Parser.withOperands
  split
  · exact literals.bind fun _ => .pure _
  · exact withLiteral op

theorem plain_of_relation? {t : Token} {relation : Relation} (known : relation? t = some relation) :
    t.Plain := by
  intro height
  cases t <;> first | rfl | cases known

theorem plain_of_stateOperator? {negated : Bool} {t : Token} {op : Operator}
    (known : stateOperator? negated t = some op) : t.Plain := by
  intro height
  cases t <;> first | rfl | cases known

theorem Level.state : Level state := fun c hc => by
  refine .token_bind ?_
  dsimp only
  split
  · next negated =>
    refine .advance_bind hc (of_decide_eq_true negated) (fun _ => rfl) (.token_bind ?_)
    split
    · next known => exact .advance_bind hc.advance rfl (plain_of_stateOperator? known) (.pure _)
    · exact .unexpected _
  · refine .token_bind ?_
    split
    · next known => exact .advance_bind hc rfl (plain_of_stateOperator? known) (.pure _)
    · exact .unexpected _

theorem Level.negation : Level negation := fun c hc => by
  refine .token_bind ?_
  split
  · next current =>
    split
    · exact .advance_bind hc current (fun _ => rfl) (withOperands _ hc.advance)
    · exact .unexpected _
  · exact .unexpected _

theorem Level.addressing : Level addressing := fun c hc => by
  refine .token_bind ?_
  split
  · next known => exact .advance_bind hc rfl (plain_of_relation? known) (withLiteral _ hc.advance)
  · refine .token_bind ?_
    split
    · next current =>
      exact .advance_bind hc current (fun _ => rfl) (withLiteral _ hc.advance)
    · next current =>
      refine .advance_bind hc current (fun _ => rfl) (.token_bind ?_)
      split
      · exact (Stays.unexpected (α := Unit) _).bind fun _ _ result =>
          (unexpected_ne_ok _ _ result).elim
      · next within =>
        exact .advance_bind hc.advance (not_not.mp within) (fun _ => rfl)
          (withLiteral _ hc.advance.advance)
    · exact .unexpected _

theorem Level.range : Level range :=
  literal.bind fun _ => (Level.expect fun _ => rfl).bind fun _ => literal.bind fun _ => .pure _

theorem Stays.wordOperation {text : String} (hc : c.Scanned) (current : c.token = .word text) :
    (wordOperation text).Stays c := by
  have behind {P : Parser (Operator × List Value)} (h : Level P) :
      (do advance; P).Stays c :=
    .advance_bind hc current (fun _ => rfl) (h hc.advance)
  unfold Parser.wordOperation
  split
  · exact behind .state
  · exact behind .negation
  · exact behind .addressing
  · exact behind .range
  · exact behind (.pure _)
  · exact behind (.pure _)
  · split
    · exact behind (.withOperands _)
    · exact .unexpected _

theorem Level.operation : Level operation := fun c hc => by
  refine .token_bind ?_
  split
  · next known => exact .advance_bind hc rfl (plain_of_relation? known) (withLiteral _ hc.advance)
  · refine .token_bind ?_
    split
    · next current => exact .wordOperation hc current
    · exact .unexpected _

theorem Level.predicate : Level predicate := fun c hc => by
  refine .position_bind ((operation.bind fun (op, operands) c hc => ?_) hc)
  dsimp only
  cases Predicate.build op operands with
  | ok p => exact .pure p
  | error fault => exact .throw _

/-! ## Statements -/

theorem Level.statementTail {block : Parser (List Statement)} (h : Level block) (name : String) :
    Level (statementTail block name) := fun c hc => by
  refine .token_bind ?_
  split
  · next current =>
    have entry : Level (do
        let key ← Parser.string
        Parser.expect .bracketClose
        return .entry name key (← Parser.predicate) : Parser Statement) :=
      string.bind fun _ => (Level.expect fun _ => rfl).bind fun _ => predicate.bind fun _ =>
        .pure _
    exact .advance_bind hc current (fun _ => rfl) (entry hc.advance)
  · exact (h.bind fun _ => .pure _) hc
  · exact (predicate.bind fun _ => .pure _) hc

theorem Level.statementWith {block : Parser (List Statement)} (h : Level block) :
    Level (statementWith block) := fun c hc => by
  refine .token_bind ?_
  split
  · next current =>
    refine .advance_bind hc current (fun _ => rfl) ?_
    refine ((nameOf _).bind fun name c hc => .token_bind ?_) hc.advance
    split
    · exact (h.bind fun _ => .pure _) hc
    · exact .pure _
  · exact ((nameOf _).bind fun name => statementTail h name) hc

theorem Level.statements {statement : Parser Statement} (h : Level statement) :
    Level (statements statement) := fun c hc => by
  have joined : Level (do
      if (← Parser.token) = .word "and" then Parser.advance
      statement) := fun c hc => by
    refine .token_bind ?_
    split
    · next current => exact .advance_bind hc current (fun _ => rfl) (h hc.advance)
    · exact h hc
  refine .get_bind ?_
  split
  · exact .pure _
  · refine (h.bind fun first => ?_) hc
    exact Level.bind (.repeatWhile fun hc _ => joined hc) fun _ => .pure _

theorem Level.refuseBlock {α : Type} : Level (refuseBlock : Parser α) := fun c _ => by
  refine .token_bind ?_
  split
  · exact .refuse _
  · exact .unexpected _

/-- **A block of statements keeps the count**, at any depth of nesting. -/
theorem Level.block (levels : Nat) : Level (block levels) := by
  induction levels with
  | zero => exact .refuseBlock
  | succ levels ih =>
    have body : Level (Parser.braced (fun ss => ss) (Parser.statements (Parser.statementWith _))) :=
      .braced (.statements (.statementWith ih))
    rwa [braced_cursor] at body

/-! ## Rules -/

theorem Level.origin (file : String) : Level (origin file) := Level.position.bind fun _ => .pure _

theorem Level.setting (file : String) : Level (setting file) := by
  refine (origin file).bind fun _ => (Level.expect fun _ => rfl).bind fun _ => ?_
  refine (reference _).bind fun _ => (Level.expect fun _ => rfl).bind fun _ => ?_
  exact literal.bind fun _ => .pure _

theorem Level.inclusion (file : String) (kinds : List DeclarationKind) :
    Level (inclusion file kinds) := by
  refine (origin file).bind fun origin => (Level.expect fun _ => rfl).bind fun _ c hc => ?_
  refine .token_bind ?_
  split
  · next kind known =>
    have plain : c.token.Plain := by
      intro height
      cases current : c.token <;> first | rfl | (rw [current] at known; cases known)
    exact .advance_bind hc rfl plain ((string.bind fun _ => .pure _) hc.advance)
  · exact .unexpected _

theorem Level.header (file : String) (kind : DeclarationKind) : Level (header file kind) := by
  refine (origin file).bind fun _ => (Level.expect fun _ => rfl).bind fun _ => ?_
  exact (nameOf _).bind fun _ => .pure _

theorem Level.rulePart (file name : String) (levels : Nat) (parts : RuleParts) :
    Level (rulePart file name levels parts) := fun c hc => by
  -- A block that comes a second time is refused in front of its brace.
  have inner {word : String} (current : c.token = .word word) (repeated : Bool)
      (k : List Statement → RuleParts) : (do
        if repeated then refuse (.repeatedBlock name word)
        advance
        return k (← Parser.block levels) : Parser RuleParts).Stays c := by
    have body : (do advance; return k (← Parser.block levels) : Parser RuleParts).Stays c :=
      .advance_bind hc current (fun _ => rfl) (((block levels).bind fun _ => .pure _) hc.advance)
    split
    · exact (Stays.refuse (α := Unit) _).bind fun _ _ result => (refuse_ne_ok _ _ result).elim
    · exact body
  refine .token_bind ?_
  split
  · exact ((setting file).bind fun _ => .pure _) hc
  · next current => exact inner current _ _
  · next current => exact inner current _ _
  · exact .unexpected _

theorem Level.ruleParts (file name : String) (levels : Nat) :
    Level (ruleParts file name levels) := by
  refine Level.bind (.foldWhile (fun parts hc _ => rulePart file name levels parts hc) _)
    fun parts => ?_
  split
  · exact fun _ _ => .refuse _
  · exact .pure _

theorem Level.ruleBody (file name : String) (levels : Nat) : Level (ruleBody file name levels) := by
  rw [ruleBody_eq]
  exact .braced (.ruleParts file name levels)

/-- **A rule keeps the count.** -/
theorem Level.rule (file : String) (levels : Nat) : Level (rule file levels) := by
  refine (header file .rule).bind fun (name, origin) => (Level.expect fun _ => rfl).bind fun _ => ?_
  refine (reference _).bind fun target => ?_
  cases levels with
  | zero => exact refuseBlock.bind fun _ => .pure _
  | succ below => exact (ruleBody file name below).bind fun _ => .pure _

end Compliance.Parser
