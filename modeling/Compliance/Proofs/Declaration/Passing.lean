import Compliance.Proofs.Declaration.Ordered
import Compliance.Proofs.Statement.Reading
import Compliance.Proofs.Token.Passing

/-!
# Passing a first token

Whatever is repeated while a text is read has passed a token as soon as it has a value:
the segments of a reference, the literals of a list, the statements of a block, the parts
of a rule, the members of a declaration, and the declarations of a text.  For each there is
one token that says so, at its start or close behind; all the rest moves forward.

## Main definitions

* `Recovering.Forward f` — a part of reading moves forward.
* `Recovering.Passes f p` — from `p` a part of reading has a value only behind the token there.
* `Parser.passes_rulePart`, `Parser.passes_nextStatement` — what is repeated in a rule.
* `Reader.passes_moduleMember`, `Reader.passes_topLevel` — what is repeated around rules.
-/

namespace Compliance

open Declaration

/-! ## Passing and moving forward -/

namespace Recovering

variable {α β : Type} {m n : Nat} {f g : Recovering α} {p : Progress}

/-- A part of reading moves forward. -/
def Forward (f : Recovering α) : Prop :=
  ∀ p : Progress, (progress (f p)).cursor.placed <:+ p.cursor.placed

theorem CutsBy.forward (h : CutsBy (Trails n) m f g) : Forward g := by
  intro p
  obtain ⟨new, -, trail⟩ := h.leads p
  exact trail.suffix

theorem Forward.plain {parser : Parser α} (h : parser.Forward) : Forward parser.plain :=
  (cutsBy_plain (n := 0) (m := 0) h).forward

theorem Forward.bind {k : α → Recovering β} (h : Forward f) (hk : ∀ a, Forward (k a)) :
    Forward (f >>= k) := by
  intro p
  have first := h p
  cases result : f p with
  | ok a q =>
    rw [result] at first
    rw [bind_ok result]
    exact (hk a q).trans first
  | error fault q =>
    rw [result] at first
    rw [bind_error result]
    exact first

theorem Forward.braced (h : Forward f) {i : α → β} : Forward (Parser.braced i f) :=
  (Forward.plain Parser.forward_composed.openBlock).bind fun _ => h.bind fun a =>
    (Forward.plain Parser.forward_composed.closeBlock).bind fun _ => Forward.plain (.pure (i a))

/-- From a place a part of reading has a value only behind the current token. -/
def Passes (f : Recovering α) (p : Progress) : Prop :=
  ∀ ⦃a q⦄, f p = .ok a q → q.cursor.Behind p.cursor

theorem Passes.plain {parser : Parser α} (h : parser.Passes p.cursor) :
    Passes parser.plain p := by
  intro a q result
  obtain ⟨c, read, rfl⟩ := Parser.within_eq_ok.mp result
  exact h read

theorem Passes.bind {k : α → Recovering β} (h : f.Passes p) (hk : ∀ a, Forward (k a)) :
    Passes (f >>= k) p := by
  intro b r result
  cases first : f p with
  | ok a q =>
    rw [bind_ok first] at result
    have further := hk a q
    rw [result] at further
    exact (h first).onward further
  | error fault q =>
    rw [bind_error first] at result
    cases result

theorem Passes.map (h : f.Passes p) (k : α → β) : Passes (k <$> f) p := by
  have bound : Passes (f >>= fun a => Pure.pure (k a)) p :=
    h.bind fun a => Forward.plain (.pure (k a))
  rwa [bind_pure_comp] at bound

end Recovering

/-! ## What is repeated in a rule -/

namespace Parser

variable {c : Cursor} {file : String}

theorem passes_header (kind : DeclarationKind) (ended : c.Ended) : (header file kind).Passes c :=
  (forward_composed.origin file).passes ended fun _ _ ended =>
    (passes_expectWord kind.keyword ended).bind fun _ =>
      (forward_composed.nameOf _).bind fun _ => .pure _

theorem passes_setting (ended : c.Ended) : (setting file).Passes c :=
  (forward_composed.origin file).passes ended fun _ _ ended =>
    (passes_expectWord "set" ended).bind fun _ => (forward_composed.reference _).bind fun _ =>
      (forward_composed.expect _).bind fun _ => forward_composed.literal.bind fun _ => .pure _

theorem passes_inclusion (kinds : List DeclarationKind) (ended : c.Ended) :
    (inclusion file kinds).Passes c := by
  refine (forward_composed.origin file).passes ended fun _ _ ended =>
    (passes_expectWord "use" ended).bind fun _ => forward_token.bind fun t => ?_
  split
  · exact forward_advance.bind fun _ => forward_composed.string.bind fun _ => .pure _
  · exact forward_unexpected _

theorem passes_rule (levels : Nat) (ended : c.Ended) : Passes (rule file levels) c := by
  refine (passes_header .rule ended).bind fun (name, origin) => ?_
  refine (forward_composed.expect _).bind fun _ => (forward_composed.reference _).bind fun _ => ?_
  cases levels with
  | zero => exact forward_composed.refuseBlock.bind fun _ => .pure _
  | succ below => exact (forward_composed.ruleBody name below).bind fun _ => .pure _

/-- A segment of a reference passes the colon in front of it. -/
theorem passes_segment (phrase : String) (ended : c.Ended) (colon : c.token = .colon) :
    (segment phrase).Passes c := by
  refine (passes_advance ended (by simp [colon])).bind fun _ => forward_token.bind fun t => ?_
  split
  · exact forward_advance.bind fun _ => .pure _
  · exact forward_unexpected _

/-- One more literal of a list passes the comma in front of it. -/
theorem passes_nextLiteral (ended : c.Ended) (more : moreFollows c = true) :
    (do advance; literal : Parser Value).Passes c := by
  have comma : c.token = .comma := by
    simp only [moreFollows, Bool.and_eq_true, decide_eq_true_eq] at more
    exact more.1
  exact (passes_advance ended (by simp [comma])).bind fun _ => forward_composed.literal

theorem passes_statementWith {block : Parser (List Statement)} (forward : Forward block)
    (ended : c.Ended) : Passes (statementWith block) c := by
  refine passes_token (passes_ite (fun association => ?_) fun _ => ?_)
  · refine (passes_advance ended (by simp [association])).bind fun _ => ?_
    refine (forward_composed.nameOf _).bind fun name => forward_token.bind fun t => ?_
    split
    · exact forward.bind fun _ => .pure _
    · exact .pure _
  · exact (passes_nameOf _ ended).bind fun name => forward_composed.statementTail forward name

/-- One more statement of a block passes its first token, be it the word between the two or not. -/
theorem passes_nextStatement (levels : Nat) (ended : c.Ended) :
    Passes (nextStatement (statementWith (block levels))) c := by
  have forward : Forward (block levels) := forward_composed.block levels
  refine passes_token (passes_ite (fun joint => ?_) fun _ => ?_)
  · refine (passes_advance ended (by simp [joint])).bind fun _ => ?_
    exact forward_composed.statementWith forward
  · exact passes_statementWith forward ended

theorem passes_rulePart (name : String) (levels : Nat) (parts : RuleParts) (ended : c.Ended) :
    Passes (rulePart file name levels parts) c := by
  have forward : Forward (block levels) := forward_composed.block levels
  refine passes_token ?_
  split
  · exact (passes_setting ended).bind fun _ => .pure _
  · next wordWith =>
    refine passes_ite (fun _ => passes_of_stops fun _ a _ => refuse_ne_ok _ a) fun _ => ?_
    exact (passes_advance ended (by simp [wordWith])).bind fun _ => forward.bind fun _ => .pure _
  · next wordAssert =>
    refine passes_ite (fun _ => passes_of_stops fun _ a _ => refuse_ne_ok _ a) fun _ => ?_
    exact (passes_advance ended (by simp [wordAssert])).bind fun _ => forward.bind fun _ => .pure _
  · exact fun a d result => absurd result (unexpected_ne_ok _ a)

end Parser

/-! ## What is repeated around rules -/

namespace Reader

open Recovering

variable {file : String} {limit : Nat} {mode : Mode} {p : Progress}

theorem passes_token {α : Type} {k : Token → Recovering α} (h : (k p.cursor.token).Passes p) :
    Passes (Parser.token.plain >>= k) p := h

theorem passes_unexpected {α : Type} (phrase : String) :
    Passes (Parser.unexpected phrase : Parser α).plain p :=
  Passes.plain fun a _ result => absurd result (Parser.unexpected_ne_ok phrase a)

theorem passes_settingMember (ended : p.cursor.Ended) :
    Passes (settingMember ⟨file, mode⟩) p :=
  (Passes.plain (Parser.passes_setting ended)).map _

theorem passes_inclusionMember (kinds : List DeclarationKind) (ended : p.cursor.Ended) :
    Passes (inclusionMember ⟨file, mode⟩ kinds) p :=
  (Passes.plain (Parser.passes_inclusion kinds ended)).map _

theorem passes_ruleMember (levels : Nat) (ended : p.cursor.Ended) :
    Passes (ruleMember ⟨file, mode⟩ levels) p :=
  (Passes.plain (Parser.passes_rule levels ended)).map _

theorem passes_groupMember (levels : Nat) (ended : p.cursor.Ended) :
    Passes (groupMember ⟨file, mode⟩ levels) p := by
  refine passes_token ?_
  split
  · exact passes_settingMember ended
  · exact passes_inclusionMember _ ended
  · exact passes_ruleMember levels ended
  · exact passes_unexpected _

/-- All parts of declarations are read by moving forward. -/
theorem forward_trails (limit : Nat) :
    CongruenceOn Parser.Forward (.reporting limit) (.reporting limit)
      (CutsBy (Trails limit) limit) :=
  congruence_trails (Nat.le_refl limit)

theorem passes_group (levels : Nat) (ended : p.cursor.Ended) :
    Passes (group ⟨file, .reporting limit⟩ levels) p := by
  have forward := forward_trails limit
  refine (Passes.plain (Parser.passes_header .group ended)).bind fun (name, origin) => ?_
  cases levels with
  | zero => exact Forward.plain Parser.forward_composed.refuseBlock
  | succ below => exact (forward.members groupKeywords (forward.groupMember below)).forward.braced

theorem passes_module (levels : Nat) (ended : p.cursor.Ended) :
    Passes (module ⟨file, .reporting limit⟩ levels) p := by
  have forward := forward_trails limit
  cases levels with
  | zero =>
    exact (Passes.plain (Parser.passes_header .module ended)).bind fun _ =>
      Forward.plain Parser.forward_composed.refuseBlock
  | succ below =>
    refine (Passes.plain (Parser.passes_header .module ended)).bind fun (name, origin) => ?_
    have inner : Forward (members (.reporting limit) moduleKeywords
        (moduleMember ⟨file, .reporting limit⟩ below (module ⟨file, .reporting limit⟩ below))) :=
      (forward.members moduleKeywords (forward.moduleMember below (forward.module below))).forward
    exact inner.braced

theorem passes_plan (levels : Nat) (ended : p.cursor.Ended) :
    Passes (plan ⟨file, .reporting limit⟩ levels) p := by
  have forward := forward_trails limit
  refine (Passes.plain (Parser.passes_header .plan ended)).bind fun (name, origin) => ?_
  cases levels with
  | zero => exact Forward.plain Parser.forward_composed.refuseBlock
  | succ below => exact (forward.members planKeywords (forward.planMember below)).forward.braced

theorem passes_moduleMember (levels : Nat) (ended : p.cursor.Ended) :
    Passes (moduleMember ⟨file, .reporting limit⟩ levels (module ⟨file, .reporting limit⟩ levels))
      p := by
  refine passes_token ?_
  split
  · exact passes_settingMember ended
  · exact passes_inclusionMember _ ended
  · exact (passes_module levels ended).map _
  · exact (passes_group levels ended).map _
  · exact passes_ruleMember levels ended
  · exact passes_unexpected _

theorem passes_planMember (levels : Nat) (ended : p.cursor.Ended) :
    Passes (planMember ⟨file, .reporting limit⟩ levels) p := by
  refine passes_token ?_
  split
  · exact passes_settingMember ended
  · exact passes_inclusionMember _ ended
  · exact (passes_module levels ended).map _
  · exact passes_unexpected _

theorem passes_declarationOf (kind : DeclarationKind) (ended : p.cursor.Ended) :
    Passes (declarationOf ⟨file, .reporting limit⟩ kind) p := by
  cases kind with
  | plan => exact (passes_plan _ ended).map _
  | module => exact (passes_module _ ended).map _
  | group => exact (passes_group _ ended).map _
  | rule => exact (Passes.plain (Parser.passes_rule _ ended)).map _

theorem passes_declaration (kind : DeclarationKind) (ended : p.cursor.Ended) :
    Passes (declaration ⟨file, .reporting limit⟩ kind) p := by
  refine passes_token ?_
  split
  · exact passes_unexpected _
  · next found _ =>
    by_cases wrong : found ≠ kind
    · simp only [if_pos wrong]
      intro d q result
      cases result
    · simp only [if_neg wrong]
      exact passes_declarationOf kind ended

theorem passes_topLevel (kind : DeclarationKind) (ended : p.cursor.Ended) :
    Passes (topLevel ⟨file, .reporting limit⟩ kind) p := by
  intro d q result
  rw [topLevel_eq] at result
  split at result
  · cases result
  · exact passes_declaration kind ended result

end Reader

end Compliance
