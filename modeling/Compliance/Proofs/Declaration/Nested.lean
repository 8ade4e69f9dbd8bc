import Compliance.Proofs.Declaration.Origin
import Compliance.Proofs.Statement.Tokens

/-!
# How deep declarations nest

A declaration that is read with some levels of blocks to spare has no more of them,
modules in modules, groups, rules, the blocks of rules and those of statements counted
together, and nothing in it has an empty name.  So it is in both modes, since a block that
was left out because of a fault is not part of what is read.

## Main definitions

* `Declaration.height` — how many levels of blocks a declaration has.
* `Declaration.Named` — no name in a declaration is empty.
* `Declaration.Fits levels d` — both at once.
* `Reader.ensures_fits` — what is read fits into the limit.
-/

namespace Compliance

open Declaration

/-! ## Heights and names -/

namespace Statement

mutual

/-- No name in a statement is empty. -/
def Named : Statement → Prop
  | .property name _ => name ≠ ""
  | .entry name _ _ => name ≠ ""
  | .nested name children => name ≠ "" ∧ AllNamed children
  | .association name children => name ≠ "" ∧ AllNamed children

/-- No name in some statements is empty. -/
def AllNamed : List Statement → Prop
  | [] => True
  | s :: more => s.Named ∧ AllNamed more

end

theorem allNamed_iff {ss : List Statement} : AllNamed ss ↔ ∀ s ∈ ss, s.Named := by
  induction ss with
  | nil => simp [AllNamed]
  | cons s more ih => rw [AllNamed, ih, List.forall_mem_cons]

/-- A statement has at most some levels of blocks, and no empty name. -/
structure Fits (levels : Nat) (s : Statement) : Prop where
  height : s.height ≤ levels
  named : s.Named

/-- The statements of a block with at most some levels, that of the block itself among them. -/
structure AllFit (levels : Nat) (ss : List Statement) : Prop where
  height : heightAll ss + 1 ≤ levels
  named : AllNamed ss

theorem allFit_succ_iff {levels : Nat} {ss : List Statement} :
    AllFit (levels + 1) ss ↔ ∀ s ∈ ss, s.Fits levels := by
  constructor
  · intro h s hs
    exact ⟨heightAll_le_iff.mp (Nat.le_of_succ_le_succ h.height) s hs, allNamed_iff.mp h.named s hs⟩
  · intro h
    exact ⟨Nat.succ_le_succ (heightAll_le_iff.mpr fun s hs => (h s hs).height),
      allNamed_iff.mpr fun s hs => (h s hs).named⟩

end Statement

namespace Declaration

/-- The largest of some numbers. -/
def largest (ns : List Nat) : Nat := ns.foldr max 0

theorem largest_le_iff {ns : List Nat} {n : Nat} : largest ns ≤ n ↔ ∀ m ∈ ns, m ≤ n := by
  induction ns with
  | nil => simp [largest]
  | cons m more ih => rw [largest, List.foldr_cons, Nat.max_le, ← largest, ih, List.forall_mem_cons]

/-- The number of levels of blocks in a rule: its own, that of its `with` and `assert` blocks, and
those of their statements. -/
def Rule.height (d : Rule) : Nat :=
  max (Statement.heightAll d.conditions) (Statement.heightAll d.assertions) + 2

/-- The number of levels of blocks in a group. -/
def Group.height (d : Group) : Nat := largest (d.rules.map Rule.height) + 1

mutual

/-- The number of levels of blocks in a module. -/
def Module.height : Module → Nat
  | ⟨_, _, modules, _, groups, _, rules, _, _⟩ =>
    max (Module.heightAll modules)
      (max (largest (groups.map Group.height)) (largest (rules.map Rule.height))) + 1

/-- The number of levels of blocks in the highest of some modules. -/
def Module.heightAll : List Module → Nat
  | [] => 0
  | d :: more => max d.height (Module.heightAll more)

end

/-- The number of levels of blocks in a declaration. -/
def height : Declaration → Nat
  | .plan d => Module.heightAll d.modules + 1
  | .module d => d.height
  | .group d => d.height
  | .rule d => d.height

/-- No name in a rule is empty. -/
structure Rule.Named (d : Rule) : Prop where
  own : d.name ≠ ""
  conditions : Statement.AllNamed d.conditions
  assertions : Statement.AllNamed d.assertions

/-- No name in a group is empty. -/
structure Group.Named (d : Group) : Prop where
  own : d.name ≠ ""
  rules : ∀ rule ∈ d.rules, rule.Named

mutual

/-- No name in a module is empty. -/
def Module.Named : Module → Prop
  | ⟨name, _, modules, _, groups, _, rules, _, _⟩ =>
    name ≠ "" ∧ Module.AllNamed modules ∧ (∀ group ∈ groups, group.Named) ∧
      ∀ rule ∈ rules, rule.Named

/-- No name in some modules is empty. -/
def Module.AllNamed : List Module → Prop
  | [] => True
  | d :: more => d.Named ∧ Module.AllNamed more

end

/-- No name in a declaration is empty. -/
def Named : Declaration → Prop
  | .plan d => d.name ≠ "" ∧ Module.AllNamed d.modules
  | .module d => d.Named
  | .group d => d.Named
  | .rule d => d.Named

theorem Module.heightAll_le_iff {ds : List Module} {n : Nat} :
    Module.heightAll ds ≤ n ↔ ∀ d ∈ ds, d.height ≤ n := by
  induction ds with
  | nil => simp [Module.heightAll]
  | cons d more ih => rw [Module.heightAll, Nat.max_le, ih, List.forall_mem_cons]

theorem Module.allNamed_iff {ds : List Module} :
    Module.AllNamed ds ↔ ∀ d ∈ ds, d.Named := by
  induction ds with
  | nil => simp [Module.AllNamed]
  | cons d more ih => rw [Module.AllNamed, ih, List.forall_mem_cons]

/-- A declaration has at most some levels of blocks, and no empty name. -/
structure Fits (levels : Nat) (d : Declaration) : Prop where
  height : d.height ≤ levels
  named : d.Named

end Declaration

/-! ## Repetitions -/

namespace Ensures

variable {α β : Type} {P : α → Prop}

/-- What each step keeps, a repetition keeps. -/
theorem foldWhile {goOn : Cursor → Bool} {step : α → Parser α}
    (h : ∀ a, P a → Ensures (step a) P) {a : α} (ha : P a) :
    Ensures (Parser.foldWhile goOn step a) P := by
  intro c b d result
  induction a, c using Parser.foldWhile_induction goOn step with
  | finish a c ends =>
    rw [Parser.foldWhile_end ends] at result
    cases result
    exact ha
  | more a c next e continues first less ih =>
    rw [Parser.foldWhile_cons continues first less] at result
    exact ih (h a ha c next e first) result
  | last a c next e continues first less =>
    have behind := h a ha c next e first
    rw [Parser.foldWhile_last continues first less] at result
    cases result
    exact behind
  | stop a c fault e continues first =>
    rw [Parser.foldWhile_stop continues first] at result
    cases result

theorem repeatWhile {goOn : Cursor → Bool} {item : Parser α} (h : Ensures item P) :
    Ensures (Parser.repeatWhile goOn item) fun values => ∀ a ∈ values, P a := by
  have fold : Ensures (Parser.foldWhile goOn (fun values => do return (← item) :: values) [])
      fun values => ∀ a ∈ values, P a :=
    foldWhile (fun values known => h.bind fun a ha => pure (List.forall_mem_cons.mpr ⟨ha, known⟩))
      (List.forall_mem_nil _)
  exact fold.bind fun values known => pure fun a ha => known a (List.mem_reverse.mp ha)

theorem members {mode : Mode} {keywords : List String} {member : Recovering α}
    (h : Ensures member P) :
    Ensures (Recovering.members mode keywords member) fun found => ∀ a ∈ found, P a := by
  intro p found r result
  have block (base : Nat) (p : Progress) {found : List α}
      (result : Recovering.membersAt mode keywords base member p = .ok found r) :
      ∀ a ∈ found, P a := by
    induction p using Recovering.round_induction Recovering.atBlockEnd_or mode keywords base member
      generalizing found with
    | finish p ends =>
      rw [Recovering.membersAt_end ends] at result
      cases result
      exact List.forall_mem_nil _
    | more p a q continues read less ih =>
      rw [Recovering.membersAt_cons continues read less, EStateM.map] at result
      cases behind : Recovering.membersAt mode keywords base member q with
      | ok more s =>
        rw [behind] at result
        cases result
        exact List.forall_mem_cons.mpr ⟨h p a q read, ih behind⟩
      | error fault s =>
        rw [behind] at result
        cases result
    | last p a q continues read less =>
      have first := h p a q read
      rw [Recovering.membersAt_last continues read less] at result
      cases result
      exact List.forall_mem_singleton.mpr first
    | past p fault q s continues read recovers less ih =>
      rw [Recovering.membersAt_recover continues read recovers less] at result
      exact ih result
    | rest p fault q s continues read recovers less =>
      rw [Recovering.membersAt_recover_last continues read recovers less] at result
      cases result
      exact List.forall_mem_nil _
    | stop p fault q stops s continues read recovers =>
      rw [Recovering.membersAt_stop continues read recovers] at result
      cases result
  exact block _ p result

end Ensures

/-! ## Statements -/

namespace Parser

open Statement

theorem ensures_unexpected {α : Type} (phrase : String) (P : α → Prop) :
    Ensures (unexpected phrase) P := fun _ _ _ result => by cases result

theorem ensures_refuse {α : Type} (cause : SyntaxCause) (P : α → Prop) :
    Ensures (refuse cause) P := fun _ _ _ result => by cases result

theorem ensures_nameOf (phrase : String) : Ensures (nameOf phrase) fun name => name ≠ "" := by
  have checked (name : String) : Ensures (do
      if name.isEmpty then refuse (.emptyName phrase)
      advance
      return name : Parser String) fun name => name ≠ "" := by
    by_cases none : name.isEmpty = true
    · simp only [if_pos none]
      exact (ensures_refuse (α := Unit) _ fun _ => False).bind fun _ => False.elim
    · rw [if_neg none]
      exact Ensures.behind fun _ => Ensures.pure (by simpa using none)
  refine Ensures.behind fun t => ?_
  split
  · exact checked _
  · exact checked _
  · exact (ensures_unexpected phrase fun _ => False).bind fun _ => False.elim

/-- The name of a statement is not empty, and its block has at most the levels of a block. -/
theorem ensures_statementTail {block : Parser (List Statement)} {levels : Nat}
    (h : Ensures block (AllFit levels)) {name : String} (some : name ≠ "") :
    Ensures (statementTail block name) (Statement.Fits levels) := by
  refine Ensures.behind fun t => ?_
  split
  · refine Ensures.behind fun _ => Ensures.behind fun key => Ensures.behind fun _ => ?_
    exact Ensures.behind fun p => Ensures.pure ⟨Nat.zero_le _, some⟩
  · exact h.bind fun children fit => Ensures.pure ⟨fit.height, some, fit.named⟩
  · exact Ensures.behind fun p => Ensures.pure ⟨Nat.zero_le _, some⟩

theorem ensures_statementWith {block : Parser (List Statement)} {levels : Nat}
    (h : Ensures block (AllFit levels)) :
    Ensures (statementWith block) (Statement.Fits levels) := by
  refine Ensures.behind fun t => ?_
  split
  · refine Ensures.behind fun _ => (ensures_nameOf _).bind fun name some => ?_
    refine Ensures.behind fun t => ?_
    split
    · refine h.bind fun children fit => Ensures.pure ?_
      cases children with
      | nil => exact ⟨Nat.zero_le _, some, trivial⟩
      | cons child more => exact ⟨fit.height, some, fit.named⟩
    · exact Ensures.pure ⟨Nat.zero_le _, some, trivial⟩
  · exact (ensures_nameOf _).bind fun name some => ensures_statementTail h some

theorem ensures_statements {statement : Parser Statement} {P : Statement → Prop}
    (h : Ensures statement P) : Ensures (statements statement) fun ss => ∀ s ∈ ss, P s := by
  refine Ensures.behind fun c => ?_
  split
  · exact Ensures.pure (List.forall_mem_nil _)
  · refine h.bind fun first hf => (Ensures.repeatWhile ?_).bind fun more hm =>
      Ensures.pure (List.forall_mem_cons.mpr ⟨hf, hm⟩)
    refine Ensures.behind fun t => ?_
    split
    · exact Ensures.behind fun _ => h
    · exact h

/-- **A block has at most the levels that it is read with**, and no empty name. -/
theorem ensures_block (levels : Nat) : Ensures (block levels) (AllFit levels) := by
  induction levels with
  | zero => exact ensures_refuseBlock _
  | succ levels ih =>
    refine Ensures.behind fun _ => ?_
    refine (ensures_statements (ensures_statementWith ih)).bind fun children fit => ?_
    exact Ensures.behind fun _ => Ensures.pure (allFit_succ_iff.mpr fit)

/-! ## Rules -/

theorem ensures_header_named (file : String) (kind : DeclarationKind) :
    Ensures (header file kind) fun start => start.1 ≠ "" := by
  refine Ensures.behind fun origin => Ensures.behind fun _ => ?_
  exact (ensures_nameOf _).bind fun name some => Ensures.pure some

/-- The blocks of a rule that have been read have at most some levels. -/
structure PartsFit (levels : Nat) (parts : RuleParts) : Prop where
  conditions : ∀ ss ∈ parts.conditions, AllFit levels ss
  assertions : ∀ ss ∈ parts.assertions, AllFit levels ss

theorem ensures_rulePart (file name : String) (levels : Nat) {parts : RuleParts}
    (h : PartsFit levels parts) : Ensures (rulePart file name levels parts) (PartsFit levels) := by
  -- A block that comes a second time is refused.
  have inner (word : String) (repeated : Bool) {k : List Statement → RuleParts}
      (hk : ∀ ss, AllFit levels ss → PartsFit levels (k ss)) : Ensures (do
        if repeated then refuse (.repeatedBlock name word)
        advance
        return k (← block levels) : Parser RuleParts) (PartsFit levels) := by
    have body : Ensures (do advance; return k (← block levels) : Parser RuleParts)
        (PartsFit levels) :=
      Ensures.behind fun _ => (ensures_block levels).bind fun ss fit => Ensures.pure (hk ss fit)
    cases repeated with
    | true => exact (ensures_refuse (α := Unit) _ fun _ => False).bind fun _ => False.elim
    | false => exact body
  refine Ensures.behind fun t => ?_
  split
  · exact Ensures.behind fun setting => Ensures.pure ⟨h.conditions, h.assertions⟩
  · refine inner _ _ fun ss fit => ⟨fun ss' same => ?_, h.assertions⟩
    rwa [← Option.some.inj same]
  · refine inner _ _ fun ss fit => ⟨h.conditions, fun ss' same => ?_⟩
    rwa [← Option.some.inj same]
  · exact ensures_unexpected _ _

theorem ensures_ruleBody (file name : String) (levels : Nat) :
    Ensures (ruleBody file name levels) fun body =>
      PartsFit levels body.1 ∧ AllFit levels body.2 := by
  refine Ensures.behind fun _ => ?_
  have first : PartsFit levels {} := ⟨fun _ => nofun, fun _ => nofun⟩
  refine (Ensures.foldWhile (fun _ => ensures_rulePart file name levels) first).bind
    fun parts fit => ?_
  cases read : parts.assertions with
  | none => exact ensures_refuse _ _
  | some assertions => exact Ensures.behind fun _ => Ensures.pure ⟨fit, fit.assertions _ read⟩

/-- **A rule has at most the levels that it is read with**, and no empty name. -/
theorem ensures_rule_fits (file : String) (levels : Nat) :
    Ensures (rule file levels) fun d => d.height ≤ levels ∧ d.Named := by
  refine (ensures_header_named file .rule).bind fun (called, origin) some => ?_
  refine Ensures.behind fun _ => Ensures.behind fun target => ?_
  cases levels with
  | zero => exact (ensures_refuseBlock fun _ => False).bind fun _ => False.elim
  | succ below =>
    refine (ensures_ruleBody file called below).bind fun (parts, assertions) fit => Ensures.pure ?_
    obtain ⟨fits, asserted⟩ := fit
    have conditions : AllFit below (parts.conditions.getD []) := by
      cases read : parts.conditions with
      | none => exact ⟨(Nat.succ_le_succ (Nat.zero_le _)).trans asserted.height, trivial⟩
      | some ss => exact fits.conditions ss read
    have height :
        max (heightAll (parts.conditions.getD [])) (heightAll assertions) + 1 ≤ below := by
      rw [← Nat.add_max_add_right]
      exact Nat.max_le.mpr ⟨conditions.height, asserted.height⟩
    exact ⟨Nat.succ_le_succ height, some, conditions.named, asserted.named⟩

end Parser

/-! ## Declarations -/

namespace Reader

variable {reader : Reader} {levels : Nat}

/-- What is declared in a member fits into some levels. -/
def Member.Fits (levels : Nat) : Member → Prop
  | .module d => d.height ≤ levels ∧ d.Named
  | .group d => d.height ≤ levels ∧ d.Named
  | .rule d => d.height ≤ levels ∧ d.Named
  | _ => True

section

variable {members : List Member} (h : ∀ m ∈ members, m.Fits levels)

include h

theorem forall_mem_modules : ∀ d ∈ modules members, d.height ≤ levels ∧ d.Named := by
  intro d hd
  obtain ⟨m, hm, same⟩ := List.mem_filterMap.mp hd
  cases m <;> cases same
  exact h _ hm

theorem forall_mem_groups : ∀ d ∈ groups members, d.height ≤ levels ∧ d.Named := by
  intro d hd
  obtain ⟨m, hm, same⟩ := List.mem_filterMap.mp hd
  cases m <;> cases same
  exact h _ hm

theorem forall_mem_rules : ∀ d ∈ rules members, d.height ≤ levels ∧ d.Named := by
  intro d hd
  obtain ⟨m, hm, same⟩ := List.mem_filterMap.mp hd
  cases m <;> cases same
  exact h _ hm

end

theorem ensures_settingMember : Ensures reader.settingMember (Member.Fits levels) :=
  (Ensures.any _).map fun _ _ => trivial

theorem ensures_inclusionMember (kinds : List DeclarationKind) :
    Ensures (reader.inclusionMember kinds) (Member.Fits levels) :=
  (Ensures.any _).map fun _ _ => trivial

theorem ensures_ruleMember : Ensures (reader.ruleMember levels) (Member.Fits levels) :=
  (Parser.ensures_rule_fits _ _).plain.map fun _ fit => fit

theorem ensures_groupMember : Ensures (reader.groupMember levels) (Member.Fits levels) := by
  refine Ensures.behind fun t => ?_
  split
  · exact ensures_settingMember
  · exact ensures_inclusionMember _
  · exact ensures_ruleMember
  · exact (Parser.ensures_unexpected _ _).plain

theorem ensures_group_fits (levels : Nat) :
    Ensures (reader.group levels) fun d => d.height ≤ levels ∧ d.Named := by
  refine (Parser.ensures_header_named reader.file .group).plain.bind fun (name, origin) some => ?_
  cases levels with
  | zero => exact (Parser.ensures_refuseBlock _).plain
  | succ below =>
    refine Ensures.behind fun _ => (Ensures.members ensures_groupMember).bind fun members fit => ?_
    refine Ensures.behind fun _ => Ensures.pure ?_
    have inside := forall_mem_rules fit
    refine ⟨Nat.succ_le_succ (largest_le_iff.mpr ?_), some, fun d hd => (inside d hd).2⟩
    exact List.forall_mem_map.mpr fun d hd => (inside d hd).1

theorem ensures_moduleMember {inner : Recovering Module}
    (h : Ensures inner fun d => d.height ≤ levels ∧ d.Named) :
    Ensures (reader.moduleMember levels inner) (Member.Fits levels) := by
  refine Ensures.behind fun t => ?_
  split
  · exact ensures_settingMember
  · exact ensures_inclusionMember _
  · exact h.map fun _ fit => fit
  · exact (ensures_group_fits levels).map fun _ fit => fit
  · exact ensures_ruleMember
  · exact (Parser.ensures_unexpected _ _).plain

/-- **A module has at most the levels that it is read with**, and no empty name. -/
theorem ensures_module_fits (levels : Nat) :
    Ensures (reader.module levels) fun d => d.height ≤ levels ∧ d.Named := by
  induction levels with
  | zero => exact Ensures.behind fun _ => (Parser.ensures_refuseBlock _).plain
  | succ below ih =>
    refine (Parser.ensures_header_named reader.file .module).plain.bind
      fun (name, origin) some => ?_
    refine Ensures.behind fun _ =>
      (Ensures.members (ensures_moduleMember ih)).bind fun members fit => ?_
    refine Ensures.behind fun _ => Ensures.pure ?_
    have modules := forall_mem_modules fit
    have groups := forall_mem_groups fit
    have rules := forall_mem_rules fit
    refine ⟨Nat.succ_le_succ (Nat.max_le.mpr ⟨?_, Nat.max_le.mpr ⟨?_, ?_⟩⟩), some, ?_, ?_, ?_⟩
    · exact Module.heightAll_le_iff.mpr fun d hd => (modules d hd).1
    · exact largest_le_iff.mpr (List.forall_mem_map.mpr fun d hd => (groups d hd).1)
    · exact largest_le_iff.mpr (List.forall_mem_map.mpr fun d hd => (rules d hd).1)
    · exact Module.allNamed_iff.mpr fun d hd => (modules d hd).2
    · exact fun d hd => (groups d hd).2
    · exact fun d hd => (rules d hd).2

theorem ensures_planMember : Ensures (reader.planMember levels) (Member.Fits levels) := by
  refine Ensures.behind fun t => ?_
  split
  · exact ensures_settingMember
  · exact ensures_inclusionMember _
  · exact (ensures_module_fits levels).map fun _ fit => fit
  · exact (Parser.ensures_unexpected _ _).plain

theorem ensures_plan_fits (levels : Nat) : Ensures (reader.plan levels) fun d =>
    Module.heightAll d.modules + 1 ≤ levels ∧ d.name ≠ "" ∧ Module.AllNamed d.modules := by
  refine (Parser.ensures_header_named reader.file .plan).plain.bind fun (name, origin) some => ?_
  cases levels with
  | zero => exact (Parser.ensures_refuseBlock _).plain
  | succ below =>
    refine Ensures.behind fun _ => (Ensures.members ensures_planMember).bind fun members fit => ?_
    refine Ensures.behind fun _ => Ensures.pure ?_
    have modules := forall_mem_modules fit
    refine ⟨Nat.succ_le_succ (Module.heightAll_le_iff.mpr fun d hd => (modules d hd).1), some, ?_⟩
    exact Module.allNamed_iff.mpr fun d hd => (modules d hd).2

/-- **A declaration that is read fits into the limit.** -/
theorem ensures_fits (kind : DeclarationKind) :
    Ensures (reader.declaration kind) (Declaration.Fits maxNesting) := by
  have right : Ensures (reader.declarationOf kind) (Declaration.Fits maxNesting) := by
    cases kind with
    | plan => exact (ensures_plan_fits _).map fun _ fit => ⟨fit.1, fit.2⟩
    | module => exact (ensures_module_fits _).map fun _ fit => ⟨fit.1, fit.2⟩
    | group => exact (ensures_group_fits _).map fun _ fit => ⟨fit.1, fit.2⟩
    | rule => exact (Parser.ensures_rule_fits _ _).plain.map fun _ fit => ⟨fit.1, fit.2⟩
  refine Ensures.behind fun t => ?_
  split
  · exact (Parser.ensures_unexpected _ _).plain
  · next found _ =>
    by_cases wrong : found ≠ kind
    · simp only [if_pos wrong]
      exact Ensures.behind fun _ => right
    · simp only [if_neg wrong]
      exact right

end Reader

end Compliance
