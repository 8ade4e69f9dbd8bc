import Compliance.Declaration.Reader
import Compliance.Proofs.Statement.Moved

/-!
# Reading declarations wherever they stand

A source text is read the same wherever its tokens stand, in both modes, with all of
its faults: what is declared carries the lines of the tokens that it starts with, a
fault the place of the token it shows at, and nothing else does.  The place to go on at
behind a fault is found without them.

## Main definitions

* `Declaration.relined line` — a declaration in which every line is replaced.
* `Progress.moved`, `Reader.Outcome.moved` — what is read, with other places.
* `Reader.run_moved` — a text is read the same wherever its tokens stand.
-/

namespace Compliance

/-! ## Declarations in other lines -/

/-- The same file, another line. -/
def Origin.relined (line : Nat → Nat) (origin : Origin) : Origin :=
  { origin with line := line origin.line }

namespace Declaration

variable (line : Nat → Nat)

def Assignment.relined (s : Assignment) : Assignment := { s with origin := s.origin.relined line }

def Inclusion.relined (i : Inclusion) : Inclusion := { i with origin := i.origin.relined line }

/-- The statements of a rule know no place. -/
def Rule.relined (d : Rule) : Rule :=
  { d with
    settings := d.settings.map (·.relined line)
    origin := d.origin.relined line }

def Group.relined (d : Group) : Group :=
  { d with
    settings := d.settings.map (·.relined line)
    rules := d.rules.map (·.relined line)
    useRules := d.useRules.map (·.relined line)
    origin := d.origin.relined line }

mutual

/-- A module with the modules in it. -/
def Module.relined : Module → Module
  | ⟨name, settings, modules, useModules, groups, useGroups, rules, useRules, origin⟩ => {
      name
      settings := settings.map (·.relined line)
      modules := Module.relinedAll modules
      useModules := useModules.map (·.relined line)
      groups := groups.map (·.relined line)
      useGroups := useGroups.map (·.relined line)
      rules := rules.map (·.relined line)
      useRules := useRules.map (·.relined line)
      origin := origin.relined line }

/-- Some modules. -/
def Module.relinedAll : List Module → List Module
  | [] => []
  | d :: more => d.relined :: Module.relinedAll more

end

theorem Module.relinedAll_eq (ds : List Module) :
    Module.relinedAll line ds = ds.map (·.relined line) := by
  induction ds with
  | nil => rfl
  | cons d more ih => rw [relinedAll, ih, List.map_cons]

def Plan.relined (d : Plan) : Plan :=
  { d with
    settings := d.settings.map (·.relined line)
    modules := d.modules.map (·.relined line)
    useModules := d.useModules.map (·.relined line)
    origin := d.origin.relined line }

/-- A declaration with other lines, and so all that is in it. -/
def relined : Declaration → Declaration
  | .plan d => .plan (d.relined line)
  | .module d => .module (d.relined line)
  | .group d => .group (d.relined line)
  | .rule d => .rule (d.relined line)

end Declaration

/-- The parts of a rule read so far. -/
def Parser.RuleParts.relined (line : Nat → Nat) (parts : RuleParts) : RuleParts :=
  { parts with settings := parts.settings.map (·.relined line) }

namespace Reader

variable {line : Nat → Nat}

/-- A member of a declaration. -/
def Member.relined (line : Nat → Nat) : Member → Member
  | .setting s => .setting (s.relined line)
  | .inclusion kind i => .inclusion kind (i.relined line)
  | .module d => .module (d.relined line)
  | .group d => .group (d.relined line)
  | .rule d => .rule (d.relined line)

variable (members : List Member)

/-- What is picked from members does not depend on their lines. -/
private theorem filterMap_relined {α : Type} (pick : Member → Option α) (other : α → α)
    (h : ∀ m, pick (m.relined line) = (pick m).map other) :
    (members.map (·.relined line)).filterMap pick = (members.filterMap pick).map other := by
  rw [List.filterMap_map, List.map_filterMap]
  exact congrArg (members.filterMap ·) (funext h)

@[simp] theorem settings_relined :
    settings (members.map (·.relined line)) = (settings members).map (·.relined line) :=
  filterMap_relined members _ _ fun m => by cases m <;> rfl

@[simp] theorem inclusions_relined (kind : DeclarationKind) :
    inclusions kind (members.map (·.relined line)) =
      (inclusions kind members).map (·.relined line) := by
  refine filterMap_relined members _ _ fun m => ?_
  cases m with
  | inclusion k i =>
    by_cases same : k = kind <;> simp [Member.relined, same]
  | _ => rfl

@[simp] theorem modules_relined :
    modules (members.map (·.relined line)) = (modules members).map (·.relined line) :=
  filterMap_relined members _ _ fun m => by cases m <;> rfl

@[simp] theorem groups_relined :
    groups (members.map (·.relined line)) = (groups members).map (·.relined line) :=
  filterMap_relined members _ _ fun m => by cases m <;> rfl

@[simp] theorem rules_relined :
    rules (members.map (·.relined line)) = (rules members).map (·.relined line) :=
  filterMap_relined members _ _ fun m => by cases m <;> rfl

end Reader

open Declaration

variable {move : Move}

/-! ## Settings, references and rules -/

namespace Parser

variable {file : String}

theorem moves_origin :
    Corresponds move (Cursor.moved move) (Origin.relined move.line) (origin file)
      (origin file) := by
  refine moves_position.bind fun place => .pure ?_
  rw [Origin.relined, move.line_place]

theorem moves_setting : Corresponds move (Cursor.moved move) (Assignment.relined move.line)
    (setting file) (setting file) := by
  refine moves_origin.bind fun origin => (placeless_expect _).bind fun _ => ?_
  refine (placeless_reference _).bind fun key => (placeless_expect _).bind fun _ => ?_
  exact placeless_literal.bind fun _ => .pure rfl

theorem moves_inclusion (kinds : List DeclarationKind) :
    Corresponds move (Cursor.moved move) (Prod.map id (Inclusion.relined move.line))
      (inclusion file kinds) (inclusion file kinds) := by
  refine moves_origin.bind fun origin => (placeless_expect _).bind fun _ => ?_
  refine placeless_token.bind fun t => ?_
  split
  · exact placeless_advance.bind fun _ => placeless_string.bind fun _ => .pure rfl
  · exact moves_unexpected _

theorem moves_header (kind : DeclarationKind) :
    Corresponds move (Cursor.moved move) (Prod.map id (Origin.relined move.line)) (header file kind)
      (header file kind) := by
  refine moves_origin.bind fun origin => (placeless_expect _).bind fun _ => ?_
  exact (placeless_nameOf _).bind fun _ => .pure rfl

theorem moves_rulePart (name : String) (levels : Nat) (parts : RuleParts) :
    Corresponds move (Cursor.moved move) (RuleParts.relined move.line)
      (rulePart file name levels parts) (rulePart file name levels (parts.relined move.line)) := by
  refine placeless_token.bind fun t => ?_
  split
  · exact moves_setting.bind fun _ => .pure rfl
  · exact .first (moves_refuse _) (placeless_advance.bind fun _ =>
      (placeless_block levels).bind fun _ => .pure rfl)
  · exact .first (moves_refuse _) (placeless_advance.bind fun _ =>
      (placeless_block levels).bind fun _ => .pure rfl)
  · exact moves_unexpected _

theorem moves_ruleBody (name : String) (levels : Nat) :
    Corresponds move (Cursor.moved move) (Prod.map (RuleParts.relined move.line) id)
      (ruleBody file name levels) (ruleBody file name levels) := by
  refine placeless_openBlock.bind fun _ => ?_
  have parts : Corresponds move (Cursor.moved move) (RuleParts.relined move.line)
      (foldWhile (fun c => !c.atBlockEnd) (rulePart file name levels) {})
      (foldWhile (fun c => !c.atBlockEnd) (rulePart file name levels) {}) :=
    moves_foldWhile (fun _ => rfl) (moves_rulePart name levels) {}
  refine parts.bind fun parts => ?_
  have same : (parts.relined move.line).assertions = parts.assertions := rfl
  rw [same]
  cases parts.assertions with
  | none => exact moves_refuse _
  | some assertions => exact placeless_closeBlock.bind fun _ => .pure rfl

/-- **A rule is the same wherever it stands.** -/
theorem moves_rule (levels : Nat) :
    Corresponds move (Cursor.moved move) (Rule.relined move.line) (rule file levels)
      (rule file levels) := by
  refine (moves_header .rule).bind fun (name, origin) => (placeless_expect _).bind fun _ => ?_
  refine (placeless_reference _).bind fun target => ?_
  cases levels with
  | zero =>
    have refused : Corresponds move (Cursor.moved move) (Prod.map (RuleParts.relined move.line) id)
        (refuseBlock : Parser (RuleParts × List Statement)) refuseBlock :=
      moves_refuseBlock
    refine refused.bind fun (parts, assertions) => .pure ?_
    simp [Rule.relined, RuleParts.relined]
  | succ below =>
    refine (moves_ruleBody name below).bind fun (parts, assertions) => .pure ?_
    simp [Rule.relined, RuleParts.relined]

end Parser

/-! ## Members -/

/-- Progress in reading, with all that has been recorded, elsewhere. -/
def Progress.moved (move : Move) (p : Progress) : Progress :=
  ⟨p.cursor.moved move, p.recorded.map (·.moved move)⟩

namespace Progress

variable (p : Progress)

@[simp] theorem cursor_moved : (p.moved move).cursor = p.cursor.moved move := rfl

@[simp] theorem size_moved : (p.moved move).size = p.size := Cursor.size_moved _

theorem record_moved (fault : SyntaxFault) :
    (p.moved move).record (fault.moved move) = (p.record fault).moved move := by
  simp [record, moved]

end Progress

namespace Recovering

variable {α β : Type} {f : α → β} {member : Recovering α} {member' : Recovering β}
  {mode : Mode} {keywords : List String}

theorem moves_plain {P : Parser α} {Q : Parser β}
    (h : Corresponds move (Cursor.moved move) f P Q) :
    Corresponds move (Progress.moved move) f P.plain Q.plain := by
  intro p
  rw [Parser.plain, Parser.plain, Progress.cursor_moved, h p.cursor]
  cases P p.cursor <;> rfl

/-- The place to go on at is found by the tokens alone. -/
theorem skipFrom_moved (base checkpoint depth : Nat) (current : Placed) (ahead : List Placed) :
    skipFrom keywords base checkpoint depth (current.moved move) (ahead.map (Placed.moved move)) =
      (skipFrom keywords base checkpoint depth current ahead).moved move := by
  induction ahead generalizing depth current with
  | nil => rfl
  | cons next more ih =>
    have token : (current.moved move).token = current.token := rfl
    rw [List.map_cons, skipFrom, skipFrom, token]
    simp only [List.length_map, ih]
    split <;> (try split) <;> (try split) <;> rfl

/-- A fault is recorded elsewhere, and reading goes on at the same token. -/
theorem recover_moved (base : Nat) (fault : SyntaxFault) (p q : Progress) :
    recover mode keywords base (p.moved move).size (fault.moved move) (q.moved move) =
      movedResult move (Progress.moved move) (fun u => u)
        (recover mode keywords base p.size fault q) := by
  have length (r : Progress) : (r.moved move).recorded.length = r.recorded.length :=
    List.length_map _
  cases mode with
  | failFast => rfl
  | reporting limit =>
    simp only [recover, Progress.size_moved, Progress.record_moved, length]
    split
    · rfl
    · split
      · rfl
      · exact congrArg (fun c => EStateM.Result.ok () (Progress.mk c _))
          (skipFrom_moved base _ _ _ _)

theorem moved_recovers {base : Nat} {fault : SyntaxFault} {p q r : Progress}
    (recovers : recover mode keywords base p.size fault q = .ok () r) :
    recover mode keywords base (p.moved move).size (fault.moved move) (q.moved move) =
      .ok () (r.moved move) := by
  rw [recover_moved, recovers]
  rfl

theorem moved_stops {base : Nat} {fault stop : SyntaxFault} {p q r : Progress}
    (stops : recover mode keywords base p.size fault q = .error stop r) :
    recover mode keywords base (p.moved move).size (fault.moved move) (q.moved move) =
      .error (stop.moved move) (r.moved move) := by
  rw [recover_moved, stops]
  rfl

theorem moves_membersAt (h : Corresponds move (Progress.moved move) f member member') (base : Nat) :
    Corresponds move (Progress.moved move) (List.map f) (membersAt mode keywords base member)
      (membersAt mode keywords base member') := by
  intro p
  induction p using round_induction atBlockEnd_or mode keywords base member with
  | finish p ends =>
    rw [membersAt_end (s := p) ends, membersAt_end (s := p.moved move) ends]
    rfl
  | more p a q continues first less ih =>
    rw [membersAt_cons continues first less,
      membersAt_cons (s := p.moved move) continues (h.value first)
        (by simpa [Progress.size] using less),
      EStateM.map, EStateM.map, ih]
    cases membersAt mode keywords base member q <;> rfl
  | last p a q continues first less =>
    rw [membersAt_last continues first less,
      membersAt_last (s := p.moved move) continues (h.value first)
        (by simpa [Progress.size] using less)]
    rfl
  | past p fault q r continues first recovers less ih =>
    rw [membersAt_recover continues first recovers less,
      membersAt_recover (s := p.moved move) continues (h.error first) (moved_recovers recovers)
        (by simpa [Progress.size] using less)]
    exact ih
  | rest p fault q r continues first recovers less =>
    rw [membersAt_recover_last continues first recovers less,
      membersAt_recover_last (s := p.moved move) continues (h.error first)
        (moved_recovers recovers) (by simpa [Progress.size] using less)]
    rfl
  | stop p fault q stop r continues first stops =>
    rw [membersAt_stop continues first stops,
      membersAt_stop (s := p.moved move) continues (h.error first) (moved_stops stops)]
    rfl

theorem moves_members (h : Corresponds move (Progress.moved move) f member member') :
    Corresponds move (Progress.moved move) (List.map f) (members mode keywords member)
      (members mode keywords member') := fun p => by
  rw [members, members]
  exact moves_membersAt h p.cursor.depth p

end Recovering

namespace Reader

open Recovering

variable (reader : Reader)

theorem moves_settingMember : Corresponds move (Progress.moved move) (Member.relined move.line)
    reader.settingMember reader.settingMember :=
  (moves_plain Parser.moves_setting).map fun _ => rfl

theorem moves_inclusionMember (kinds : List DeclarationKind) :
    Corresponds move (Progress.moved move) (Member.relined move.line) (reader.inclusionMember kinds)
      (reader.inclusionMember kinds) :=
  (moves_plain (Parser.moves_inclusion kinds)).map fun _ => rfl

theorem moves_ruleMember (levels : Nat) :
    Corresponds move (Progress.moved move) (Member.relined move.line) (reader.ruleMember levels)
      (reader.ruleMember levels) :=
  (moves_plain (Parser.moves_rule levels)).map fun _ => rfl

/-- What is read in place of a member that cannot start here. -/
private theorem moves_other {α β : Type} {f : α → β} (phrase : String) :
    Corresponds move (Progress.moved move) f (Parser.unexpected phrase).plain
      (Parser.unexpected phrase).plain :=
  moves_plain (Parser.moves_unexpected phrase)

theorem moves_groupMember (levels : Nat) :
    Corresponds move (Progress.moved move) (Member.relined move.line) (reader.groupMember levels)
      (reader.groupMember levels) := by
  refine (moves_plain Parser.placeless_token).bind fun t => ?_
  split
  · exact reader.moves_settingMember
  · exact reader.moves_inclusionMember _
  · exact reader.moves_ruleMember levels
  · exact moves_other _

theorem moves_group (levels : Nat) :
    Corresponds move (Progress.moved move) (Group.relined move.line) (reader.group levels)
      (reader.group levels) := by
  refine (moves_plain (Parser.moves_header .group)).bind fun (name, origin) => ?_
  cases levels with
  | zero => exact moves_plain Parser.moves_refuseBlock
  | succ below =>
    refine (moves_plain Parser.placeless_openBlock).bind fun _ => ?_
    refine (moves_members (reader.moves_groupMember below)).bind fun members => ?_
    refine (moves_plain Parser.placeless_closeBlock).bind fun _ => .pure ?_
    simp [Group.relined]

theorem moves_moduleMember (levels : Nat) {inner : Recovering Module}
    (h : Corresponds move (Progress.moved move) (Module.relined move.line) inner inner) :
    Corresponds move (Progress.moved move) (Member.relined move.line)
      (reader.moduleMember levels inner) (reader.moduleMember levels inner) := by
  refine (moves_plain Parser.placeless_token).bind fun t => ?_
  split
  · exact reader.moves_settingMember
  · exact reader.moves_inclusionMember _
  · exact h.map fun _ => rfl
  · exact (reader.moves_group levels).map fun _ => rfl
  · exact reader.moves_ruleMember levels
  · exact moves_other _

theorem moves_module (levels : Nat) :
    Corresponds move (Progress.moved move) (Module.relined move.line) (reader.module levels)
      (reader.module levels) := by
  have header := moves_plain (@Parser.moves_header move reader.file .module)
  induction levels with
  | zero => exact header.bind fun _ => moves_plain Parser.moves_refuseBlock
  | succ below ih =>
    refine header.bind fun (name, origin) => ?_
    refine (moves_plain Parser.placeless_openBlock).bind fun _ => ?_
    refine (moves_members (reader.moves_moduleMember below ih)).bind fun members => ?_
    refine (moves_plain Parser.placeless_closeBlock).bind fun _ => .pure ?_
    simp [Module.relined, Module.relinedAll_eq]

theorem moves_planMember (levels : Nat) :
    Corresponds move (Progress.moved move) (Member.relined move.line) (reader.planMember levels)
      (reader.planMember levels) := by
  refine (moves_plain Parser.placeless_token).bind fun t => ?_
  split
  · exact reader.moves_settingMember
  · exact reader.moves_inclusionMember _
  · exact (reader.moves_module levels).map fun _ => rfl
  · exact moves_other _

theorem moves_plan (levels : Nat) :
    Corresponds move (Progress.moved move) (Plan.relined move.line) (reader.plan levels)
      (reader.plan levels) := by
  refine (moves_plain (Parser.moves_header .plan)).bind fun (name, origin) => ?_
  cases levels with
  | zero => exact moves_plain Parser.moves_refuseBlock
  | succ below =>
    refine (moves_plain Parser.placeless_openBlock).bind fun _ => ?_
    refine (moves_members (reader.moves_planMember below)).bind fun members => ?_
    refine (moves_plain Parser.placeless_closeBlock).bind fun _ => .pure ?_
    simp [Plan.relined]

/-! ## Source texts -/

theorem moves_declarationOf (kind : DeclarationKind) :
    Corresponds move (Progress.moved move) (Declaration.relined move.line)
      (reader.declarationOf kind) (reader.declarationOf kind) := by
  cases kind with
  | plan => exact (reader.moves_plan maxNesting).map fun _ => rfl
  | module => exact (reader.moves_module maxNesting).map fun _ => rfl
  | group => exact (reader.moves_group maxNesting).map fun _ => rfl
  | rule => exact (moves_plain (Parser.moves_rule maxNesting)).map fun _ => rfl

theorem moves_declaration (kind : DeclarationKind) :
    Corresponds move (Progress.moved move) (Declaration.relined move.line)
      (reader.declaration kind) (reader.declaration kind) := by
  refine (moves_plain Parser.placeless_token).bind fun t => ?_
  split
  · exact moves_other _
  · exact .first (moves_plain (Parser.moves_refuse _)) (reader.moves_declarationOf kind)

theorem moves_topLevel (kind : DeclarationKind) :
    Corresponds move (Progress.moved move) (Declaration.relined move.line)
      (reader.topLevel kind) (reader.topLevel kind) := by
  intro p
  have token : (p.moved move).cursor.token = p.cursor.token := rfl
  rw [topLevel_eq, topLevel_eq, token]
  split
  · rw [Progress.cursor_moved, Cursor.advance_moved]
    rfl
  · exact reader.moves_declaration kind p

/-- What was read, elsewhere. -/
def Outcome.moved (move : Move) (outcome : Outcome) : Outcome where
  declarations := outcome.declarations.map (Declaration.relined move.line)
  recorded := outcome.recorded.map (·.moved move)
  stoppedBy := outcome.stoppedBy.map (·.moved move)

/-- **A text is read the same wherever its tokens stand**: what is declared, what is recorded and
what stops the reading differ by the places alone. -/
theorem run_moved (kind : DeclarationKind) (p : Progress) :
    reader.run kind (p.moved move) = (reader.run kind p).moved move := by
  have top := @moves_topLevel move reader kind
  induction p using round_induction eof_or reader.mode topKeywords 0 (reader.topLevel kind) with
  | finish p ended =>
    rw [run_eof ended, run_eof (p := p.moved move) ended]
    rfl
  | more p d q continues first less ih =>
    rw [run_cons continues first less,
      run_cons (p := p.moved move) continues (top.value first)
        (by simpa [Progress.size] using less), ih]
    rfl
  | last p d q continues first less =>
    rw [run_last continues first less,
      run_last (p := p.moved move) continues (top.value first)
        (by simpa [Progress.size] using less)]
    rfl
  | past p fault q r continues first recovers less ih =>
    rw [run_recover continues first recovers less,
      run_recover (p := p.moved move) continues (top.error first) (moved_recovers recovers)
        (by simpa [Progress.size] using less)]
    exact ih
  | rest p fault q r continues first recovers less =>
    rw [run_recover_last continues first recovers less,
      run_recover_last (p := p.moved move) continues (top.error first) (moved_recovers recovers)
        (by simpa [Progress.size] using less)]
    rfl
  | stop p fault q stop r continues first stops =>
    rw [run_stop continues first stops,
      run_stop (p := p.moved move) continues (top.error first) (moved_stops stops)]
    rfl

end Reader

end Compliance
