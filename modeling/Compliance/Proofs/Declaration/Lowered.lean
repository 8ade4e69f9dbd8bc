import Compliance.Declaration.Reader

/-!
# Declarations further down

Where a declaration is written shows in the lines that it and its parts carry, and in
nothing else.  What follows is the same declaration some lines further down in its file.

## Main definitions

* `Origin.lowered n` — a place in a file some lines further down.
* `Declaration.lowered n` — a declaration with all that is in it.
* `Reader.Member.lowered n` — a member that is being read.
-/

namespace Compliance

/-- The same file, some lines further down. -/
def Origin.lowered (n : Nat) (origin : Origin) : Origin := { origin with line := origin.line + n }

@[simp] theorem Origin.lowered_zero (origin : Origin) : origin.lowered 0 = origin := rfl

@[simp] theorem Origin.lowered_lowered (n m : Nat) (origin : Origin) :
    (origin.lowered n).lowered m = origin.lowered (n + m) := by
  simp [lowered, Nat.add_assoc]

namespace Declaration

variable {n m : Nat}

/-! ## Parts -/

def Assignment.lowered (n : Nat) (s : Assignment) : Assignment :=
  { s with origin := s.origin.lowered n }

def Inclusion.lowered (n : Nat) (i : Inclusion) : Inclusion :=
  { i with origin := i.origin.lowered n }

@[simp] theorem Assignment.lowered_zero (s : Assignment) : s.lowered 0 = s := rfl

@[simp] theorem Inclusion.lowered_zero (i : Inclusion) : i.lowered 0 = i := rfl

@[simp] theorem Assignment.lowered_lowered (s : Assignment) :
    (s.lowered n).lowered m = s.lowered (n + m) := by
  simp [lowered]

@[simp] theorem Inclusion.lowered_lowered (i : Inclusion) :
    (i.lowered n).lowered m = i.lowered (n + m) := by
  simp [lowered]

/-- The statements of a rule know no place. -/
def Rule.lowered (n : Nat) (d : Rule) : Rule :=
  { d with
    settings := d.settings.map (·.lowered n)
    origin := d.origin.lowered n }

@[simp] theorem Rule.lowered_zero (d : Rule) : d.lowered 0 = d := by
  simp [lowered]

@[simp] theorem Rule.lowered_lowered (d : Rule) : (d.lowered n).lowered m = d.lowered (n + m) := by
  simp [lowered]

def Group.lowered (n : Nat) (d : Group) : Group :=
  { d with
    settings := d.settings.map (·.lowered n)
    rules := d.rules.map (·.lowered n)
    useRules := d.useRules.map (·.lowered n)
    origin := d.origin.lowered n }

@[simp] theorem Group.lowered_zero (d : Group) : d.lowered 0 = d := by
  simp [lowered]

@[simp] theorem Group.lowered_lowered (d : Group) :
    (d.lowered n).lowered m = d.lowered (n + m) := by
  simp [lowered]

mutual

/-- A module with the modules in it. -/
def Module.lowered (n : Nat) : Module → Module
  | ⟨name, settings, modules, useModules, groups, useGroups, rules, useRules, origin⟩ => {
      name
      settings := settings.map (·.lowered n)
      modules := Module.loweredAll n modules
      useModules := useModules.map (·.lowered n)
      groups := groups.map (·.lowered n)
      useGroups := useGroups.map (·.lowered n)
      rules := rules.map (·.lowered n)
      useRules := useRules.map (·.lowered n)
      origin := origin.lowered n }

/-- Some modules. -/
def Module.loweredAll (n : Nat) : List Module → List Module
  | [] => []
  | d :: more => d.lowered n :: Module.loweredAll n more

end

theorem Module.loweredAll_eq (ds : List Module) :
    Module.loweredAll n ds = ds.map (·.lowered n) := by
  induction ds with
  | nil => rfl
  | cons d more ih => rw [loweredAll, ih, List.map_cons]

@[simp] theorem Module.lowered_zero : ∀ d : Module, d.lowered 0 = d
  | ⟨_, _, modules, _, _, _, _, _, _⟩ => by
    have inner : modules.map (·.lowered 0) = modules :=
      (List.map_congr_left fun d inside => lowered_zero d).trans (List.map_id modules)
    simp [lowered, loweredAll_eq, inner]
termination_by d => sizeOf d
decreasing_by
  have less := List.sizeOf_lt_of_mem inside
  simp
  omega

@[simp] theorem Module.lowered_lowered (n m : Nat) :
    ∀ d : Module, (d.lowered n).lowered m = d.lowered (n + m)
  | ⟨_, _, modules, _, _, _, _, _, _⟩ => by
    have inner : modules.map (fun d => (d.lowered n).lowered m) = modules.map (·.lowered (n + m)) :=
      List.map_congr_left fun d inside => lowered_lowered n m d
    simp [lowered, loweredAll_eq, Function.comp_def, inner]
termination_by d => sizeOf d
decreasing_by
  have less := List.sizeOf_lt_of_mem inside
  simp
  omega

def Plan.lowered (n : Nat) (d : Plan) : Plan :=
  { d with
    settings := d.settings.map (·.lowered n)
    modules := d.modules.map (·.lowered n)
    useModules := d.useModules.map (·.lowered n)
    origin := d.origin.lowered n }

@[simp] theorem Plan.lowered_zero (d : Plan) : d.lowered 0 = d := by
  simp [lowered]

@[simp] theorem Plan.lowered_lowered (d : Plan) : (d.lowered n).lowered m = d.lowered (n + m) := by
  simp [lowered]

/-! ## Declarations -/

/-- A declaration some lines further down, with all that is in it. -/
def lowered (n : Nat) : Declaration → Declaration
  | .plan d => .plan (d.lowered n)
  | .module d => .module (d.lowered n)
  | .group d => .group (d.lowered n)
  | .rule d => .rule (d.lowered n)

@[simp] theorem lowered_zero (d : Declaration) : d.lowered 0 = d := by
  cases d <;> simp [lowered]

@[simp] theorem lowered_lowered (d : Declaration) :
    (d.lowered n).lowered m = d.lowered (n + m) := by
  cases d <;> simp [lowered]

end Declaration

/-! ## What is being read -/

/-- The parts of a rule read so far. -/
def Parser.RuleParts.lowered (n : Nat) (parts : RuleParts) : RuleParts :=
  { parts with settings := parts.settings.map (·.lowered n) }

namespace Reader

/-- A member of a declaration. -/
def Member.lowered (n : Nat) : Member → Member
  | .setting s => .setting (s.lowered n)
  | .inclusion kind i => .inclusion kind (i.lowered n)
  | .module d => .module (d.lowered n)
  | .group d => .group (d.lowered n)
  | .rule d => .rule (d.lowered n)

variable {n : Nat} (members : List Member)

/-- What is picked from members that stand further down stands further down. -/
private theorem filterMap_lowered {α : Type} (pick : Member → Option α) (lower : α → α)
    (h : ∀ m, pick (m.lowered n) = (pick m).map lower) :
    (members.map (·.lowered n)).filterMap pick = (members.filterMap pick).map lower := by
  rw [List.filterMap_map, List.map_filterMap]
  exact congrArg (members.filterMap ·) (funext h)

@[simp] theorem settings_lowered :
    settings (members.map (·.lowered n)) = (settings members).map (·.lowered n) :=
  filterMap_lowered members _ _ fun m => by cases m <;> rfl

@[simp] theorem inclusions_lowered (kind : DeclarationKind) :
    inclusions kind (members.map (·.lowered n)) = (inclusions kind members).map (·.lowered n) := by
  refine filterMap_lowered members _ _ fun m => ?_
  cases m with
  | inclusion k i =>
    by_cases same : k = kind <;> simp [Member.lowered, same]
  | _ => rfl

@[simp] theorem modules_lowered :
    modules (members.map (·.lowered n)) = (modules members).map (·.lowered n) :=
  filterMap_lowered members _ _ fun m => by cases m <;> rfl

@[simp] theorem groups_lowered :
    groups (members.map (·.lowered n)) = (groups members).map (·.lowered n) :=
  filterMap_lowered members _ _ fun m => by cases m <;> rfl

@[simp] theorem rules_lowered :
    rules (members.map (·.lowered n)) = (rules members).map (·.lowered n) :=
  filterMap_lowered members _ _ fun m => by cases m <;> rfl

end Reader

end Compliance
