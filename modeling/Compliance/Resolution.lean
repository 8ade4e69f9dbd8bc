import Compliance.Declaration.Reader
import Compliance.Resolution.Issue
import Compliance.Resolved

/-!
# Resolution

Following the references of declarations.  Settings are handed down from plans to
modules, groups and rules; a reference to other declarations is replaced by what
is declared there, with the settings of the place that refers to it.  Nothing
stops a resolution: what cannot be resolved is left out and becomes an issue.

While the declarations behind a path are being resolved, the path is *active*,
and a reference that leads to an active path is refused.  The others are *unread*,
and there are finitely many of them with something declared: inside each reference
one less is left, so references end.

## Main definitions

* `Resolver` — where references lead, and which settings are declared.
* `Resolver.expand` — what a reference to other declarations stands for.
* `Resolver.moduleOf` — a module behind a reference, by recursion on the unread paths.
* `Resolver.module`, `Resolver.group`, `Resolver.rule` — resolved declarations.
* `Resolver.resolve` — the resolution of a declaration.
-/

namespace Compliance

/-- What a declaration resolves to, and the issues on the way. -/
structure Resolution where
  value : Option Resolved
  issues : List Issue

/-- Whether a rule or the declarations behind a reference are lost. -/
def Resolution.hasFatal (r : Resolution) : Bool := r.issues.any Issue.isFatal

/-- What a resolution depends on. -/
structure Resolver where
  sources : Sources
  catalogue : Catalogue

/-- What changes during a resolution. -/
structure Resolving.State where
  /-- The paths whose declarations are being resolved, the innermost first. -/
  active : List Path
  /-- The issues so far, in order. -/
  issues : List Issue
deriving Inhabited

/-- A part of a resolution. -/
abbrev Resolving (α : Type) := StateM Resolving.State α

namespace Resolving

/-- The state between two resolutions. -/
def State.idle : State := ⟨[], []⟩

/-- Adds an issue. -/
def report (issue : Issue) : Resolving Unit :=
  modify fun s => { s with issues := s.issues ++ [issue] }

/-- Does something while a path is active. -/
def during {α : Type} (path : Path) (act : Resolving α) : Resolving α := do
  modify fun s => { s with active := path :: s.active }
  let a ← act
  modify fun s => { s with active := s.active.tail }
  return a

/-- All results for the members of a list, in order. -/
def gather {α β : Type} (f : α → Resolving (List β)) : List α → Resolving (List β)
  | [] => return []
  | a :: more => do
    let first ← f a
    let others ← gather f more
    return first ++ others

/-- Leaves something out and says why. -/
def leaveOut {β : Type} (issue : Issue) : Resolving (List β) := do
  report issue
  return []

end Resolving

namespace Resolver

open Resolving

/-! ## Settings -/

/-- The setting that a `set` makes, if its key is a name and its value is of a kind that settings
may hold and that the catalogue declares. -/
def setting (r : Resolver) (s : Declaration.Assignment) : Except Issue Setting :=
  match SettingRef.read? s.key with
  | none => .error (.malformedSetting s.origin s.key)
  | some ref =>
    match Scalar.ofValue? s.value with
    | none => .error (.settingValue s.origin s.key (.notAllowed s.value.kind))
    | some value =>
      match r.catalogue ref with
      | none => .ok ⟨ref, value⟩
      | some declared =>
        if declared = value.kind then .ok ⟨ref, value⟩
        else .error (.settingValue s.origin s.key (.mismatch declared value.kind))

/-- A declaration's own settings; later ones replace earlier ones of the same name. -/
def ownSettings (r : Resolver) : Settings → List Declaration.Assignment → Resolving Settings
  | own, [] => return own
  | own, s :: more =>
    match r.setting s with
    | .ok setting => r.ownSettings (own.insert setting) more
    | .error issue => do
      report issue
      r.ownSettings own more

/-- The settings in effect for a declaration inside others. -/
def settings (r : Resolver) (inherited : Settings) (own : List Declaration.Assignment) :
    Resolving Settings := do
  return inherited.inherit (← r.ownSettings Settings.empty own)

/-! ## References to other declarations -/

/-- What a reference from a place stands for: `each` resolves one of the declarations behind it,
given the path that the reference leads to. -/
def expand {β : Type} (r : Resolver) (kind : DeclarationKind) (base : Path)
    (each : Path → Declaration → Resolving (List β)) (reference : Declaration.Inclusion) :
    Resolving (List β) := do
  let path := Sources.locate base reference.path
  if (← get).active.contains path then
    leaveOut (.includeCycle reference.origin path.text)
  else
    match r.sources.read path with
    | .error fault => leaveOut (Issue.ofReadFault reference.origin path fault)
    | .ok text =>
      match Declaration.parse text path.text kind with
      | .error error => leaveOut (.fragment error)
      | .ok declarations =>
        during path (gather (each path) declarations)

/-! ## Declarations -/

/-- A rule, if its target is the name of a resource type. -/
def rule (r : Resolver) (inherited : Settings) (d : Declaration.Rule) :
    Resolving (List Resolved.Rule) := do
  match TypeRef.read? d.target with
  | none => leaveOut (.malformedTarget d.origin d.name d.target)
  | some target =>
    return [{
      name := d.name
      target
      settings := ← r.settings inherited d.settings
      conditions := d.conditions
      assertions := d.assertions
      origin := d.origin }]

/-- A declaration behind a reference to rules. -/
def ruleOf (r : Resolver) (inherited : Settings) : Declaration → Resolving (List Resolved.Rule)
  | .rule d => r.rule inherited d
  | _ => return []

/-- Rules written in place, then those referred to. -/
def rules (r : Resolver) (inherited : Settings) (base : Path) (own : List Declaration.Rule)
    (references : List Declaration.Inclusion) : Resolving (List Resolved.Rule) := do
  let inPlace ← gather (r.rule inherited) own
  let referred ← gather (r.expand .rule base fun _ d => r.ruleOf inherited d) references
  return inPlace ++ referred

def group (r : Resolver) (inherited : Settings) (base : Path) (d : Declaration.Group) :
    Resolving Resolved.Group := do
  let settings ← r.settings inherited d.settings
  return { name := d.name, settings, rules := ← r.rules settings base d.rules d.useRules }

/-- A declaration behind a path that a reference to groups leads to. -/
def groupOf (r : Resolver) (inherited : Settings) (path : Path) :
    Declaration → Resolving (List Resolved.Group)
  | .group d => return [← r.group inherited (r.sources.baseDir path) d]
  | _ => return []

/-- Groups written in place, then those referred to. -/
def groups (r : Resolver) (inherited : Settings) (base : Path) (own : List Declaration.Group)
    (references : List Declaration.Inclusion) : Resolving (List Resolved.Group) := do
  let inPlace ← gather (fun d => return [← r.group inherited base d]) own
  let referred ← gather (r.expand .group base (r.groupOf inherited)) references
  return inPlace ++ referred

/-- How the modules behind a path are resolved. -/
abbrev Within := Settings → Path → Declaration → Resolving (List Resolved.Module)

mutual

/-- A module, the modules that it refers to resolved by `within`. -/
def moduleWith (r : Resolver) (within : Within) (inherited : Settings) (base : Path) :
    Declaration.Module → Resolving Resolved.Module
  | ⟨name, own, modules, useModules, groups, useGroups, rules, useRules, _⟩ => do
    let settings ← r.settings inherited own
    let inPlace ← r.modulesWith within settings base modules
    let referred ← gather (r.expand .module base (within settings)) useModules
    let groups ← r.groups settings base groups useGroups
    let rules ← r.rules settings base rules useRules
    return { name, settings, modules := inPlace ++ referred, groups, rules }

/-- Modules written in place. -/
def modulesWith (r : Resolver) (within : Within) (inherited : Settings) (base : Path) :
    List Declaration.Module → Resolving (List Resolved.Module)
  | [] => return []
  | d :: more => do
    let first ← r.moduleWith within inherited base d
    let others ← r.modulesWith within inherited base more
    return first :: others

end

/-- The paths that are not active, among them all that declare something. -/
def unread (r : Resolver) (active : List Path) : List Path :=
  r.sources.extent.filter fun path => path ∉ active

theorem mem_unread {r : Resolver} {active : List Path} {path : Path} :
    path ∈ r.unread active ↔ path ∈ r.sources.extent ∧ path ∉ active := by
  simp [unread]

/-- While a path is active, one path less is unread. -/
theorem length_unread_cons {r : Resolver} {active : List Path} {path : Path}
    (h : path ∈ r.unread active) :
    (r.unread (path :: active)).length < (r.unread active).length := by
  have fewer : r.unread (path :: active) = (r.unread active).filter fun other => other ≠ path := by
    simp [unread, List.filter_filter]
  rw [fewer, List.length_filter_lt_length_iff_exists]
  exact ⟨path, h, by simp⟩

/-- A declaration behind a path that a reference to modules leads to, while others are active.  A
path that declares something is unread until then, so references end. -/
def moduleOf (r : Resolver) (active : List Path) : Within := fun inherited path d =>
  match d with
  | .module d =>
    if path ∈ r.unread active then
      return [← r.moduleWith (r.moduleOf (path :: active)) inherited (r.sources.baseDir path) d]
    else return []
  | _ => return []
termination_by (r.unread active).length
decreasing_by exact length_unread_cons ‹_›

/-- A declaration behind a reference to modules, where no path is active. -/
def within (r : Resolver) : Within := r.moduleOf []

def module (r : Resolver) (inherited : Settings) (base : Path) (d : Declaration.Module) :
    Resolving Resolved.Module :=
  r.moduleWith r.within inherited base d

def plan (r : Resolver) (inherited : Settings) (base : Path) (d : Declaration.Plan) :
    Resolving Resolved.Plan := do
  let settings ← r.settings inherited d.settings
  let inPlace ← r.modulesWith r.within settings base d.modules
  let referred ← gather (r.expand .module base (r.within settings)) d.useModules
  return { name := d.name, settings, modules := inPlace ++ referred }

/-- A declaration of any kind; a rule may be left out. -/
def declaration (r : Resolver) (inherited : Settings) (base : Path) :
    Declaration → Resolving (Option Resolved)
  | .plan d => return some (.plan (← r.plan inherited base d))
  | .module d => return some (.module (← r.module inherited base d))
  | .group d => return some (.group (← r.group inherited base d))
  | .rule d => return (← r.rule inherited d).head?.map .rule

/-! ## Resolutions -/

/-- The resolution of a declaration whose references start from a directory.  The issues go into
the resolution, and the state is ready for the next. -/
def resolveIn (r : Resolver) (inherited : Settings) (base : Path) (d : Declaration) :
    Resolving Resolution := do
  let value ← r.declaration inherited base d
  let issues := (← get).issues
  modify fun s => { s with issues := [] }
  return { value, issues }

/-- The resolution of a declaration whose references start from the directory of its file. -/
def resolve (r : Resolver) (inherited : Settings) (d : Declaration) : Resolving Resolution :=
  r.resolveIn inherited (r.sources.baseDir ⟨d.origin.file⟩) d

/-- The resolutions of some declarations, one after the other. -/
def resolveAll (r : Resolver) (inherited : Settings) :
    List Declaration → Resolving (List Resolution)
  | [] => return []
  | d :: more => do
    let first ← r.resolve inherited d
    let others ← r.resolveAll inherited more
    return first :: others

end Resolver

end Compliance
