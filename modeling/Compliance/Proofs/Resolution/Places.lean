import Compliance.Proofs.Resolution.Reached
import Compliance.Proofs.Settings.Innermost

/-!
# What declarations become, place by place

A resolution goes through the members of a declaration in order, and each of them
has a place in the result: a declaration that is written there stands for itself, a
reference for all that is declared behind it, and what is lost leaves its place
empty.  What is resolved in a place has the settings in effect there, whichever way
it came to be there: a file that is referred to from two places is resolved in each.

## Main definitions

* `Declaration.members`, `Resolved.children` — what stands in a declaration, and in a
  resolved one.
* `Resolver.Becomes` — what members become, with the issues on the way.
* `Resolver.Achieves` — a part of a resolution comes to what its members become.
* `Declaration.Encloses` — the declarations that a declaration lies in.
* `Resolver.settings_innermost` — settings in effect are the innermost valid ones.
-/

namespace Compliance

/-! ## Members -/

namespace Declaration

/-- The settings that a declaration makes itself. -/
def settings : Declaration → List Assignment
  | .plan d => d.settings
  | .module d => d.settings
  | .group d => d.settings
  | .rule d => d.settings

/-- What stands in a declaration: another one, or a reference to some of a kind. -/
inductive Member where
  | written (d : Declaration)
  | used (kind : DeclarationKind) (reference : Inclusion)

/-- Declarations of a kind that are written in place, then references to such. -/
def membersOf {α : Type} (kind : DeclarationKind) (wrap : α → Declaration) (own : List α)
    (references : List Inclusion) : List Member :=
  own.map (fun d => .written (wrap d)) ++ references.map (.used kind)

/-- The members of a declaration in the order of their resolution. -/
def members : Declaration → List Member
  | .plan d => membersOf .module .module d.modules d.useModules
  | .module d => membersOf .module .module d.modules d.useModules ++
      membersOf .group .group d.groups d.useGroups ++ membersOf .rule .rule d.rules d.useRules
  | .group d => membersOf .rule .rule d.rules d.useRules
  | .rule _ => []

end Declaration

namespace Resolved

/-- The settings in effect for a resolved declaration. -/
def settings : Resolved → Settings
  | .plan x => x.settings
  | .module x => x.settings
  | .group x => x.settings
  | .rule x => x.settings

/-- What stands in a resolved declaration. -/
def children : Resolved → List Resolved
  | .plan x => x.modules.map .module
  | .module x => x.modules.map .module ++ x.groups.map .group ++ x.rules.map .rule
  | .group x => x.rules.map .rule
  | .rule _ => []

/-- A resolved declaration is what became of one that is written: its settings and what stands in it
apart, nothing has changed, and the target of a rule is read. -/
def StandsFor : Resolved → Declaration → Prop
  | .plan x, .plan d => x.name = d.name
  | .module x, .module d => x.name = d.name
  | .group x, .group d => x.name = d.name
  | .rule x, .rule d => x.name = d.name ∧ TypeRef.read? d.target = some x.target ∧
      x.conditions = d.conditions ∧ x.assertions = d.assertions ∧ x.origin = d.origin
  | _, _ => False

end Resolved

/-! ## What members become -/

namespace Resolver

open Declaration Resolving

/-- While some paths are active, a reference from a place is refused with an issue. -/
inductive Refuses (r : Resolver) (active : List Path) (place : Path) (kind : DeclarationKind)
    (reference : Inclusion) : Issue → Prop
  | cycle {path : Path} : path = Sources.locate place reference.path → path ∈ active →
      Refuses r active place kind reference (.includeCycle reference.origin path.text)
  | unread {path : Path} {fault : ReadFault} : path = Sources.locate place reference.path →
      path ∉ active → r.sources.read path = .error fault →
      Refuses r active place kind reference (Issue.ofReadFault reference.origin path fault)
  | unparsed {path : Path} {text : String} {error : SyntaxError} :
      path = Sources.locate place reference.path → path ∉ active →
      r.sources.read path = .ok text → parse text path.text kind = .error error →
      Refuses r active place kind reference (.fragment error)

/-- In a place inside declarations with settings, the innermost first, members become resolved
declarations, while some paths are active and `top` is handed down from outside. -/
inductive Becomes (r : Resolver) (top : Settings) : List Path → List (List Assignment) → Path →
    List Member → List Resolved → List Issue → Prop
  | nil {active outer place} : Becomes r top active outer place [] [] []
  /-- A declaration in place is resolved there, with the settings in effect inside it. -/
  | written {active outer place d x members found inner issues} :
      x.StandsFor d →
      (∀ ref, x.settings.get? ref = r.catalogue.effective? top (d.settings :: outer) ref) →
      Becomes r top active (d.settings :: outer) place d.members x.children inner →
      Becomes r top active outer place members found issues →
      Becomes r top active outer place (.written d :: members) (x :: found)
        (r.settingIssues d.settings ++ inner ++ issues)
  /-- A rule whose target is not a resource type is lost. -/
  | lost {active outer place members found issues} {d : Rule} :
      TypeRef.read? d.target = none →
      Becomes r top active outer place members found issues →
      Becomes r top active outer place (.written (.rule d) :: members) found
        (.malformedTarget d.origin d.name d.target :: issues)
  /-- What is declared behind a reference is resolved as if it were written in its place, with
  references of its own that start from where it is. -/
  | used {active outer place kind reference path fragment inside inner members found issues} :
      r.sources.Expands place kind reference path fragment → path ∉ active →
      Becomes r top (path :: active) outer (r.sources.baseDir path) (fragment.map .written)
        inside inner →
      Becomes r top active outer place members found issues →
      Becomes r top active outer place (.used kind reference :: members) (inside ++ found)
        (inner ++ issues)
  /-- A reference that is refused stands for nothing. -/
  | unused {active outer place kind reference issue members found issues} :
      r.Refuses active place kind reference issue →
      Becomes r top active outer place members found issues →
      Becomes r top active outer place (.used kind reference :: members) found (issue :: issues)

variable {r : Resolver} {top : Settings} {active : List Path}
  {outer : List (List Assignment)} {place : Path} {members members' : List Member}

theorem Becomes.append {found found' : List Resolved} {issues issues' : List Issue}
    (h : r.Becomes top active outer place members found issues)
    (h' : r.Becomes top active outer place members' found' issues') :
    r.Becomes top active outer place (members ++ members') (found ++ found')
      (issues ++ issues') := by
  induction h with
  | nil => exact h'
  | written stands law inside _ _ ih =>
    rw [List.append_assoc (_ ++ _)]
    exact .written stands law inside (ih h')
  | lost read _ ih => exact .lost read (ih h')
  | used expands fresh inside _ _ ih =>
    rw [List.append_assoc, List.append_assoc]
    exact .used expands fresh inside (ih h')
  | unused refused _ ih => exact .unused refused (ih h')

/-- A single declaration. -/
theorem Becomes.single {d : Declaration} {x : Resolved} {inner : List Issue}
    (stands : x.StandsFor d)
    (law : ∀ ref, x.settings.get? ref = r.catalogue.effective? top (d.settings :: outer) ref)
    (inside : r.Becomes top active (d.settings :: outer) place d.members x.children inner) :
    r.Becomes top active outer place [.written d] [x] (r.settingIssues d.settings ++ inner) := by
  have one := Becomes.written stands law inside .nil
  rwa [List.append_nil] at one

/-! ## Parts of a resolution -/

section Achieves

variable {α β : Type} {wrap : β → Resolved}

/-- What is handed down to a place is in effect there. -/
def Handed (r : Resolver) (top : Settings) (outer : List (List Assignment)) (inherited : Settings) :
    Prop :=
  ∀ ref, inherited.get? ref = r.catalogue.effective? top outer ref

/-- Among active paths, a part of a resolution comes to what members in a place become. -/
def Achieves (r : Resolver) (top : Settings) (active : List Path)
    (outer : List (List Assignment)) (place : Path) (members : List Member) (wrap : β → Resolved)
    (act : Resolving (List β)) : Prop :=
  ∃ found issues, Yields act active found issues ∧
    r.Becomes top active outer place members (found.map wrap) issues

/-- The same of a part that comes to a single declaration. -/
def AchievesOne (r : Resolver) (top : Settings) (active : List Path)
    (outer : List (List Assignment)) (place : Path) (d : Declaration) (wrap : β → Resolved)
    (act : Resolving β) : Prop :=
  ∃ x issues, Yields act active x issues ∧
    r.Becomes top active outer place [.written d] [wrap x] issues

theorem AchievesOne.list {d : Declaration} {act : Resolving β}
    (h : r.AchievesOne top active outer place d wrap act) :
    r.Achieves top active outer place [.written d] wrap (do return [← act]) := by
  obtain ⟨x, issues, yields, becomes⟩ := h
  refine ⟨[x], issues, ?_, becomes⟩
  have all := yields.bind (k := fun x => pure [x]) yields_pure
  rwa [List.append_nil] at all

theorem achieves_nil : r.Achieves top active outer place [] wrap (pure []) :=
  ⟨[], [], yields_pure, .nil⟩

/-- Members one after the other. -/
theorem Achieves.append {act act' : Resolving (List β)}
    (h : r.Achieves top active outer place members wrap act)
    (h' : r.Achieves top active outer place members' wrap act') :
    r.Achieves top active outer place (members ++ members') wrap
      (do let first ← act; let others ← act'; return first ++ others) := by
  obtain ⟨first, issues, yields, becomes⟩ := h
  obtain ⟨others, issues', yields', becomes'⟩ := h'
  refine ⟨first ++ others, issues ++ (issues' ++ []),
    yields.bind (yields'.bind yields_pure), ?_⟩
  rw [List.map_append, List.append_nil]
  exact becomes.append becomes'

theorem achieves_gather {f : α → Resolving (List β)} {member : α → Member} {as : List α}
    (h : ∀ a ∈ as, r.Achieves top active outer place [member a] wrap (f a)) :
    r.Achieves top active outer place (as.map member) wrap (gather f as) := by
  induction as with
  | nil => exact achieves_nil
  | cons a more ih =>
    rw [List.forall_mem_cons] at h
    exact h.1.append (ih h.2)

theorem achieves_leaveOut {member : Member} {issue : Issue}
    (h : r.Becomes top active outer place [member] [] [issue]) :
    r.Achieves top active outer place [member] wrap (leaveOut issue) :=
  ⟨[], [issue], yields_leaveOut issue, h⟩

/-- **A reference stands for what is declared behind it**, or is refused. -/
theorem achieves_expand {kind : DeclarationKind} {each : Path → Declaration → Resolving (List β)}
    (hs : r.Stacked active)
    (h : ∀ path, r.Stacked (path :: active) → ∀ d : Declaration, d.kind = kind →
      r.Achieves top (path :: active) outer (r.sources.baseDir path) [.written d] wrap
        (each path d)) (reference : Inclusion) :
    r.Achieves top active outer place [.used kind reference] wrap
      (r.expand kind place each reference) := by
  suffices among : r.Achieves top active outer place [.used kind reference] wrap
      (r.expandAmong kind place each reference active) by
    obtain ⟨found, issues, yields, becomes⟩ := among
    exact ⟨found, issues, yields_get yields, becomes⟩
  unfold expandAmong
  simp only
  split
  · next cycle =>
    exact achieves_leaveOut (.unused (.cycle rfl (by simpa using cycle)) .nil)
  · next fresh =>
    have fresh : Sources.locate place reference.path ∉ active := by simpa using fresh
    split
    · next fault unread => exact achieves_leaveOut (.unused (.unread rfl fresh unread) .nil)
    · next text read =>
      split
      · next error unparsed =>
        exact achieves_leaveOut (.unused (.unparsed rfl fresh read unparsed) .nil)
      · next fragment parsed =>
        have expands : r.sources.Expands place kind reference _ fragment :=
          ⟨rfl, text, read, parsed⟩
        have inside : ∀ d ∈ fragment, r.Achieves top (Sources.locate place reference.path :: active)
            outer (r.sources.baseDir (Sources.locate place reference.path)) [.written d] wrap
            (each (Sources.locate place reference.path) d) := by
          intro d hd
          have kind := (kind_and_file_of_parse parsed d hd).1
          exact h _ (hs.cons expands fresh (List.ne_nil_of_mem hd)) d kind
        obtain ⟨found, issues, yields, becomes⟩ := achieves_gather inside
        have one := Becomes.used expands fresh becomes .nil
        rw [List.append_nil, List.append_nil] at one
        exact ⟨found, issues, yields.during, one⟩

/-! ### Rules and groups -/

variable {inherited : Settings}

theorem achieves_rule (handed : r.Handed top outer inherited) (d : Declaration.Rule) :
    r.Achieves top active outer place [.written (.rule d)] .rule (r.rule inherited d) := by
  rw [rule]
  split
  · next unread => exact achieves_leaveOut (.lost unread .nil)
  · next target read =>
    obtain ⟨settings, yields, law⟩ := r.yields_settings active handed d.settings
    refine ⟨_, _, yields.bind yields_pure, ?_⟩
    exact .single (x := .rule _) ⟨rfl, read, rfl, rfl, rfl⟩ law .nil

/-- A rule behind a reference is resolved as one in place. -/
theorem achieves_ruleOf (handed : r.Handed top outer inherited) {d : Declaration}
    (kind : d.kind = .rule) :
    r.Achieves top active outer place [.written d] .rule (r.ruleOf inherited d) := by
  cases d with
  | rule d => exact achieves_rule handed d
  | _ => cases kind

/-- Declarations of a kind in place, then those behind references. -/
theorem achieves_membersOf {kind : DeclarationKind} {make : α → Declaration}
    {f : α → Resolving (List β)} {each : Path → Declaration → Resolving (List β)}
    (hs : r.Stacked active)
    (inPlace : ∀ d, r.Achieves top active outer place [.written (make d)] wrap (f d))
    (behind : ∀ path, r.Stacked (path :: active) → ∀ d : Declaration, d.kind = kind →
      r.Achieves top (path :: active) outer (r.sources.baseDir path) [.written d] wrap
        (each path d))
    (own : List α) (references : List Inclusion) :
    r.Achieves top active outer place (membersOf kind make own references) wrap
      (do
        let inPlace ← gather f own
        let referred ← gather (r.expand kind place each) references
        return inPlace ++ referred) :=
  (achieves_gather fun d _ => inPlace d).append
    (achieves_gather fun reference _ => achieves_expand hs behind reference)

theorem achieves_rules (hs : r.Stacked active) (handed : r.Handed top outer inherited)
    (own : List Declaration.Rule) (references : List Inclusion) :
    r.Achieves top active outer place (membersOf .rule .rule own references) .rule
      (r.rules inherited place own references) := by
  exact achieves_membersOf hs (achieves_rule handed)
    (fun path _ d kind => achieves_ruleOf handed kind) own references

theorem achieves_group (hs : r.Stacked active) (handed : r.Handed top outer inherited)
    (d : Declaration.Group) :
    r.AchievesOne top active outer place (.group d) .group (r.group inherited place d) := by
  obtain ⟨settings, yields, law⟩ := r.yields_settings active handed d.settings
  obtain ⟨rules, issues, yields', inside⟩ := achieves_rules hs law d.rules d.useRules
  refine ⟨_, _, yields.bind (yields'.bind yields_pure), ?_⟩
  rw [List.append_nil]
  exact .single (x := .group _) rfl law inside

/-- A group behind a reference is resolved as one in place. -/
theorem achieves_groupOf (hs : r.Stacked active) (handed : r.Handed top outer inherited)
    (path : Path) {d : Declaration} (kind : d.kind = .group) :
    r.Achieves top active outer (r.sources.baseDir path) [.written d] .group
      (r.groupOf inherited path d) := by
  cases d with
  | group d => exact (achieves_group hs handed d).list
  | _ => cases kind

theorem achieves_groups (hs : r.Stacked active) (handed : r.Handed top outer inherited)
    (own : List Declaration.Group) (references : List Inclusion) :
    r.Achieves top active outer place (membersOf .group .group own references) .group
      (r.groups inherited place own references) := by
  exact achieves_membersOf hs (fun d => (achieves_group hs handed d).list)
    (fun path stacked d kind => achieves_groupOf stacked handed path kind) own references

/-! ### Modules and plans -/

/-- A way of resolving declarations behind references comes to what they become, wherever it is
used. -/
def Achieving (r : Resolver) (top : Settings) (active : List Path) (within : Within) : Prop :=
  ∀ path, r.Stacked (path :: active) → ∀ outer inherited, r.Handed top outer inherited →
    ∀ d : Declaration, d.kind = .module →
      r.Achieves top (path :: active) outer (r.sources.baseDir path) [.written d] .module
        (within inherited path d)

variable {within : Within}

theorem achieves_useModules (hs : r.Stacked active) (hw : r.Achieving top active within)
    (handed : r.Handed top outer inherited) (references : List Inclusion) :
    r.Achieves top active outer place (references.map (.used .module)) .module
      (gather (r.expand .module place (within inherited)) references) :=
  achieves_gather fun reference _ =>
    achieves_expand hs (fun path stacked => hw path stacked outer inherited handed) reference

mutual

theorem achieves_moduleWith (hs : r.Stacked active) (hw : r.Achieving top active within)
    {outer : List (List Assignment)} {inherited : Settings}
    (handed : r.Handed top outer inherited) : ∀ d : Declaration.Module,
    r.AchievesOne top active outer place (.module d) .module
      (r.moduleWith within inherited place d)
  | ⟨name, own, modules, useModules, groups, useGroups, rules, useRules, origin⟩ => by
    obtain ⟨settings, yields, law⟩ := r.yields_settings active handed own
    obtain ⟨inPlace, first, yields₁, becomes₁⟩ := achieves_modulesWith hs hw law modules
    obtain ⟨referred, second, yields₂, becomes₂⟩ := achieves_useModules hs hw law useModules
    obtain ⟨groups', third, yields₃, becomes₃⟩ := achieves_groups hs law groups useGroups
    obtain ⟨rules', fourth, yields₄, becomes₄⟩ := achieves_rules hs law rules useRules
    have all : Yields (r.moduleWith within inherited place
        ⟨name, own, modules, useModules, groups, useGroups, rules, useRules, origin⟩) active
        ⟨name, settings, inPlace ++ referred, groups', rules'⟩
        (r.settingIssues own ++ (first ++ (second ++ (third ++ (fourth ++ []))))) := by
      rw [moduleWith]
      refine yields.bind ?_
      refine yields₁.bind ?_
      refine yields₂.bind ?_
      refine yields₃.bind ?_
      exact yields₄.bind yields_pure
    refine ⟨_, _, all, .single (x := .module _) rfl law ?_⟩
    have inside := ((becomes₁.append becomes₂).append becomes₃).append becomes₄
    simpa only [Declaration.settings, members, membersOf, Resolved.children, List.map_append,
      List.append_assoc, List.append_nil] using inside

theorem achieves_modulesWith (hs : r.Stacked active) (hw : r.Achieving top active within)
    {outer : List (List Assignment)} {inherited : Settings}
    (handed : r.Handed top outer inherited) : ∀ ds : List Declaration.Module,
    r.Achieves top active outer place (ds.map fun d => .written (.module d)) .module
      (r.modulesWith within inherited place ds)
  | [] => by
    rw [modulesWith]
    exact achieves_nil
  | d :: more => by
    obtain ⟨x, issues, yields, becomes⟩ := achieves_moduleWith hs hw handed d
    obtain ⟨others, issues', yields', becomes'⟩ := achieves_modulesWith hs hw handed more
    have all : Yields (r.modulesWith within inherited place (d :: more)) active (x :: others)
        (issues ++ (issues' ++ [])) := by
      rw [modulesWith]
      exact yields.bind (yields'.bind yields_pure)
    rw [List.append_nil] at all
    exact ⟨_, _, all, becomes.append becomes'⟩

end

/-- **Modules behind references come to what they become**: a path that becomes active was unread,
and one path less is unread inside it. -/
theorem achieving_moduleOf (active : List Path) :
    r.Achieving top active (r.moduleOf active) := by
  intro path stacked outer inherited handed d kind
  cases d with
  | module d =>
    rw [moduleOf_module stacked.mem_unread]
    have deeper : r.Achieving top (path :: active) (r.moduleOf (path :: active)) :=
      achieving_moduleOf (path :: active)
    exact (achieves_moduleWith stacked deeper handed d).list
  | _ => cases kind
termination_by (r.unread active).length
decreasing_by exact length_unread_cons (Stacked.mem_unread ‹_›)

theorem achieves_plan (handed : r.Handed top outer inherited) (d : Declaration.Plan) :
    r.AchievesOne top [] outer place (.plan d) .plan (r.plan inherited place d) := by
  have stacked : r.Stacked [] := ⟨List.nodup_nil, by simp⟩
  have within : r.Achieving top [] r.within := achieving_moduleOf []
  obtain ⟨settings, yields, law⟩ := r.yields_settings [] handed d.settings
  obtain ⟨inPlace, first, yields₁, becomes₁⟩ := achieves_modulesWith stacked within law d.modules
  obtain ⟨referred, second, yields₂, becomes₂⟩ :=
    achieves_useModules stacked within law d.useModules
  have all : Yields (r.plan inherited place d) [] ⟨d.name, settings, inPlace ++ referred⟩
      (r.settingIssues d.settings ++ (first ++ (second ++ []))) := by
    refine yields.bind ?_
    refine yields₁.bind ?_
    exact yields₂.bind yields_pure
  refine ⟨_, _, all, .single (x := .plan _) rfl law ?_⟩
  have inside := becomes₁.append becomes₂
  simpa only [Declaration.settings, members, membersOf, Resolved.children, List.map_append,
    List.append_nil] using inside

end Achieves

/-! ## Declarations -/

/-- The part of a resolution for a single declaration yields it. -/
theorem AchievesOne.some {β : Type} {wrap : β → Resolved} {d : Declaration} {act : Resolving β}
    (h : r.AchievesOne top active outer place d wrap act) :
    ∃ value issues, Yields (do return some (wrap (← act))) active value issues ∧
      r.Becomes top active outer place [.written d] value.toList issues := by
  obtain ⟨x, issues, yields, becomes⟩ := h
  have all := yields.bind (k := fun x => pure (Option.some (wrap x))) yields_pure
  rw [List.append_nil] at all
  exact ⟨_, _, all, becomes⟩

/-- **A declaration is resolved to what it becomes.** -/
theorem becomes_declaration (r : Resolver) (top : Settings) (base : Path) (d : Declaration) :
    ∃ value issues, Yields (r.declaration top base d) [] value issues ∧
      r.Becomes top [] [] base [.written d] value.toList issues := by
  have handed : r.Handed top [] top := fun ref => rfl
  have stacked : r.Stacked [] := ⟨List.nodup_nil, by simp⟩
  cases d with
  | plan d => exact (achieves_plan handed d).some
  | module d =>
    have within : r.Achieving top [] r.within := achieving_moduleOf []
    exact (achieves_moduleWith stacked within handed d).some
  | group d => exact (achieves_group stacked handed d).some
  | rule d =>
    obtain ⟨found, issues, yields, becomes⟩ := @achieves_rule r top [] [] base top handed d
    have all := yields.bind (k := fun found => pure (found.head?.map Resolved.rule)) yields_pure
    rw [List.append_nil] at all
    refine ⟨_, _, all, ?_⟩
    rcases found with _ | ⟨first, _ | ⟨second, more⟩⟩
    · exact becomes
    · exact becomes
    · cases becomes with
      | written _ _ _ rest | lost _ rest => cases rest

end Resolver

/-! ## Settings in effect -/

namespace Resolved

mutual

/-- A module and everything in it. -/
def Module.parts : Module → List Resolved
  | ⟨name, settings, modules, groups, rules⟩ =>
    .module ⟨name, settings, modules, groups, rules⟩ ::
      (Module.partsOfAll modules ++
        groups.flatMap (fun g => .group g :: g.rules.map .rule) ++ rules.map .rule)

/-- Some modules and everything in them. -/
def Module.partsOfAll : List Module → List Resolved
  | [] => []
  | m :: more => m.parts ++ Module.partsOfAll more

end

/-- A resolved declaration and everything in it: plans, modules, groups and rules. -/
def parts : Resolved → List Resolved
  | .plan x => .plan x :: Module.partsOfAll x.modules
  | .module x => x.parts
  | .group x => .group x :: x.rules.map .rule
  | .rule x => [.rule x]

theorem Module.partsOfAll_eq (ms : List Module) :
    Module.partsOfAll ms = (ms.map Resolved.module).flatMap Resolved.parts := by
  induction ms with
  | nil => rfl
  | cons m more ih => rw [Module.partsOfAll, ih, List.map_cons, List.flatMap_cons, Resolved.parts]

theorem flatMap_parts_rules (rules : List Rule) :
    (rules.map Resolved.rule).flatMap parts = rules.map .rule := by
  rw [List.flatMap_map]
  exact List.map_eq_flatMap.symm

/-- The parts of a declaration are itself and those of what stands in it. -/
theorem parts_eq (x : Resolved) : x.parts = x :: x.children.flatMap parts := by
  cases x with
  | plan x => rw [parts, Module.partsOfAll_eq, children]
  | module x =>
    obtain ⟨name, settings, modules, groups, rules⟩ := x
    rw [parts, Module.parts, Module.partsOfAll_eq, children, List.flatMap_append,
      List.flatMap_append, flatMap_parts_rules]
    simp only [List.flatMap_map, parts]
  | group x => rw [parts, children, flatMap_parts_rules]
  | rule x => rfl

mutual

private theorem Module.rule_mem_parts {rule : Rule} :
    ∀ m : Module, rule ∈ m.allRules → Resolved.rule rule ∈ m.parts
  | ⟨name, settings, modules, groups, rules⟩, h => by
    rw [Module.allRules, List.mem_append, List.mem_append, List.mem_flatMap] at h
    rw [Module.parts, List.mem_cons, List.mem_append, List.mem_append, List.mem_flatMap]
    rcases h with (own | ⟨g, hg, inside⟩) | below
    · exact .inr (.inr (List.mem_map_of_mem own))
    · exact .inr (.inl (.inr ⟨g, hg, List.mem_cons_of_mem _ (List.mem_map_of_mem inside)⟩))
    · exact .inr (.inl (.inl (Module.rule_mem_partsOfAll modules below)))

private theorem Module.rule_mem_partsOfAll {rule : Rule} :
    ∀ ms : List Module, rule ∈ Module.rulesOfAll ms → Resolved.rule rule ∈ Module.partsOfAll ms
  | [], h => by cases h
  | m :: more, h => by
    rw [Module.rulesOfAll, List.mem_append] at h
    rw [Module.partsOfAll, List.mem_append]
    exact h.imp (Module.rule_mem_parts m) (Module.rule_mem_partsOfAll more)

end

theorem rule_mem_parts {x : Resolved} {rule : Rule} (h : rule ∈ x.rules) :
    .rule rule ∈ x.parts := by
  cases x with
  | plan x => exact List.mem_cons_of_mem _ (Module.rule_mem_partsOfAll x.modules h)
  | module x => exact Module.rule_mem_parts x h
  | group x => exact List.mem_cons_of_mem _ (List.mem_map_of_mem h)
  | rule x => exact List.mem_singleton.mpr (congrArg _ (List.mem_singleton.mp h))

end Resolved

/-- From a declaration in a place, the declarations that lie in it, each with the settings that are
made around it, the innermost first, and the place that its own references start from.  What is
declared behind a reference lies in the declaration that the reference stands in. -/
inductive Declaration.Encloses (sources : Sources) (base : Path) (d : Declaration) :
    List (List Assignment) → Path → Declaration → Prop
  | itself : Encloses sources base d [] base d
  | written {outer place x y} : Encloses sources base d outer place x → .written y ∈ x.members →
      Encloses sources base d (x.settings :: outer) place y
  | used {outer place x y kind reference path fragment} : Encloses sources base d outer place x →
      .used kind reference ∈ x.members → sources.Expands place kind reference path fragment →
      y ∈ fragment → Encloses sources base d (x.settings :: outer) (sources.baseDir path) y

namespace Resolver

open Declaration

variable {r : Resolver} {top : Settings} {base : Path} {d : Declaration}

/-- A part of a resolved declaration stands for one of the declarations that lie in a given one, and
has the settings in effect inside that. -/
def InEffect (r : Resolver) (top : Settings) (base : Path) (d : Declaration) (part : Resolved) :
    Prop :=
  ∃ outer place written, d.Encloses r.sources base outer place written ∧ part.StandsFor written ∧
    ∀ ref, part.settings.get? ref = r.catalogue.effective? top (written.settings :: outer) ref

/-- The members lie in a declaration, and so does what is declared behind references among them. -/
structure Inside (sources : Sources) (base : Path) (d : Declaration)
    (outer : List (List Assignment)) (place : Path) (members : List Member) : Prop where
  written : ∀ y, .written y ∈ members → d.Encloses sources base outer place y
  used : ∀ kind reference, .used kind reference ∈ members → ∀ path fragment,
    sources.Expands place kind reference path fragment → ∀ y ∈ fragment,
      d.Encloses sources base outer (sources.baseDir path) y

theorem Inside.tail {sources : Sources} {outer : List (List Assignment)} {place : Path}
    {member : Member} {members : List Member}
    (h : Inside sources base d outer place (member :: members)) :
    Inside sources base d outer place members where
  written y hy := h.written y (List.mem_cons_of_mem _ hy)
  used kind reference hm := h.used kind reference (List.mem_cons_of_mem _ hm)

/-- The members of a declaration lie in it. -/
theorem Inside.members {sources : Sources} {outer : List (List Assignment)} {place : Path}
    {x : Declaration} (h : d.Encloses sources base outer place x) :
    Inside sources base d (x.settings :: outer) place x.members where
  written _ hy := .written h hy
  used _ _ hm _ _ expands _ hy := .used h hm expands hy

/-- **Every part of what members become has the settings in effect.** -/
theorem Becomes.inEffect {active : List Path} {outer : List (List Assignment)} {place : Path}
    {members : List Member} {found : List Resolved} {issues : List Issue}
    (h : r.Becomes top active outer place members found issues)
    (inside : Inside r.sources base d outer place members) :
    ∀ part ∈ found.flatMap Resolved.parts, r.InEffect top base d part := by
  induction h with
  | nil => simp
  | written stands law _ _ below rest =>
    have here := inside.written _ (List.mem_cons_self ..)
    intro part hm
    rw [List.flatMap_cons, Resolved.parts_eq, List.mem_append, List.mem_cons] at hm
    rcases hm with (rfl | hm) | hm
    · exact ⟨_, _, _, here, stands, law⟩
    · exact below (.members here) part hm
    · exact rest inside.tail part hm
  | lost _ _ rest => exact rest inside.tail
  | used expands _ _ _ below rest =>
    have behind := inside.used _ _ (List.mem_cons_self ..) _ _ expands
    intro part hm
    rw [List.flatMap_append, List.mem_append] at hm
    rcases hm with hm | hm
    · refine below ⟨fun y hy => ?_, fun kind reference hm => ?_⟩ part hm
      · obtain ⟨z, hz, same⟩ := List.mem_map.mp hy
        cases same
        exact behind y hz
      · obtain ⟨z, -, same⟩ := List.mem_map.mp hm
        cases same
    · exact rest inside.tail part hm
  | unused _ _ rest => exact rest inside.tail

/-- **The settings in effect are the innermost valid ones.**

Whatever declaration is resolved, with whatever settings handed down, it becomes place by place what
it should: in each place of the result every name has the value of the last valid `set` in the
innermost declaration around the place that has one, and what was handed down if there is none.
In particular, every rule and every other part of the result stands for a declaration that lies in
the one that was resolved, or behind a reference in it, and has these values. -/
theorem settings_innermost (r : Resolver) (top : Settings) (base : Path) (d : Declaration) :
    ∃ resolution, (r.resolveIn top base d).run Resolving.State.idle =
        (resolution, Resolving.State.idle) ∧
      r.Becomes top [] [] base [.written d] resolution.value.toList resolution.issues ∧
      ∀ resolved ∈ resolution.value,
        (∀ part ∈ resolved.parts, r.InEffect top base d part) ∧
        ∀ rule ∈ resolved.rules, .rule rule ∈ resolved.parts := by
  obtain ⟨resolution, run, comes⟩ := r.run_resolveIn top base d
  obtain ⟨value, issues, yields, becomes⟩ := r.becomes_declaration top base d
  obtain ⟨same, same'⟩ := yields.unique comes
  rw [← same, ← same'] at becomes
  have inside : Inside r.sources base d [] base [.written d] := by
    refine ⟨fun y hy => ?_, fun kind reference hm => ?_⟩
    · cases List.mem_singleton.mp hy
      exact .itself
    · cases List.mem_singleton.mp hm
  have all := becomes.inEffect inside
  refine ⟨resolution, run, becomes, fun resolved hr => ⟨fun part hp => ?_, fun rule =>
    Resolved.rule_mem_parts⟩⟩
  rw [Option.mem_def.mp hr] at all
  exact all part (by simpa using hp)

end Resolver

end Compliance
