import Compliance.Proofs.Resolution.Blind
import Compliance.Proofs.Resolution.Unfolded

/-!
# Inclusion is transparent

A reference stands for what is declared behind it.  If the declarations behind the
references of a declaration refer to nothing further, they may as well be written in
place, behind those of their kind that are written there already: the resolution is
the same, with the same issues in the same order.

## Main definitions

* `Sources.behind` — the declarations behind a reference.
* `Declaration.inlined` — a declaration with these in the place of its references.
* `Sources.EndsAt` — a reference leads to declarations that refer to nothing further.
* `Resolver.references_agree` — references are followed as what is behind them is resolved.
* `Resolver.resolve_inlined` — a declaration is resolved as if all were written in place.
-/

namespace Compliance

open Resolving

/-! ## Writing in place -/

/-- The declarations behind a reference; none if they cannot be read. -/
def Sources.behind (sources : Sources) (kind : DeclarationKind) (place : Path)
    (reference : Declaration.Inclusion) : List Declaration :=
  match sources.read (locate place reference.path) with
  | .error _ => []
  | .ok text => (Declaration.parse text (locate place reference.path).text kind).toOption.getD []

namespace Declaration

section

variable (sources : Sources) (place : Path)

/-- The rules behind some references, in the order of these. -/
def rulesBehind (references : List Inclusion) : List Rule :=
  references.flatMap fun reference => (sources.behind .rule place reference).filterMap rule?

/-- The groups behind some references. -/
def groupsBehind (references : List Inclusion) : List Group :=
  references.flatMap fun reference => (sources.behind .group place reference).filterMap group?

/-- The modules behind some references. -/
def modulesBehind (references : List Inclusion) : List Module :=
  references.flatMap fun reference => (sources.behind .module place reference).filterMap module?

/-- A group with the rules that it refers to behind its own. -/
def Group.inlined (d : Group) : Group :=
  { d with rules := d.rules ++ rulesBehind sources place d.useRules, useRules := [] }

mutual

/-- A module with what it refers to behind its own declarations of that kind, and the same for all
that is written in it. -/
def Module.inlined : Module → Module
  | ⟨name, settings, modules, useModules, groups, useGroups, rules, useRules, origin⟩ =>
    { name
      settings
      modules := Module.inlinedAll modules ++ modulesBehind sources place useModules
      useModules := []
      groups := groups.map (Group.inlined sources place) ++ groupsBehind sources place useGroups
      useGroups := []
      rules := rules ++ rulesBehind sources place useRules
      useRules := []
      origin }

/-- The same for some modules. -/
def Module.inlinedAll : List Module → List Module
  | [] => []
  | d :: more => d.inlined :: Module.inlinedAll more

end

/-- A plan with the modules that it refers to behind its own. -/
def Plan.inlined (d : Plan) : Plan :=
  { d with
    modules := Module.inlinedAll sources place d.modules ++
      modulesBehind sources place d.useModules
    useModules := [] }

/-- A declaration whose references start from a place, with what is behind them in their place. -/
def inlined : Declaration → Declaration
  | .plan d => .plan (d.inlined sources place)
  | .module d => .module (d.inlined sources place)
  | .group d => .group (d.inlined sources place)
  | .rule d => .rule d

end

end Declaration

/-! ## References that end -/

/-- A reference from a place leads to declarations that refer to nothing further. -/
def Sources.EndsAt (sources : Sources) (place : Path) (kind : DeclarationKind)
    (reference : Declaration.Inclusion) : Prop :=
  ∃ path fragment, sources.Expands place kind reference path fragment ∧
    ∀ d ∈ fragment, d.references = []

namespace Sources

variable {sources : Sources} {place path : Path} {kind : DeclarationKind}
  {reference : Declaration.Inclusion} {fragment : List Declaration}

/-- What stands behind a reference is what it expands to. -/
theorem Expands.behind_eq (h : sources.Expands place kind reference path fragment) :
    sources.behind kind place reference = fragment := by
  obtain ⟨rfl, text, read, parsed⟩ := h
  simp only [behind, read, parsed, Except.toOption, Option.getD_some]

end Sources

namespace Resolver

variable {r : Resolver} {base : Path} {inherited : Settings}

/-- A reference is resolved as what is behind it is gathered. -/
theorem expand_agrees {β : Type} {kind : DeclarationKind}
    {each : Path → Declaration → Resolving (List β)} {reference : Declaration.Inclusion}
    {path : Path} {fragment : List Declaration}
    (expands : r.sources.Expands base kind reference path fragment)
    (blind : ∀ d ∈ fragment, Blind (each path d)) :
    Agree (r.expand kind base each reference) (gather (each path) fragment) := by
  obtain ⟨rfl, text, read, parsed⟩ := expands
  intro issues
  have here : (r.expand kind base each reference).run ⟨[], issues⟩ =
      (r.expandAmong kind base each reference []).run ⟨[], issues⟩ := rfl
  rw [here]
  simp only [expandAmong, read, parsed, List.contains_nil, Bool.false_eq_true, if_false]
  exact Agree.during (Blind.gather blind) issues

/-- **References are resolved as what is behind them is gathered in their place**, if what is done
with each of the declarations there is done with those that count behind any path. -/
theorem references_agree {β γ : Type} {kind : DeclarationKind}
    {each : Path → Declaration → Resolving (List β)} (framed : ∀ path d, Framed (each path d))
    {pick : Declaration → Option γ} {act : γ → Resolving (List β)}
    (same : ∀ path ∈ r.sources.extent, ∀ d, d.references = [] →
      each path d = match pick d with | some c => act c | none => pure [])
    (blind : ∀ d c, d.references = [] → pick d = some c → Blind (act c))
    {references : List Declaration.Inclusion}
    (ends : ∀ reference ∈ references, r.sources.EndsAt base kind reference) :
    Agree (gather (r.expand kind base each) references)
      (gather act (references.flatMap fun reference =>
        (r.sources.behind kind base reference).filterMap pick)) := by
  rw [gather_flatMap]
  refine Agree.gather (r.framed_expand kind base framed) fun reference hr => ?_
  obtain ⟨path, fragment, expands, last⟩ := ends reference hr
  have picked : ∀ d ∈ fragment, each path d =
      match pick d with | some c => act c | none => pure [] := fun d hd =>
    same path (expands.mem_extent (List.ne_nil_of_mem hd)) d (last d hd)
  rw [expands.behind_eq, ← gather_filterMap picked]
  refine expand_agrees expands fun d hd => ?_
  rw [picked d hd]
  cases h : pick d with
  | none => exact .pure []
  | some c => exact blind d c (last d hd) h

/-! ## Rules and groups -/

theorem rules_nil (own : List Declaration.Rule) :
    r.rules inherited base own [] = gather (r.rule inherited) own := by
  simp [rules, gather]

theorem groups_nil (own : List Declaration.Group) :
    r.groups inherited base own [] =
      gather (fun d => do return [← r.group inherited base d]) own := by
  simp [groups, gather]

/-- Rules that are referred to may be written in place. -/
theorem rules_agree (own : List Declaration.Rule) {references : List Declaration.Inclusion}
    (ends : ∀ reference ∈ references, r.sources.EndsAt base .rule reference) :
    Agree (r.rules inherited base own references)
      (r.rules inherited base (own ++ Declaration.rulesBehind r.sources base references) []) := by
  rw [rules_nil, gather_append]
  refine (Agree.refl _).bind (framed_gather (r.framed_rule inherited) own) fun inPlace => ?_
  refine Agree.andThen (framed_gather (r.framed_expand _ _ fun _ => r.framed_ruleOf _) _) ?_
  refine references_agree (fun _ => r.framed_ruleOf _) (fun _ _ d _ => ?_) (fun _ d _ _ => ?_) ends
  · cases d <;> rfl
  · exact r.blind_rule inherited d

theorem group_agrees {d : Declaration.Group}
    (ends : ∀ kind reference, (kind, reference) ∈ d.references →
      r.sources.EndsAt base kind reference) :
    Agree (r.group inherited base d) (r.group inherited base (d.inlined r.sources base)) := by
  refine (Agree.refl _).bind (r.framed_settings _ _) fun settings => ?_
  refine Agree.andThen (r.framed_rules settings base _ _) ?_
  refine rules_agree d.rules fun reference hr => ?_
  exact ends .rule reference (List.mem_map_of_mem hr)

theorem groups_agree {own : List Declaration.Group} {references : List Declaration.Inclusion}
    (inside : ∀ kind reference, (kind, reference) ∈ own.flatMap Declaration.Group.references →
      r.sources.EndsAt base kind reference)
    (ends : ∀ reference ∈ references, r.sources.EndsAt base .group reference) :
    Agree (r.groups inherited base own references)
      (r.groups inherited base (own.map (Declaration.Group.inlined r.sources base) ++
        Declaration.groupsBehind r.sources base references) []) := by
  have framed : ∀ d, Framed (do return [← r.group inherited base d]) := fun d =>
    (r.framed_group inherited base d).result _
  rw [groups_nil, gather_append, gather_map]
  refine Agree.bind (framed_gather framed own) (Agree.gather framed fun d hd => ?_) fun _ => ?_
  · refine Agree.andThen (r.framed_group _ _ _) (group_agrees fun kind reference hr => ?_)
    exact inside kind reference (List.mem_flatMap_of_mem hd hr)
  · refine Agree.andThen (framed_gather (r.framed_expand _ _ (r.framed_groupOf _)) _) ?_
    refine references_agree (r.framed_groupOf inherited) (fun path _ d h => ?_)
      (fun d c h picked => ?_) ends
    · cases d with
      | group d => simp only [groupOf, Declaration.group?, r.group_anywhere inherited _ base h]
      | plan | module | rule => rfl
    · cases d with
      | group d =>
        obtain rfl := Option.some.inj picked
        exact (r.blind_group inherited base h).result _
      | plan | module | rule => cases picked

/-! ## Modules -/

/-- Modules written in place, then those referred to. -/
def modulesAt (r : Resolver) (inherited : Settings) (base : Path) (own : List Declaration.Module)
    (references : List Declaration.Inclusion) : Resolving (List Resolved.Module) := do
  let inPlace ← r.modulesWith r.within inherited base own
  let referred ← gather (r.expand .module base (r.within inherited)) references
  return inPlace ++ referred

theorem framed_modulesAt (own : List Declaration.Module)
    (references : List Declaration.Inclusion) :
    Framed (r.modulesAt inherited base own references) := by
  have within := r.framed_moduleOf []
  refine (r.framed_modulesWith within inherited base own).bind fun _ => ?_
  exact (framed_gather (r.framed_expand _ _ (within inherited)) _).result _

theorem modulesAt_nil (own : List Declaration.Module) :
    r.modulesAt inherited base own [] = r.modulesWith r.within inherited base own := by
  simp [modulesAt, gather]

theorem plan_eq (d : Declaration.Plan) : r.plan inherited base d = do
    let settings ← r.settings inherited d.settings
    let modules ← r.modulesAt settings base d.modules d.useModules
    return { name := d.name, settings, modules } := by
  simp only [plan, modulesAt, bind_assoc, pure_bind]

theorem moduleWith_eq (name : String) (own : List Declaration.Assignment)
    (modules : List Declaration.Module) (groups : List Declaration.Group)
    (rules : List Declaration.Rule) (useModules useGroups useRules : List Declaration.Inclusion)
    (origin : Origin) :
    r.moduleWith r.within inherited base
      ⟨name, own, modules, useModules, groups, useGroups, rules, useRules, origin⟩ = do
        let settings ← r.settings inherited own
        let modules ← r.modulesAt settings base modules useModules
        let groups ← r.groups settings base groups useGroups
        let rules ← r.rules settings base rules useRules
        return { name, settings, modules, groups, rules } := by
  simp only [moduleWith, modulesAt, bind_assoc, pure_bind]

/-- Modules that are referred to may be written in place, if those may that are written there. -/
theorem modulesAt_agree {own inlined : List Declaration.Module}
    {references : List Declaration.Inclusion}
    (inside : Agree (r.modulesWith r.within inherited base own)
      (r.modulesWith r.within inherited base inlined))
    (ends : ∀ reference ∈ references, r.sources.EndsAt base .module reference) :
    Agree (r.modulesAt inherited base own references)
      (r.modulesAt inherited base
        (inlined ++ Declaration.modulesBehind r.sources base references) []) := by
  have framed := r.framed_moduleOf []
  rw [modulesAt_nil, modulesWith_eq_gather, gather_append, ← modulesWith_eq_gather]
  refine inside.bind (r.framed_modulesWith framed _ _ _) fun _ => ?_
  refine Agree.andThen (framed_gather (r.framed_expand _ _ (framed inherited)) _) ?_
  refine references_agree (framed inherited) (fun path covered d h => ?_)
    (fun d c h picked => ?_) ends
  · cases d with
    | module d =>
      have unread : path ∈ r.unread [] := mem_unread.mpr ⟨covered, List.not_mem_nil⟩
      have anywhere := r.moduleWith_anywhere (r.moduleOf [path]) r.within inherited
        (r.sources.baseDir path) base d h
      rw [within, moduleOf_module unread, anywhere]
      rfl
    | plan | group | rule => simp only [moduleOf, Declaration.module?]
  · cases d with
    | module d =>
      obtain rfl := Option.some.inj picked
      exact (r.blind_moduleWith r.within inherited base d h).result _
    | plan | group | rule => cases picked

mutual

/-- A module may be written with everything in place. -/
theorem module_agrees (inherited : Settings) :
    ∀ d : Declaration.Module, (∀ kind reference, (kind, reference) ∈ d.references →
        r.sources.EndsAt base kind reference) →
      Agree (r.moduleWith r.within inherited base d)
        (r.moduleWith r.within inherited base (d.inlined r.sources base))
  | ⟨name, own, modules, useModules, groups, useGroups, rules, useRules, origin⟩, ends => by
    simp only [Declaration.Module.references, List.mem_append] at ends
    rw [Declaration.Module.inlined, moduleWith_eq, moduleWith_eq]
    refine (Agree.refl _).bind (r.framed_settings _ _) fun settings => ?_
    refine Agree.bind (framed_modulesAt _ _) ?_ fun _ => ?_
    · refine modulesAt_agree (modules_agree settings modules fun kind reference hr => ?_)
        fun reference hr => ?_
      · exact ends kind reference (.inr hr)
      · exact ends .module reference (.inl (.inl (.inl (.inl (List.mem_map_of_mem hr)))))
    refine Agree.bind (r.framed_groups settings base _ _) ?_ fun _ => ?_
    · refine groups_agree (fun kind reference hr => ?_) fun reference hr => ?_
      · exact ends kind reference (.inl (.inr hr))
      · exact ends .group reference (.inl (.inl (.inl (.inr (List.mem_map_of_mem hr)))))
    · refine Agree.andThen (r.framed_rules settings base _ _) ?_
      refine rules_agree rules fun reference hr => ?_
      exact ends .rule reference (.inl (.inl (.inr (List.mem_map_of_mem hr))))

theorem modules_agree (inherited : Settings) :
    ∀ ds : List Declaration.Module, (∀ kind reference,
        (kind, reference) ∈ Declaration.Module.referencesOfAll ds →
          r.sources.EndsAt base kind reference) →
      Agree (r.modulesWith r.within inherited base ds)
        (r.modulesWith r.within inherited base
          (Declaration.Module.inlinedAll r.sources base ds))
  | [], _ => .refl _
  | d :: more, ends => by
    simp only [Declaration.Module.referencesOfAll, List.mem_append] at ends
    have framed := r.framed_moduleOf []
    rw [Declaration.Module.inlinedAll, modulesWith, modulesWith]
    refine Agree.bind (r.framed_moduleWith framed _ _ d)
      (module_agrees inherited d fun kind reference hr => ends kind reference (.inl hr)) fun _ => ?_
    exact Agree.andThen (r.framed_modulesWith framed _ _ more)
      (modules_agree inherited more fun kind reference hr => ends kind reference (.inr hr))

end

theorem plan_agrees {d : Declaration.Plan}
    (ends : ∀ kind reference, (kind, reference) ∈ (Declaration.plan d).references →
      r.sources.EndsAt base kind reference) :
    Agree (r.plan inherited base d) (r.plan inherited base (d.inlined r.sources base)) := by
  simp only [Declaration.references, List.mem_append] at ends
  rw [plan_eq, plan_eq]
  refine (Agree.refl _).bind (r.framed_settings _ _) fun settings => ?_
  refine Agree.andThen (framed_modulesAt _ _) (modulesAt_agree ?_ fun reference hr => ?_)
  · exact modules_agree settings d.modules fun kind reference hr => ends kind reference (.inr hr)
  · exact ends .module reference (.inl (List.mem_map_of_mem hr))

theorem declaration_agrees {d : Declaration}
    (ends : ∀ kind reference, (kind, reference) ∈ d.references →
      r.sources.EndsAt base kind reference) :
    Agree (r.declaration inherited base d)
      (r.declaration inherited base (d.inlined r.sources base)) := by
  have framed := r.framed_moduleOf []
  cases d with
  | plan d => exact Agree.andThen (r.framed_plan _ _ d) (plan_agrees ends)
  | module d =>
    exact Agree.andThen (r.framed_moduleWith framed _ _ d) (module_agrees inherited d ends)
  | group d => exact Agree.andThen (r.framed_group _ _ d) (group_agrees ends)
  | rule d => exact .refl _

end Resolver

/-! ## Nothing is left to be referred to -/

namespace Declaration

variable {sources : Sources} {place : Path}

theorem Module.referencesOfAll_eq_flatMap (ds : List Module) :
    Module.referencesOfAll ds = ds.flatMap Module.references := by
  induction ds with
  | nil => rfl
  | cons d more ih => rw [Module.referencesOfAll, ih, List.flatMap_cons]

/-- What is behind references that end refers to nothing. -/
theorem references_of_mem_behind {kind : DeclarationKind} {reference : Inclusion}
    (ends : sources.EndsAt place kind reference) {d : Declaration}
    (h : d ∈ sources.behind kind place reference) : d.references = [] := by
  obtain ⟨path, fragment, expands, last⟩ := ends
  exact last d (expands.behind_eq ▸ h)

theorem references_of_mem_groupsBehind {references : List Inclusion}
    (ends : ∀ reference ∈ references, sources.EndsAt place .group reference) {d : Group}
    (h : d ∈ groupsBehind sources place references) : d.references = [] := by
  obtain ⟨reference, hr, h⟩ := List.mem_flatMap.mp h
  obtain ⟨found, hf, picked⟩ := List.mem_filterMap.mp h
  cases found with
  | group found =>
    obtain rfl := Option.some.inj picked
    exact references_of_mem_behind (ends reference hr) hf
  | plan | module | rule => cases picked

theorem references_of_mem_modulesBehind {references : List Inclusion}
    (ends : ∀ reference ∈ references, sources.EndsAt place .module reference) {d : Module}
    (h : d ∈ modulesBehind sources place references) : d.references = [] := by
  obtain ⟨reference, hr, h⟩ := List.mem_flatMap.mp h
  obtain ⟨found, hf, picked⟩ := List.mem_filterMap.mp h
  cases found with
  | module found =>
    obtain rfl := Option.some.inj picked
    exact references_of_mem_behind (ends reference hr) hf
  | plan | group | rule => cases picked

/-- Modules with everything in place, followed by those behind references, refer to nothing. -/
theorem Module.referencesOfAll_inlined {own : List Module} {references : List Inclusion}
    (inside : Module.referencesOfAll own = [])
    (ends : ∀ reference ∈ references, sources.EndsAt place .module reference) :
    Module.referencesOfAll (own ++ modulesBehind sources place references) = [] := by
  rw [referencesOfAll_eq_flatMap, List.flatMap_append, ← referencesOfAll_eq_flatMap own, inside]
  exact List.flatMap_eq_nil_iff.mpr fun d hd => references_of_mem_modulesBehind ends hd

mutual

theorem Module.references_inlined : ∀ d : Module,
    (∀ kind reference, (kind, reference) ∈ d.references → sources.EndsAt place kind reference) →
      (d.inlined sources place).references = []
  | ⟨_, _, modules, useModules, groups, useGroups, _, useRules, _⟩, ends => by
    simp only [Module.references, List.mem_append] at ends
    have behind : ∀ d ∈ groupsBehind sources place useGroups, d.references = [] := fun d hd =>
      references_of_mem_groupsBehind (fun reference hr =>
        ends .group reference (.inl (.inl (.inl (.inr (List.mem_map_of_mem hr)))))) hd
    have inGroups : (groups.map (Group.inlined sources place) ++
        groupsBehind sources place useGroups).flatMap Group.references = [] := by
      simp only [List.flatMap_append, List.append_eq_nil_iff, List.flatMap_eq_nil_iff,
        List.forall_mem_map]
      exact ⟨fun d _ => rfl, behind⟩
    have inModules := Module.referencesOfAll_inlined
      (Module.referencesOfAll_inlinedAll modules fun kind reference hr =>
        ends kind reference (.inr hr))
      fun reference hr =>
        ends .module reference (.inl (.inl (.inl (.inl (List.mem_map_of_mem hr)))))
    simp only [Module.inlined, Module.references, referencesTo, List.map_nil, inGroups, inModules,
      List.append_nil]

theorem Module.referencesOfAll_inlinedAll : ∀ ds : List Module,
    (∀ kind reference, (kind, reference) ∈ Module.referencesOfAll ds →
      sources.EndsAt place kind reference) →
      Module.referencesOfAll (Module.inlinedAll sources place ds) = []
  | [], _ => rfl
  | d :: more, ends => by
    simp only [Module.referencesOfAll, List.mem_append] at ends
    rw [Module.inlinedAll, Module.referencesOfAll,
      Module.references_inlined d fun kind reference hr => ends kind reference (.inl hr),
      Module.referencesOfAll_inlinedAll more fun kind reference hr => ends kind reference (.inr hr)]
    rfl

end

/-- Once everything is written in place, nothing is referred to. -/
theorem references_inlined {d : Declaration}
    (ends : ∀ kind reference, (kind, reference) ∈ d.references →
      sources.EndsAt place kind reference) : (d.inlined sources place).references = [] := by
  cases d with
  | plan d =>
    simp only [references, List.mem_append] at ends
    exact Module.referencesOfAll_inlined
      (Module.referencesOfAll_inlinedAll d.modules fun kind reference hr =>
        ends kind reference (.inr hr))
      fun reference hr => ends .module reference (.inl (List.mem_map_of_mem hr))
  | module d => exact Module.references_inlined d ends
  | group d => rfl
  | rule d => rfl

/-- A declaration with everything in place is still where it was written. -/
theorem origin_inlined (d : Declaration) : (d.inlined sources place).origin = d.origin := by
  rcases d with d | ⟨_, _, _, _, _, _, _, _, _⟩ | d | d <;>
    simp only [inlined, origin, Module.inlined, Plan.inlined, Group.inlined]

end Declaration

/-! ## Resolutions -/

namespace Sources

/-- Whether a reference leads to declarations that refer to nothing further. -/
def endsAt (sources : Sources) (place : Path) (kind : DeclarationKind)
    (reference : Declaration.Inclusion) : Bool :=
  match sources.read (locate place reference.path) with
  | .error _ => false
  | .ok text =>
    match Declaration.parse text (locate place reference.path).text kind with
    | .error _ => false
    | .ok fragment => fragment.all (·.references.isEmpty)

theorem endsAt_iff {sources : Sources} {place : Path} {kind : DeclarationKind}
    {reference : Declaration.Inclusion} :
    sources.endsAt place kind reference = true ↔ sources.EndsAt place kind reference := by
  constructor
  · intro h
    simp only [endsAt] at h
    split at h
    · cases h
    · next text read =>
      split at h
      · cases h
      · next fragment parsed =>
        refine ⟨_, fragment, ⟨rfl, text, read, parsed⟩, fun d hd => ?_⟩
        simpa using List.all_eq_true.mp h d hd
  · rintro ⟨_, fragment, ⟨rfl, text, read, parsed⟩, last⟩
    simp only [endsAt, read, parsed]
    exact List.all_eq_true.mpr fun d hd => by simp [last d hd]

instance (sources : Sources) (place : Path) (kind : DeclarationKind)
    (reference : Declaration.Inclusion) : Decidable (sources.EndsAt place kind reference) :=
  decidable_of_iff _ endsAt_iff

end Sources

/-- **References stand for what they lead to.**

If the references of a declaration, at whatever depth of what is written in it, lead to declarations
that can be read and that refer to nothing further, then with these written in the place of the
references, behind what is written there of their kind and in the order of the references, nothing
is left to be referred to, and the resolution is the same: the same value and the same issues in the
same order, with whatever settings are handed down and declared. -/
theorem Resolver.resolve_inlined (r : Resolver) (inherited : Settings) (place : Path)
    (d : Declaration)
    (ends : ∀ kind reference, (kind, reference) ∈ d.references →
      r.sources.EndsAt place kind reference) :
    (d.inlined r.sources place).references = [] ∧
      (r.resolveIn inherited place d).run State.idle =
        (r.resolveIn inherited place (d.inlined r.sources place)).run State.idle ∧
      (place = r.sources.baseDir ⟨d.origin.file⟩ →
        (r.resolve inherited d).run State.idle =
          (r.resolve inherited (d.inlined r.sources place)).run State.idle) := by
  have same : (r.resolveIn inherited place d).run State.idle =
      (r.resolveIn inherited place (d.inlined r.sources place)).run State.idle :=
    Agree.andThen (r.framed_declaration _ _ d) (declaration_agrees ends) []
  refine ⟨Declaration.references_inlined ends, same, fun own => ?_⟩
  rw [resolve, resolve, Declaration.origin_inlined, ← own]
  exact same

/-- A module refers to another module, and its group refers to a rule whose target is no name. -/
theorem Resolver.resolve_inlined_module :
    let tree := (SourceTree.empty.add ⟨"part.cs"⟩
      "module a { rule r on a:b:c { assert { x is null } } }").add ⟨"bad.cs"⟩
        "rule s on nowhere { assert { x is null } }"
    let r : Resolver := ⟨tree.sources, fun _ => none⟩
    let reference (path : String) : Declaration.Inclusion := ⟨path, ⟨"top.cs", 1⟩⟩
    let d : Declaration := .module ⟨"top", [], [], [reference "part.cs"],
      [⟨"g", [], [], [reference "bad.cs"], ⟨"top.cs", 1⟩⟩], [], [], [], ⟨"top.cs", 1⟩⟩
    d.references.length = 2 ∧
      (∀ kind reference, (kind, reference) ∈ d.references →
        r.sources.EndsAt ⟨""⟩ kind reference) ∧
      (d.inlined r.sources ⟨""⟩).references = [] ∧
      (r.resolveIn .empty ⟨""⟩ d).run State.idle =
        (r.resolveIn .empty ⟨""⟩ (d.inlined r.sources ⟨""⟩)).run State.idle := by
  intro tree r reference d
  have each : ∀ used ∈ d.references, r.sources.EndsAt ⟨""⟩ used.1 used.2 := by decide +kernel
  have ends : ∀ kind reference, (kind, reference) ∈ d.references →
      r.sources.EndsAt ⟨""⟩ kind reference := fun kind reference hr => each (kind, reference) hr
  have inlined := resolve_inlined r .empty ⟨""⟩ d ends
  exact ⟨rfl, ends, inlined.1, inlined.2.1⟩

end Compliance
