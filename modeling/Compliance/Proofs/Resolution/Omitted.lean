import Compliance.Proofs.Resolution.Inlined

/-!
# A reference that fails costs itself

A reference to a file that cannot be read, or that does not hold what is expected
there, is left out of a resolution.  Nothing else is lost by it: with the reference
struck from the declaration the same comes out, and the issues are the same but for
the one of the reference, in its place among the others.

## Main definitions

* `Declaration.omissions` — a declaration without one of its references, for each of them.
* `Resolving.Costs issue x y` — one act does what another does, with an issue more.
* `Resolver.refused_costs_itself` — what a reference costs that fails.
-/

namespace Compliance

open Resolving

/-! ## Leaving out one reference -/

namespace Declaration

/-- A reference in something, and what is left without it. -/
structure Omission (α : Type) where
  kind : DeclarationKind
  reference : Inclusion
  left : α

/-- An omission in a part of something is one in the whole. -/
def Omission.within {α β : Type} (whole : α → β) (o : Omission α) : Omission β :=
  ⟨o.kind, o.reference, whole o.left⟩

/-- The reference that is left out. -/
def Omission.omitted {α : Type} (o : Omission α) : DeclarationKind × Inclusion :=
  (o.kind, o.reference)

/-- Some references to one kind of declarations without one of them. -/
def omissionsAmong (kind : DeclarationKind) : List Inclusion → List (Omission (List Inclusion))
  | [] => []
  | reference :: more =>
    ⟨kind, reference, more⟩ :: (omissionsAmong kind more).map (·.within (reference :: ·))

/-- A group without one of its references. -/
def Group.omissions (d : Group) : List (Omission Group) :=
  (omissionsAmong .rule d.useRules).map (·.within fun useRules => { d with useRules })

/-- Some groups, one of them without one of its references. -/
def Group.omissionsOfAll : List Group → List (Omission (List Group))
  | [] => []
  | d :: more => d.omissions.map (·.within (· :: more)) ++
      (Group.omissionsOfAll more).map (·.within (d :: ·))

mutual

/-- A module without one of the references in it, at whatever depth of what is written there. -/
def Module.omissions : Module → List (Omission Module)
  | ⟨name, settings, modules, useModules, groups, useGroups, rules, useRules, origin⟩ =>
    (omissionsAmong .module useModules).map (·.within fun left =>
        ⟨name, settings, modules, left, groups, useGroups, rules, useRules, origin⟩) ++
      (omissionsAmong .group useGroups).map (·.within fun left =>
        ⟨name, settings, modules, useModules, groups, left, rules, useRules, origin⟩) ++
      (omissionsAmong .rule useRules).map (·.within fun left =>
        ⟨name, settings, modules, useModules, groups, useGroups, rules, left, origin⟩) ++
      (Group.omissionsOfAll groups).map (·.within fun left =>
        ⟨name, settings, modules, useModules, left, useGroups, rules, useRules, origin⟩) ++
      (Module.omissionsOfAll modules).map (·.within fun left =>
        ⟨name, settings, left, useModules, groups, useGroups, rules, useRules, origin⟩)

/-- Some modules, one of them without one of the references in it. -/
def Module.omissionsOfAll : List Module → List (Omission (List Module))
  | [] => []
  | d :: more => d.omissions.map (·.within (· :: more)) ++
      (Module.omissionsOfAll more).map (·.within (d :: ·))

end

/-- A plan without one of the references in it. -/
def Plan.omissions (d : Plan) : List (Omission Plan) :=
  (omissionsAmong .module d.useModules).map (·.within fun left => { d with useModules := left }) ++
    (Module.omissionsOfAll d.modules).map (·.within fun left => { d with modules := left })

/-- A declaration without one of the references in it, for each of these in their order. -/
def omissions : Declaration → List (Omission Declaration)
  | .plan d => d.omissions.map (·.within .plan)
  | .module d => d.omissions.map (·.within .module)
  | .group d => d.omissions.map (·.within .group)
  | .rule _ => []

/-! ### Every reference is left out once -/

@[simp]
theorem map_omitted_within {α β : Type} (whole : α → β) (os : List (Omission α)) :
    (os.map (·.within whole)).map Omission.omitted = os.map Omission.omitted := by
  rw [List.map_map]
  rfl

theorem omitted_omissionsAmong (kind : DeclarationKind) (references : List Inclusion) :
    (omissionsAmong kind references).map Omission.omitted = referencesTo kind references := by
  induction references with
  | nil => rfl
  | cons reference more ih =>
    rw [omissionsAmong, List.map_cons, map_omitted_within, ih]
    rfl

theorem Group.omitted_omissions (d : Group) :
    d.omissions.map Omission.omitted = d.references := by
  rw [omissions, map_omitted_within, omitted_omissionsAmong, references]

theorem Group.omitted_omissionsOfAll (ds : List Group) :
    (Group.omissionsOfAll ds).map Omission.omitted = ds.flatMap Group.references := by
  induction ds with
  | nil => rfl
  | cons d more ih =>
    rw [omissionsOfAll, List.map_append, map_omitted_within, map_omitted_within, ih,
      omitted_omissions, List.flatMap_cons]

mutual

theorem Module.omitted_omissions :
    ∀ d : Module, d.omissions.map Omission.omitted = d.references
  | ⟨_, _, modules, _, groups, _, _, _, _⟩ => by
    simp only [Module.omissions, List.map_append, map_omitted_within, omitted_omissionsAmong,
      Group.omitted_omissionsOfAll groups, Module.omitted_omissionsOfAll modules,
      Module.references]

theorem Module.omitted_omissionsOfAll : ∀ ds : List Module,
    (Module.omissionsOfAll ds).map Omission.omitted = Module.referencesOfAll ds
  | [] => rfl
  | d :: more => by
    rw [Module.omissionsOfAll, List.map_append, map_omitted_within, map_omitted_within,
      Module.omitted_omissions d, Module.omitted_omissionsOfAll more, Module.referencesOfAll]

end

/-- The references that are left out are all that there are, one after the other. -/
theorem omitted_omissions (d : Declaration) :
    d.omissions.map Omission.omitted = d.references := by
  cases d with
  | plan d =>
    rw [omissions, map_omitted_within, Plan.omissions, List.map_append, map_omitted_within,
      map_omitted_within, omitted_omissionsAmong, Module.omitted_omissionsOfAll, references]
  | module d => rw [omissions, map_omitted_within, Module.omitted_omissions, references]
  | group d => rw [omissions, map_omitted_within, Group.omitted_omissions, references]
  | rule d => rfl

theorem Module.origin_left {d : Module} : ∀ o ∈ d.omissions, o.left.origin = d.origin := by
  obtain ⟨name, settings, modules, useModules, groups, useGroups, rules, useRules, origin⟩ := d
  simp only [Module.omissions, List.forall_mem_append, List.forall_mem_map, Omission.within,
    implies_true, and_self]

/-- Without a reference a declaration is still where it was written. -/
theorem origin_left {d : Declaration} : ∀ o ∈ d.omissions, o.left.origin = d.origin := by
  cases d with
  | plan d =>
    simp only [omissions, Plan.omissions, List.forall_mem_append, List.forall_mem_map,
      Omission.within, origin, implies_true, and_self]
  | module d => exact List.forall_mem_map.mpr Module.origin_left
  | group d =>
    simp only [omissions, Group.omissions, List.forall_mem_map, Omission.within, origin,
      implies_true]
  | rule d =>
    intro _ h
    cases h

end Declaration

/-! ## What one act has more than another -/

namespace Resolving

variable {α β γ : Type} {issue : Issue} {x y : Resolving α} {k l : α → Resolving β}

/-- While no path is active, two acts have one value, and the first has an issue more than the
second, somewhere among the others. -/
def Costs (issue : Issue) (x y : Resolving α) : Prop :=
  ∃ a before behind, Yields x [] a (before ++ issue :: behind) ∧ Yields y [] a (before ++ behind)

namespace Costs

/-- In front of anything, nothing more is lost: what follows depends on the value alone. -/
theorem andThen (h : Costs issue x y) (hk : ∀ a, Framed (k a)) :
    Costs issue (x >>= k) (y >>= k) := by
  obtain ⟨a, before, behind, costly, cheap⟩ := h
  obtain ⟨b, more, rest⟩ := hk a []
  refine ⟨b, before, behind ++ more, ?_, ?_⟩
  · simpa only [List.append_assoc, List.cons_append] using costly.bind rest
  · simpa only [List.append_assoc] using cheap.bind rest

/-- Behind anything it is the same. -/
theorem behind (hx : Framed x) (h : ∀ a, Costs issue (k a) (l a)) :
    Costs issue (x >>= k) (x >>= l) := by
  obtain ⟨a, new, first⟩ := hx []
  obtain ⟨b, before, behind, costly, cheap⟩ := h a
  refine ⟨b, new ++ before, behind, ?_, ?_⟩
  · simpa only [List.append_assoc] using first.bind costly
  · simpa only [List.append_assoc] using first.bind cheap

theorem gather_leaveOut {f : γ → Resolving (List β)} (framed : ∀ c, Framed (f c)) {c : γ}
    (h : Yields (f c) [] [] [issue]) (more : List γ) :
    Costs issue (gather f (c :: more)) (gather f more) := by
  obtain ⟨found, new, rest⟩ := framed_gather framed more []
  refine ⟨found, [], new, ?_, rest⟩
  have all := h.bind (k := fun first => do return first ++ (← gather f more))
    (rest.bind yields_pure)
  rwa [List.append_nil] at all

end Costs

end Resolving

/-! ## Parts of a resolver -/

namespace Resolver

open Declaration

variable {r : Resolver} {base : Path} {inherited : Settings} {issue : Issue}

/-- A reference that is refused stands for nothing, and has its issue. -/
theorem Refuses.yields {β : Type} {active : List Path} {kind : DeclarationKind}
    {reference : Inclusion} (h : r.Refuses active base kind reference issue)
    (each : Path → Declaration → Resolving (List β)) :
    Yields (r.expand kind base each reference) active [] [issue] := by
  rw [expand_eq]
  refine yields_get (f := r.expandAmong kind base each reference) ?_
  cases h with
  | cycle located again => simpa [expandAmong, ← located, again] using yields_leaveOut _
  | unread located fresh read =>
    simpa [expandAmong, ← located, fresh, read] using yields_leaveOut _
  | unparsed located fresh read parsed =>
    simpa [expandAmong, ← located, fresh, read, parsed] using yields_leaveOut _

/-- Each omission costs the issue that its reference is refused with. -/
def Costly {α δ : Type} (r : Resolver) (base : Path) (act : δ → Resolving α) (whole : δ)
    (omissions : List (Omission δ)) : Prop :=
  ∀ o ∈ omissions, ∀ issue, r.Refuses [] base o.kind o.reference issue →
    Costs issue (act whole) (act o.left)

namespace Costly

variable {α β δ ε : Type} {act : δ → Resolving α} {whole : δ} {os os' : List (Omission δ)}

theorem append (h : r.Costly base act whole os) (h' : r.Costly base act whole os') :
    r.Costly base act whole (os ++ os') :=
  List.forall_mem_append.mpr ⟨h, h'⟩

/-- What is costly in a part is so in the whole. -/
theorem within {act : ε → Resolving α} (f : δ → ε)
    (h : r.Costly base (fun part => act (f part)) whole os) :
    r.Costly base act (f whole) (os.map (·.within f)) :=
  List.forall_mem_map.mpr h

theorem andThen {k : α → Resolving β} (hk : ∀ a, Framed (k a)) (h : r.Costly base act whole os) :
    r.Costly base (fun part => act part >>= k) whole os :=
  fun o ho issue refused => (h o ho issue refused).andThen hk

theorem behind {x : Resolving β} {act : δ → β → Resolving α} (hx : Framed x)
    (h : ∀ b, r.Costly base (fun part => act part b) whole os) :
    r.Costly base (fun part => x >>= act part) whole os :=
  fun o ho issue refused => .behind hx fun b => h b o ho issue refused

end Costly

/-- A reference among others costs its issue when it is refused. -/
theorem costly_references {β : Type} {kind : DeclarationKind}
    {each : Path → Declaration → Resolving (List β)} (framed : ∀ place d, Framed (each place d))
    (references : List Inclusion) :
    r.Costly base (gather (r.expand kind base each)) references
      (omissionsAmong kind references) := by
  have expanded := r.framed_expand kind base framed
  induction references with
  | nil =>
    intro _ h
    cases h
  | cons reference more ih =>
    refine List.forall_mem_cons.mpr ⟨fun issue refused => ?_, ?_⟩
    · exact .gather_leaveOut expanded (refused.yields each) more
    · exact Costly.within (reference :: ·) (.behind (expanded reference) fun _ =>
        ih.andThen fun _ => framed_pure _)

/-! ### Rules and groups -/

theorem costly_rules (own : List Declaration.Rule) (references : List Inclusion) :
    r.Costly base (r.rules inherited base own) references (omissionsAmong .rule references) := by
  refine .behind (framed_gather (r.framed_rule inherited) own) fun _ => ?_
  exact (costly_references (fun _ => r.framed_ruleOf inherited) references).andThen fun _ =>
    framed_pure _

theorem costly_group (d : Declaration.Group) :
    r.Costly base (r.group inherited base) d d.omissions := by
  refine .within (fun useRules => { d with useRules }) ?_
  refine .behind (r.framed_settings inherited d.settings) fun settings => ?_
  exact (costly_rules d.rules d.useRules).andThen fun _ => framed_pure _

private theorem framed_groupInPlace (d : Declaration.Group) :
    Framed (do return [← r.group inherited base d]) :=
  (r.framed_group inherited base d).result _

/-- Groups that are written in place, one of them with a reference that is refused. -/
theorem costly_groupsInPlace (own : List Declaration.Group) :
    r.Costly base (gather fun d => do return [← r.group inherited base d]) own
      (Group.omissionsOfAll own) := by
  have framed := @framed_groupInPlace r base inherited
  induction own with
  | nil =>
    intro _ h
    cases h
  | cons d more ih =>
    refine .append ?_ ?_
    · refine .within (· :: more) (.andThen (fun _ => (framed_gather framed more).result _) ?_)
      exact (costly_group d).andThen fun _ => framed_pure _
    · exact .within (d :: ·) (.behind (framed d) fun _ => ih.andThen fun _ => framed_pure _)

theorem costly_groupsOwn (own : List Declaration.Group) (references : List Inclusion) :
    r.Costly base (fun own => r.groups inherited base own references) own
      (Group.omissionsOfAll own) := by
  have expanded := r.framed_expand .group base (r.framed_groupOf inherited)
  exact (costly_groupsInPlace own).andThen fun _ => (framed_gather expanded references).result _

theorem costly_groupsUsed (own : List Declaration.Group) (references : List Inclusion) :
    r.Costly base (r.groups inherited base own) references (omissionsAmong .group references) := by
  refine .behind (framed_gather framed_groupInPlace own) fun _ => ?_
  exact (costly_references (r.framed_groupOf inherited) references).andThen fun _ =>
    framed_pure _

/-! ### Modules and plans -/

theorem costly_modulesUsed (own : List Declaration.Module) (references : List Inclusion) :
    r.Costly base (r.modulesAt inherited base own) references
      (omissionsAmong .module references) := by
  have within := r.framed_moduleOf []
  refine .behind (r.framed_modulesWith within inherited base own) fun _ => ?_
  exact (costly_references (within inherited) references).andThen fun _ => framed_pure _

/-- Modules in place come before those that are referred to. -/
theorem Costly.modulesAt {own : List Declaration.Module}
    {os : List (Omission (List Declaration.Module))}
    (h : r.Costly base (r.modulesWith r.within inherited base) own os)
    (references : List Inclusion) :
    r.Costly base (fun own => r.modulesAt inherited base own references) own os := by
  have within := r.framed_moduleOf []
  exact h.andThen fun _ => (framed_gather (r.framed_expand _ _ (within inherited)) _).result _

mutual

/-- **A reference costs its issue wherever it stands in a module.** -/
theorem costly_module (inherited : Settings) : ∀ d : Declaration.Module,
    r.Costly base (r.moduleWith r.within inherited base) d d.omissions
  | ⟨name, own, modules, useModules, groups, useGroups, rules, useRules, origin⟩ => by
    have framedSettings := r.framed_settings inherited own
    -- what comes behind the modules, and behind the groups
    have afterGroups : ∀ settings modules' groups',
        Framed (do return (⟨name, settings, modules', groups',
          ← r.rules settings base rules useRules⟩ : Resolved.Module)) :=
      fun settings _ _ => (r.framed_rules settings base rules useRules).result _
    have afterModules : ∀ settings modules', Framed (do
        let groups' ← r.groups settings base groups useGroups
        return (⟨name, settings, modules', groups',
          ← r.rules settings base rules useRules⟩ : Resolved.Module)) :=
      fun settings _ => (r.framed_groups settings base groups useGroups).bind fun _ =>
        afterGroups settings _ _
    rw [Module.omissions]
    refine .append (.append (.append (.append ?_ ?_) ?_) ?_) ?_
    · refine .within _ ?_
      simp only [moduleWith_eq]
      exact .behind framedSettings fun settings =>
        (costly_modulesUsed modules useModules).andThen fun _ => afterModules settings _
    · refine .within _ ?_
      simp only [moduleWith_eq]
      exact .behind framedSettings fun settings => .behind (framed_modulesAt _ _) fun _ =>
        (costly_groupsUsed groups useGroups).andThen fun _ => afterGroups settings _ _
    · refine .within _ ?_
      simp only [moduleWith_eq]
      exact .behind framedSettings fun settings => .behind (framed_modulesAt _ _) fun _ =>
        .behind (r.framed_groups settings base groups useGroups) fun _ =>
          (costly_rules rules useRules).andThen fun _ => framed_pure _
    · refine .within _ ?_
      simp only [moduleWith_eq]
      exact .behind framedSettings fun settings => .behind (framed_modulesAt _ _) fun _ =>
        (costly_groupsOwn groups useGroups).andThen fun _ => afterGroups settings _ _
    · refine .within _ ?_
      simp only [moduleWith_eq]
      exact .behind framedSettings fun settings =>
        ((costly_modules settings modules).modulesAt useModules).andThen fun _ =>
          afterModules settings _

theorem costly_modules (inherited : Settings) : ∀ ds : List Declaration.Module,
    r.Costly base (r.modulesWith r.within inherited base) ds (Module.omissionsOfAll ds)
  | [] => fun _ h => nomatch h
  | d :: more => by
    have within := r.framed_moduleOf []
    rw [Module.omissionsOfAll]
    refine .append (.within _ ?_) (.within _ ?_)
    · simp only [modulesWith]
      exact (costly_module inherited d).andThen fun _ =>
        (r.framed_modulesWith within inherited base more).result _
    · simp only [modulesWith]
      exact .behind (r.framed_moduleWith within inherited base d) fun _ =>
        (costly_modules inherited more).andThen fun _ => framed_pure _

end

theorem costly_plan (d : Declaration.Plan) :
    r.Costly base (r.plan inherited base) d d.omissions := by
  have framedSettings := r.framed_settings inherited d.settings
  refine .append (.within (fun left => { d with useModules := left }) ?_)
    (.within (fun left => { d with modules := left }) ?_)
  · simp only [plan_eq]
    exact .behind framedSettings fun settings =>
      (costly_modulesUsed d.modules d.useModules).andThen fun _ => framed_pure _
  · simp only [plan_eq]
    exact .behind framedSettings fun settings =>
      ((costly_modules settings d.modules).modulesAt d.useModules).andThen fun _ => framed_pure _

/-- **A reference costs its issue wherever it stands in a declaration.** -/
theorem costly_declaration (d : Declaration) :
    r.Costly base (r.declaration inherited base) d d.omissions := by
  cases d with
  | plan d =>
    refine .within Declaration.plan ?_
    simp only [declaration]
    exact (costly_plan d).andThen fun _ => framed_pure _
  | module d =>
    refine .within Declaration.module ?_
    simp only [declaration, module]
    exact (costly_module inherited d).andThen fun _ => framed_pure _
  | group d =>
    refine .within Declaration.group ?_
    simp only [declaration]
    exact (costly_group d).andThen fun _ => framed_pure _
  | rule d =>
    intro _ h
    cases h

/-! ## Resolutions -/

/-- A resolution takes the issues of its declaration with it. -/
theorem run_resolveIn_costs {d d' : Declaration}
    (h : Costs issue (r.declaration inherited base d) (r.declaration inherited base d')) :
    ∃ value before behind,
      (r.resolveIn inherited base d).run State.idle =
        (⟨value, before ++ issue :: behind⟩, State.idle) ∧
      (r.resolveIn inherited base d').run State.idle = (⟨value, before ++ behind⟩, State.idle) := by
  obtain ⟨value, before, behind, costly, cheap⟩ := h
  obtain ⟨⟨found, issues⟩, run, comes⟩ := r.run_resolveIn inherited base d
  obtain ⟨⟨found', issues'⟩, run', comes'⟩ := r.run_resolveIn inherited base d'
  obtain ⟨rfl, rfl⟩ := costly.unique comes
  obtain ⟨rfl, rfl⟩ := cheap.unique comes'
  exact ⟨_, before, behind, run, run'⟩

/-- An issue for a path that cannot be found or read is placed where the reference is. -/
theorem Refuses.placed {kind : DeclarationKind} {reference : Inclusion} {origin : Origin}
    {path : String} (h : r.Refuses [] base kind reference issue)
    (missing : issue = .notFound origin path ∨ issue = .accessDenied origin path) :
    origin = reference.origin ∧ path = (Sources.locate base reference.path).text := by
  cases h with
  | cycle _ again => cases again
  | @unread _ fault located =>
    subst located
    cases fault <;> simp_all [Issue.ofReadFault]
  | unparsed => simp at missing

/-- **A reference that fails costs itself.**

Take any declaration, and from it any one of its references, at whatever depth of the modules and
groups that are written in it; there are as many as there are references, in the same order.  If the
reference fails, because the file cannot be read or does not hold what is expected, then it has one
fatal issue, which for a path that is not found or denied tells where the reference is written.  The
declaration is resolved to the same value as without the reference, and its issues are the same in
the same order, with that one issue among them; nothing stays active or recorded afterwards. -/
theorem refused_costs_itself (r : Resolver) (inherited : Settings) (place : Path)
    (d : Declaration) :
    d.omissions.map Omission.omitted = d.references ∧
      ∀ o ∈ d.omissions, ∀ issue, r.Refuses [] place o.kind o.reference issue →
        issue.isFatal = true ∧
        (∀ origin path, issue = .notFound origin path ∨ issue = .accessDenied origin path →
          origin = o.reference.origin ∧
            path = (Sources.locate place o.reference.path).text) ∧
        ∃ value before behind,
          (r.resolveIn inherited place d).run State.idle =
            (⟨value, before ++ issue :: behind⟩, State.idle) ∧
          (r.resolveIn inherited place o.left).run State.idle =
            (⟨value, before ++ behind⟩, State.idle) ∧
          (place = r.sources.baseDir ⟨d.origin.file⟩ →
            (r.resolve inherited d).run State.idle =
              (⟨value, before ++ issue :: behind⟩, State.idle) ∧
            (r.resolve inherited o.left).run State.idle =
              (⟨value, before ++ behind⟩, State.idle)) := by
  refine ⟨omitted_omissions d, fun o ho issue refused => ⟨refused.isFatal.1, fun _ _ =>
    refused.placed, ?_⟩⟩
  obtain ⟨value, before, behind, run, run'⟩ :=
    run_resolveIn_costs (costly_declaration d o ho issue refused)
  refine ⟨value, before, behind, run, run', fun own => ?_⟩
  rw [resolve, resolve, origin_left o ho, ← own]
  exact ⟨run, run'⟩

/-- A module refers to a module that is not there, and a group inside it to a file that holds a
group where a rule is expected. -/
theorem refused_costs_itself_module :
    let tree := (SourceTree.empty.add ⟨"part.cs"⟩
      "group g { rule r on a:b:c { assert { x is null } } }").add ⟨"kind.cs"⟩ "group g { }"
    let r : Resolver := ⟨tree.sources, fun _ => none⟩
    let origin : Origin := ⟨"top.cs", 1⟩
    let top (within : Declaration.Group) (modules : List Inclusion) : Declaration :=
      .module ⟨"top", [], [⟨"in", [], [], [], [within], [], [], [], origin⟩], modules, [],
        [⟨"part.cs", origin⟩], [], [], origin⟩
    let d := top ⟨"g", [], [], [⟨"kind.cs", origin⟩], origin⟩ [⟨"gone.cs", origin⟩]
    let missing : Omission Declaration := ⟨.module, ⟨"gone.cs", origin⟩,
      top ⟨"g", [], [], [⟨"kind.cs", origin⟩], origin⟩ []⟩
    let unfit : Omission Declaration := ⟨.rule, ⟨"kind.cs", origin⟩,
      top ⟨"g", [], [], [], origin⟩ [⟨"gone.cs", origin⟩]⟩
    ∀ o ∈ [missing, unfit], o ∈ d.omissions ∧
      ∃ issue, r.Refuses [] ⟨""⟩ o.kind o.reference issue ∧
        ∃ value before behind,
          (r.resolveIn .empty ⟨""⟩ d).run State.idle =
            (⟨value, before ++ issue :: behind⟩, State.idle) ∧
          (r.resolveIn .empty ⟨""⟩ o.left).run State.idle =
            (⟨value, before ++ behind⟩, State.idle) := by
  intro tree r origin top d missing unfit
  have each : ∀ o ∈ [missing, unfit], o ∈ d.omissions ∧
      ∃ issue, r.Refuses [] ⟨""⟩ o.kind o.reference issue := by
    refine List.forall_mem_cons.mpr ⟨⟨?_, ?_⟩, List.forall_mem_singleton.mpr ⟨?_, ?_⟩⟩
    · exact List.mem_of_getElem? (i := 0) rfl
    · have read : r.sources.read (Sources.locate ⟨""⟩ "gone.cs") =
          .error (.notFound ⟨"gone.cs"⟩) := by
        decide +kernel
      exact ⟨_, .unread rfl List.not_mem_nil read⟩
    · exact List.mem_of_getElem? (i := 2) rfl
    · have read : r.sources.read (Sources.locate ⟨""⟩ "kind.cs") = .ok "group g { }" := by
        decide +kernel
      let outcome := parse "group g { }" (Sources.locate ⟨""⟩ "kind.cs").text .rule
      have parsed : outcome.toOption.isNone = true := by decide +kernel
      cases h : outcome with
      | ok found => simp [h, Except.toOption] at parsed
      | error error => exact ⟨_, .unparsed rfl List.not_mem_nil read h⟩
  intro o ho
  obtain ⟨written, issue, refused⟩ := each o ho
  have costs := (refused_costs_itself r .empty ⟨""⟩ d).2 o written issue refused
  obtain ⟨-, -, value, before, behind, run, run', -⟩ := costs
  exact ⟨written, issue, refused, value, before, behind, run, run'⟩

end Resolver

end Compliance
