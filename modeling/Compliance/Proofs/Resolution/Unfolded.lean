import Compliance.Proofs.Resolution.Places

/-!
# Every rule is accounted for

A declaration is unfolded when each reference in it is replaced by what is declared
behind it, or by nothing where the reference is refused.  The rules of a resolution
are those of the unfolded declaration, one by one and in order, except for those
whose target is not a resource type; each of these has an issue of its own, and so
has each reference that is refused.

## Main definitions

* `Declaration.holding` — a declaration with other declarations in it.
* `Resolver.Unfolds` — what members are unfolded to, and the references refused.
* `Resolver.Accounts` — rules and issues account for what is written.
* `Resolver.rules_accounted` — those of a resolution account for the unfolded
  declaration.
-/

namespace Compliance

/-- The kinds of what stands in a declaration, in the order in which rules are listed. -/
def DeclarationKind.within : DeclarationKind → List DeclarationKind
  | .plan => [.module]
  | .module => [.rule, .group, .module]
  | .group => [.rule]
  | .rule => []

theorem DeclarationKind.nodup_within (kind : DeclarationKind) : kind.within.Nodup := by
  cases kind <;> decide

/-! ## Rules by kinds -/

namespace Resolved

/-- The kind of a resolved declaration. -/
def kind : Resolved → DeclarationKind
  | .plan _ => .plan
  | .module _ => .module
  | .group _ => .group
  | .rule _ => .rule

/-- A rule by itself. -/
def itself : Resolved → List Rule
  | .rule x => [x]
  | _ => []

/-- The rules in those of some resolved declarations that are of a kind. -/
def rulesOf (kind : DeclarationKind) (xs : List Resolved) : List Rule :=
  (xs.filter fun x => x.kind = kind).flatMap rules

theorem rulesOf_append (kind : DeclarationKind) (xs ys : List Resolved) :
    rulesOf kind (xs ++ ys) = rulesOf kind xs ++ rulesOf kind ys := by
  simp [rulesOf]

theorem rulesOf_singleton (kind : DeclarationKind) (x : Resolved) :
    rulesOf kind [x] = if x.kind = kind then x.rules else [] := by
  by_cases same : x.kind = kind <;> simp [rulesOf, same]

theorem rulesOf_map {α : Type} {wrap : α → Resolved} {own : DeclarationKind}
    (h : ∀ a, (wrap a).kind = own) (kind : DeclarationKind) (as : List α) :
    rulesOf kind (as.map wrap) = if own = kind then as.flatMap fun a => (wrap a).rules else [] := by
  by_cases same : own = kind <;> simp [rulesOf, List.filter_map, Function.comp_def, h, same,
    List.flatMap_map]

/-- The rules of a declaration are those of what stands in it, by kinds. -/
theorem rules_eq (x : Resolved) :
    x.rules = x.itself ++ x.kind.within.flatMap fun kind => rulesOf kind x.children := by
  have modules := @rulesOf_map _ .module _ fun _ => rfl
  have groups := @rulesOf_map _ .group _ fun _ => rfl
  have own := @rulesOf_map _ .rule _ fun _ => rfl
  cases x with
  | plan x =>
    simp [rules, Module.rulesOfAll_eq, itself, kind, DeclarationKind.within, children, modules]
  | module x =>
    obtain ⟨name, settings, inner, groups', rules'⟩ := x
    simp [rules, Module.allRules, Module.rulesOfAll_eq, itself, kind, DeclarationKind.within,
      children, rulesOf_append, modules, groups, own]
  | group x => simp [rules, itself, kind, DeclarationKind.within, children, own]
  | rule x => rfl

end Resolved

namespace Declaration

/-- A rule by itself. -/
def itself : Declaration → List Rule
  | .rule d => [d]
  | _ => []

/-- The rules that are written in those of some declarations that are of a kind. -/
def writtenOf (kind : DeclarationKind) (ds : List Declaration) : List Rule :=
  (ds.filter fun d => d.kind = kind).flatMap writtenRules

theorem writtenOf_append (kind : DeclarationKind) (ds es : List Declaration) :
    writtenOf kind (ds ++ es) = writtenOf kind ds ++ writtenOf kind es := by
  simp [writtenOf]

theorem writtenOf_singleton (kind : DeclarationKind) (d : Declaration) :
    writtenOf kind [d] = if d.kind = kind then d.writtenRules else [] := by
  by_cases same : d.kind = kind <;> simp [writtenOf, same]

theorem Module.writtenRulesOfAll_eq (ds : List Module) :
    Module.writtenRulesOfAll ds = ds.flatMap Module.writtenRules := by
  induction ds with
  | nil => rfl
  | cons d more ih => rw [Module.writtenRulesOfAll, ih, List.flatMap_cons]

/-- A module, a group or a rule. -/
def module? : Declaration → Option Module
  | .module d => some d
  | _ => none

@[inherit_doc module?]
def group? : Declaration → Option Group
  | .group d => some d
  | _ => none

@[inherit_doc module?]
def rule? : Declaration → Option Rule
  | .rule d => some d
  | _ => none

/-- A declaration with other declarations in place of what stands in it. -/
def holding (inside : List Declaration) : Declaration → Declaration
  | .plan d => .plan { d with modules := inside.filterMap module?, useModules := [] }
  | .module d => .module { d with
      modules := inside.filterMap module?, useModules := []
      groups := inside.filterMap group?, useGroups := []
      rules := inside.filterMap rule?, useRules := [] }
  | .group d => .group { d with rules := inside.filterMap rule?, useRules := [] }
  | .rule d => .rule d

@[simp] theorem kind_holding (inside : List Declaration) (d : Declaration) :
    (d.holding inside).kind = d.kind := by
  cases d <;> rfl

theorem flatMap_filterMap {α : Type} {pick : Declaration → Option α} {f : α → List Rule}
    {kind : DeclarationKind}
    (h : ∀ d, (pick d).elim [] f = if d.kind = kind then d.writtenRules else [])
    (ds : List Declaration) : (ds.filterMap pick).flatMap f = writtenOf kind ds := by
  induction ds with
  | nil => rfl
  | cons d more ih =>
    have first := h d
    rw [writtenOf] at ih ⊢
    by_cases same : d.kind = kind <;> cases picked : pick d <;>
      simp_all

/-- What is written in a declaration that holds others is written in these, by kinds. -/
theorem writtenRules_holding (inside : List Declaration) (d : Declaration) :
    (d.holding inside).writtenRules =
      d.itself ++ d.kind.within.flatMap fun kind => writtenOf kind inside := by
  have modules := @flatMap_filterMap _ module? Module.writtenRules .module
    (fun d => by cases d <;> rfl) inside
  have groups := @flatMap_filterMap _ group? Group.rules .group (fun d => by cases d <;> rfl) inside
  have rules := @flatMap_filterMap _ rule? List.singleton .rule (fun d => by cases d <;> rfl) inside
  have rules : inside.filterMap rule? = writtenOf .rule inside := by
    rw [← rules]
    exact (List.flatMap_pure_eq_map ..).trans (List.map_id _) |>.symm
  cases d with
  | plan d =>
    simp [holding, writtenRules, Module.writtenRulesOfAll_eq, itself, kind,
      DeclarationKind.within, modules]
  | module d =>
    simp [holding, writtenRules, Module.writtenRules, Module.writtenRulesOfAll_eq, itself, kind,
      DeclarationKind.within, modules, groups, rules]
  | group d => simp [holding, writtenRules, itself, kind, DeclarationKind.within, rules]
  | rule d => rfl

/-- The kinds of some declarations cover what is written in them. -/
theorem perm_writtenOf {kinds : List DeclarationKind} {ds : List Declaration} (nodup : kinds.Nodup)
    (h : ∀ d ∈ ds, d.kind ∈ kinds) :
    (kinds.flatMap fun kind => writtenOf kind ds).Perm (ds.flatMap writtenRules) := by
  induction kinds generalizing ds with
  | nil =>
    have none : ds = [] := List.eq_nil_iff_forall_not_mem.mpr fun d hd => by cases h d hd
    simp [none]
  | cons first more ih =>
    obtain ⟨fresh, nodup⟩ := List.nodup_cons.mp nodup
    let others := ds.filter fun d => !decide (d.kind = first)
    have behind : more.flatMap (fun kind => writtenOf kind ds) =
        more.flatMap fun kind => writtenOf kind others := by
      refine List.flatMap_congr fun kind hk => ?_
      have differ : kind ≠ first := fun same => fresh (same ▸ hk)
      rw [writtenOf, writtenOf, List.filter_filter]
      congr 2
      funext d
      by_cases same : d.kind = kind <;> simp [same, differ]
    have covered : ∀ d ∈ others, d.kind ∈ more := by
      intro d hd
      obtain ⟨hd, differ⟩ := List.mem_filter.mp hd
      exact (List.mem_cons.mp (h d hd)).resolve_left (by simpa using differ)
    rw [List.flatMap_cons, behind]
    refine ((ih nodup covered).append_left _).trans ?_
    rw [writtenOf, ← List.flatMap_append]
    exact (List.filter_append_perm _ ds).flatMap_right _

/-- What is written in others is written in a declaration that holds them. -/
theorem perm_writtenRules_holding {inside : List Declaration} {d : Declaration}
    (h : ∀ y ∈ inside, y.kind ∈ d.kind.within) :
    (d.holding inside).writtenRules.Perm (d.itself ++ inside.flatMap writtenRules) := by
  rw [writtenRules_holding]
  exact (perm_writtenOf d.kind.nodup_within h).append_left _

theorem writtenRules_subset_holding {inside : List Declaration} {d y : Declaration}
    (h : ∀ y ∈ inside, y.kind ∈ d.kind.within) (hy : y ∈ inside) :
    y.writtenRules ⊆ (d.holding inside).writtenRules := by
  intro rule hr
  have among : rule ∈ inside.flatMap writtenRules := List.mem_flatMap.mpr ⟨y, hy, hr⟩
  exact (perm_writtenRules_holding h).mem_iff.mpr (List.mem_append_right _ among)

/-! ## Kinds of members -/

/-- The kind of the declarations that a member stands for. -/
def Member.kind : Member → DeclarationKind
  | .written d => d.kind
  | .used kind _ => kind

theorem kind_of_mem_membersOf {α : Type} {kind : DeclarationKind} {wrap : α → Declaration}
    {own : List α} {references : List Inclusion} {member : Member}
    (hm : member ∈ membersOf kind wrap own references) (h : ∀ a, (wrap a).kind = kind) :
    member.kind = kind := by
  rcases List.mem_append.mp hm with hm | hm
  · obtain ⟨a, -, rfl⟩ := List.mem_map.mp hm
    exact h a
  · obtain ⟨reference, -, rfl⟩ := List.mem_map.mp hm
    rfl

theorem kind_mem_within {d : Declaration} {member : Member} (h : member ∈ d.members) :
    member.kind ∈ d.kind.within := by
  cases d with
  | plan d => simp [kind_of_mem_membersOf h fun _ => rfl, kind, DeclarationKind.within]
  | module d =>
    rcases List.mem_append.mp h with h | h
    · rcases List.mem_append.mp h with h | h
      · simp [kind_of_mem_membersOf h fun _ => rfl, kind, DeclarationKind.within]
      · simp [kind_of_mem_membersOf h fun _ => rfl, kind, DeclarationKind.within]
    · simp [kind_of_mem_membersOf h fun _ => rfl, kind, DeclarationKind.within]
  | group d => simp [kind_of_mem_membersOf h fun _ => rfl, kind, DeclarationKind.within]
  | rule d => cases h

end Declaration

/-! ## Unfolded declarations -/

namespace Resolver

open Declaration

/-- While some paths are active, members in a place are unfolded: each reference is replaced by what
is declared behind it, unless it is refused.  The references that are refused are listed with their
issues, in the order of the members. -/
inductive Unfolds (r : Resolver) : List Path → Path → List Member → List Declaration →
    List (Inclusion × Issue) → Prop
  | nil {active place} : Unfolds r active place [] [] []
  /-- A declaration in place holds what its members are unfolded to. -/
  | written {active place d members inside refused whole more} :
      Unfolds r active place d.members inside refused →
      Unfolds r active place members whole more →
      Unfolds r active place (.written d :: members) (d.holding inside :: whole) (refused ++ more)
  /-- A reference that is expanded stands for what is declared behind it. -/
  | used {active place kind reference path fragment members behind refused whole more} :
      r.sources.Expands place kind reference path fragment → path ∉ active →
      Unfolds r (path :: active) (r.sources.baseDir path) (fragment.map .written) behind refused →
      Unfolds r active place members whole more →
      Unfolds r active place (.used kind reference :: members) (behind ++ whole) (refused ++ more)
  /-- A reference that is refused stands for nothing. -/
  | unused {active place kind reference issue members whole more} :
      r.Refuses active place kind reference issue →
      Unfolds r active place members whole more →
      Unfolds r active place (.used kind reference :: members) whole ((reference, issue) :: more)

variable {r : Resolver} {active : List Path} {place : Path} {members : List Member}

/-- A reference that is refused is not expanded, and is refused for one reason. -/
theorem Refuses.unique {kind : DeclarationKind} {reference : Inclusion} {issue issue' : Issue}
    (h : r.Refuses active place kind reference issue)
    (h' : r.Refuses active place kind reference issue') : issue = issue' := by
  cases h <;> cases h' <;> simp_all

theorem Refuses.not_expands {kind : DeclarationKind} {reference : Inclusion} {issue : Issue}
    {path : Path} {fragment : List Declaration} (h : r.Refuses active place kind reference issue)
    (fresh : path ∉ active) : ¬ r.sources.Expands place kind reference path fragment := by
  rintro ⟨rfl, text, read, parsed⟩
  cases h <;> simp_all

/-- **Members are unfolded in one way.** -/
theorem Unfolds.unique {whole whole' : List Declaration}
    {refused refused' : List (Inclusion × Issue)}
    (h : r.Unfolds active place members whole refused)
    (h' : r.Unfolds active place members whole' refused') :
    whole = whole' ∧ refused = refused' := by
  induction h generalizing whole' refused' with
  | nil =>
    cases h'
    exact ⟨rfl, rfl⟩
  | written _ _ inside behind =>
    cases h' with
    | written within more =>
      obtain ⟨rfl, rfl⟩ := inside within
      obtain ⟨rfl, rfl⟩ := behind more
      exact ⟨rfl, rfl⟩
  | used expands fresh _ _ inside behind =>
    cases h' with
    | used expands' _ within more =>
      obtain ⟨rfl, rfl⟩ := expands.unique expands'
      obtain ⟨rfl, rfl⟩ := inside within
      obtain ⟨rfl, rfl⟩ := behind more
      exact ⟨rfl, rfl⟩
    | unused refuses _ => exact absurd expands (refuses.not_expands fresh)
  | unused refuses _ behind =>
    cases h' with
    | used expands fresh _ _ => exact absurd expands (refuses.not_expands fresh)
    | unused refuses' more =>
      obtain ⟨rfl, rfl⟩ := behind more
      rw [refuses.unique refuses']
      exact ⟨rfl, rfl⟩

/-- Members are unfolded to declarations of their kinds. -/
theorem Unfolds.exists_kind {whole : List Declaration} {refused : List (Inclusion × Issue)}
    (h : r.Unfolds active place members whole refused) :
    ∀ x ∈ whole, ∃ member ∈ members, member.kind = x.kind := by
  induction h with
  | nil => simp
  | @written _ _ d _ _ _ _ _ _ _ _ behind =>
    intro x hx
    rcases List.mem_cons.mp hx with rfl | hx
    · exact ⟨.written d, List.mem_cons_self, (kind_holding _ d).symm⟩
    · obtain ⟨member, hm, same⟩ := behind x hx
      exact ⟨member, List.mem_cons_of_mem _ hm, same⟩
  | @used _ _ kind reference path _ _ _ _ _ _ expands _ _ _ inside behind =>
    intro x hx
    rcases List.mem_append.mp hx with hx | hx
    · obtain ⟨member, hm, same⟩ := inside x hx
      obtain ⟨d, hd, rfl⟩ := List.mem_map.mp hm
      obtain ⟨text, -, parsed⟩ := expands.parsed
      exact ⟨.used kind reference, List.mem_cons_self,
        (kind_and_file_of_parse parsed d hd).1.symm.trans same⟩
    · obtain ⟨member, hm, same⟩ := behind x hx
      exact ⟨member, List.mem_cons_of_mem _ hm, same⟩
  | unused _ _ behind =>
    intro x hx
    obtain ⟨member, hm, same⟩ := behind x hx
    exact ⟨member, List.mem_cons_of_mem _ hm, same⟩

/-- What the members of a declaration are unfolded to may stand in it. -/
theorem Unfolds.kind_mem_within {d : Declaration} {inside : List Declaration}
    {refused : List (Inclusion × Issue)} (h : r.Unfolds active place d.members inside refused) :
    ∀ x ∈ inside, x.kind ∈ d.kind.within := by
  intro x hx
  obtain ⟨member, hm, same⟩ := h.exists_kind x hx
  exact same ▸ Declaration.kind_mem_within hm

end Resolver

/-! ## Accounts -/

/-- Whether an issue is that of a rule that is lost. -/
def Issue.isLostRule : Issue → Bool
  | .malformedTarget _ _ _ => true
  | _ => false

theorem Issue.isFatal_of_isLostRule {issue : Issue} (h : issue.isLostRule = true) :
    issue.isFatal = true := by
  cases issue <;> first | rfl | cases h

/-- Whether the target of a rule is a resource type. -/
def Declaration.Rule.isTargeted (d : Declaration.Rule) : Bool := (TypeRef.read? d.target).isSome

/-- The issue of a rule that is lost. -/
def Declaration.Rule.lostIssue (d : Declaration.Rule) : Issue :=
  .malformedTarget d.origin d.name d.target

namespace Resolved.StandsFor

variable {x : Resolved} {d : Declaration}

theorem kind_eq (h : x.StandsFor d) : x.kind = d.kind := by
  cases x <;> cases d <;> first | rfl | cases h

/-- A rule that is resolved has a target. -/
theorem isTargeted {e : Declaration.Rule} (h : x.StandsFor (.rule e)) : e.isTargeted = true := by
  cases x with
  | rule x => rw [Declaration.Rule.isTargeted, h.2.1, Option.isSome_some]
  | _ => cases h

theorem itself (h : x.StandsFor d) :
    List.Forall₂ (fun x d => StandsFor (.rule x) (.rule d)) x.itself
      (d.itself.filter Declaration.Rule.isTargeted) := by
  cases d with
  | rule e =>
    cases x with
    | rule x =>
      rw [Declaration.itself, List.filter_singleton, h.isTargeted]
      exact .cons h .nil
    | _ => cases h
  | _ => cases x <;> first | exact .nil | cases h

theorem targeted (h : x.StandsFor d) : (d.itself.filter fun e => !e.isTargeted) = [] := by
  cases d with
  | rule e => rw [Declaration.itself, List.filter_singleton, h.isTargeted]; rfl
  | _ => rfl

end Resolved.StandsFor

namespace Resolver

open Declaration Resolving

variable {r : Resolver} {active : List Path} {place : Path} {members : List Member}

theorem isFatal_of_mem_settingIssues {own : List Assignment} {issue : Issue}
    (h : issue ∈ r.settingIssues own) : issue.isFatal = false := by
  obtain ⟨s, -, refused⟩ := List.mem_filterMap.mp h
  cases accepted : r.setting s with
  | ok _ => simp [accepted] at refused
  | error issue =>
    simp only [accepted, Option.some.injEq] at refused
    subst refused
    unfold setting at accepted
    split at accepted
    · cases accepted
      rfl
    · split at accepted
      · cases accepted
        rfl
      · split at accepted
        · cases accepted
        · split at accepted <;> cases accepted
          rfl

/-- A reference that is refused has a fatal issue, and not that of a rule. -/
theorem Refuses.isFatal {kind : DeclarationKind} {reference : Inclusion} {issue : Issue}
    (h : r.Refuses active place kind reference issue) :
    issue.isFatal = true ∧ issue.isLostRule = false := by
  cases h with
  | @unread path fault _ _ _ => cases fault <;> exact ⟨rfl, rfl⟩
  | _ => exact ⟨rfl, rfl⟩

/-- What was found accounts for what is unfolded: rules with a target are found in order, each of
the others has an issue, and so has each reference that is refused. -/
structure Accounts (found : List Resolved) (issues : List Issue) (whole : List Declaration)
    (refused : List (Inclusion × Issue)) : Prop where
  rules : ∀ kind, List.Forall₂ (fun x d => Resolved.StandsFor (.rule x) (.rule d))
    (Resolved.rulesOf kind found) ((writtenOf kind whole).filter Rule.isTargeted)
  lost : (issues.filter Issue.isLostRule).Perm
    (((whole.flatMap writtenRules).filter fun d => !d.isTargeted).map Rule.lostIssue)
  refused : (issues.filter fun issue => issue.isFatal && !issue.isLostRule) = refused.map (·.2)

namespace Accounts

variable {found found' : List Resolved} {issues issues' : List Issue}
  {whole whole' : List Declaration} {refused refused' : List (Inclusion × Issue)}

theorem nil : Accounts [] [] [] [] where
  rules _ := .nil
  lost := .nil
  refused := rfl

theorem append (h : Accounts found issues whole refused)
    (h' : Accounts found' issues' whole' refused') :
    Accounts (found ++ found') (issues ++ issues') (whole ++ whole') (refused ++ refused') where
  rules kind := by
    rw [Resolved.rulesOf_append, writtenOf_append, List.filter_append]
    exact List.rel_append (h.rules kind) (h'.rules kind)
  lost := by
    rw [List.filter_append, List.flatMap_append, List.filter_append, List.map_append]
    exact h.lost.append h'.lost
  refused := by rw [List.filter_append, List.map_append, h.refused, h'.refused]

theorem of_settings (own : List Assignment) : Accounts [] (r.settingIssues own) [] [] where
  rules _ := .nil
  lost := by
    refine List.Perm.of_eq (List.filter_eq_nil_iff.mpr fun issue hi lost => ?_)
    have harmless := isFatal_of_mem_settingIssues hi
    rw [Issue.isFatal_of_isLostRule lost] at harmless
    cases harmless
  refused := by
    refine List.filter_eq_nil_iff.mpr fun issue hi fatal => ?_
    simp [isFatal_of_mem_settingIssues hi] at fatal

theorem of_lost {d : Rule} (lost : TypeRef.read? d.target = none) :
    Accounts [] [.malformedTarget d.origin d.name d.target] [.rule d] [] where
  rules kind := by
    have untargeted : d.isTargeted = false := by simp [Rule.isTargeted, lost]
    by_cases same : kind = .rule <;>
      simp [writtenOf, Declaration.kind, same, writtenRules, untargeted, Resolved.rulesOf]
  lost := by simp [Issue.isLostRule, writtenRules, Rule.isTargeted, lost, Rule.lostIssue]
  refused := rfl

theorem of_unused {kind : DeclarationKind} {reference : Inclusion} {issue : Issue}
    (h : r.Refuses active place kind reference issue) :
    Accounts [] [issue] [] [(reference, issue)] where
  rules _ := .nil
  lost := by simp [h.isFatal]
  refused := by simp [h.isFatal]

/-- A declaration accounts for itself and what it holds. -/
theorem holding {d : Declaration} {x : Resolved} (stands : x.StandsFor d)
    (covered : ∀ y ∈ whole, y.kind ∈ d.kind.within) (h : Accounts x.children issues whole refused) :
    Accounts [x] issues [d.holding whole] refused where
  rules kind := by
    rw [Resolved.rulesOf_singleton, writtenOf_singleton, kind_holding, stands.kind_eq]
    by_cases same : d.kind = kind
    · rw [if_pos same, if_pos same, Resolved.rules_eq, writtenRules_holding, List.filter_append,
        List.filter_flatMap, stands.kind_eq]
      have kinds : List.Forall₂ Eq d.kind.within d.kind.within := List.forall₂_refl _
      refine List.rel_append stands.itself (List.rel_flatMap kinds ?_)
      rintro kind _ rfl
      exact h.rules kind
    · rw [if_neg same, if_neg same]
      exact .nil
  lost := by
    refine h.lost.trans (List.Perm.map _ ?_)
    rw [List.flatMap_singleton]
    have all := (perm_writtenRules_holding covered).symm.filter fun e => !e.isTargeted
    rwa [List.filter_append, stands.targeted, List.nil_append] at all
  refused := h.refused

/-- Where nothing is fatal no reference is refused, and every rule has a target. -/
theorem clean (h : Accounts found issues whole refused)
    (harmless : ∀ issue ∈ issues, issue.isFatal = false) :
    refused = [] ∧ ∀ written ∈ whole.flatMap writtenRules, written.isTargeted = true := by
  constructor
  · have none := h.refused
    rw [List.filter_eq_nil_iff.mpr fun issue hi => by simp [harmless issue hi]] at none
    exact List.map_eq_nil_iff.mp none.symm
  · have lost := h.lost
    have none : ∀ issue ∈ issues, ¬ issue.isLostRule = true := by
      intro issue hi isLost
      have fatal := Issue.isFatal_of_isLostRule isLost
      simp [harmless issue hi] at fatal
    rw [List.filter_eq_nil_iff.mpr none] at lost
    simpa using lost

end Accounts

/-- **What members become accounts for what they are unfolded to.** -/
theorem Becomes.exists_accounts {top : Settings} {outer : List (List Assignment)}
    {found : List Resolved} {issues : List Issue}
    (h : r.Becomes top active outer place members found issues) :
    ∃ whole refused, r.Unfolds active place members whole refused ∧
      Accounts found issues whole refused := by
  induction h with
  | nil => exact ⟨[], [], .nil, .nil⟩
  | written stands _ _ _ inside behind =>
    obtain ⟨within, refused, unfolds, accounts⟩ := inside
    obtain ⟨whole, more, unfolds', accounts'⟩ := behind
    have here := accounts.holding stands unfolds.kind_mem_within
    refine ⟨_, _, .written unfolds unfolds', ?_⟩
    exact ((Accounts.of_settings _).append here).append accounts'
  | lost lost _ behind =>
    obtain ⟨whole, more, unfolds, accounts⟩ := behind
    exact ⟨_, _, .written .nil unfolds, (Accounts.of_lost lost).append accounts⟩
  | used expands fresh _ _ inside behind =>
    obtain ⟨within, refused, unfolds, accounts⟩ := inside
    obtain ⟨whole, more, unfolds', accounts'⟩ := behind
    exact ⟨_, _, .used expands fresh unfolds unfolds', accounts.append accounts'⟩
  | unused refuses _ behind =>
    obtain ⟨whole, more, unfolds, accounts⟩ := behind
    exact ⟨_, _, .unused refuses unfolds, (Accounts.of_unused refuses).append accounts⟩

/-! ## Resolutions without fatal issues -/

/-- Only the declaration itself becomes something where it is alone. -/
theorem Becomes.standsFor_of_mem {top : Settings} {outer : List (List Assignment)}
    {d : Declaration} {found : List Resolved} {issues : List Issue}
    (h : r.Becomes top active outer place [.written d] found issues) :
    ∀ x ∈ found, x.StandsFor d := by
  cases h with
  | written stands _ _ rest =>
    cases rest
    simpa using stands
  | lost _ rest =>
    cases rest
    simp

/-- A single declaration is unfolded to a single one. -/
theorem Unfolds.single {d : Declaration} {whole : List Declaration}
    {refused : List (Inclusion × Issue)} (h : r.Unfolds active place [.written d] whole refused) :
    ∃ inside, whole = [d.holding inside] ∧ r.Unfolds active place d.members inside refused := by
  cases h with
  | written inside rest =>
    cases rest
    exact ⟨_, rfl, by rwa [List.append_nil]⟩

theorem Unfolds.of_mem_written {d : Declaration} {whole : List Declaration}
    {refused : List (Inclusion × Issue)} (h : r.Unfolds active place members whole refused)
    (clean : refused = []) (hd : .written d ∈ members) :
    ∃ x, r.Unfolds active place [.written d] [x] [] ∧ x ∈ whole := by
  induction h with
  | nil => cases hd
  | written inside _ _ behind =>
    obtain ⟨rfl, rfl⟩ := List.append_eq_nil_iff.mp clean
    rcases List.mem_cons.mp hd with same | hd
    · cases same
      exact ⟨_, .written inside .nil, List.mem_cons_self⟩
    · obtain ⟨x, unfolds, hx⟩ := behind rfl hd
      exact ⟨x, unfolds, List.mem_cons_of_mem _ hx⟩
  | used _ _ _ _ _ behind =>
    obtain ⟨rfl, rfl⟩ := List.append_eq_nil_iff.mp clean
    rcases List.mem_cons.mp hd with same | hd
    · cases same
    · obtain ⟨x, unfolds, hx⟩ := behind rfl hd
      exact ⟨x, unfolds, List.mem_append_right _ hx⟩
  | unused => cases clean

/-- What is declared behind a reference among the members is unfolded. -/
theorem Unfolds.of_mem_used {kind : DeclarationKind} {reference : Inclusion} {path : Path}
    {fragment : List Declaration} {whole : List Declaration} {refused : List (Inclusion × Issue)}
    (h : r.Unfolds active place members whole refused) (clean : refused = [])
    (hm : .used kind reference ∈ members)
    (expands : r.sources.Expands place kind reference path fragment) :
    ∃ behind,
      r.Unfolds (path :: active) (r.sources.baseDir path) (fragment.map .written) behind [] ∧
        behind ⊆ whole := by
  induction h with
  | nil => cases hm
  | written _ _ _ behind =>
    obtain ⟨rfl, rfl⟩ := List.append_eq_nil_iff.mp clean
    rcases List.mem_cons.mp hm with same | hm
    · cases same
    · obtain ⟨x, unfolds, hx⟩ := behind rfl hm expands
      exact ⟨x, unfolds, List.subset_cons_of_subset _ hx⟩
  | used expands' _ inside _ _ behind =>
    obtain ⟨rfl, rfl⟩ := List.append_eq_nil_iff.mp clean
    rcases List.mem_cons.mp hm with same | hm
    · cases same
      obtain ⟨rfl, rfl⟩ := expands.unique expands'
      exact ⟨_, inside, List.subset_append_left _ _⟩
    · obtain ⟨x, unfolds, hx⟩ := behind rfl hm expands
      exact ⟨x, unfolds, List.subset_append_of_subset_right _ hx⟩
  | unused => cases clean

/-- Where no reference is refused, all that lies in a declaration is unfolded with it. -/
theorem Unfolds.of_encloses {base : Path} {d : Declaration} {whole : List Declaration}
    (h : r.Unfolds [] base [.written d] whole []) {outer : List (List Assignment)}
    {place : Path} {x : Declaration} (encloses : d.Encloses r.sources base outer place x) :
    ∃ active x', r.Unfolds active place [.written x] [x'] [] ∧
      x'.writtenRules ⊆ whole.flatMap writtenRules := by
  induction encloses with
  | itself =>
    obtain ⟨inside, rfl, -⟩ := h.single
    exact ⟨[], _, h, by rw [List.flatMap_singleton]; exact List.Subset.refl _⟩
  | written _ hy ih =>
    obtain ⟨active, x', unfolds, sub⟩ := ih
    obtain ⟨inside, same, below⟩ := unfolds.single
    cases same
    obtain ⟨y', unfolds', hy'⟩ := below.of_mem_written rfl hy
    exact ⟨active, y', unfolds',
      List.Subset.trans (writtenRules_subset_holding below.kind_mem_within hy') sub⟩
  | used _ hm expands hy ih =>
    obtain ⟨active, x', unfolds, sub⟩ := ih
    obtain ⟨inside, same, below⟩ := unfolds.single
    cases same
    obtain ⟨behind, unfolds', hb⟩ := below.of_mem_used rfl hm expands
    obtain ⟨y', unfolds'', hy'⟩ := unfolds'.of_mem_written rfl (List.mem_map_of_mem hy)
    exact ⟨_, y', unfolds'',
      List.Subset.trans (writtenRules_subset_holding below.kind_mem_within (hb hy')) sub⟩

/-! ## All rules -/

/-- **No rule is lost without an issue, and none is found twice.**

Unfold a declaration: replace each reference in it by what is declared behind it, and again in that,
except where the reference is refused.  There is one way to do so.  The rules of its resolution are
the rules that are then written in it, in order, each with its name, its conditions, its assertions
and its origin, except for those whose target is not a resource type.  Each of the latter has one
issue, each reference that is refused has one, and there are no other fatal issues.  Without any,
every rule is found that lies in the declaration or behind a reference, however far behind. -/
theorem rules_accounted (r : Resolver) (top : Settings) (base : Path) (d : Declaration) :
    ∃ resolution unfolded refused,
      (r.resolveIn top base d).run State.idle = (resolution, State.idle) ∧
      r.Unfolds [] base [.written d] [unfolded] refused ∧
      (∀ whole more, r.Unfolds [] base [.written d] whole more →
        whole = [unfolded] ∧ more = refused) ∧
      List.Forall₂ (fun x written => Resolved.StandsFor (.rule x) (.rule written))
        (resolution.value.toList.flatMap Resolved.rules)
        (unfolded.writtenRules.filter Rule.isTargeted) ∧
      (resolution.issues.filter Issue.isLostRule).Perm
        ((unfolded.writtenRules.filter fun written => !written.isTargeted).map Rule.lostIssue) ∧
      (resolution.issues.filter fun issue => issue.isFatal && !issue.isLostRule) =
        refused.map (·.2) ∧
      (resolution.hasFatal = false → ∀ outer place written,
        d.Encloses r.sources base outer place (.rule written) →
          ∃ x ∈ resolution.value.toList.flatMap Resolved.rules,
            Resolved.StandsFor (.rule x) (.rule written)) := by
  obtain ⟨resolution, run, comes⟩ := r.run_resolveIn top base d
  obtain ⟨value, issues, yields, becomes⟩ := r.becomes_declaration top base d
  obtain ⟨same, same'⟩ := yields.unique comes
  rw [← same, ← same'] at becomes
  obtain ⟨whole, refused, unfolds, accounts⟩ := becomes.exists_accounts
  obtain ⟨inside, rfl, -⟩ := unfolds.single
  have kinds : ∀ x ∈ resolution.value.toList, x.kind = d.kind := fun x hx =>
    (becomes.standsFor_of_mem x hx).kind_eq
  have rules := accounts.rules d.kind
  rw [Resolved.rulesOf, List.filter_eq_self.mpr (by simpa using kinds), writtenOf_singleton,
    kind_holding, if_pos rfl] at rules
  have lost := accounts.lost
  rw [List.flatMap_singleton] at lost
  refine ⟨resolution, _, refused, run, unfolds, fun _ _ other => other.unique unfolds, rules, lost,
    accounts.refused, ?_⟩
  intro clean outer place written encloses
  have harmless : ∀ issue ∈ resolution.issues, issue.isFatal = false := by
    simpa [Resolution.hasFatal] using clean
  obtain ⟨rfl, targeted⟩ := accounts.clean harmless
  rw [List.flatMap_singleton] at targeted
  obtain ⟨active, x', unfolds', sub⟩ := unfolds.of_encloses encloses
  obtain ⟨_, same, -⟩ := unfolds'.single
  cases same
  rw [List.flatMap_singleton] at sub
  have here := sub List.mem_cons_self
  exact exists_mem_of_forall₂ (List.Forall₂.flip rules) written
    (List.mem_filter.mpr ⟨here, targeted written here⟩)

end Resolver

end Compliance
