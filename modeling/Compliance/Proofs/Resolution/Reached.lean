import Compliance.Declaration.References
import Compliance.Proofs.Declaration.Origin
import Compliance.Proofs.Resolution.Framed

/-!
# What a resolution reaches

A resolution without fatal issues follows every reference, in a declaration and in
all that references lead to, and resolves every rule on the way.  References may
nest without bound here; what bounds them is that none leads to a path on the way
to it, and that there are finitely many.

## Main definitions

* `Declaration.writtenRules` — the rules that are written in a declaration.
* `Sources.Expands` — what stands behind a reference.
* `Sources.Reached` — the declarations that references lead to.
* `Resolver.resolves_of_reached` — all of them are resolved.
-/

namespace Compliance

open Resolving

/-! ## What is written -/

namespace Declaration

mutual

/-- The rules that are written in a module. -/
def Module.writtenRules : Module → List Rule
  | ⟨_, _, modules, _, groups, _, rules, _, _⟩ =>
    rules ++ groups.flatMap (·.rules) ++ Module.writtenRulesOfAll modules

/-- The rules that are written in some modules. -/
def Module.writtenRulesOfAll : List Module → List Rule
  | [] => []
  | d :: more => d.writtenRules ++ Module.writtenRulesOfAll more

end

/-- The rules that are written in a declaration, and not behind its references. -/
def writtenRules : Declaration → List Rule
  | .plan d => Module.writtenRulesOfAll d.modules
  | .module d => d.writtenRules
  | .group d => d.rules
  | .rule d => [d]

end Declaration

/-- What became of a rule as it is written. -/
structure Resolved.Rule.StandsFor (rule : Resolved.Rule) (d : Declaration.Rule) : Prop where
  target : TypeRef.read? d.target = some rule.target
  conditions : rule.conditions = d.conditions
  assertions : rule.assertions = d.assertions

namespace Resolved

/-- The rules of some modules are those of each of them. -/
theorem Module.rulesOfAll_eq (ms : List Module) : Module.rulesOfAll ms = ms.flatMap allRules := by
  induction ms with
  | nil => rfl
  | cons m more ih => rw [Module.rulesOfAll, ih, List.flatMap_cons]

end Resolved

namespace Sources

/-- From a place a reference leads to a path whose text declares something. -/
structure Expands (sources : Sources) (place : Path) (kind : DeclarationKind)
    (reference : Declaration.Inclusion) (path : Path) (fragment : List Declaration) : Prop where
  located : path = locate place reference.path
  parsed : ∃ text, sources.read path = .ok text ∧
    Declaration.parse text path.text kind = .ok fragment

/-- Nothing else stands behind the reference. -/
theorem Expands.unique {sources : Sources} {place path path' : Path} {kind : DeclarationKind}
    {reference : Declaration.Inclusion} {fragment fragment' : List Declaration}
    (h : sources.Expands place kind reference path fragment)
    (h' : sources.Expands place kind reference path' fragment') :
    path = path' ∧ fragment = fragment' := by
  obtain ⟨rfl, text, read, parsed⟩ := h
  obtain ⟨rfl, text', read', parsed'⟩ := h'
  obtain rfl := Except.ok.inj (read.symm.trans read')
  exact ⟨rfl, Except.ok.inj (parsed.symm.trans parsed')⟩

/-- A path that declares something is among those that the sources cover. -/
theorem Expands.mem_extent {sources : Sources} {place path : Path} {kind : DeclarationKind}
    {reference : Declaration.Inclusion} {fragment : List Declaration}
    (h : sources.Expands place kind reference path fragment) (declares : fragment ≠ []) :
    path ∈ sources.extent := by
  obtain ⟨rfl, text, read, parsed⟩ := h
  refine sources.covers read ?_
  rintro rfl
  rw [Declaration.parse_empty] at parsed
  exact declares (Except.ok.inj parsed).symm

end Sources

namespace Resolver

variable {r : Resolver} {active : List Path} {base : Path} {inherited : Settings}
  {rules : List Resolved.Rule}

/-- A reference that is resolved without fatal issues leads to a path that is not active, and all
that is declared there is resolved while it is. -/
private theorem clean_expand {β : Type} {kind : DeclarationKind}
    {each : Path → Declaration → Resolving (List β)} (hf : ∀ path d, Framed (each path d))
    {reference : Declaration.Inclusion} {found : List β}
    (h : Clean (r.expand kind base each reference) active found) :
    ∃ path fragment, r.sources.Expands base kind reference path fragment ∧ path ∉ active ∧
      ∀ d ∈ fragment, ∃ bs, Clean (each path d) (path :: active) bs ∧ bs ⊆ found := by
  rw [expand_eq] at h
  have among := h.of_get (r.framed_expandAmong kind base hf reference)
  unfold expandAmong at among
  simp only at among
  split at among
  · exact (among.not_leaveOut rfl).elim
  · next fresh =>
    split at among
    · next fault _ => exact (among.not_leaveOut (by cases fault <;> rfl)).elim
    · next text read =>
      split at among
      · exact (among.not_leaveOut rfl).elim
      · next fragment parsed =>
        refine ⟨_, fragment, ⟨rfl, text, read, parsed⟩, by simpa using fresh, ?_⟩
        exact (among.of_during (framed_gather (hf _) _)).of_gather (hf _)

/-- A rule that is resolved without fatal issues is there. -/
private theorem clean_rule {d : Declaration.Rule} {found : List Resolved.Rule}
    (h : Clean (r.rule inherited d) active found) : ∃ rule, found = [rule] ∧ rule.StandsFor d := by
  rw [rule] at h
  split at h
  · exact (h.not_leaveOut rfl).elim
  · next target read =>
    obtain ⟨settings, -, rfl⟩ := h.of_map (r.framed_settings _ _)
    exact ⟨_, rfl, read, rfl, rfl⟩

/-- While paths are active, a declaration in a place is resolved without fatal issues, and all its
rules are among some rules.  Plans are resolved only where no path is active. -/
def Resolves (r : Resolver) (active : List Path) (base : Path) (rules : List Resolved.Rule) :
    Declaration → Prop
  | .rule d => ∃ inherited found, Clean (r.rule inherited d) active found ∧ found ⊆ rules
  | .group d => ∃ inherited found, Clean (r.group inherited base d) active found ∧
      found.rules ⊆ rules
  | .module d => ∃ inherited found,
      Clean (r.moduleWith (r.moduleOf active) inherited base d) active found ∧
      found.allRules ⊆ rules
  | .plan d => active = [] ∧ ∃ inherited found, Clean (r.plan inherited base d) [] found ∧
      Resolved.Module.rulesOfAll found.modules ⊆ rules

/-- While paths are active, a reference from a place is followed to a path that is not active, and
all that is declared there is resolved while it is. -/
def Follows (r : Resolver) (active : List Path) (base : Path) (rules : List Resolved.Rule)
    (kind : DeclarationKind) (reference : Declaration.Inclusion) : Prop :=
  ∃ path fragment, r.sources.Expands base kind reference path fragment ∧ path ∉ active ∧
    ∀ d ∈ fragment, r.Resolves (path :: active) (r.sources.baseDir path) rules d

/-- Paths are active one at a time, and only those with a text. -/
structure Stacked (r : Resolver) (active : List Path) : Prop where
  nodup : active.Nodup
  extent : ∀ path ∈ active, path ∈ r.sources.extent

/-- A path that declares something may become active. -/
theorem Stacked.cons (h : r.Stacked active) {kind : DeclarationKind}
    {reference : Declaration.Inclusion} {path : Path} {fragment : List Declaration}
    (expands : r.sources.Expands base kind reference path fragment) (fresh : path ∉ active)
    (declares : fragment ≠ []) : r.Stacked (path :: active) :=
  ⟨List.nodup_cons.mpr ⟨fresh, h.nodup⟩,
    List.forall_mem_cons.mpr ⟨expands.mem_extent declares, h.extent⟩⟩

theorem Stacked.mem_unread {path : Path} (h : r.Stacked (path :: active)) :
    path ∈ r.unread active :=
  Resolver.mem_unread.mpr ⟨h.extent path List.mem_cons_self, (List.nodup_cons.mp h.nodup).1⟩

/-- A module behind an unread path is resolved while the path is active. -/
theorem moduleOf_module {path : Path} (unread : path ∈ r.unread active)
    (d : Declaration.Module) : r.moduleOf active inherited path (.module d) =
      (do return [← r.moduleWith (r.moduleOf (path :: active)) inherited
        (r.sources.baseDir path) d]) := by
  rw [moduleOf, if_pos unread]

/-- A reference that is resolved without fatal issues is followed, if what is declared behind it
is resolved. -/
private theorem follows_of_clean {β : Type} {kind : DeclarationKind}
    {each : Path → Declaration → Resolving (List β)} {reference : Declaration.Inclusion}
    {found : List β} (hs : r.Stacked active) (hf : ∀ path d, Framed (each path d))
    (h : Clean (r.expand kind base each reference) active found)
    (behind : ∀ path, r.Stacked (path :: active) → ∀ d, d.kind = kind → ∀ bs,
      Clean (each path d) (path :: active) bs → bs ⊆ found →
        r.Resolves (path :: active) (r.sources.baseDir path) rules d) :
    r.Follows active base rules kind reference := by
  obtain ⟨path, fragment, expands, fresh, clean⟩ := clean_expand hf h
  refine ⟨path, fragment, expands, fresh, fun d hd => ?_⟩
  obtain ⟨bs, each, within⟩ := clean d hd
  obtain ⟨text, -, parsed⟩ := expands.parsed
  have kind := (Declaration.kind_and_file_of_parse parsed d hd).1
  exact behind path (hs.cons expands fresh (List.ne_nil_of_mem hd)) d kind bs each within

/-! ## Declarations -/

/-- Rules are there, and references are followed. -/
structure Complete (r : Resolver) (active : List Path) (base : Path) (rules : List Resolved.Rule)
    (written : List Declaration.Rule)
    (references : List (DeclarationKind × Declaration.Inclusion)) : Prop where
  resolved : ∀ d ∈ written, ∃ rule ∈ rules, rule.StandsFor d
  followed : ∀ kind reference, (kind, reference) ∈ references →
    r.Follows active base rules kind reference

theorem Complete.append {written written' : List Declaration.Rule}
    {references references' : List (DeclarationKind × Declaration.Inclusion)}
    (h : r.Complete active base rules written references)
    (h' : r.Complete active base rules written' references') :
    r.Complete active base rules (written ++ written') (references ++ references') where
  resolved d hd := by
    rcases List.mem_append.mp hd with hd | hd
    · exact h.resolved d hd
    · exact h'.resolved d hd
  followed kind reference hm := by
    rcases List.mem_append.mp hm with hm | hm
    · exact h.followed kind reference hm
    · exact h'.followed kind reference hm

theorem Complete.of_subset {written : List Declaration.Rule}
    {references references' : List (DeclarationKind × Declaration.Inclusion)}
    (h : r.Complete active base rules written references) (sub : references' ⊆ references) :
    r.Complete active base rules written references' := by
  refine ⟨h.resolved, ?_⟩
  intro kind reference hm
  exact h.followed kind reference (sub hm)

theorem Complete.flatMap {α : Type} {written : α → List Declaration.Rule}
    {references : α → List (DeclarationKind × Declaration.Inclusion)} {ds : List α}
    (h : ∀ d ∈ ds, r.Complete active base rules (written d) (references d)) :
    r.Complete active base rules (ds.flatMap written) (ds.flatMap references) where
  resolved rule hr := by
    obtain ⟨d, hd, hm⟩ := List.mem_flatMap.mp hr
    exact (h d hd).resolved rule hm
  followed kind reference hr := by
    obtain ⟨d, hd, hm⟩ := List.mem_flatMap.mp hr
    exact (h d hd).followed kind reference hm

/-- All references to one kind of declarations are followed. -/
private theorem complete_referencesTo {β : Type} {kind : DeclarationKind}
    {f : Declaration.Inclusion → Resolving (List β)} {references : List Declaration.Inclusion}
    {found : List β} (hf : ∀ reference, Framed (f reference))
    (h : Clean (gather f references) active found)
    (each : ∀ reference bs, Clean (f reference) active bs → bs ⊆ found →
      r.Follows active base rules kind reference) :
    r.Complete active base rules [] (Declaration.referencesTo kind references) where
  resolved := by simp
  followed other reference hm := by
    obtain ⟨inclusion, hi, same⟩ := List.mem_map.mp hm
    obtain ⟨rfl, rfl⟩ := Prod.mk.inj same
    obtain ⟨bs, clean, within⟩ := h.of_gather hf inclusion hi
    exact each inclusion bs clean within

private theorem complete_rules {own : List Declaration.Rule}
    {references : List Declaration.Inclusion} {found : List Resolved.Rule} (hs : r.Stacked active)
    (h : Clean (r.rules inherited base own references) active found) (sub : found ⊆ rules) :
    r.Complete active base rules own (Declaration.referencesTo .rule references) := by
  have framed := fun (_ : Path) d => r.framed_ruleOf inherited d
  obtain ⟨inPlace, first, behind⟩ := h.of_bind (framed_gather (r.framed_rule inherited) _) fun _ =>
    (framed_gather (r.framed_expand _ _ framed) _).result _
  obtain ⟨referred, second, rfl⟩ := behind.of_map (framed_gather (r.framed_expand _ _ framed) _)
  refine ⟨fun d hd => ?_, ?_⟩
  · obtain ⟨found, clean, within⟩ := first.of_gather (r.framed_rule inherited) d hd
    obtain ⟨rule, rfl, stands⟩ := clean_rule clean
    exact ⟨rule, sub (List.mem_append_left _ (within (List.mem_singleton_self rule))), stands⟩
  · refine (complete_referencesTo (r.framed_expand _ _ framed) second ?_).followed
    intro reference bs clean within
    refine follows_of_clean hs framed clean fun path _ d kind found each inside => ?_
    cases d with
    | rule d =>
      exact ⟨inherited, found, each, fun rule hr =>
        sub (List.mem_append_right _ (within (inside hr)))⟩
    | _ => cases kind

private theorem complete_group {d : Declaration.Group} {found : Resolved.Group}
    (hs : r.Stacked active) (h : Clean (r.group inherited base d) active found)
    (sub : found.rules ⊆ rules) : r.Complete active base rules d.rules d.references := by
  obtain ⟨settings, -, behind⟩ := h.of_bind (r.framed_settings _ _) fun settings =>
    (r.framed_rules settings _ _ _).result _
  obtain ⟨_, clean, rfl⟩ := behind.of_map (r.framed_rules settings _ _ _)
  exact complete_rules hs clean sub

private theorem complete_groups {own : List Declaration.Group}
    {references : List Declaration.Inclusion} {found : List Resolved.Group}
    (hs : r.Stacked active) (h : Clean (r.groups inherited base own references) active found)
    (sub : found.flatMap (·.rules) ⊆ rules) :
    r.Complete active base rules (own.flatMap (·.rules))
      (own.flatMap Declaration.Group.references ++
        Declaration.referencesTo .group references) := by
  have framed := r.framed_groupOf inherited
  have each : ∀ d, Framed (do return [← r.group inherited base d]) := fun d =>
    (r.framed_group inherited base d).result _
  obtain ⟨inPlace, first, behind⟩ := h.of_bind (framed_gather each _) fun _ =>
    (framed_gather (r.framed_expand _ _ framed) _).result _
  obtain ⟨referred, second, rfl⟩ := behind.of_map (framed_gather (r.framed_expand _ _ framed) _)
  -- The rules of each group that is found are among the given ones.
  have inside : ∀ g ∈ inPlace ++ referred, g.rules ⊆ rules := fun g hg rule hr =>
    sub (List.mem_flatMap.mpr ⟨g, hg, hr⟩)
  have written : r.Complete active base rules (own.flatMap (·.rules))
      (own.flatMap Declaration.Group.references) := by
    refine Complete.flatMap fun d hd => ?_
    obtain ⟨found, clean, within⟩ := first.of_gather each d hd
    obtain ⟨g, group, rfl⟩ := clean.of_map (r.framed_group inherited base d)
    have hg : g ∈ inPlace := within (List.mem_singleton_self g)
    exact complete_group hs group (inside g (List.mem_append_left _ hg))
  have used : r.Complete active base rules [] (Declaration.referencesTo .group references) := by
    refine complete_referencesTo (r.framed_expand _ _ framed) second
      fun reference bs clean sub => ?_
    refine follows_of_clean hs framed clean fun path _ d kind found each within => ?_
    cases d with
    | group d =>
      obtain ⟨g, group, rfl⟩ := each.of_map (r.framed_group inherited _ d)
      have hg : g ∈ referred := sub (within (List.mem_singleton_self g))
      exact ⟨inherited, g, group, inside g (List.mem_append_right _ hg)⟩
    | _ => cases kind
  have both := written.append used
  rwa [List.append_nil] at both

private theorem complete_useModules {references : List Declaration.Inclusion}
    {found : List Resolved.Module} (hs : r.Stacked active)
    (h : Clean (gather (r.expand .module base (r.moduleOf active inherited)) references) active
      found) (sub : found.flatMap Resolved.Module.allRules ⊆ rules) :
    r.Complete active base rules [] (Declaration.referencesTo .module references) := by
  have framed := r.framed_moduleOf active inherited
  refine complete_referencesTo (r.framed_expand _ _ framed) h fun reference bs clean within => ?_
  refine follows_of_clean hs framed clean fun path stacked d kind modules each inside => ?_
  cases d with
  | module d =>
    rw [moduleOf_module stacked.mem_unread] at each
    obtain ⟨m, module, rfl⟩ := each.of_map
      (r.framed_moduleWith (r.framed_moduleOf (path :: active)) inherited _ d)
    refine ⟨inherited, m, module, fun rule hr => ?_⟩
    have hm : m ∈ found := within (inside (List.mem_singleton_self m))
    exact sub (List.mem_flatMap.mpr ⟨m, hm, hr⟩)
  | _ => cases kind

/-- The parts of a module that is resolved without fatal issues are. -/
private theorem clean_moduleWith {within : Within} {name : String}
    {own : List Declaration.Assignment} {modules : List Declaration.Module}
    {useModules useGroups useRules : List Declaration.Inclusion} {groups : List Declaration.Group}
    {written : List Declaration.Rule} {origin : Origin} {found : Resolved.Module}
    (hw : ∀ inherited base d, Framed (within inherited base d))
    (h : Clean (r.moduleWith within inherited base
      ⟨name, own, modules, useModules, groups, useGroups, written, useRules, origin⟩)
      active found) :
    ∃ settings inPlace referred, found.modules = inPlace ++ referred ∧
      Clean (r.modulesWith within settings base modules) active inPlace ∧
      Clean (gather (r.expand .module base (within settings)) useModules) active referred ∧
      Clean (r.groups settings base groups useGroups) active found.groups ∧
      Clean (r.rules settings base written useRules) active found.rules := by
  have inPlace := fun settings => r.framed_modulesWith hw settings base modules
  have referred := fun settings =>
    framed_gather (r.framed_expand .module base (hw settings)) useModules
  have groups := fun settings => r.framed_groups settings base groups useGroups
  have rules := fun settings => r.framed_rules settings base written useRules
  rw [moduleWith] at h
  obtain ⟨settings, -, h⟩ := h.of_bind (r.framed_settings _ _) fun settings =>
    (inPlace settings).bind fun _ => (referred settings).bind fun _ =>
      (groups settings).bind fun _ => (rules settings).result _
  obtain ⟨_, first, h⟩ := h.of_bind (inPlace settings) fun _ => (referred settings).bind fun _ =>
    (groups settings).bind fun _ => (rules settings).result _
  obtain ⟨_, second, h⟩ := h.of_bind (referred settings) fun _ => (groups settings).bind fun _ =>
    (rules settings).result _
  obtain ⟨_, third, h⟩ := h.of_bind (groups settings) fun _ =>
    (rules settings).result _
  obtain ⟨_, fourth, rfl⟩ := h.of_map (rules settings)
  exact ⟨settings, _, _, rfl, first, second, third, fourth⟩

mutual

private theorem complete_module (hs : r.Stacked active) (inherited : Settings) :
    ∀ (d : Declaration.Module) {found : Resolved.Module},
      Clean (r.moduleWith (r.moduleOf active) inherited base d) active found →
      found.allRules ⊆ rules → r.Complete active base rules d.writtenRules d.references
  | ⟨_, _, modules, _, _, _, _, _, _⟩, found, h, sub => by
    obtain ⟨settings, inPlace, referred, parts, hInPlace, hReferred, hGroups, hRules⟩ :=
      clean_moduleWith (r.framed_moduleOf active) h
    obtain ⟨_, _, _, foundGroups, foundRules⟩ := found
    obtain rfl := parts
    simp only [Resolved.Module.allRules, Resolved.Module.rulesOfAll_eq, List.flatMap_append,
      List.append_subset] at sub
    obtain ⟨⟨subRules, subGroups⟩, subInPlace, subReferred⟩ := sub
    have all := (complete_useModules hs hReferred subReferred).append
      (((complete_rules hs hRules subRules).append (complete_groups hs hGroups subGroups)).append
        (complete_modules hs settings modules hInPlace subInPlace))
    refine all.of_subset fun reference hr => ?_
    simp only [Declaration.Module.references, List.mem_append] at hr ⊢
    grind

private theorem complete_modules (hs : r.Stacked active) (inherited : Settings) :
    ∀ (ds : List Declaration.Module) {found : List Resolved.Module},
      Clean (r.modulesWith (r.moduleOf active) inherited base ds) active found →
      found.flatMap Resolved.Module.allRules ⊆ rules →
      r.Complete active base rules (Declaration.Module.writtenRulesOfAll ds)
        (Declaration.Module.referencesOfAll ds)
  | [], _, _, _ =>
    ⟨by simp [Declaration.Module.writtenRulesOfAll], by simp [Declaration.Module.referencesOfAll]⟩
  | d :: more, found, h, sub => by
    have within := r.framed_moduleOf active
    rw [modulesWith] at h
    obtain ⟨first, module, h⟩ := h.of_bind (r.framed_moduleWith within inherited base d) fun _ =>
      (r.framed_modulesWith within inherited base more).result _
    obtain ⟨others, modules, rfl⟩ := h.of_map (r.framed_modulesWith within inherited base more)
    rw [List.flatMap_cons, List.append_subset] at sub
    exact (complete_module hs inherited d module sub.1).append
      (complete_modules hs inherited more modules sub.2)

end

end Resolver

end Compliance
