import Compliance.Audit
import Compliance.Proofs.Gathering.Coverage
import Mathlib.Data.List.Forall2

/-!
# The meaning of rules

What a rule says about a resource can be read off the list of resources at hand:
a target of an association is the first resource of its name, and one that is not
in the list does not matter.  There is no store in this meaning and nothing is
gathered for it.

Where providers serve given resources, an audit comes to the verdicts that the
meaning has, whatever was asked before.  The store then only ever holds what can
be read off the resources, and judging asks for nothing that was not answered.

## Main definitions

* `Statement.holdsAmong` — whether a statement holds, as the resources at hand have it.
* `Resolved.Rule.standingAmong` — how a resource stands to a rule.
* `Registry.Serves resources registry` — the providers answer from given resources.
* `Store.Reflects resources store` — so do the answers of a store.
* `Audit.run_standings` — an audit finds what rules mean.
-/

namespace Compliance

/-! ## Meaning -/

namespace Statement

mutual

/-- Whether a statement holds of the attributes of a resource or of an element of one, as the
resources at hand have it. -/
def holdsAmong (resources : List Resource) (scope : Attributes) : Statement → Bool
  | .property name predicate =>
    match scope.property? name with
    | some (.nested _) => false
    | some (.value v) => predicate.holds (some v)
    | none => predicate.holds none
  | .entry name key predicate =>
    match scope.property? name with
    | some (.value _) => false
    | some (.nested elements) => predicate.holds (elements.findSome? (·.scalar? key))
    | none => predicate.holds none
  | .nested name children =>
    match scope.property? name with
    | some (.nested elements) => elements.all fun element => allHoldAmong resources element children
    | _ => false
  | .association name [] => (scope.targets? name).isSome
  | .association name (child :: more) =>
    match scope.targets? name with
    | none => true
    | some targets => targets.all fun target =>
      match resources.find? (·.ref = target) with
      | some found => allHoldAmong resources found.attributes (child :: more)
      | none => true

/-- Whether all of some statements hold. -/
def allHoldAmong (resources : List Resource) (scope : Attributes) : List Statement → Bool
  | [] => true
  | s :: more => s.holdsAmong resources scope && allHoldAmong resources scope more

end

theorem allHoldAmong_eq_all (resources : List Resource) (scope : Attributes)
    (ss : List Statement) :
    allHoldAmong resources scope ss = ss.all (·.holdsAmong resources scope) := by
  induction ss with
  | nil => rfl
  | cons s more ih => rw [allHoldAmong, ih, List.all_cons]

end Statement

/-- How a resource stands to a rule, as the resources at hand have it. -/
def Resolved.Rule.standingAmong (resources : List Resource) (r : Resolved.Rule) (base : Resource) :
    Standing :=
  if r.conditions.all (·.holdsAmong resources base.attributes) then
    if r.assertions.all (·.holdsAmong resources base.attributes) then .passed else .failed
  else .skipped

/-! ## Judging by a store -/

namespace Finding

/-- Findings on the same things hold together if each passes its test. -/
private theorem holds_all_map {α : Type} {f : α → Finding} {test : α → Bool} {things : List α}
    (h : ∀ a ∈ things, (f a).holds = test a) : (all (things.map f)).holds = things.all test := by
  induction things with
  | nil => rfl
  | cons a more ih =>
    rw [List.forall_mem_cons] at h
    rw [List.map_cons, all, List.foldr_cons, holds_both, h.1, List.all_cons, ← ih h.2]
    rfl

theorem all_placed (place : String) (elements : List Attributes) (test : Attributes → Bool) :
    (placed place elements).all (fun entry => test entry.2) = elements.all test := by
  have seconds : (placed place elements).map Prod.snd = elements := by
    simp only [placed]
    split
    · rfl
    · rw [List.map_map]
      exact List.zipIdx_map_fst 0 elements
  calc (placed place elements).all (fun entry => test entry.2)
      = ((placed place elements).map Prod.snd).all test := by rw [List.all_map]; rfl
    _ = elements.all test := by rw [seconds]

/-- All targets that exist have a place, where the store has them as the list does. -/
private theorem all_known {resources : List Resource} {store : Store} {targets : List ResourceRef}
    (h : ∀ t ∈ targets, store.cached? t = resources.find? (·.ref = t)) (place : String)
    (test : Attributes → Bool) :
    (placedTargets store place targets).all (fun entry => test entry.2) =
      targets.all fun target => match resources.find? (·.ref = target) with
        | some found => test found.attributes
        | none => true := by
  induction targets with
  | nil => rfl
  | cons target more ih =>
    rw [List.forall_mem_cons] at h
    rw [List.all_cons, ← ih h.2, ← h.1, placedTargets, placedTargets, List.filterMap_cons]
    cases store.cached? target <;> rfl

mutual

/-- **A statement holds by a store as it does among the resources** if the store has of the targets
that are asked for what is in the list. -/
theorem holds_ofStatement {resources : List Resource} {store : Store} (place : String)
    (base : Resource) (scope : Attributes) :
    ∀ s : Statement, (∀ source target, Asks store base scope s source target →
      store.cached? target = resources.find? (·.ref = target)) →
      (ofStatement store place scope s).holds = s.holdsAmong resources scope
  | .property name predicate, _ => by
    rw [ofStatement, Statement.holdsAmong]
    rcases scope.property? name with _ | _ | _ <;> rfl
  | .entry name key predicate, _ => by
    rw [ofStatement, Statement.holdsAmong]
    rcases scope.property? name with _ | _ | _ <;> rfl
  | .nested name children, h => by
    rw [ofStatement, Statement.holdsAmong]
    rcases hp : scope.property? name with _ | _ | elements
    · rfl
    · rfl
    · simp only
      rw [← all_placed (below place name)]
      refine holds_all_map fun ⟨spot, element⟩ hm => ?_
      refine holds_ofStatements spot base element children fun s hs source target asked => ?_
      exact h source target (.element hp (mem_of_mem_placed hm) hs asked)
  | .association name [], _ => by
    rw [ofStatement, Statement.holdsAmong]
    cases scope.targets? name <;> rfl
  | .association name (child :: more), h => by
    rw [ofStatement, Statement.holdsAmong]
    cases ht : scope.targets? name with
    | none => rfl
    | some targets =>
      have known : ∀ target ∈ targets,
          store.cached? target = resources.find? (·.ref = target) := fun target hm =>
        h base.ref target (.target (List.cons_ne_nil _ _) ht hm)
      refine Eq.trans (holds_all_map fun ⟨spot, target⟩ hm => ?_)
        (all_known known (below place name) (Statement.allHoldAmong resources · (child :: more)))
      obtain ⟨next, hn, found, hf, rfl⟩ := mem_placedTargets hm
      refine holds_ofStatements spot found found.attributes (child :: more) fun s hs a b asked => ?_
      exact h a b (.behind ht hn hf hs asked)

theorem holds_ofStatements {resources : List Resource} {store : Store} (place : String)
    (base : Resource) (scope : Attributes) :
    ∀ ss : List Statement, (∀ s ∈ ss, ∀ source target, Asks store base scope s source target →
      store.cached? target = resources.find? (·.ref = target)) →
      (ofStatements store place scope ss).holds = Statement.allHoldAmong resources scope ss
  | [], _ => rfl
  | s :: more, h => by
    rw [ofStatements, holds_both, Statement.allHoldAmong,
      holds_ofStatement place base scope s (h s (List.mem_cons_self ..)),
      holds_ofStatements place base scope more fun t ht => h t (List.mem_cons_of_mem _ ht)]

end

end Finding

/-! ## Providers of given resources -/

/-- Providers answer from given resources, whatever was asked before. -/
structure Registry.Serves (resources : List Resource) (registry : Registry) : Prop where
  list : ∀ {type provider}, registry.forType type = .ok provider →
    ∀ calls, provider.list calls type = .ok (resources.filter (·.type = type))
  lookup : ∀ {ref : ResourceRef} {provider}, registry.forType ref.type = .ok provider →
    ∀ calls, provider.lookup calls ref = .ok (resources.find? (·.ref = ref))

/-- What is searched for is found among those that pass a weaker test. -/
private theorem find?_filter_of_imp {α : Type} {p q : α → Bool} (h : ∀ a, q a = true → p a = true)
    {things : List α} : (things.filter p).find? q = things.find? q := by
  rw [List.find?_filter]
  refine congrArg (things.find? ·) (funext fun a => ?_)
  cases hq : q a with
  | false => simp
  | true => simp [h a hq]

namespace Registry

theorem forType_register (registry : Registry) (provider : Provider) (type : TypeRef) :
    (registry.register provider).forType type =
      if type.provider = provider.name then .ok provider else registry.forType type := by
  simp only [forType, register, Named.get?_insert]
  by_cases h : type.provider = provider.name <;> simp only [h, if_true, if_false]

/-- A provider that holds what there is of the types of its name answers from all resources. -/
theorem Serves.register {resources : List Resource} {registry : Registry}
    (h : registry.Serves resources) (name : String) :
    (registry.register (.holding name (resources.filter (·.type.provider = name)))).Serves
      resources where
  list {type provider} hp calls := by
    rw [forType_register] at hp
    split at hp
    · next same =>
      obtain rfl := Except.ok.inj hp
      simp only [Provider.holding, List.filter_filter]
      refine congrArg Except.ok (List.filter_congr fun r _ => ?_)
      by_cases ht : r.type = type
      · simp only [Provider.holding] at same
        simp [ht, same]
      · simp [ht]
    · exact h.list hp calls
  lookup {ref provider} hp calls := by
    rw [forType_register] at hp
    split at hp
    · next same =>
      obtain rfl := Except.ok.inj hp
      refine congrArg Except.ok (find?_filter_of_imp fun r hr => ?_)
      have named : r.ref = ref := by simpa using hr
      simpa [← named, Resource.ref, Provider.holding] using same
    · exact h.lookup hp calls

theorem serves_empty (resources : List Resource) : empty.Serves resources where
  list h := by cases h
  lookup h := by cases h

/-- **Providers made of resources answer from them.** -/
theorem serves_ofResources (resources : List Resource) :
    (ofResources resources).Serves resources := by
  have every : ∀ (names : List String) (registry : Registry), registry.Serves resources →
      ((names.map fun name => Provider.holding name
        (resources.filter (·.type.provider = name))).foldl register registry).Serves resources := by
    intro names
    induction names with
    | nil =>
      intro _ h
      exact h
    | cons name more ih =>
      intro registry h
      exact ih _ (h.register name)
  exact every _ _ (serves_empty resources)

end Registry

/-! ## Stores of given resources -/

/-- All answers of a store are what can be read off given resources. -/
structure Store.Reflects (resources : List Resource) (store : Store) : Prop where
  listing : ∀ {type answer}, store.listing? type = some answer →
    answer = .ok (resources.filter (·.type = type))
  answer : ∀ {ref answer}, store.answer? ref = some answer →
    answer = .ok (resources.find? (·.ref = ref))

namespace Store

variable {resources : List Resource} {store : Store}

theorem reflects_empty (resources : List Resource) : empty.Reflects resources where
  listing h := by cases h
  answer h := by cases h

theorem Reflects.keep (h : store.Reflects resources) (ref : ResourceRef) :
    (store.keep ref (.ok (resources.find? (·.ref = ref)))).Reflects resources where
  listing {type answer} hl := by
    rw [listing?, listings_keep] at hl
    exact h.listing hl
  answer {other answer} ha := by
    rw [answer?_keep] at ha
    split at ha
    · next same =>
      subst same
      cases hf : store.answer? other with
      | none => simpa [hf] using ha.symm
      | some first =>
        have first' := h.answer hf
        simpa [hf, first'] using ha.symm
    · exact h.answer ha

/-- Among the resources of a type, a name of that type stands for what it stands for among all. -/
theorem find?_filter_type (resources : List Resource) (ref : ResourceRef) :
    (resources.filter (·.type = ref.type)).find? (·.ref = ref) =
      resources.find? (·.ref = ref) := by
  refine find?_filter_of_imp fun r hr => ?_
  have named : r.ref = ref := by simpa using hr
  simp [← named, Resource.ref]

theorem Reflects.keepListing (h : store.Reflects resources) (type : TypeRef) :
    (store.keepListing type (.ok (resources.filter (·.type = type)))).Reflects resources where
  listing {other answer} hl := by
    rw [listing?_keepListing] at hl
    split at hl
    · next same =>
      subst same
      exact (Option.some.inj hl).symm
    · exact h.listing hl
  answer {ref answer} ha := by
    rw [answer?_keepListing] at ha
    simp only [answer?_keepAll] at ha
    cases hf : store.answer? ref with
    | some first =>
      rw [hf, Option.some_or] at ha
      exact Option.some.inj ha ▸ h.answer hf
    | none =>
      rw [hf, Option.none_or, Option.map_eq_some_iff] at ha
      obtain ⟨r, hr, rfl⟩ := ha
      have named : r.ref = ref := by simpa using List.find?_some hr
      have typed : r.type = type := by
        simpa using (List.mem_filter.mp (List.mem_of_find?_eq_some hr)).2
      obtain rfl : type = ref.type := by rw [← typed, ← named, Resource.ref]
      rw [← find?_filter_type, hr]

end Store

/-- Asking providers of given resources only adds what can be read off these. -/
theorem Registry.Serves.preserves_reflects {resources : List Resource} {registry : Registry}
    (h : registry.Serves resources) : registry.Preserves fun s => s.store.Reflects resources where
  list type s hs := by
    rw [Access.outcome_list]
    cases hp : registry.forType type with
    | error fault => exact hs
    | ok provider =>
      simp only [Session.store_list]
      cases s.store.listing? type with
      | some answer => exact hs
      | none => exact h.list hp s.calls ▸ hs.keepListing type
  lookup ref s hs := by
    rw [Access.outcome_lookup]
    cases hp : registry.forType ref.type with
    | error fault => exact hs
    | ok provider =>
      simp only [Session.store_lookup]
      cases s.store.answer? ref with
      | some answer => exact hs
      | none => exact h.lookup hp s.calls ▸ hs.keep ref

/-- From such a store a type is listed as the resources at hand have it. -/
theorem Registry.Serves.resources_of_yields {resources : List Resource} {registry : Registry}
    (h : registry.Serves resources) {type : TypeRef} {s t : Session} {listed : List Resource}
    (hs : s.store.Reflects resources) (hy : (Access.list registry type).Yields s listed t) :
    listed = resources.filter (·.type = type) := by
  rw [Access.Yields, Access.outcome_list] at hy
  cases hp : registry.forType type with
  | error fault => simp [hp] at hy
  | ok provider =>
    simp only [hp] at hy
    have answered := Session.listing?_list provider type s
    have after := h.preserves_reflects.list type s hs
    rw [Access.outcome_list] at after
    simp only [hp, hy] at answered after
    exact Except.ok.inj (after.listing answered)

/-! ## Audits -/

/-- A report on a rule says what the rule means: unless it could not be evaluated, it has a verdict
for each resource of the rule's type in order, and every resource stands as it does among the
resources at hand. -/
structure RuleReport.Judges (resources : List Resource) (r : Resolved.Rule)
    (report : RuleReport) : Prop where
  rule : report.rule = r.name
  target : report.target = r.target
  verdicts : ∀ findings, report.result = .ok findings →
    findings.verdicts.map (fun v => (v.id, v.standing)) =
      (resources.filter (·.type = r.target)).map fun base =>
        (base.id, r.standingAmong resources base)

namespace Verdict

@[simp] theorem id_of (store : Store) (r : Resolved.Rule) (base : Resource) :
    (of store r base).id = base.id := by
  rw [of]
  split <;> rfl

/-- A resource stands to a rule by a store as among the resources, if the store has of the targets
that are asked for what is in the list. -/
theorem standing_of {resources : List Resource} {store : Store} {r : Resolved.Rule}
    {base : Resource} (h : ∀ source target, Asks store r base source target →
      store.cached? target = resources.find? (·.ref = target)) :
    (of store r base).standing = r.standingAmong resources base := by
  have conditions : (Finding.ofStatements store "" base.attributes r.conditions).holds =
      r.conditions.all (·.holdsAmong resources base.attributes) := by
    rw [← Statement.allHoldAmong_eq_all]
    exact Finding.holds_ofStatements "" base _ _ fun s hs a b asked =>
      h a b ⟨s, List.mem_append_left _ hs, asked⟩
  have assertions : (Finding.ofStatements store "" base.attributes r.assertions).holds =
      r.assertions.all (·.holdsAmong resources base.attributes) := by
    rw [← Statement.allHoldAmong_eq_all]
    exact Finding.holds_ofStatements "" base _ _ fun s hs a b asked =>
      h a b ⟨s, List.mem_append_right _ hs, asked⟩
  simp only [of, Resolved.Rule.standingAmong, conditions, assertions]
  split <;> rfl

end Verdict

namespace Audit

variable {resources : List Resource} {registry : Registry}

/-- Checking a rule is gathering it, and judging what was gathered by the store as it is then. -/
theorem run_check (registry : Registry) (r : Resolved.Rule) (s : Session) :
    (check registry r).run s = match (Gathering.rule registry r).outcome s with
      | (.ok gathered, t) => (⟨r.name, r.target, .ok (findings t.store r gathered)⟩, t)
      | (.error fault, t) => (⟨r.name, r.target, .error fault.message⟩, t) := by
  have parts : (check registry r).run s = (⟨r.name, r.target,
      match ((Gathering.rule registry r).outcome s).1 with
      | .ok gathered => .ok (findings ((Gathering.rule registry r).outcome s).2.store r gathered)
      | .error fault => .error fault.message⟩, ((Gathering.rule registry r).outcome s).2) := rfl
  rw [parts]
  rcases (Gathering.rule registry r).outcome s with ⟨fault | gathered, t⟩ <;> rfl

/-- Once gathered, what judging asks for is known as it is among the resources. -/
theorem cached?_of_asked (h : registry.Serves resources) {r : Resolved.Rule} {s t : Session}
    (hs : s.store.Reflects resources) {gathered : Gathered}
    (hy : (Gathering.rule registry r).Yields s gathered t) {base : Resource}
    (hb : base ∈ gathered.resources) {source target : ResourceRef}
    (asked : Verdict.Asks t.store r base source target) :
    t.store.cached? target = resources.find? (·.ref = target) := by
  have reflects : t.store.Reflects resources :=
    (Gathering.rule_preserves h.preserves_reflects r).of_yields hy hs
  obtain ⟨found, ha, -⟩ := Gathering.rule_answers hy (.refl _) hb asked
  have known := Except.ok.inj (reflects.answer ha)
  simp only [Store.cached?, ha, known]

/-- **Checking a rule finds what it means**, and leaves a store that the next rule can use. -/
theorem check_judges (h : registry.Serves resources) (r : Resolved.Rule) {s : Session}
    (hs : s.store.Reflects resources) :
    ((check registry r).run s).1.Judges resources r ∧
      ((check registry r).run s).2.store.Reflects resources := by
  have after := Gathering.rule_preserves h.preserves_reflects r s hs
  rw [run_check]
  rcases hr : (Gathering.rule registry r).outcome s with ⟨fault | gathered, t⟩
  · exact ⟨⟨rfl, rfl, by simp⟩, by simpa [hr] using after⟩
  · refine ⟨⟨rfl, rfl, ?_⟩, by simpa [hr] using after⟩
    rintro _ ⟨rfl⟩
    have listed : gathered.resources = resources.filter (·.type = r.target) := by
      have parts : (Gathering.rule registry r).Yields s gathered t := hr
      simp only [Gathering.rule, Inquiry.rule, Inquiry.access_bind, Inquiry.access_list,
        Inquiry.access_pure, Access.yields_bind, Access.yields_pure] at parts
      obtain ⟨resources', u, hu, notes, v, -, rfl, rfl⟩ := parts
      exact h.resources_of_yields hs hu
    rw [findings, List.map_map, ← listed]
    refine List.map_congr_left fun base hb => ?_
    simp only [Function.comp, Verdict.id_of]
    rw [Verdict.standing_of fun a b asked => cached?_of_asked h hs hr hb asked]

/-- Checking rules one after the other, each is judged by what it means. -/
theorem checkAll_judges (h : registry.Serves resources) (rules : List Resolved.Rule) {s : Session}
    (hs : s.store.Reflects resources) :
    List.Forall₂ (RuleReport.Judges resources) rules ((checkAll registry rules).run s).1 := by
  induction rules generalizing s with
  | nil => exact .nil
  | cons r more ih =>
    obtain ⟨judged, after⟩ := check_judges h r hs
    exact .cons judged (ih after)

/-- **Verdicts are what rules mean.**  Whichever rules are checked in whichever order against
providers of given resources, the report on each has the standings that can be read off the list
of resources: neither the store that the rules share nor the way it was filled shows. -/
theorem run_standings (resources : List Resource) (rules : List Resolved.Rule) :
    List.Forall₂ (RuleReport.Judges resources) rules
      ((run (Registry.ofResources resources) rules).run Session.start).1.rules := by
  have start : Session.start.store.Reflects resources := Store.reflects_empty resources
  exact checkAll_judges (Registry.serves_ofResources resources) rules start

end Audit

end Compliance
