import Compliance.Proofs.Named
import Compliance.Proofs.Registry
import Compliance.Proofs.Text.Bytes
import Compliance.Proofs.Verdict.Meaning

/-!
# Resources divided among providers

Providers that hold given resources divide these among them by the first segment of
their types.  The same providers come of it when the resources are taken one at a time:
what is held under the segment of the next one is taken out, and put back with that
resource behind it.  So nothing is lost on the way, the resources of a type stay in
their order with all repetitions, and no resource is held twice.

## Main definitions

* `Provider.Gives provider resource` — a provider answers some call with a resource.
* `Registry.takeIn` — one more resource among those held.
* `Registry.gathered` — providers of resources taken one at a time.
* `Registry.gathered_eq` — they are `Registry.ofResources`.
* `Registry.divides_resources` — what each of them answers.
-/

namespace Compliance

/-- A provider answers some call with a resource. -/
def Provider.Gives (provider : Provider) (r : Resource) : Prop :=
  (∃ calls type listed, provider.list calls type = .ok listed ∧ r ∈ listed) ∨
    ∃ calls ref, provider.lookup calls ref = .ok (some r)

/-- A provider of given resources answers with these and no others. -/
theorem Provider.gives_holding {name : String} {resources : List Resource} {r : Resource} :
    (holding name resources).Gives r ↔ r ∈ resources := by
  constructor
  · rintro (⟨calls, type, listed, answered, inside⟩ | ⟨calls, ref, answered⟩)
    · obtain rfl := Except.ok.inj answered
      exact (List.mem_filter.mp inside).1
    · exact List.mem_of_find?_eq_some (Except.ok.inj answered)
  · intro inside
    exact .inl ⟨[], r.type, _, rfl, List.mem_filter.mpr ⟨inside, decide_eq_true rfl⟩⟩

namespace Registry

variable {resources : List Resource} {held : Named (List Resource)} {name : String}

/-! ## Registries of some providers -/

theorem providers_ofProviders (providers : List Provider) : (ofProviders providers).providers =
    Named.ofList (providers.map fun provider => (provider.name, provider)) := by
  have every (registry : Registry) : (providers.foldl register registry).providers =
      (providers.map fun provider => (provider.name, provider)).foldl
        (fun things pair => Named.insert pair.1 pair.2 things) registry.providers := by
    induction providers generalizing registry with
    | nil => rfl
    | cons provider more ih => exact ih _
  exact every empty

/-- Under a first segment that occurs stands the provider of what has it. -/
theorem get?_ofResources (resources : List Resource) (name : String) :
    Named.get? name (ofResources resources).providers =
      if ∃ r ∈ resources, r.type.provider = name then
        some (.holding name (resources.filter (·.type.provider = name)))
      else none := by
  rw [ofResources, providers_ofProviders, Named.get?_ofList, List.map_map]
  refine (Named.last?_map _ _ name).trans (if_congr ?_ rfl rfl)
  rw [List.mem_eraseDups, List.mem_map]

/-! ## One resource at a time -/

/-- What is held, with one more resource.  What is held under its first segment is taken out, and
put back with the resource behind it. -/
def takeIn (held : Named (List Resource)) (r : Resource) : Named (List Resource) :=
  Named.insert r.type.provider ((Named.get? r.type.provider held).getD [] ++ [r])
    (held.filter fun entry => entry.1 ≠ r.type.provider)

/-- Providers of resources that are taken one at a time. -/
def gathered (resources : List Resource) : Registry :=
  ofProviders ((resources.foldl takeIn []).map fun entry => .holding entry.1 entry.2)

theorem get?_filter_ne {other : String} (h : name ≠ other) (held : Named (List Resource)) :
    Named.get? name (held.filter fun entry => entry.1 ≠ other) = Named.get? name held := by
  induction held with
  | nil => rfl
  | cons entry more ih =>
    obtain ⟨key, own⟩ := entry
    rw [List.filter_cons, Named.get?_cons]
    by_cases same : key = other
    · subst same
      rw [if_neg (by simp), ih, if_neg h]
    · rw [if_pos (by simpa using same), Named.get?_cons, ih]

/-- **One more resource is held behind the others of its first segment**, and nothing else changes.
-/
theorem get?_takeIn (held : Named (List Resource)) (r : Resource) (name : String) :
    Named.get? name (takeIn held r) =
      if name = r.type.provider then some ((Named.get? name held).getD [] ++ [r])
      else Named.get? name held := by
  rw [takeIn, Named.get?_insert]
  split
  · next same => rw [same]
  · next other => exact get?_filter_ne other held

theorem ordered_takeIn (h : held.Ordered) (r : Resource) : (takeIn held r).Ordered :=
  Named.Ordered.insert (List.Pairwise.filter _ h) _ _

theorem ordered_foldl_takeIn (h : held.Ordered) (resources : List Resource) :
    (resources.foldl takeIn held).Ordered := by
  induction resources generalizing held with
  | nil => exact h
  | cons r more ih => exact ih (ordered_takeIn h r)

/-- In the end those of a first segment are held behind what was, in order. -/
theorem get?_foldl_takeIn (held : Named (List Resource)) (resources : List Resource)
    (name : String) : Named.get? name (resources.foldl takeIn held) =
      if ∃ r ∈ resources, r.type.provider = name then
        some ((Named.get? name held).getD [] ++ resources.filter (·.type.provider = name))
      else Named.get? name held := by
  induction resources generalizing held with
  | nil => simp
  | cons r more ih =>
    rw [List.foldl_cons, ih, get?_takeIn]
    by_cases same : r.type.provider = name
    · subst same
      by_cases again : ∃ s ∈ more, s.type.provider = r.type.provider
      · simp [again]
      · have alone : more.filter (·.type.provider = r.type.provider) = [] := by
          simpa using again
        simp [again, alone]
    · simp [same, Ne.symm same]

theorem get?_gathered (resources : List Resource) (name : String) :
    Named.get? name (gathered resources).providers =
      (Named.get? name (resources.foldl takeIn [])).map (.holding name) := by
  have ordered : (resources.foldl takeIn []).Ordered := ordered_foldl_takeIn .nil resources
  rw [gathered, providers_ofProviders, Named.get?_ofList, List.map_map, ← ordered.last?_eq]
  exact Named.last?_map_snd Provider.holding _ name

/-- **Resources that are taken one at a time come to the same providers.** -/
theorem gathered_eq (resources : List Resource) : gathered resources = ofResources resources := by
  have ordered : (gathered resources).providers.Ordered := (gathered resources).ordered
  refine Registry.ext (ordered.ext (ofResources resources).ordered fun name => ?_)
  rw [get?_gathered, get?_foldl_takeIn, get?_ofResources]
  split <;> rfl

/-! ## What each provider has -/

/-- The names of the providers are in the order of their bytes. -/
theorem pairwise_names_ofProviders (providers : List Provider) :
    (ofProviders providers).names.Pairwise fun a b => Text.bytes a < Text.bytes b := by
  rw [names, Named.names, List.pairwise_map]
  exact (ofProviders providers).ordered.imp fun less => Text.bytes_lt (compare_lt_iff_lt.mp less)

/-- What has a name among the providers of given resources holds those of this first segment. -/
theorem mem_providers_ofResources {provider : Provider} :
    (name, provider) ∈ (ofResources resources).providers ↔
      (∃ r ∈ resources, r.type.provider = name) ∧
        provider = .holding name (resources.filter (·.type.provider = name)) := by
  rw [Named.Ordered.mem_iff (ofResources resources).ordered, get?_ofResources]
  split
  · next occurs => rw [Option.some.injEq, and_iff_right occurs, eq_comm]
  · next never => simp only [never, false_and, reduceCtorEq]

/-- **Resources are divided among providers.**  The providers made of resources are those that come
of taking them one at a time.  Their names are the first segments that occur, in the order of their
bytes.  A type with such a segment is served: all its resources are listed in order with all
repetitions, and of those with one identifier the first is found; any other type has no provider.
Each provider answers with what has its name as first segment and nothing else, and each resource
has one provider that answers with it. -/
theorem divides_resources (resources : List Resource) :
    gathered resources = ofResources resources ∧
    (ofResources resources).names.Pairwise (fun a b => Text.bytes a < Text.bytes b) ∧
    (∀ name, name ∈ (ofResources resources).names ↔
      ∃ r ∈ resources, r.type.provider = name) ∧
    (∀ type : TypeRef, (∃ r ∈ resources, r.type.provider = type.provider) →
      ∃ provider, (ofResources resources).forType type = .ok provider ∧
        (∀ calls, provider.list calls type = .ok (resources.filter (·.type = type))) ∧
        ∀ calls id, provider.lookup calls ⟨type, id⟩ =
          .ok (resources.find? fun r => r.type = type ∧ r.id = id)) ∧
    (∀ type : TypeRef, (∀ r ∈ resources, r.type.provider ≠ type.provider) →
      (ofResources resources).forType type = .error (.unknownProvider type.provider)) ∧
    (∀ name provider, (name, provider) ∈ (ofResources resources).providers →
      provider.name = name ∧
        ∀ r, provider.Gives r ↔ r ∈ resources ∧ r.type.provider = name) ∧
    ∀ r ∈ resources, ∃! entry, entry ∈ (ofResources resources).providers ∧ entry.2.Gives r := by
  have gives (name : String) (provider : Provider)
      (among : (name, provider) ∈ (ofResources resources).providers) :
      provider.name = name ∧ ∀ r, provider.Gives r ↔ r ∈ resources ∧ r.type.provider = name := by
    obtain ⟨-, rfl⟩ := mem_providers_ofResources.mp among
    refine ⟨rfl, fun r => ?_⟩
    rw [Provider.gives_holding, List.mem_filter, decide_eq_true_eq]
  refine ⟨gathered_eq resources, pairwise_names_ofProviders _, fun name => mem_names_ofResources,
    fun type occurs => ?_, fun type never => ?_, gives, fun r inside => ?_⟩
  · obtain ⟨provider, served⟩ := forType_of_mem_names (mem_names_ofResources.mpr occurs)
    have serves := serves_ofResources resources
    refine ⟨provider, served, serves.list served, fun calls id => ?_⟩
    have found (ref : ResourceRef) (same : ref.type = type) :
        provider.lookup calls ref = .ok (resources.find? (·.ref = ref)) :=
      serves.lookup (same ▸ served) calls
    rw [found ⟨type, id⟩ rfl]
    simp only [Resource.ref, ResourceRef.mk.injEq]
  · refine forType_of_not_mem_names fun named => ?_
    obtain ⟨r, inside, same⟩ := mem_names_ofResources.mp named
    exact never r inside same
  · have among := mem_providers_ofResources.mpr ⟨⟨r, inside, rfl⟩, rfl⟩
    refine ⟨_, ⟨among, ((gives _ _ among).2 r).mpr ⟨inside, rfl⟩⟩, ?_⟩
    rintro ⟨name, provider⟩ ⟨among', given⟩
    obtain ⟨-, rfl⟩ := ((gives name provider among').2 r).mp given
    obtain ⟨-, rfl⟩ := mem_providers_ofResources.mp among'
    rfl

end Registry

end Compliance
