import Compliance.Registry

/-!
# Names of providers

Which names a registry has a provider for, however it was made.

## Main definitions

* `Registry.mem_names_iff` — a name with a provider.
* `Registry.mem_names_foldl` — names after providers have been added.
* `Registry.mem_names_ofResources` — the names that types of given resources start with.
-/

namespace Compliance.Registry

variable {registry : Registry} {name : String}

/-- The names of a registry are those that have a provider. -/
theorem mem_names_iff : name ∈ registry.names ↔ (registry.providers.get? name).isSome = true := by
  rw [names, Named.names, Named.get?, Option.isSome_map, List.find?_isSome, List.mem_map]
  simp

theorem mem_names_register {provider : Provider} :
    name ∈ (registry.register provider).names ↔ name = provider.name ∨ name ∈ registry.names := by
  simp only [mem_names_iff, register, Named.get?_insert]
  split <;> simp_all

theorem mem_names_foldl {providers : List Provider} :
    name ∈ (providers.foldl register registry).names ↔
      name ∈ registry.names ∨ ∃ provider ∈ providers, provider.name = name := by
  induction providers generalizing registry with
  | nil => simp
  | cons first more ih =>
    rw [List.foldl_cons, ih, mem_names_register, @eq_comm _ name]
    simp [or_left_comm, or_assoc]

/-- Providers made of resources have the names that types of these start with, and no others. -/
theorem mem_names_ofResources {resources : List Resource} :
    name ∈ (ofResources resources).names ↔
      ∃ resource ∈ resources, resource.type.provider = name := by
  have fresh : name ∉ empty.names := List.not_mem_nil
  simp only [ofResources, ofProviders, mem_names_foldl, fresh, false_or, List.mem_map,
    List.mem_eraseDups]
  constructor
  · rintro ⟨_, ⟨_, ⟨resource, hr, rfl⟩, rfl⟩, rfl⟩
    exact ⟨resource, hr, rfl⟩
  · rintro ⟨resource, hr, rfl⟩
    exact ⟨_, ⟨_, ⟨resource, hr, rfl⟩, rfl⟩, rfl⟩

/-! ### The provider of a type -/

/-- A type has a provider if its first segment is the name of one. -/
theorem forType_of_mem_names {type : TypeRef} (h : type.provider ∈ registry.names) :
    ∃ provider, registry.forType type = .ok provider := by
  obtain ⟨provider, found⟩ := Option.isSome_iff_exists.mp (mem_names_iff.mp h)
  exact ⟨provider, by rw [forType, found]⟩

theorem forType_of_not_mem_names {type : TypeRef} (h : type.provider ∉ registry.names) :
    registry.forType type = .error (.unknownProvider type.provider) := by
  have unknown : registry.providers.get? type.provider = none := by
    simpa [mem_names_iff] using h
  rw [forType, unknown]

end Compliance.Registry
