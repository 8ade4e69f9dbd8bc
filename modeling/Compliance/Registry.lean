import Compliance.Provider
import Compliance.Settings

/-!
# Registries

The providers at hand, at most one for each name.  A resource type is served by
the provider that its name starts with, and a registry declares the settings that
its providers declare.

## Main definitions

* `Registry.register` — one more provider.
* `Registry.forType` — the provider of a resource type.
* `Registry.catalogue` — the settings that are declared.
* `Registry.ofResources` — providers that hold given resources.
-/

namespace Compliance

/-- Providers by name, in the order of names: no name has two. -/
@[ext]
structure Registry where
  providers : Named Provider
  ordered : providers.Ordered

namespace Registry

/-- No providers. -/
def empty : Registry := ⟨[], .nil⟩

instance : Inhabited Registry := ⟨empty⟩

/-- The registry with one more provider, which replaces an earlier one of its name. -/
def register (registry : Registry) (provider : Provider) : Registry :=
  ⟨Named.insert provider.name provider registry.providers,
    registry.ordered.insert provider.name provider⟩

/-- A registry of some providers; of several with one name the last counts. -/
def ofProviders (providers : List Provider) : Registry := providers.foldl register empty

/-- The names of the providers, in order. -/
def names (registry : Registry) : List String := registry.providers.names

/-- The provider that serves a resource type. -/
def forType (registry : Registry) (type : TypeRef) : Answer Provider :=
  match registry.providers.get? type.provider with
  | some provider => .ok provider
  | none => .error (.unknownProvider type.provider)

/-- The settings that are declared. -/
def catalogue (registry : Registry) : Catalogue := fun ref =>
  (registry.providers.get? ref.provider).bind (·.settingKind? ref.key)

/-- Providers that hold given resources: one for every name that types of them start with. -/
def ofResources (resources : List Resource) : Registry :=
  ofProviders ((resources.map (·.type.provider)).eraseDups.map fun name =>
    Provider.holding name (resources.filter (·.type.provider = name)))

end Registry

end Compliance
