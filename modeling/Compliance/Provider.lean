import Compliance.Json
import Compliance.Resource

/-!
# Providers

Where resources come from.  A provider serves the resource types whose name starts
with its own: it lists all resources of a type, and looks single ones up.  What it
answers may depend on the calls made before, since what is asked about may change,
and it may fail.

## Main definitions

* `Call`, `Provider` — what can be asked, and what is answered.
* `ProviderFault` — why there is no answer.
* `Provider.holding name resources` — a provider of given resources.
-/

namespace Compliance

/-! ## Calls -/

/-- A question to a provider. -/
inductive Call where
  /-- All resources of a type. -/
  | list (type : TypeRef)
  /-- The resource of a name. -/
  | lookup (ref : ResourceRef)
deriving DecidableEq, Repr

def Call.text : Call → String
  | .list type => "list " ++ type.text
  | .lookup ref => "lookup " ++ ref.text

/-- Why there is no answer. -/
inductive ProviderFault where
  /-- No provider has this name. -/
  | unknownProvider (provider : String)
  /-- A provider failed, for a reason in its own words. -/
  | fetch (provider reason : String)
deriving DecidableEq, Repr

namespace ProviderFault

/-- The wording of a fault. -/
def message : ProviderFault → String
  | .unknownProvider provider => "no provider registered for '" ++ provider ++ "'"
  | .fetch provider reason => "provider '" ++ provider ++ "' failed: " ++ reason

/-- A fault as a document. -/
def toJson : ProviderFault → Json
  | .unknownProvider provider =>
    .object [("kind", .string "unknown_provider"), ("provider", .string provider)]
  | .fetch provider reason =>
    .object [("kind", .string "fetch"), ("provider", .string provider),
      ("message", .string reason)]

end ProviderFault

/-- What a provider answers: something, or why not. -/
abbrev Answer (α : Type) := Except ProviderFault α

/-! ## Providers -/

/-- A setting that a provider declares. -/
structure SettingKey where
  name : String
  kind : ValueKind
  required : Bool
deriving DecidableEq, Repr

/-- Where the resources of some types come from.  Answers may depend on the calls made before, the
oldest first. -/
structure Provider where
  /-- The first segment of the types that the provider serves. -/
  name : String
  /-- The settings that the provider declares. -/
  keys : List SettingKey
  /-- All resources of a type, in order. -/
  list : List Call → TypeRef → Answer (List Resource)
  /-- The resource of a name, if there is one. -/
  lookup : List Call → ResourceRef → Answer (Option Resource)

namespace Provider

/-- The kind of the setting with a name; the first one that the provider declares counts. -/
def settingKind? (p : Provider) (name : String) : Option ValueKind :=
  (p.keys.find? (·.name = name)).map (·.kind)

/-- A provider of given resources, whatever is asked before. -/
def holding (name : String) (resources : List Resource) : Provider where
  name
  keys := []
  list _ type := .ok (resources.filter (·.type = type))
  lookup _ ref := .ok (resources.find? (·.ref = ref))

end Provider

end Compliance
