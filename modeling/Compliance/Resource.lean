import Compliance.Named
import Compliance.Reference
import Compliance.Value

/-!
# Resources

What is checked: things of some resource type with an identifier and attributes.
Attributes are scalar properties, nested properties of any number of elements that
have attributes again, and associations to other resources.  A map is a nested
property of one element.  As attributes lie in attributes, the order of their names
cannot be part of their type; what follows reads and changes them by name only.

## Main definitions

* `ResourceRef` — the name of a resource.
* `Attributes`, `Property` — what a resource or an element of one is made of.
* `Attributes.association?` — the targets of an association below some properties.
* `Resource` — a resource.
-/

namespace Compliance

/-! ## Names of resources -/

/-- The name of a resource: its type, and its identifier among those of the type. -/
structure ResourceRef where
  type : TypeRef
  id : String
deriving DecidableEq, Repr, Inhabited

def ResourceRef.text (r : ResourceRef) : String := r.type.text ++ "/" ++ r.id

/-! ## Attributes -/

/-- A property whose elements, if it has any, are of type `α`. -/
inductive PropertyOf (α : Type) where
  /-- A scalar. -/
  | value (value : Value)
  /-- Elements with attributes of their own. -/
  | nested (elements : List α)

/-- What a resource or an element of one is made of.  An association is present or absent, and a
present one may have no targets. -/
structure Attributes where
  /-- The properties by name. -/
  properties : List (String × PropertyOf Attributes)
  /-- The targets of the associations by name. -/
  associations : List (String × List ResourceRef)

/-- A property of a resource or of an element of one. -/
abbrev Property := PropertyOf Attributes

def PropertyOf.scalar? {α : Type} : PropertyOf α → Option Value
  | .value v => some v
  | .nested _ => none

namespace Attributes

/-- No attributes. -/
def empty : Attributes := ⟨[], []⟩

instance : Inhabited Attributes := ⟨empty⟩

def property? (a : Attributes) (name : String) : Option Property := Named.get? name a.properties

def scalar? (a : Attributes) (name : String) : Option Value :=
  (a.property? name).bind PropertyOf.scalar?

/-- The elements of the property of a name; a scalar or an absent one has none. -/
def elements (a : Attributes) (name : String) : List Attributes :=
  match a.property? name with
  | some (.nested elements) => elements
  | _ => []

def targets? (a : Attributes) (name : String) : Option (List ResourceRef) :=
  Named.get? name a.associations

/-- The attributes with a property, which replaces an earlier one of its name. -/
def withProperty (a : Attributes) (name : String) (property : Property) : Attributes :=
  { a with properties := Named.insert name property a.properties }

/-- The attributes with further targets of an association, behind those it has. -/
def withTargets (a : Attributes) (name : String) (targets : List ResourceRef) : Attributes :=
  { a with
    associations :=
      Named.insert name ((a.targets? name).getD [] ++ targets) a.associations }

/-! ## Associations -/

/-- The attributes reached through nested properties named by a path, all elements of each from
left to right. -/
def reach (a : Attributes) : List String → List Attributes
  | [] => [a]
  | segment :: path => (a.elements segment).flatMap fun element => element.reach path

/-- The targets of an association on all attributes that a path reaches, each at its first
occurrence.  Nothing if none of them has the association. -/
def association? (a : Attributes) (path : List String) (name : String) :
    Option (List ResourceRef) :=
  match (a.reach path).filterMap fun scope => scope.targets? name with
  | [] => none
  | found => some found.flatten.eraseDups

end Attributes

/-! ## Resources -/

/-- A resource. -/
structure Resource where
  type : TypeRef
  id : String
  attributes : Attributes
deriving Inhabited

/-- The name of a resource. -/
def Resource.ref (r : Resource) : ResourceRef := ⟨r.type, r.id⟩

end Compliance
