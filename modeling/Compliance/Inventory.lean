import Compliance.Json.Reader
import Compliance.Moment.Text
import Compliance.Resource

/-!
# Inventories

Resources written down as a JSON document.  A resource has a type, an identifier,
properties and associations.  Scalars are scalar properties, `{"$date": "…"}` is a
date, an object is a nested property of one element and an array of objects one
of several; an object may hold associations of its own as `$associations`.

A record may also be written as an array of its fields in order, at the end of
which fields may be missing that need not be given.  Of fields that a record does
not know only the form is checked.  Where names may repeat, the last one counts.

## Main definitions

* `JsonTree.settled?` — a document without repetitions, if all of it has a meaning.
* `Inventory.read` — the resources of a document, in order.
-/

namespace Compliance

/-! ## Documents with a meaning -/

namespace JsonTree

mutual

/-- A document with the members of objects in order of keys, of repeated ones the last.  Nothing
if a scalar has no meaning or containers nest deeper than `levels`. -/
def settled? : Nat → JsonTree → Option JsonTree
  | _, .null => some .null
  | _, .boolean b => some (.boolean b)
  | _, .number n => n.map fun n => .number (some n)
  | _, .string s => s.map fun s => .string (some s)
  | 0, .array _ => none
  | levels + 1, .array items => (settledItems? levels items).map .array
  | 0, .object _ => none
  | levels + 1, .object members =>
    (settledMembers? levels members).map fun members =>
      .object ((Named.ofList members).map fun member => (some member.1, member.2))

/-- The items of an array, each with a meaning. -/
def settledItems? : Nat → List JsonTree → Option (List JsonTree)
  | _, [] => some []
  | levels, item :: more => do
    let item ← settled? levels item
    let more ← settledItems? levels more
    return item :: more

/-- The members of an object as written, each key and value with a meaning. -/
def settledMembers? : Nat → List (Option String × JsonTree) → Option (List (String × JsonTree))
  | _, [] => some []
  | levels, (key, value) :: more => do
    let key ← key
    let value ← settled? levels value
    let more ← settledMembers? levels more
    return (key, value) :: more

end

/-- The content of a string with a meaning. -/
def string? : JsonTree → Option String
  | .string s => s
  | _ => none

/-- The members of a record that it knows, none of which may repeat. -/
def knownMembers? (fields : List String) :
    List (Option String × JsonTree) → Option (List (String × JsonTree))
  | [] => some []
  | (key, value) :: more => do
    let key ← key
    let others ← knownMembers? fields more
    if !fields.contains key then return others
    guard (others.lookup key).isNone
    return (key, value) :: others

/-- The fields of a record, written as an object or as an array. -/
def record? (fields : List String) : JsonTree → Option (List (String × JsonTree))
  | .object members => knownMembers? fields members
  | .array items => if items.length ≤ fields.length then some (fields.zip items) else none
  | _ => none

end JsonTree

/-! ## The parts of an inventory -/

namespace Inventory

/-- A resource of an inventory whose types are still texts. -/
structure Entry where
  type : String
  id : String
  properties : JsonTree
  associations : Named (List (String × String))

/-- The type and identifier of a resource. -/
def target? (t : JsonTree) : Option (String × String) := do
  let fields ← t.record? ["type", "id"]
  return (← (← fields.lookup "type").string?, ← (← fields.lookup "id").string?)

def targets? : JsonTree → Option (List (String × String))
  | .array items => items.mapM target?
  | _ => none

def associations? : JsonTree → Option (Named (List (String × String)))
  | .object members => do
    let named ← members.mapM fun (key, value) => do return (← key, ← targets? value)
    return Named.ofList named
  | _ => none

/-- How deep containers may nest in a document. -/
def maxDepth : Nat := 127

/-- Properties that have a meaning; they lie inside a resource, the array of resources and the
inventory. -/
def properties? : JsonTree → Option JsonTree
  | .object members => JsonTree.settled? (maxDepth - 3) (.object members)
  | _ => none

/-- A resource; its properties and associations may be missing. -/
def entry? (t : JsonTree) : Option Entry := do
  let fields ← t.record? ["type", "id", "properties", "associations"]
  let type ← (← fields.lookup "type").string?
  let id ← (← fields.lookup "id").string?
  let properties ← match fields.lookup "properties" with
    | some t => properties? t
    | none => some (.object [])
  let associations ← match fields.lookup "associations" with
    | some t => associations? t
    | none => some []
  return { type, id, properties, associations }

/-- The resources of an inventory. -/
def entries? (t : JsonTree) : Option (List Entry) := do
  let fields ← t.record? ["resources"]
  match ← fields.lookup "resources" with
  | .array items => items.mapM entry?
  | _ => none

/-! ## Faults -/

/-- What is wrong with a resource. -/
inductive ResourceFault where
  /-- A text is no name of a resource type. -/
  | type (text : String)
  /-- A nested `$associations` is not made as associations are. -/
  | associations
  | dateNotString
  | date (text : String)
  /-- An item of an array is no object. -/
  | item
  | property (name : String) (fault : ResourceFault)
deriving DecidableEq, Repr

/-- The wording of a fault. -/
def ResourceFault.message : ResourceFault → String
  | .type written => TypeRef.malformedMessage written
  | .associations => "invalid $associations: expected lists of targets by name"
  | .dateNotString => "$date must be a string"
  | .date written => "invalid date '" ++ written ++ "'"
  | .item => "arrays may only hold objects"
  | .property name fault => "property '" ++ name ++ "': " ++ fault.message

/-- What is wrong with an inventory. -/
inductive Fault where
  /-- The text is not the JSON document of an inventory. -/
  | json
  | resource (id : String) (fault : ResourceFault)
deriving DecidableEq, Repr

/-- The wording of a fault. -/
def Fault.message : Fault → String
  | .json => "invalid fixture JSON: expected an object with resources"
  | .resource id fault => "resource '" ++ id ++ "': " ++ fault.message

/-! ## Resources -/

/-- The name of a resource type. -/
def typeRef (s : String) : Except ResourceFault TypeRef :=
  match TypeRef.read? s with
  | some r => .ok r
  | none => .error (.type s)

/-- The targets of an association, all of known types. -/
def resolveTargets (targets : List (String × String)) : Except ResourceFault (List ResourceRef) :=
  targets.mapM fun (type, id) => do return ⟨← typeRef type, id⟩

/-- Associations by name, with all targets of known types. -/
def resolveAssociations (named : Named (List (String × String))) :
    Except ResourceFault (Named (List ResourceRef)) :=
  named.mapM fun (name, targets) => do return (name, ← resolveTargets targets)

def date (t : JsonTree) : Except ResourceFault Moment :=
  match t with
  | .string (some s) =>
    match Moment.read? s with
    | some m => .ok m
    | none => .error (.date s)
  | _ => .error .dateNotString

mutual

/-- The property that a document stands for.  A scalar without a meaning, which a settled document
does not have, counts as null. -/
def property : JsonTree → Except ResourceFault Property
  | .null => .ok (.value .null)
  | .boolean b => .ok (.value (.boolean b))
  | .number n => .ok (.value ((n.map Value.number).getD .null))
  | .string s => .ok (.value ((s.map Value.string).getD .null))
  | .array items => do return .nested (← elements items)
  | .object [(some "$date", t)] => do return .value (.date (← date t))
  | .object members => do return .nested [← attributes members]

/-- The elements that the items of an array stand for; all are objects. -/
def elements : List JsonTree → Except ResourceFault (List Attributes)
  | [] => .ok []
  | .object members :: more => do
    let first ← attributes members
    let others ← elements more
    return first :: others
  | _ :: _ => .error .item

/-- The attributes that the members of an object stand for, in order of their keys. -/
def attributes : List (Option String × JsonTree) → Except ResourceFault Attributes
  | [] => .ok Attributes.empty
  | (key, t) :: more =>
    let name := key.getD ""
    if name = "$associations" then do
      let named ← match associations? t with
        | some named => resolveAssociations named
        | none => .error .associations
      let others ← attributes more
      return { others with associations := named }
    else do
      let first ← match property t with
        | .ok p => .ok p
        | .error fault => .error (.property name fault)
      let others ← attributes more
      return { others with properties := (name, first) :: others.properties }

end

/-- The resource that an entry stands for.  The associations of the entry are all it has: those
that its properties name at the outermost level do not count. -/
def resource (e : Entry) : Except ResourceFault Resource := do
  let type ← typeRef e.type
  let own ← match e.properties with
    | .object members => attributes members
    | _ => .ok Attributes.empty
  let associations ← resolveAssociations e.associations
  return { type, id := e.id, attributes := { own with associations } }

def resources : List Entry → Except Fault (List Resource)
  | [] => .ok []
  | e :: more => do
    let first ← match resource e with
      | .ok r => .ok r
      | .error fault => .error (.resource e.id fault)
    let others ← resources more
    return first :: others

/-- The resources of an inventory in order. -/
def read (s : String) : Except Fault (List Resource) :=
  match (JsonTree.read? s).bind entries? with
  | none => .error .json
  | some entries => resources entries

end Inventory

end Compliance
