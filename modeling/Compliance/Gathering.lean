import Compliance.Inquiry
import Compliance.Resolved

/-!
# Gathering

Before a rule is judged, everything it will look at is brought into the store: the
resources of its type, and for each of them all that its statements reach through
associations.  The statements are followed depth first, the conditions before the
assertions: an association first looks up all its targets, then is followed on
those found, one after the other.

An association that is missing and a target that does not exist are noted, and
what lies behind them is left out; a fault of a provider ends it all.  A chain of
associations is as long as statements are nested, so resources may refer to each
other in circles.

The walk says what is asked, apart from who answers it and when.  Asked by way of a
session at once it is gathering; as an inquiry it can also be carried on step by
step, while other rules ask in between.

## Main definitions

* `Note`, `Remark` — what was left out, and how it is reported.
* `Gathered` — what a rule applies to, and the notes.
* `Inquiry.statement`, `Inquiry.rule` — what is asked for a statement, and for a rule.
* `Gathering.rule` — asking all of it at once.
-/

namespace Compliance

/-- Something left out; `α` is what stands for resources. -/
inductive NoteOn (α : Type) where
  /-- A resource has no association at a path. -/
  | associationNotFound (rule : String) (resource : α) (path : String)
  /-- A target of a resource's association does not exist. -/
  | targetMissing (rule : String) (resource target : α)
deriving DecidableEq, Repr

/-- Something left out, with the names of resources. -/
abbrev Note := NoteOn ResourceRef

/-- Something left out as it is reported, with texts for resources. -/
abbrev Remark := NoteOn String

/-- A note as it is reported. -/
def Note.remark : Note → Remark
  | .associationNotFound rule resource path => .associationNotFound rule resource.text path
  | .targetMissing rule resource target => .targetMissing rule resource.text target.text

namespace Remark

/-- The wording of a remark. -/
def message : Remark → String
  | .associationNotFound rule resource path =>
    "rule '" ++ rule ++ "': " ++ resource ++ " has no association '" ++ path ++ "'"
  | .targetMissing rule resource target =>
    "rule '" ++ rule ++ "': " ++ resource ++ " is associated with " ++ target ++
      ", which the provider does not know"

/-- A remark as a document. -/
def toJson : Remark → Json
  | .associationNotFound rule resource path =>
    .object [("kind", .string "association_not_found"), ("rule", .string rule),
      ("resource", .string resource), ("path", .string path)]
  | .targetMissing rule resource target =>
    .object [("kind", .string "associated_resource_missing"), ("rule", .string rule),
      ("resource", .string resource), ("target", .string target)]

end Remark

/-- What a rule applies to. -/
structure Gathered where
  /-- The resources of the rule's type, in order. -/
  resources : List Resource
  /-- What was left out behind them, in the order it was met. -/
  notes : List Note

/-! ## The walk -/

/-- The names of nested properties and that of an association at their end, with points
between. -/
def Gathering.dotted (path : List String) (name : String) : String :=
  ".".intercalate (path ++ [name])

namespace Inquiry

/-- Asks for the targets of an association one after the other, those that do not exist noted. -/
def targets (rule : String) (base : ResourceRef) :
    List ResourceRef → Inquiry (List Resource × List Note)
  | [] => return ([], [])
  | target :: more => do
    let answer ← lookup target
    let (found, notes) ← targets rule base more
    match answer with
    | some resource => return (resource :: found, notes)
    | none => return (found, .targetMissing rule base target :: notes)

/-- The notes on each of some resources, in order. -/
def each (visit : Resource → Inquiry (List Note)) : List Resource → Inquiry (List Note)
  | [] => return []
  | resource :: more => do
    let first ← visit resource
    let others ← each visit more
    return first ++ others

mutual

/-- What is asked for a statement below a path of nested properties of a resource. -/
def statement (rule : String) (base : Resource) (path : List String) :
    Statement → Inquiry (List Note)
  | .property _ _ => return []
  | .entry _ _ _ => return []
  | .nested name children => statements rule base (path ++ [name]) children
  | .association name children =>
    match base.attributes.association? path name with
    | none => return [.associationNotFound rule base.ref (Gathering.dotted path name)]
    | some refs => do
      let (found, missing) ← targets rule base.ref refs
      let below ← each (fun target => statements rule target [] children) found
      return missing ++ below

/-- What is asked for statements, one after the other. -/
def statements (rule : String) (base : Resource) (path : List String) :
    List Statement → Inquiry (List Note)
  | [] => return []
  | s :: more => do
    let first ← statement rule base path s
    let others ← statements rule base path more
    return first ++ others

end

/-- What is asked for the conditions of a rule on a resource, then for its assertions. -/
def resource (r : Resolved.Rule) (base : Resource) : Inquiry (List Note) := do
  let conditions ← statements r.name base [] r.conditions
  let assertions ← statements r.name base [] r.assertions
  return conditions ++ assertions

def rule (r : Resolved.Rule) : Inquiry Gathered := do
  let resources ← list r.target
  let notes ← each (resource r) resources
  return { resources, notes }

end Inquiry

/-- Gathers what a rule looks at. -/
def Gathering.rule (registry : Registry) (r : Resolved.Rule) : Access Gathered :=
  (Inquiry.rule r).access registry

end Compliance
