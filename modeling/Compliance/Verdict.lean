import Compliance.Gathering

/-!
# Verdicts

Whether a resource complies with a rule.  A rule applies to a resource of which all
its conditions hold, and the resource complies if all assertions hold too.  No
statement is passed over because another one failed, so that the record of an
assertion names every check there was, each with the place where it was made.

What associations lead to is read from the store, and targets that do not exist
are passed over.

## Main definitions

* `Check` — a check that was made.
* `Finding` — whether statements hold, and the checks that were made for it.
* `Finding.ofStatement` — what a statement says about a resource or an element of one.
* `Verdict.of` — the verdict of a rule on a resource.
-/

namespace Compliance

open Text

/-! ## Checks -/

/-- A check that was made. -/
structure Check where
  /-- Where, from the resource on. -/
  path : String
  /-- What should be there. -/
  expectation : String
  /-- What was there, if anything. -/
  actual : Option String
  passed : Bool
deriving DecidableEq, Repr

namespace Check

/-- The wording of a check that failed. -/
def message (c : Check) : String :=
  c.path ++ ": expected " ++ c.expectation ++ ", got " ++ c.actual.getD "nothing"

/-- A check as a document. -/
def toJson (c : Check) : Json :=
  .object [("path", .string c.path), ("expectation", .string c.expectation),
    ("actual", match c.actual with
      | some shown => .string shown
      | none => .null),
    ("passed", .boolean c.passed)]

end Check

/-! ## Findings -/

/-- Whether something holds, and the checks that were made to find out, in order. -/
structure Finding where
  holds : Bool
  checks : List Check
deriving DecidableEq, Repr

namespace Finding

/-- Nothing to check. -/
def trivial : Finding := ⟨true, []⟩

def single (check : Check) : Finding := ⟨check.passed, [check]⟩

def both (a b : Finding) : Finding := ⟨a.holds && b.holds, a.checks ++ b.checks⟩

def all (findings : List Finding) : Finding := findings.foldr both trivial

@[simp] theorem holds_both (a b : Finding) : (a.both b).holds = (a.holds && b.holds) := rfl

@[simp] theorem checks_both (a b : Finding) : (a.both b).checks = a.checks ++ b.checks := rfl

@[simp] theorem holds_all (findings : List Finding) :
    (all findings).holds = findings.all Finding.holds := by
  induction findings with
  | nil => rfl
  | cons a more ih => exact congrArg (a.holds && ·) ih

/-! ### Places -/

/-- What a check of presence expects. -/
def existence : String := "exists"

/-- The place of a member below a place; the resource itself has the empty one. -/
def below (place name : String) : String :=
  if place.isEmpty then name else place ++ "." ++ name

/-- The place of one of several things at a place. -/
def item (place which : String) : String := place ++ "[" ++ which ++ "]"

/-- The elements of a nested property, each with its place; they are numbered if there are
several. -/
def placed (place : String) (elements : List Attributes) : List (String × Attributes) :=
  match elements with
  | [only] => [(place, only)]
  | several => several.zipIdx.map fun (element, i) => (item place (natText i), element)

/-- The targets of an association that the store has, each with its place. -/
def placedTargets (store : Store) (place : String) (targets : List ResourceRef) :
    List (String × Attributes) :=
  targets.filterMap fun target =>
    (store.cached? target).map fun found => (item place target.id, found.attributes)

/-! ### Statements -/

/-- What a predicate says about a scalar or absent value. -/
def ofValue (place : String) (predicate : Predicate) (value : Option Value) : Finding :=
  single {
    path := place
    expectation := predicate.text
    actual := value.map Value.text
    passed := predicate.holds value }

/-- What a predicate says about a property; of a nested one it does not hold. -/
def ofProperty (place : String) (predicate : Predicate) : Option Property → Finding
  | some (.nested _) =>
    single {
      path := place
      expectation := predicate.text
      actual := some "a structure"
      passed := false }
  | some (.value v) => ofValue place predicate (some v)
  | none => ofValue place predicate none

/-- What a predicate says about an entry of a map: the first element with a scalar under the key
has it.  Of a scalar property it does not hold. -/
def ofEntry (place key : String) (predicate : Predicate) : Option Property → Finding
  | some (.nested elements) => ofValue place predicate (elements.findSome? (·.scalar? key))
  | some (.value v) =>
    single { path := place, expectation := "a map", actual := some v.text, passed := false }
  | none => ofValue place predicate none

/-- That there is no nested property. -/
def noElements (place : String) (property : Option Property) : Finding :=
  single {
    path := place
    expectation := existence
    actual := (property.bind PropertyOf.scalar?).map Value.text
    passed := false }

/-- Whether an association is present. -/
def presence (place : String) : Option (List ResourceRef) → Finding
  | none => single { path := place, expectation := existence, actual := none, passed := false }
  | some targets =>
    single {
      path := place
      expectation := existence
      actual := some (natText targets.length ++ " associated resource(s)")
      passed := true }

mutual

/-- What a statement says about a resource or an element of one that has a place.  An association
with statements about its targets says nothing where it is absent. -/
def ofStatement (store : Store) (place : String) (scope : Attributes) : Statement → Finding
  | .property name predicate => ofProperty (below place name) predicate (scope.property? name)
  | .entry name key predicate =>
    ofEntry (item (below place name) (quote key)) key predicate (scope.property? name)
  | .nested name children =>
    match scope.property? name with
    | some (.nested elements) =>
      all ((placed (below place name) elements).map fun (spot, element) =>
        ofStatements store spot element children)
    | other => noElements (below place name) other
  | .association name [] => presence (below place name) (scope.targets? name)
  | .association name (child :: more) =>
    match scope.targets? name with
    | none => trivial
    | some targets =>
      all ((placedTargets store (below place name) targets).map fun (spot, target) =>
        ofStatements store spot target (child :: more))

def ofStatements (store : Store) (place : String) (scope : Attributes) :
    List Statement → Finding
  | [] => trivial
  | s :: more => (ofStatement store place scope s).both (ofStatements store place scope more)

end

end Finding

/-! ## Verdicts -/

/-- How a resource stands to a rule. -/
inductive Standing where
  | passed
  | failed
  /-- The rule does not apply. -/
  | skipped
deriving DecidableEq, Repr

def Standing.word : Standing → String
  | .passed => "passed"
  | .failed => "failed"
  | .skipped => "skipped"

/-- The verdict of a rule on a resource. -/
structure Verdict where
  id : String
  standing : Standing
  /-- The checks of the assertions, in order. -/
  checks : List Check
deriving DecidableEq, Repr

namespace Verdict

/-- The verdict of a rule on a resource. -/
def of (store : Store) (rule : Resolved.Rule) (resource : Resource) : Verdict :=
  if (Finding.ofStatements store "" resource.attributes rule.conditions).holds then
    let finding := Finding.ofStatements store "" resource.attributes rule.assertions
    { id := resource.id
      standing := if finding.holds then .passed else .failed
      checks := finding.checks }
  else { id := resource.id, standing := .skipped, checks := [] }

def failures (v : Verdict) : List String := (v.checks.filter (!·.passed)).map Check.message

/-- A verdict as a document. -/
def toJson (v : Verdict) : Json :=
  .object [("id", .string v.id), ("status", .string v.standing.word),
    ("evaluations", .array (v.checks.map Check.toJson))]

end Verdict

end Compliance
