import Compliance.Declaration.References
import Compliance.Disk
import Compliance.Resolution

/-!
# Specifications

A source file with everything it refers to.  Reading goes on behind errors of
syntax up to a limit, and all declarations that could be read are resolved; a file
that is not even a sequence of tokens declares nothing.

## Main definitions

* `Specification.load` — reads and resolves a file.
* `Specification.references` — what a text refers to, before anything is resolved.
* `Specification.rules` — all rules, in order.
* `Specification.isComplete` — whether nothing was lost but settings.
-/

namespace Compliance

open Text

/-- A file as it was read. -/
structure Specification where
  /-- How many declarations could be read. -/
  declarations : Nat
  /-- What they resolve to; a rule may be lost. -/
  resolved : List Resolved
  /-- What is wrong in the file itself. -/
  syntaxErrors : List SyntaxError
  /-- What went wrong on the way to other files, and with targets and settings. -/
  issues : List Issue

namespace Specification

/-- The specification that the text of a file holds. -/
def ofText (resolver : Resolver) (file : Path) (kind : DeclarationKind) (maxErrors : Nat)
    (written : String) : Specification :=
  match Declaration.parseReporting written file.text kind maxErrors with
  | .error e => { declarations := 0, resolved := [], syntaxErrors := [e], issues := [] }
  | .ok (declarations, errors) =>
    let resolutions :=
      ((resolver.resolveAll Settings.empty declarations).run Resolving.State.idle).1
    { declarations := declarations.length
      resolved := resolutions.filterMap (·.value)
      syntaxErrors := errors
      issues := resolutions.flatMap (·.issues) }

/-- Reads and resolves a file. -/
def load (disk : Disk) (catalogue : Catalogue) (file : Path) (kind : DeclarationKind)
    (maxErrors : Nat) : Except FileFault Specification := do
  return ofText ⟨disk.sources, catalogue⟩ file kind maxErrors (← disk.readFile file)

/-- The places that the text at a path refers to, with the kinds of declarations expected there,
those behind errors of syntax included. -/
def references (disk : Disk) (path : Path) (kind : DeclarationKind) :
    List (Path × DeclarationKind) :=
  match disk.readSource path with
  | .error _ => []
  | .ok written =>
    match Declaration.parseReporting written path.text kind (written.length + 1) with
    | .error _ => []
    | .ok (declarations, _) =>
      (declarations.flatMap Declaration.references).map fun (kind, inclusion) =>
        (Sources.locate (disk.sources.baseDir path) inclusion.path, kind)

def rules (s : Specification) : List Resolved.Rule := s.resolved.flatMap Resolved.rules

/-- Whether nothing was lost but settings. -/
def isComplete (s : Specification) : Bool :=
  s.syntaxErrors.isEmpty && !s.issues.any Issue.isFatal

/-- What went wrong, as members of a document. -/
def errorMembers (s : Specification) : List (String × Json) :=
  [("syntax_errors", .array (s.syntaxErrors.map SyntaxError.toJson)),
    ("resolve_errors", .array (s.issues.map Issue.toJson))]

/-- What went wrong, as lines; a lost setting is only warned of. -/
def errorLines (s : Specification) : List String :=
  (s.syntaxErrors.map fun e => "error: " ++ e.text) ++
    s.issues.map fun issue =>
      (if issue.isFatal then "error: " else "warning: ") ++ issue.message

end Specification

end Compliance
