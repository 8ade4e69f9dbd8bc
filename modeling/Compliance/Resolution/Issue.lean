import Compliance.Fault
import Compliance.Settings
import Compliance.Source

/-!
# Issues of a resolution

What goes wrong while references are followed.  An issue is fatal when a rule, or
everything behind a reference to another file, is lost by it; otherwise a single
setting is.

## Main definitions

* `Issue` — the issues, with `Issue.message` for the wording.
* `Issue.isFatal` — whether more than a setting is lost.
* `Issue.toJson` — an issue as a document.
-/

namespace Compliance

open Text

/-- Why the value of a setting is refused. -/
inductive SettingFault where
  /-- No setting may hold a value of this kind. -/
  | notAllowed (found : ValueKind)
  /-- The catalogue declares another kind for the setting. -/
  | mismatch (declared found : ValueKind)
deriving DecidableEq, Repr

/-- The wording of a fault. -/
def SettingFault.message : SettingFault → String
  | .notAllowed found =>
    "a " ++ found.name ++ " is not allowed, expected a number, string or boolean"
  | .mismatch declared found => "expected a " ++ declared.name ++ ", got a " ++ found.name

/-- What goes wrong while references are followed. -/
inductive Issue where
  /-- The target of a rule is no name of a resource type; the rule is lost. -/
  | malformedTarget (origin : Origin) (rule text : String)
  /-- The key of a setting is no name; the setting is lost. -/
  | malformedSetting (origin : Origin) (text : String)
  /-- The value of a setting is refused; the setting is lost. -/
  | settingValue (origin : Origin) (key : String) (fault : SettingFault)
  | notFound (origin : Origin) (path : String)
  | accessDenied (origin : Origin) (path : String)
  | unreadable (origin : Origin) (path reason : String)
  /-- The text behind a reference cannot be parsed. -/
  | fragment (error : SyntaxError)
  /-- The text behind a reference is already being resolved. -/
  | includeCycle (origin : Origin) (path : String)
deriving DecidableEq

namespace Issue

/-- The issue of a reference to a path that cannot be read. -/
def ofReadFault (origin : Origin) (path : Path) : ReadFault → Issue
  | .notFound _ => .notFound origin path.text
  | .accessDenied _ => .accessDenied origin path.text
  | .unreadable _ reason => .unreadable origin path.text reason

/-- Whether more than a single setting is lost. -/
def isFatal : Issue → Bool
  | .malformedSetting _ _ => false
  | .settingValue _ _ _ => false
  | _ => true

/-- A message behind the place it is about. -/
def atOrigin (origin : Origin) (message : String) : String :=
  origin.file ++ ":" ++ natText origin.line ++ ": " ++ message

/-- The wording of an issue. -/
def message : Issue → String
  | .malformedTarget origin rule text =>
    atOrigin origin ("rule '" ++ rule ++ "' targets malformed resource definition reference '" ++
      text ++ "' (expected provider:group:name)")
  | .malformedSetting origin text =>
    atOrigin origin ("malformed config reference '" ++ text ++ "' (expected provider:key)")
  | .settingValue origin key fault =>
    atOrigin origin ("invalid value for config '" ++ key ++ "': " ++ fault.message)
  | .notFound origin path => atOrigin origin ("module directory '" ++ path ++ "' not found")
  | .accessDenied origin path =>
    atOrigin origin ("access denied to module directory '" ++ path ++ "'")
  | .unreadable origin path reason =>
    atOrigin origin ("cannot read '" ++ path ++ "': " ++ reason)
  | .fragment error => error.text
  | .includeCycle origin path => atOrigin origin ("include cycle through '" ++ path ++ "'")

/-- The members of a document that say which kind of issue it is and where it arose. -/
def placed (kind : String) (origin : Origin) : List (String × Json) :=
  [("kind", .string kind), ("file", .string origin.file), ("line", .ofNat origin.line)]

/-- The particulars of an issue as members of a document. -/
def members : Issue → List (String × Json)
  | .malformedTarget origin rule text =>
    placed "malformed_resource_def_ref" origin ++ [("rule", .string rule), ("text", .string text)]
  | .malformedSetting origin text =>
    placed "malformed_config_ref" origin ++ [("text", .string text)]
  | .settingValue origin key fault =>
    placed "invalid_config_value" origin ++
      [("key", .string key), ("reason", .string fault.message)]
  | .notFound origin path =>
    placed "module_directory_not_found" origin ++ [("path", .string path)]
  | .accessDenied origin path =>
    placed "module_directory_access_denied" origin ++ [("path", .string path)]
  | .unreadable origin path reason =>
    placed "module_unreadable" origin ++ [("path", .string path), ("reason", .string reason)]
  | .fragment error =>
    placed "fragment" ⟨error.file, error.position.line⟩ ++
      [("column", .ofNat error.position.column)]
  | .includeCycle origin path =>
    placed "include_cycle" origin ++ [("path", .string path)]

/-- An issue as a document: its kind and particulars, and its wording. -/
def toJson (issue : Issue) : Json :=
  .object (issue.members ++ [("message", .string issue.message)])

end Issue

end Compliance
