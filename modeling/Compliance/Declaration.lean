import Compliance.Statement

/-!
# Declarations

What a source file declares, as it is written: plans hold modules, modules hold
modules, groups and rules, groups hold rules, and a rule holds its statements.
Targets of rules and keys of settings are still text, and references to other
files are not followed yet.

## Main definitions

* `Origin` — the file and line a thing comes from.
* `DeclarationKind` — the four kinds, and their keywords.
* `Declaration` — a declaration of one of the kinds.
-/

namespace Compliance

/-- Where a thing is written. -/
structure Origin where
  file : String
  line : Nat
deriving DecidableEq, Repr, Inhabited

/-! ## Kinds -/

/-- The kinds of declarations. -/
inductive DeclarationKind where
  | plan
  | module
  | group
  | rule
deriving DecidableEq, Repr, Inhabited

namespace DeclarationKind

def all : List DeclarationKind := [.plan, .module, .group, .rule]

/-- The word that starts a declaration of a kind. -/
def keyword : DeclarationKind → String
  | .plan => "plan"
  | .module => "module"
  | .group => "group"
  | .rule => "rule"

/-- The kind that a word starts. -/
def ofKeyword? (word : String) : Option DeclarationKind := all.find? (·.keyword = word)

/-- The message for a word that starts no declaration. -/
def unknownMessage (word : String) : String :=
  "unknown entry point '" ++ word ++ "' (expected plan, module, group or rule)"

end DeclarationKind

/-! ## Declarations -/

namespace Declaration

/-- `set key = value` -/
structure Assignment where
  key : String
  value : Value
  origin : Origin
deriving DecidableEq, Inhabited

/-- `use kind "path"`: the declarations of another file take the place of this. -/
structure Inclusion where
  path : String
  origin : Origin
deriving DecidableEq, Repr, Inhabited

/-- A rule about the resources of one type.  It applies to those that satisfy its conditions, and
asserts of these that they satisfy its assertions. -/
structure Rule where
  name : String
  target : String
  settings : List Assignment
  /-- The statements of the `with` block; none where there is no such block. -/
  conditions : List Statement
  /-- The statements of the `assert` block. -/
  assertions : List Statement
  origin : Origin
deriving Inhabited

/-- A group of rules. -/
structure Group where
  name : String
  settings : List Assignment
  rules : List Rule
  useRules : List Inclusion
  origin : Origin
deriving Inhabited

/-- A module, which may hold further modules. -/
structure Module where
  name : String
  settings : List Assignment
  modules : List Module
  useModules : List Inclusion
  groups : List Group
  useGroups : List Inclusion
  rules : List Rule
  useRules : List Inclusion
  origin : Origin
deriving Inhabited

/-- A plan, the outermost declaration. -/
structure Plan where
  name : String
  settings : List Assignment
  modules : List Module
  useModules : List Inclusion
  origin : Origin
deriving Inhabited

end Declaration

/-- A declaration of one of the kinds. -/
inductive Declaration where
  | plan (plan : Declaration.Plan)
  | module (module : Declaration.Module)
  | group (group : Declaration.Group)
  | rule (rule : Declaration.Rule)
deriving Inhabited

namespace Declaration

def kind : Declaration → DeclarationKind
  | .plan _ => .plan
  | .module _ => .module
  | .group _ => .group
  | .rule _ => .rule

def name : Declaration → String
  | .plan p => p.name
  | .module m => m.name
  | .group g => g.name
  | .rule r => r.name

/-- Where a declaration is written. -/
def origin : Declaration → Origin
  | .plan p => p.origin
  | .module m => m.origin
  | .group g => g.origin
  | .rule r => r.origin

end Declaration

end Compliance
