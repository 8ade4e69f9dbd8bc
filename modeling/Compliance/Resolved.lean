import Compliance.Declaration
import Compliance.Settings

/-!
# Resolved declarations

Declarations after their references have been followed: targets of rules are
names of resource types, every declaration has the settings in effect for it, and
what other files declare stands where they were referred to.

## Main definitions

* `Resolved` — a resolved declaration of one of the kinds.
* `Resolved.rules` — all rules of a declaration, in order.
-/

namespace Compliance

namespace Resolved

/-- A rule whose target is known. -/
structure Rule where
  name : String
  target : TypeRef
  settings : Settings
  conditions : List Statement
  assertions : List Statement
  origin : Origin
deriving Inhabited

/-- A group with its rules. -/
structure Group where
  name : String
  settings : Settings
  rules : List Rule
deriving Inhabited

/-- A module with everything in it. -/
structure Module where
  name : String
  settings : Settings
  modules : List Module
  groups : List Group
  rules : List Rule
deriving Inhabited

/-- A plan with its modules. -/
structure Plan where
  name : String
  settings : Settings
  modules : List Module
deriving Inhabited

mutual

/-- The rules of a module: its own, those of its groups, then those of its modules. -/
def Module.allRules : Module → List Rule
  | ⟨_, _, modules, groups, rules⟩ =>
    rules ++ groups.flatMap (·.rules) ++ Module.rulesOfAll modules

/-- The rules of some modules, one module after the other. -/
def Module.rulesOfAll : List Module → List Rule
  | [] => []
  | m :: more => m.allRules ++ Module.rulesOfAll more

end

end Resolved

/-- A resolved declaration. -/
inductive Resolved where
  | plan (plan : Resolved.Plan)
  | module (module : Resolved.Module)
  | group (group : Resolved.Group)
  | rule (rule : Resolved.Rule)
deriving Inhabited

namespace Resolved

def rules : Resolved → List Rule
  | .plan p => Module.rulesOfAll p.modules
  | .module m => m.allRules
  | .group g => g.rules
  | .rule r => [r]

end Resolved

end Compliance
