import Compliance.Declaration

/-!
# References of declarations

The places in a declaration that refer to other files, each with the kind of the
declarations that are expected there.

## Main definitions

* `Declaration.references` — all references in a declaration.
-/

namespace Compliance

namespace Declaration

def referencesTo (kind : DeclarationKind) (inclusions : List Inclusion) :
    List (DeclarationKind × Inclusion) :=
  inclusions.map fun inclusion => (kind, inclusion)

def Group.references (d : Group) : List (DeclarationKind × Inclusion) :=
  referencesTo .rule d.useRules

mutual

/-- The references of a module and of all that is written in it. -/
def Module.references : Module → List (DeclarationKind × Inclusion)
  | ⟨_, _, modules, useModules, groups, useGroups, _, useRules, _⟩ =>
    referencesTo .module useModules ++ referencesTo .group useGroups ++
      referencesTo .rule useRules ++ groups.flatMap Group.references ++
      Module.referencesOfAll modules

/-- The references of some modules. -/
def Module.referencesOfAll : List Module → List (DeclarationKind × Inclusion)
  | [] => []
  | d :: more => d.references ++ Module.referencesOfAll more

end

def references : Declaration → List (DeclarationKind × Inclusion)
  | .plan d => referencesTo .module d.useModules ++ Module.referencesOfAll d.modules
  | .module d => d.references
  | .group d => d.references
  | .rule _ => []

end Declaration

end Compliance
