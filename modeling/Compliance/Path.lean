import Compliance.Text.Split

/-!
# Paths

Paths of files as texts with slashes.  A path is a walk: from the root or from
where one stands, up to a parent or down to a name.  Slashes in a row count as
one, a slash at the end does not count, and a point that stands for staying
counts only at the very start.

## Main definitions

* `Path` — a path as it is written.
* `Step`, `Path.steps` — the walk that a path describes.
* `Path.normalize` — the path without detours.
* `Path.parent`, `Path.join` — the place of a file, and a path from there.
-/

namespace Compliance

open Text

/-- One step of a walk. -/
inductive Step where
  /-- To the root. -/
  | root
  /-- Nowhere. -/
  | here
  /-- To the parent. -/
  | up
  /-- To a name in the place reached so far. -/
  | down (name : String)
deriving DecidableEq, Repr

/-- A path as it is written. -/
structure Path where
  text : String
deriving DecidableEq, Repr, Inhabited

namespace Path

/-! ## Walks -/

/-- Whether a path starts at the root. -/
def isAbsolute (p : Path) : Bool := p.text.toList.head? = some '/'

/-- The runs between the slashes, without the one that marks the root. -/
def pieces (p : Path) : List String :=
  (splitAt '/' (if p.isAbsolute then p.text.toList.tail else p.text.toList)).map String.ofList

/-- The step that a piece stands for inside a path. -/
def innerStep? (piece : String) : Option Step :=
  if piece = "" ∨ piece = "." then none
  else if piece = ".." then some .up
  else some (.down piece)

/-- The step that the first piece of a relative path stands for. -/
def firstStep? (piece : String) : Option Step :=
  if piece = "." then some .here else innerStep? piece

/-- The walk that a path describes. -/
def steps (p : Path) : List Step :=
  if p.isAbsolute then .root :: p.pieces.filterMap innerStep?
  else
    match p.pieces with
    | [] => []
    | first :: more => (firstStep? first).toList ++ more.filterMap innerStep?

/-- The text of a piece for a step. -/
def pieceOf : Step → String
  | .root => ""
  | .here => "."
  | .up => ".."
  | .down name => name

/-- The path of a walk. -/
def ofSteps : List Step → Path
  | .root :: more => ⟨"/" ++ "/".intercalate (more.map pieceOf)⟩
  | walk => ⟨"/".intercalate (walk.map pieceOf)⟩

/-! ## Detours -/

/-- The walk so far, last step first, with one more step.  Going up takes back the step down
before it; at the start of the walk it is kept, and anywhere else it has no effect. -/
def settle : List Step → Step → List Step
  | walk, .here => walk
  | .down _ :: walk, .up => walk
  | [], .up => [.up]
  | walk, .up => walk
  | walk, step => step :: walk

/-- A walk without detours. -/
def settled (walk : List Step) : List Step := (walk.foldl settle []).reverse

/-- The path without detours. -/
def normalize (p : Path) : Path := ofSteps (settled p.steps)

/-! ## Places -/

/-- Whether the piece with some pieces in front of it is no step. -/
def isIdle (p : Path) (before : List String) (piece : String) : Bool :=
  piece = "" || (piece = "." && (p.isAbsolute || !before.isEmpty))

/-- The pieces, last first, without idle ones at the end. -/
def dropIdle (p : Path) : List String → List String
  | [] => []
  | piece :: before => if p.isIdle before piece then p.dropIdle before else piece :: before

/-- The place that a path lies in: the path without its last step, written as before.  The root
and the empty path lie nowhere, and get the empty path. -/
def parent (p : Path) : Path :=
  match p.dropIdle p.pieces.reverse with
  | [] => ⟨""⟩
  | _ :: before =>
    let place := "/".intercalate (p.dropIdle before).reverse
    ⟨if p.isAbsolute then "/" ++ place else place⟩

/-- A path from a place; an absolute one does not depend on the place. -/
def join (place : Path) (more : String) : Path :=
  if (⟨more⟩ : Path).isAbsolute then ⟨more⟩
  else if place.text = "" then ⟨more⟩
  else if place.text.toList.getLast? = some '/' then ⟨place.text ++ more⟩
  else ⟨place.text ++ "/" ++ more⟩

/-- Whether a name is that of a source fragment: it ends in `.cs` and has something before. -/
def isFragmentName (name : String) : Bool :=
  ".cs".toList.isSuffixOf name.toList && 3 < name.length

end Path

end Compliance
