import Compliance.Path.Normal

/-!
# Sources

Where the texts behind `use` references come from.  A path leads to a file, or to
a directory, whose text is that of the fragments directly in it, in the order of
their names, each with a line feed behind it.

## Main definitions

* `Sources` — what can be read, and which paths are directories.
* `Sources.locate`, `Sources.baseDir` — following a reference.
* `SourceTree` — files held in memory, whose directories exist through them.
-/

namespace Compliance

/-- Why a path cannot be read. -/
inductive ReadFault where
  | notFound (path : Path)
  | accessDenied (path : Path)
  /-- Any other reason, in words. -/
  | unreadable (path : Path) (reason : String)
deriving DecidableEq, Repr

/-- The wording of a fault. -/
def ReadFault.message : ReadFault → String
  | .notFound path => "'" ++ path.text ++ "' not found"
  | .accessDenied path => "access denied to '" ++ path.text ++ "'"
  | .unreadable path reason => "cannot read '" ++ path.text ++ "': " ++ reason

/-- Texts that can be read. -/
structure Sources where
  /-- The text behind a path. -/
  read : Path → Except ReadFault String
  isDirectory : Path → Bool
  /-- Finitely many paths, among them all normal ones with a text that is not empty. -/
  extent : List Path
  covers : ∀ {path : Path} {text : String}, read path.normalize = .ok text → text ≠ "" →
    path.normalize ∈ extent

namespace Sources

/-- The place that a reference in a file or directory `base` leads to. -/
def locate (base : Path) (reference : String) : Path := (base.join reference).normalize

/-- The directory that references in the text behind a path start from: the path itself, or the
place of a file. -/
def baseDir (sources : Sources) (path : Path) : Path :=
  if sources.isDirectory path then path else path.parent

end Sources

/-! ## Directories -/

/-- Fragments in the order of their names. -/
def sortFragments {α : Type} (fragments : List (String × α)) : List (String × α) :=
  fragments.mergeSort fun a b => !decide (b.1 < a.1)

/-- The text of a directory: that of its fragments in order, each with a line feed. -/
def joinFragments (fragments : List (String × String)) : String :=
  String.join ((sortFragments fragments).map fun fragment => fragment.2 ++ "\n")

@[simp] theorem sortFragments_nil {α : Type} : sortFragments ([] : List (String × α)) = [] :=
  List.mergeSort_nil

/-- A directory without fragments has no text. -/
theorem joinFragments_nil : joinFragments [] = "" := by
  simp [joinFragments]

/-! ## Trees in memory -/

/-- Files by their normal paths, and the paths that may not be read. -/
structure SourceTree where
  files : List (Path × String)
  denied : List Path
deriving Inhabited

namespace SourceTree

/-- A tree without files. -/
def empty : SourceTree := ⟨[], []⟩

/-- The tree with one more file, which replaces an earlier one of its path. -/
def add (tree : SourceTree) (path : Path) (text : String) : SourceTree :=
  { tree with
    files := (path.normalize, text) :: tree.files.filter fun file => file.1 ≠ path.normalize }

/-- The tree with one more path that may not be read. -/
def deny (tree : SourceTree) (path : Path) : SourceTree :=
  { tree with denied := path.normalize :: tree.denied }

def file? (tree : SourceTree) (path : Path) : Option String := tree.files.lookup path

/-- Whether the first walk is the start of the second, longer one. -/
def isAbove (place file : List Step) : Bool := place.isPrefixOf file && place != file

/-- Whether a path leads to a directory: it is that of no file, and lies above some. -/
def isDirectory (tree : SourceTree) (path : Path) : Bool :=
  let place := path.normalize
  (tree.file? place).isNone && tree.files.any fun file => isAbove place.steps file.1.steps

/-- The name of a file directly in a place, if it is a fragment there. -/
def fragmentName? (place file : List Step) : Option String :=
  match file.getLast? with
  | some (.down name) =>
    if file.dropLast = place ∧ Path.isFragmentName name then some name else none
  | _ => none

/-- The fragments directly in a normal path, by their names. -/
def fragments (tree : SourceTree) (place : Path) : List (String × String) :=
  tree.files.filterMap fun file =>
    (fragmentName? place.steps file.1.steps).map fun name => (name, file.2)

/-- The text behind a path. -/
def read (tree : SourceTree) (path : Path) : Except ReadFault String :=
  let place := path.normalize
  if tree.denied.contains place then .error (.accessDenied place)
  else
    match tree.file? place with
    | some text => .ok text
    | none =>
      if tree.isDirectory place then .ok (joinFragments (tree.fragments place))
      else .error (.notFound place)

/-- The paths of the files, and those of all places above them. -/
def extent (tree : SourceTree) : List Path :=
  tree.files.flatMap fun file =>
    (List.range (file.1.steps.length + 1)).map fun n => Path.ofSteps (file.1.steps.take n)

private theorem ofSteps_mem_extent {tree : SourceTree} {file : Path × String}
    (h : file ∈ tree.files) {n : Nat} (hn : n ≤ file.1.steps.length) :
    Path.ofSteps (file.1.steps.take n) ∈ tree.extent :=
  List.mem_flatMap.mpr ⟨file, h, List.mem_map.mpr
    ⟨n, List.mem_range.mpr (Nat.lt_succ_of_le hn), rfl⟩⟩

/-- A normal path that can be read belongs to the extent. -/
theorem mem_extent_of_read {tree : SourceTree} {path : Path} {text : String}
    (h : tree.read path.normalize = .ok text) : path.normalize ∈ tree.extent := by
  rw [read] at h
  simp only [Path.normalize_normalize] at h
  split at h
  · cases h
  · split at h
    · next found =>
      obtain ⟨before, after, files, -⟩ := List.lookup_eq_some_iff.mp found
      have file : (path.normalize, _) ∈ tree.files :=
        files ▸ List.mem_append_right before List.mem_cons_self
      have place := ofSteps_mem_extent file (Nat.le_refl _)
      rw [List.take_length, Path.ofSteps_steps_normalize] at place
      exact place
    · split at h
      · next directory =>
        simp only [isDirectory, isAbove, Bool.and_eq_true, List.any_eq_true,
          Path.normalize_normalize, List.isPrefixOf_iff_prefix] at directory
        obtain ⟨-, file, hf, above, -⟩ := directory
        have place := ofSteps_mem_extent hf above.length_le
        rw [← List.prefix_iff_eq_take.mp above, Path.ofSteps_steps_normalize] at place
        exact place
      · cases h

/-- The tree as something to read from. -/
def sources (tree : SourceTree) : Sources where
  read := tree.read
  isDirectory := tree.isDirectory
  extent := tree.extent
  covers := fun h _ => mem_extent_of_read h

end SourceTree

end Compliance
