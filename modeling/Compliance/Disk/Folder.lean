import Compliance.Disk

/-!
# Folders

A folder with files and folders in it, as the place from which paths are followed.
Every piece of a path is followed in turn, so that a path leads through folders
only, also where it goes up again.  Around the folder there are folders, but
nothing is known in them.

## Main definitions

* `Folder.addFile`, `Folder.addFolder` — building a folder.
* `Folder.walk` — following a path.
* `Folder.disk` — what paths from the folder lead to.
-/

namespace Compliance

open Text

/-- A folder with files and folders in it, each by the names that lead there. -/
structure Folder where
  files : List (List String × ByteArray)
  folders : List (List String)

/-- Where a path leads. -/
inductive Place where
  /-- To something in the folder, by the names that lead there. -/
  | inside (names : List String)
  /-- To a folder around it. -/
  | outside
deriving DecidableEq, Repr

namespace Folder

def empty : Folder := ⟨[], []⟩

instance : Inhabited Folder := ⟨empty⟩

/-- Whether a piece of a path leads nowhere else. -/
def isIdle (piece : String) : Bool := piece = "" || piece = "."

/-- The names on a path that only goes down. -/
def names (path : String) : List String :=
  (⟨path⟩ : Path).pieces.filter fun piece => !isIdle piece

/-- The folder with one more file, and the folders on the way. -/
def addFile (folder : Folder) (path : String) (content : ByteArray) : Folder :=
  { folder with files := (names path, content) :: folder.files }

/-- The folder with one more folder, and those on the way. -/
def addFolder (folder : Folder) (path : String) : Folder :=
  { folder with folders := names path :: folder.folders }

def file? (folder : Folder) (place : List String) : Option ByteArray :=
  folder.files.lookup place

/-- Whether names lead to a folder. -/
def isFolder (folder : Folder) (place : List String) : Bool :=
  place.isEmpty || folder.folders.any (place.isPrefixOf ·) ||
    folder.files.any fun file => place.isPrefixOf file.1 && place != file.1

/-- The longest name in bytes. -/
def maxName : Nat := 255

/-- The bytes below which paths are followed. -/
def maxPath : Nat := 4096

/-- Follows a piece of a path. -/
def step (folder : Folder) (place : Place) (piece : String) : Except FileFault Place :=
  match place with
  | .outside =>
    if isIdle piece || piece = ".." then .ok .outside
    else if maxName < piece.utf8ByteSize then .error .nameTooLong
    else .error .notFound
  | .inside here =>
    if !folder.isFolder here then .error .notDirectory
    else if isIdle piece then .ok (.inside here)
    else if piece = ".." then .ok (if here.isEmpty then .outside else .inside here.dropLast)
    else if maxName < piece.utf8ByteSize then .error .nameTooLong
    else
      let there := here ++ [piece]
      if (folder.file? there).isSome || folder.isFolder there then .ok (.inside there)
      else .error .notFound

/-- Follows a path. -/
def walk (folder : Folder) (path : Path) : Except FileFault Place :=
  if path.text = "" then .error .notFound
  else if maxPath ≤ path.text.utf8ByteSize then .error .nameTooLong
  else path.pieces.foldlM folder.step (if path.isAbsolute then .outside else .inside [])

/-- The text that bytes stand for. -/
def decode (content : ByteArray) : Except FileFault String :=
  match String.fromUTF8? content with
  | some text => .ok text
  | none => .error .notText

/-- The source fragments directly in a folder. -/
def fragments (folder : Folder) (place : List String) :
    List (String × Except FileFault String) :=
  let found := folder.files.filter fun file =>
    file.1.dropLast = place && file.1.getLast?.any Path.isFragmentName
  ((found.map (·.1)).eraseDups.filterMap fun names => do
    return (← names.getLast?, decode (← folder.file? names)))

/-- What a place holds. -/
def entryAt (folder : Folder) : Place → Entry
  | .outside => .directory []
  | .inside place =>
    match folder.file? place with
    | some content => .file (decode content)
    | none => .directory (folder.fragments place)

/-- The paths of the files and of the folders on the way to them. -/
def extent (folder : Folder) : List Path :=
  folder.files.flatMap fun file =>
    (List.range (file.1.length + 1)).map fun n =>
      Path.ofSteps ((file.1.take n).map .down)

/-! ## Walks and places -/

private theorem step_outside {folder : Folder} {piece : String} {place : Place}
    (h : folder.step .outside piece = .ok place) : place = .outside := by
  unfold step at h
  simp only at h
  split at h
  · exact (Except.ok.inj h).symm
  · split at h <;> cases h

/-- A piece of a path that stays in the folder is a step of the walk that it describes. -/
private theorem step_inside {folder : Folder} {here there : List String} {piece : String}
    (h : folder.step (.inside here) piece = .ok (.inside there)) :
    (Path.innerStep? piece).toList.foldl Path.settle (here.map Step.down).reverse =
      (there.map Step.down).reverse := by
  rw [step] at h
  simp only at h
  rw [Path.innerStep?]
  split at h
  · cases h
  · split at h
    · next idle =>
      obtain rfl := Place.inside.inj (Except.ok.inj h)
      rw [if_pos (by simpa [isIdle] using idle)]
      rfl
    · next continues =>
      rw [if_neg (by simpa [isIdle] using continues)]
      split at h
      · next up =>
        rw [if_pos up]
        split at h
        · simp at h
        · next within =>
          obtain rfl := Place.inside.inj (Except.ok.inj h)
          rcases List.eq_nil_or_concat here with rfl | ⟨above, last, rfl⟩
          · exact absurd rfl within
          · simp [Path.settle]
      · next down =>
        rw [if_neg down]
        split at h
        · cases h
        · split at h
          · obtain rfl := Place.inside.inj (Except.ok.inj h)
            rw [List.map_append, List.reverse_append]
            exact Path.settle_down _ piece
          · cases h

private theorem filterMap_innerStep?_cons (piece : String) (more : List String) :
    (piece :: more).filterMap Path.innerStep? =
      (Path.innerStep? piece).toList ++ more.filterMap Path.innerStep? := by
  rw [List.filterMap_cons]
  cases Path.innerStep? piece <;> rfl

private theorem exists_step {folder : Folder} {start place : Place} {piece : String}
    {more : List String} (h : (piece :: more).foldlM folder.step start = .ok place) :
    ∃ next, folder.step start piece = .ok next ∧ more.foldlM folder.step next = .ok place := by
  rw [List.foldlM_cons] at h
  cases hs : folder.step start piece with
  | error fault =>
    rw [hs] at h
    cases h
  | ok next =>
    rw [hs] at h
    exact ⟨next, rfl, h⟩

/-- From outside no path leads back in. -/
private theorem foldlM_step_outside {folder : Folder} {pieces : List String} {place : Place}
    (h : pieces.foldlM folder.step .outside = .ok place) : place = .outside := by
  induction pieces with
  | nil => exact (Except.ok.inj h).symm
  | cons piece more ih =>
    obtain ⟨next, first, behind⟩ := exists_step h
    obtain rfl := step_outside first
    exact ih behind

private theorem foldlM_step_inside {folder : Folder} {pieces here there : List String}
    (h : pieces.foldlM folder.step (.inside here) = .ok (.inside there)) :
    (pieces.filterMap Path.innerStep?).foldl Path.settle (here.map Step.down).reverse =
      (there.map Step.down).reverse := by
  induction pieces generalizing here with
  | nil =>
    obtain rfl := Place.inside.inj (Except.ok.inj h)
    rfl
  | cons piece more ih =>
    obtain ⟨next, first, behind⟩ := exists_step h
    cases next with
    | outside => cases foldlM_step_outside behind
    | inside between =>
      rw [filterMap_innerStep?_cons, List.foldl_append, step_inside first, ih behind]

/-- **A path that leads to something in the folder is, without detours, the names that lead
there.** -/
theorem settled_of_walk {folder : Folder} {path : Path} {place : List String}
    (h : folder.walk path = .ok (.inside place)) :
    Path.settled path.steps = place.map .down := by
  rw [walk] at h
  split at h
  · cases h
  · split at h
    · cases h
    · split at h
      · cases foldlM_step_outside h
      · next relative =>
        have inside := foldlM_step_inside h
        have steps : path.steps.foldl Path.settle [] =
            (path.pieces.filterMap Path.innerStep?).foldl Path.settle [] := by
          rw [Path.steps, if_neg relative]
          cases path.pieces with
          | nil => rfl
          | cons first more =>
            have same : (Path.firstStep? first).toList.foldl Path.settle [] =
                (Path.innerStep? first).toList.foldl Path.settle [] := by
              rw [Path.firstStep?]
              split
              · next here =>
                rw [here]
                rfl
              · rfl
            rw [filterMap_innerStep?_cons, List.foldl_append, List.foldl_append, same]
        rw [Path.settled, steps]
        exact List.reverse_eq_iff.mpr inside

/-- The places on the way to a file belong to the extent. -/
private theorem mem_extent_of_file {folder : Folder} {file : List String × ByteArray}
    (h : file ∈ folder.files) {n : Nat} (hn : n ≤ file.1.length) :
    Path.ofSteps ((file.1.take n).map .down) ∈ folder.extent :=
  List.mem_flatMap.mpr ⟨file, h, List.mem_map.mpr
    ⟨n, List.mem_range.mpr (Nat.lt_succ_of_le hn), rfl⟩⟩

private theorem mem_extent_of_hasText {folder : Folder} {place : List String}
    (h : (folder.entryAt (.inside place)).hasText = true) :
    Path.ofSteps (place.map .down) ∈ folder.extent := by
  simp only [entryAt] at h
  split at h
  · next content found =>
    obtain ⟨before, after, files, -⟩ := List.lookup_eq_some_iff.mp found
    have file : (place, content) ∈ folder.files :=
      files ▸ List.mem_append_right before List.mem_cons_self
    have path := mem_extent_of_file file (Nat.le_refl _)
    rw [List.take_length] at path
    exact path
  · have nonempty : folder.fragments place ≠ [] := by
      intro empty
      rw [empty] at h
      cases h
    obtain ⟨fragment, hm⟩ := List.exists_mem_of_ne_nil _ nonempty
    obtain ⟨names, hn, -⟩ := List.mem_filterMap.mp hm
    obtain ⟨file, hf, rfl⟩ := List.mem_map.mp (List.mem_eraseDups.mp hn)
    obtain ⟨known, good⟩ := List.mem_filter.mp hf
    have inside : file.1.dropLast = place := by simp_all
    have path := mem_extent_of_file known (Nat.sub_le file.1.length 1)
    rw [← List.dropLast_eq_take, inside] at path
    exact path

/-- What paths from the folder lead to. -/
def disk (folder : Folder) : Disk where
  entry path := (folder.walk path).map folder.entryAt
  extent := folder.extent
  covers {path e} h text := by
    cases hw : folder.walk path.normalize with
    | error fault =>
      rw [hw] at h
      cases h
    | ok place =>
      rw [hw] at h
      obtain rfl := Except.ok.inj h
      cases place with
      | outside => cases text
      | inside place =>
        have walk := settled_of_walk hw
        have found := mem_extent_of_hasText text
        rw [← walk, ← Path.normalize, Path.normalize_normalize] at found
        exact found

end Folder

end Compliance
