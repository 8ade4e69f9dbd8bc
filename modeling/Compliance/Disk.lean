import Compliance.Source

/-!
# Disks

Files and directories as a system shows them: what there is at a path, and in the
words of the system why there is nothing to read.

## Main definitions

* `FileFault` — why there is nothing to read, with `FileFault.message` for the wording.
* `Disk` — what there is at paths.
* `Disk.readFile` — the text of a file.
* `Disk.sources` — files and directories as sources.
-/

namespace Compliance

/-! ## Faults -/

/-- Why there is nothing to read. -/
inductive FileFault where
  | notFound
  | accessDenied
  /-- Something on the way is a file. -/
  | notDirectory
  | isDirectory
  | nameTooLong
  /-- The path has a character that ends paths. -/
  | pathEndsEarly
  /-- The bytes of a file are no text. -/
  | notText
  /-- Another reason, in words. -/
  | other (reason : String)
deriving DecidableEq, Repr

namespace FileFault

/-- The wording of a fault. -/
def message : FileFault → String
  | .notFound => "No such file or directory (os error 2)"
  | .accessDenied => "Permission denied (os error 13)"
  | .notDirectory => "Not a directory (os error 20)"
  | .isDirectory => "Is a directory (os error 21)"
  | .nameTooLong => "File name too long (os error 36)"
  | .pathEndsEarly => "file name contained an unexpected NUL byte"
  | .notText => "stream did not contain valid UTF-8"
  | .other reason => reason

/-- The fault as that of a source at a path. -/
def toReadFault (path : Path) : FileFault → ReadFault
  | .notFound => .notFound path
  | .accessDenied => .accessDenied path
  | fault => .unreadable path fault.message

end FileFault

/-! ## Disks -/

/-- What a path leads to. -/
inductive Entry where
  /-- A file, with its text if it can be read. -/
  | file (content : Except FileFault String)
  /-- A directory, with the source fragments directly in it. -/
  | directory (fragments : List (String × Except FileFault String))

namespace Entry

/-- The text of an entry as a source: that of a file, or of all fragments of a directory. -/
def text : Entry → Except FileFault String
  | .file content => content
  | .directory fragments => do
    let read ← (sortFragments fragments).mapM fun (name, content) => do return (name, ← content)
    return joinFragments read

/-- Whether the text may be other than empty. -/
def hasText : Entry → Bool
  | .file (.ok text) => text ≠ ""
  | .file (.error _) => false
  | .directory fragments => !fragments.isEmpty

theorem hasText_of_text {e : Entry} {written : String} (h : e.text = .ok written)
    (nonempty : written ≠ "") : e.hasText = true := by
  cases e with
  | file content =>
    obtain rfl : content = .ok written := h
    exact decide_eq_true nonempty
  | directory fragments =>
    cases fragments with
    | cons _ _ => rfl
    | nil =>
      rw [text, sortFragments_nil] at h
      have nothing : joinFragments [] = written := Except.ok.inj h
      rw [joinFragments_nil] at nothing
      exact absurd nothing.symm nonempty

end Entry

/-- Files and directories. -/
structure Disk where
  /-- What a path leads to. -/
  entry : Path → Except FileFault Entry
  /-- Finitely many paths, among them all normal ones with a text. -/
  extent : List Path
  covers : ∀ {path : Path} {e : Entry}, entry path.normalize = .ok e → e.hasText = true →
    path.normalize ∈ extent

namespace Disk

/-- What a path leads to, if it may be asked for. -/
def look (disk : Disk) (path : Path) : Except FileFault Entry :=
  if path.text.toList.any (·.toNat = 0) then .error .pathEndsEarly else disk.entry path

/-- The text of a file. -/
def readFile (disk : Disk) (path : Path) : Except FileFault String :=
  match disk.look path with
  | .ok (.file content) => content
  | .ok (.directory _) => .error .isDirectory
  | .error fault => .error fault

/-- The text behind a path. -/
def readSource (disk : Disk) (path : Path) : Except FileFault String := do
  (← disk.look path).text

/-- Whether a path leads to a directory. -/
def isDirectory (disk : Disk) (path : Path) : Bool :=
  match disk.look path with
  | .ok (.directory _) => true
  | _ => false

def sources (disk : Disk) : Sources where
  read path := (disk.readSource path).mapError (FileFault.toReadFault path)
  isDirectory := disk.isDirectory
  extent := disk.extent
  covers {path text} h nonempty := by
    rw [readSource, look] at h
    split at h
    · cases h
    · cases he : disk.entry path.normalize with
      | error fault =>
        rw [he] at h
        cases h
      | ok e =>
        have read : e.text.mapError (FileFault.toReadFault path.normalize) = .ok text := by
          rw [← h, he]
          rfl
        cases ht : e.text with
        | error fault =>
          rw [ht] at read
          cases read
        | ok found =>
          rw [ht] at read
          obtain rfl := Except.ok.inj read
          exact disk.covers he (Entry.hasText_of_text ht nonempty)

/-- What is known of some paths; nothing else is there. -/
def ofEntries (entries : List (Path × Except FileFault Entry)) : Disk where
  entry path := (entries.lookup path).getD (.error .notFound)
  extent := entries.map (·.1)
  covers {path e} h _ := by
    cases hl : entries.lookup path.normalize with
    | none =>
      rw [hl] at h
      cases h
    | some known =>
      obtain ⟨before, after, rfl, -⟩ := List.lookup_eq_some_iff.mp hl
      simp

end Disk

end Compliance
