import Compliance.Command.Arguments

/-!
# The program

Reads from the disk what an invocation is about, prints the response, and ends with
its exit code.

## Main definitions

* `Program.entryAt` — what the system has at a path.
* `Program.collect` — the files and directories that sources refer to.
* `main` — the program.
-/

namespace Compliance

namespace Program

/-- The number of an error of the system, which may come negated. -/
def errorNumber (code : UInt32) : UInt32 := if 0x80000000 ≤ code then 0 - code else code

/-- The fault that an error of the system stands for. -/
def faultOf (error : IO.Error) : FileFault :=
  match error with
  | .noFileOrDirectory _ _ _ => .notFound
  | .permissionDenied _ _ _ => .accessDenied
  | .inappropriateType _ code _ =>
    if errorNumber code = 20 then .notDirectory else .isDirectory
  | .invalidArgument _ code details =>
    if errorNumber code = 36 then .nameTooLong else .other details
  | _ => .other (toString error)

/-- The text of a file. -/
def contentAt (path : String) : IO (Except FileFault String) := do
  try
    match String.fromUTF8? (← IO.FS.readBinFile path) with
    | some text => return .ok text
    | none => return .error .notText
  catch error => return .error (faultOf error)

/-- The source fragment that an item of a directory is, if it is one. -/
def fragmentOf (item : IO.FS.DirEntry) : IO (List (String × Except FileFault String)) := do
  if !Path.isFragmentName item.fileName then return []
  try
    if (← item.path.metadata).type == .file then
      return [(item.fileName, ← contentAt item.path.toString)]
    else return []
  catch _ => return []

/-- What the system has at a path. -/
def entryAt (path : Path) : IO (Except FileFault Entry) := do
  let place := (IO.FS.DirEntry.mk path.text "").root
  try
    if ← place.isDir then
      let fragments ← (← place.readDir).toList.mapM fragmentOf
      return .ok (.directory fragments.flatten)
    else return (← contentAt path.text).map fun text => .file (.ok text)
  catch error => return .error (faultOf error)

/-- What is known of some paths. -/
abbrev Known := List (Path × Except FileFault Entry)

/-- What is known, and what the system has at one more path. -/
def learn (known : Known) (path : Path) : IO Known := do
  if (known.lookup path).isSome then return known
  return (path, ← entryAt path) :: known

/-- What is known, and what the system has at some paths and at all that the sources there refer
to. -/
partial def collect (seen : List (Path × DeclarationKind)) (known : Known) :
    List (Path × DeclarationKind) → IO Known
  | [] => return known
  | (path, kind) :: more => do
    if seen.contains (path, kind) then collect seen known more
    else
      let known ← learn known path
      let references := Specification.references (Disk.ofEntries known) path kind
      collect ((path, kind) :: seen) known (references ++ more)

/-- All that an invocation is about. -/
def diskFor : Invocation → IO Disk
  | .check _ file kind _ => return Disk.ofEntries (← collect [] [] [(file, kind)])
  | .run _ file inventory kind => do
    let known ← collect [] [] [(file, kind)]
    return Disk.ofEntries (← learn known inventory)
  | _ => return Disk.ofEntries []

end Program

end Compliance

open Compliance in
/-- The program. -/
def main (args : List String) : IO UInt32 := do
  let invocation := Invocation.read args
  let response := invocation.respond (← Program.diskFor invocation)
  IO.print response.output
  IO.eprint response.errors
  return response.exitCode.toUInt32
