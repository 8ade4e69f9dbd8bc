import Compliance.Audit
import Compliance.Inventory
import Compliance.Specification

/-!
# Commands

What the program does: `check` reads a specification and says what is wrong with
it, `run` checks the resources of an inventory against its rules.

A response is text, or a JSON document with its keys in order.  Errors go to the
error stream, those that prevent an answer as a document too where documents are
asked for.  Quiet responses have no lines of text.  The exit code tells whether
all went well.

## Main definitions

* `Invocation` — what is asked for.
* `Response` — what the program prints, and its exit code.
* `Invocation.respond` — the response to an invocation.
-/

namespace Compliance

open Text

/-! ## Invocations -/

/-- The two forms of responses. -/
inductive Format where
  | text
  | json
deriving DecidableEq, Repr

/-- The form that a word stands for. -/
def Format.ofWord? : String → Option Format
  | "text" => some .text
  | "json" => some .json
  | _ => none

/-- How to respond. -/
structure Style where
  format : Format
  /-- Whether to leave out lines of text. -/
  quiet : Bool
deriving DecidableEq, Repr

/-- What is asked for. -/
inductive Invocation where
  /-- Nothing that makes sense. -/
  | misuse
  | help
  | version
  | check (style : Style) (file : Path) (kind : DeclarationKind) (maxErrors : Nat)
  | run (style : Style) (file : Path) (inventory : Path) (kind : DeclarationKind)
deriving DecidableEq, Repr

/-! ## Responses -/

/-- What the program prints, and its exit code. -/
structure Response where
  exitCode : Nat
  output : String
  errors : String
deriving DecidableEq, Repr

namespace Response

/-- The exit code for a success or a failure. -/
def exitOf (success : Bool) : Nat := if success then 0 else 1

/-- Each of some lines with a line feed behind it. -/
def ofLines (lines : List String) : String := String.join (lines.map (· ++ "\n"))

/-- The lines of a style. -/
def linesIn (style : Style) (lines : List String) : String :=
  if style.quiet then "" else ofLines lines

def ofDocument (members : List (String × Json)) : String :=
  ofLines [(Json.object members).sorted.pretty]

/-- The response where there is no answer. -/
def failure (style : Style) (reason : String) : Response where
  exitCode := 1
  output := ""
  errors := linesIn style [match style.format with
    | .text => reason
    | .json => (Json.object [("error", .string reason)]).compact]

end Response

namespace Command

open Response

/-- The reason why a file cannot be read. -/
def unreadable (file : Path) (fault : FileFault) : String :=
  "error reading file '" ++ file.text ++ "': " ++ fault.message

/-- The limit of syntax errors where none is given. -/
def defaultMaxErrors : Nat := 10

/-! ### Checking a specification -/

/-- The line that sums up a specification. -/
def summary (file : Path) (s : Specification) : String :=
  file.text ++ ": " ++ natText s.declarations ++ " declaration(s), " ++
    natText s.rules.length ++ " rule(s), " ++ natText s.syntaxErrors.length ++
    " syntax error(s), " ++ natText s.issues.length ++ " resolve error(s): " ++
    (if s.isComplete then "ok" else "failed")

/-- What there is to say about a specification. -/
def checked (style : Style) (file : Path) (s : Specification) : Response :=
  match style.format with
  | .json => {
      exitCode := exitOf s.isComplete
      output := ofDocument (s.errorMembers ++ [("ok", .boolean s.isComplete),
        ("declarations", .ofNat s.declarations), ("rules", .ofNat s.rules.length)])
      errors := "" }
  | .text => {
      exitCode := exitOf s.isComplete
      output := linesIn style [summary file s]
      errors := linesIn style s.errorLines }

/-- Checks a specification, in which any setting may be made. -/
def check (disk : Disk) (style : Style) (file : Path) (kind : DeclarationKind)
    (maxErrors : Nat) : Response :=
  match Specification.load disk (fun _ => none) file kind maxErrors with
  | .ok s => checked style file s
  | .error fault => failure style (unreadable file fault)

/-! ### Running a specification -/

/-- The resources of an inventory, or why there are none. -/
def readInventory (disk : Disk) (file : Path) : Except String (List Resource) :=
  match disk.readFile file with
  | .error fault => .error (unreadable file fault)
  | .ok written =>
    match Inventory.read written with
    | .ok resources => .ok resources
    | .error fault => .error ("error loading fixture '" ++ file.text ++ "': " ++ fault.message)

/-- A registry in which all rules have a provider of their target; one that was missing has no
resources. -/
def serveTargets (registry : Registry) (rules : List Resolved.Rule) : Registry :=
  let missing := (rules.map (·.target.provider)).filter fun name => !registry.names.contains name
  missing.eraseDups.foldl (fun registry name => registry.register (Provider.holding name []))
    registry

/-- The report on the rules of a specification. -/
def audit (registry : Registry) (s : Specification) : RunReport :=
  ((Audit.run (serveTargets registry s.rules) s.rules).run Session.start).1

/-- What there is to say about a specification that was not run. -/
def refused (style : Style) (s : Specification) : Response :=
  match style.format with
  | .json => { exitCode := 1, output := ofDocument s.errorMembers, errors := "" }
  | .text => { exitCode := 1, output := "", errors := linesIn style s.errorLines }

/-- What there is to say about a specification that was run.  It is a success if all rules pass
and nothing was lost. -/
def reported (style : Style) (s : Specification) (report : RunReport) : Response :=
  let success := report.outcome = .passed && s.isComplete
  match style.format with
  | .json => {
      exitCode := exitOf success
      output := ofDocument (s.errorMembers ++ [("report", report.toJson)])
      errors := "" }
  | .text => {
      exitCode := exitOf success
      output := linesIn style [report.text]
      errors := linesIn style s.errorLines }

/-- Checks the resources of an inventory against the rules of a specification, which is done by
`audit`; a specification with errors of syntax is not run. -/
def runBy (audit : Registry → Specification → RunReport) (disk : Disk) (style : Style)
    (file inventory : Path) (kind : DeclarationKind) : Response :=
  match readInventory disk inventory with
  | .error reason => failure style reason
  | .ok resources =>
    let registry := Registry.ofResources resources
    match Specification.load disk registry.catalogue file kind defaultMaxErrors with
    | .error fault => failure style (unreadable file fault)
    | .ok s =>
      if s.syntaxErrors.isEmpty then reported style s (audit registry s) else refused style s

/-- Checks the resources of an inventory against the rules of a specification, one after the
other. -/
def run : Disk → Style → Path → Path → DeclarationKind → Response := runBy audit

/-! ### Everything else -/

def version : String := "cloudspec 0.1.0"

/-- How the program is called. -/
def usage : List String := [
  "Usage: cloudspec [--output text|json] [--quiet] check FILE [--entry KIND] [--max-errors N]",
  "       cloudspec [--output text|json] [--quiet] run FILE --resources FILE [--entry KIND]",
  "                 [--sequential]",
  "KIND is plan, module, group or rule."]

end Command

open Command in
/-- The response to an invocation. -/
def Invocation.respond (disk : Disk) : Invocation → Response
  | .misuse => { exitCode := 2, output := "", errors := Response.ofLines usage }
  | .help => { exitCode := 0, output := Response.ofLines usage, errors := "" }
  | .version => { exitCode := 0, output := Response.ofLines [Command.version], errors := "" }
  | .check style file kind maxErrors => Command.check disk style file kind maxErrors
  | .run style file inventory kind => Command.run disk style file inventory kind

end Compliance
