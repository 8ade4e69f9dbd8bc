import Compliance.Command

/-!
# Command lines

Arguments start with options that hold for all commands, then name a command, then
give its options and files in any order.  An option is written `--name`, and its
value follows as the next argument or behind an equals sign.  Behind `--` all
arguments are files.  No option may be given twice among the arguments of one
command, and where one is given both in front of a command and behind it, the one
behind counts.  Arguments are read from left to right up to the first that makes no
sense or asks for help or the version.

## Main definitions

* `Level` — which arguments may stand somewhere, and `Level.scan`, which reads them.
* `Invocation.read` — what a command line asks for.
-/

namespace Compliance

open Text

/-! ## Arguments -/

/-- An option. -/
structure OptionForm where
  name : String
  /-- Which values the option may have; a switch has none. -/
  accepts : Option (String → Bool)

/-- Which arguments may stand somewhere. -/
structure Level where
  options : List OptionForm
  /-- How many files there may be. -/
  files : Nat
  /-- The commands that may follow, instead of files. -/
  commands : List String
  /-- Whether the version can be asked for. -/
  hasVersion : Bool

/-- What arguments give. -/
structure Given where
  /-- The values of options; switches have the empty one. -/
  options : List (String × String)
  files : List String
  /-- A command with the arguments behind it. -/
  command : Option (String × List String)

/-- Why reading ends before the last argument. -/
inductive Halt where
  | misuse
  | help
  | version
deriving DecidableEq, Repr

namespace Given

def nothing : Given := ⟨[], [], none⟩

def value? (given : Given) (name : String) : Option String := given.options.lookup name

/-- One option more, which may not be there already. -/
def add (given : Given) (name value : String) : Except Halt Given :=
  match given.value? name with
  | some _ => .error .misuse
  | none => .ok { given with options := (name, value) :: given.options }

end Given

/-- Whether an argument cannot be the value of an option before it: it starts with a dash and is
not one. -/
def looksLikeOption (arg : String) : Bool := arg.toList.head? = some '-' && arg != "-"

/-- The name of an option and the value behind an equals sign. -/
def splitOption (arg : List Char) : String × Option String :=
  let (name, rest) := arg.span (· ≠ '=')
  (String.ofList name, match rest with
    | [] => none
    | _ :: value => some (String.ofList value))

namespace Level

/-- One file more, if there may be one; no file has an empty name. -/
def addFile (level : Level) (given : Given) (arg : String) : Except Halt Given :=
  if arg = "" ∨ level.files ≤ given.files.length then .error .misuse
  else .ok { given with files := given.files ++ [arg] }

/-- What letters behind a single dash ask for. -/
def letters (level : Level) : List Char → Halt
  | 'h' :: _ => .help
  | 'V' :: _ => if level.hasVersion then .version else .misuse
  | _ => .misuse

/-- What a switch for all levels asks for. -/
def common? (level : Level) (name : String) : Option Halt :=
  if name = "help" then some .help
  else if name = "version" ∧ level.hasVersion then some .version
  else none

/-- Reads arguments up to the end or a command. -/
def scan (level : Level) (given : Given) : List String → Except Halt Given
  | [] => .ok given
  | arg :: more =>
    match arg.toList with
    | ['-', '-'] => more.foldlM level.addFile given
    | '-' :: '-' :: written =>
      let (name, attached) := splitOption written
      match level.common? name, level.options.find? (·.name = name), attached with
      | some halt, _, none => .error halt
      | none, some ⟨_, none⟩, none => do level.scan (← given.add name "") more
      | none, some ⟨_, some accepts⟩, some value =>
        if accepts value then do level.scan (← given.add name value) more else .error .misuse
      | none, some ⟨_, some accepts⟩, none =>
        match more with
        | value :: others =>
          if looksLikeOption value || !accepts value then .error .misuse
          else do level.scan (← given.add name value) others
        | [] => .error .misuse
      | _, _, _ => .error .misuse
    | '-' :: letter :: others => .error (level.letters (letter :: others))
    | _ =>
      if level.commands.contains arg then .ok { given with command := some (arg, more) }
      else do level.scan (← level.addFile given arg) more

end Level

/-! ## The commands -/

namespace Invocation

/-- The options that hold for all commands. -/
def styleOptions : List OptionForm :=
  [⟨"output", some fun value => (Format.ofWord? value).isSome⟩, ⟨"quiet", none⟩]

/-- The option for the kind of declarations in a file. -/
def kindOption : OptionForm :=
  ⟨"entry", some fun value => (DeclarationKind.ofKeyword? value).isSome⟩

/-- A number of errors, of 64 bits. -/
def readCount? (s : String) : Option Nat := readUpTo? (1 <<< 64 - 1) s.toList

/-- What stands in front of a command. -/
def outermost : Level where
  options := styleOptions
  files := 0
  commands := ["check", "run", "help"]
  hasVersion := true

/-- What stands behind `check`. -/
def checkLevel : Level where
  options := styleOptions ++ [kindOption, ⟨"max-errors", some fun s => (readCount? s).isSome⟩]
  files := 1
  commands := []
  hasVersion := false

/-- What stands behind `run`.  Rules are checked one after another in any case, so the switch that
asks for this is only accepted. -/
def runLevel : Level where
  options := styleOptions ++
    [kindOption, ⟨"resources", some fun s => !s.isEmpty⟩, ⟨"sequential", none⟩]
  files := 1
  commands := []
  hasVersion := false

/-- How to respond, by the options in front of a command and behind it. -/
def styleOf (outer inner : Given) : Style where
  format := (((inner.value? "output").or (outer.value? "output")).bind Format.ofWord?).getD .text
  quiet := (inner.value? "quiet").isSome || (outer.value? "quiet").isSome

/-- The kind of declarations in a file; plans where none is given. -/
def kindOf (given : Given) : DeclarationKind :=
  ((given.value? "entry").bind DeclarationKind.ofKeyword?).getD .plan

/-- What the arguments behind `check` ask for. -/
def readCheck (outer : Given) (args : List String) : Except Halt Invocation := do
  let given ← checkLevel.scan Given.nothing args
  match given.files with
  | [file] =>
    let maxErrors := ((given.value? "max-errors").bind readCount?).getD Command.defaultMaxErrors
    return .check (styleOf outer given) ⟨file⟩ (kindOf given) maxErrors
  | _ => throw .misuse

/-- What the arguments behind `run` ask for. -/
def readRun (outer : Given) (args : List String) : Except Halt Invocation := do
  let given ← runLevel.scan Given.nothing args
  match given.files, given.value? "resources" with
  | [file], some inventory => return .run (styleOf outer given) ⟨file⟩ ⟨inventory⟩ (kindOf given)
  | _, _ => throw .misuse

/-- What the arguments behind `help` ask for: help, with a single command or none. -/
def readHelp (args : List String) : Halt :=
  match args with
  | [] => .help
  | [command] => if outermost.commands.contains command then .help else .misuse
  | _ => .misuse

/-- What a command line asks for, or why reading it ended before that. -/
def readArguments (args : List String) : Except Halt Invocation := do
  let outer ← outermost.scan Given.nothing args
  match outer.command with
  | some ("check", behind) => readCheck outer behind
  | some ("run", behind) => readRun outer behind
  | some (_, behind) => throw (readHelp behind)
  | none => throw .misuse

/-- What a command line asks for. -/
def read (args : List String) : Invocation :=
  match readArguments args with
  | .ok invocation => invocation
  | .error .misuse => .misuse
  | .error .help => .help
  | .error .version => .version

end Invocation

end Compliance
