import Compliance.Verdict

/-!
# Reports

What came of rules.  A rule either could not be evaluated, or it has verdicts and
remarks, and fails if one of the resources does.  A run passes if all its rules do,
and is errored only if it has rules and none could be evaluated.

## Main definitions

* `RuleReport`, `RunReport` — what came of a rule and of a run.
* `RuleReport.standing`, `RunReport.outcome` — in a word.
* `RunReport.toJson`, `RunReport.text` — a report as a document and as a text.
-/

namespace Compliance

open Text

/-! ## Rules -/

/-- What an evaluated rule found. -/
structure Findings where
  /-- The verdicts on the resources of the rule's type, in order. -/
  verdicts : List Verdict
  /-- What was left out. -/
  remarks : List Remark
deriving DecidableEq, Repr

/-- What came of a rule: what it found, or why it could not be evaluated. -/
structure RuleReport where
  rule : String
  target : TypeRef
  result : Except String Findings

/-- How it stands with a rule. -/
inductive RuleStanding where
  | passed
  | failed
  | errored
deriving DecidableEq, Repr

def RuleStanding.word : RuleStanding → String
  | .passed => "passed"
  | .failed => "failed"
  | .errored => "errored"

namespace RuleReport

/-- The verdicts; a rule that was not evaluated has none. -/
def verdicts (r : RuleReport) : List Verdict :=
  match r.result with
  | .ok findings => findings.verdicts
  | .error _ => []

/-- The remarks; a rule that was not evaluated has none. -/
def remarks (r : RuleReport) : List Remark :=
  match r.result with
  | .ok findings => findings.remarks
  | .error _ => []

/-- Why the rule was not evaluated. -/
def error? (r : RuleReport) : Option String :=
  match r.result with
  | .ok _ => none
  | .error reason => some reason

def standing (r : RuleReport) : RuleStanding :=
  match r.result with
  | .ok findings => if findings.verdicts.any (·.standing = .failed) then .failed else .passed
  | .error _ => .errored

/-- How many resources the rule applied to. -/
def checked (r : RuleReport) : Nat := r.verdicts.countP (·.standing ≠ .skipped)

/-- A report as a document. -/
def toJson (r : RuleReport) : Json :=
  .object ([("rule", .string r.rule), ("target", .string r.target.text),
    ("status", .string r.standing.word),
    ("resources", .array (r.verdicts.map Verdict.toJson)),
    ("diagnostics", .array (r.remarks.map Remark.toJson))] ++
    (r.error?.map fun reason => ("error", Json.string reason)).toList)

/-- The first word of a report as a text, five characters wide. -/
def label : RuleStanding → String
  | .passed => "PASS "
  | .failed => "FAIL "
  | .errored => "ERROR"

/-- A report as lines: what came of the rule, and below it the checks that failed, each with its
resource, and the remarks. -/
def lines (r : RuleReport) : List String :=
  [label r.standing ++ " " ++ r.rule ++ " (" ++ r.target.text ++ ", " ++ natText r.checked ++
    " checked)"] ++
  (r.error?.map fun reason => "      " ++ reason).toList ++
  (r.verdicts.flatMap fun v => v.failures.map fun failure =>
    "      " ++ v.id ++ ": " ++ failure) ++
  r.remarks.map fun remark => "      note: " ++ remark.message

end RuleReport

/-! ## Runs -/

/-- What came of some rules. -/
structure RunReport where
  /-- The reports on the rules, in order. -/
  rules : List RuleReport

/-- What came of a run. -/
inductive Outcome where
  /-- Every rule passed. -/
  | passed
  /-- Some rule failed or could not be evaluated. -/
  | failed
  /-- There are rules, and none could be evaluated. -/
  | errored
deriving DecidableEq, Repr

def Outcome.word : Outcome → String
  | .passed => "passed"
  | .failed => "failed"
  | .errored => "errored"

namespace RunReport

/-- How many rules stand in a way. -/
def count (r : RunReport) (standing : RuleStanding) : Nat :=
  r.rules.countP (·.standing = standing)

/-- What came of the run. -/
def outcome (r : RunReport) : Outcome :=
  if r.rules.all (·.standing = .passed) then .passed
  else if r.rules.all (·.standing = .errored) then .errored
  else .failed

/-- A report as a document. -/
def toJson (r : RunReport) : Json :=
  .object [("outcome", .string r.outcome.word), ("rules", .array (r.rules.map RuleReport.toJson))]

/-- The last line of a report: how many rules stand in each way. -/
def summary (r : RunReport) : String :=
  natText (r.count .passed) ++ " passed, " ++ natText (r.count .failed) ++ " failed, " ++
    natText (r.count .errored) ++ " errored"

/-- A report as a text: the lines of the rules, then the summary. -/
def text (r : RunReport) : String :=
  "\n".intercalate (r.rules.flatMap RuleReport.lines ++ [r.summary])

end RunReport

end Compliance
