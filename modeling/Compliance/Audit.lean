import Compliance.Report

/-!
# Audits

Checking rules against the resources that providers serve.  All rules read by way
of one store, so that nothing is asked twice; a rule whose resources cannot be
gathered is reported as such, and the others are checked all the same.

## Main definitions

* `Audit.check` — the report on a rule.
* `Audit.run` — the report on some rules, one after the other.
-/

namespace Compliance

namespace Audit

/-- What a rule finds in what was gathered for it. -/
def findings (store : Store) (rule : Resolved.Rule) (gathered : Gathered) : Findings where
  verdicts := gathered.resources.map (Verdict.of store rule)
  remarks := gathered.notes.map Note.remark

def check (registry : Registry) (rule : Resolved.Rule) : StateM Session RuleReport := do
  let gathered ← (Gathering.rule registry rule).run
  let store := (← get).store
  return {
    rule := rule.name
    target := rule.target
    result := match gathered with
      | .ok gathered => .ok (findings store rule gathered)
      | .error fault => .error fault.message }

/-- Checks rules one after the other. -/
def checkAll (registry : Registry) : List Resolved.Rule → StateM Session (List RuleReport)
  | [] => return []
  | rule :: more => do
    let first ← check registry rule
    let others ← checkAll registry more
    return first :: others

/-- The report on some rules. -/
def run (registry : Registry) (rules : List Resolved.Rule) : StateM Session RunReport := do
  return ⟨← checkAll registry rules⟩

end Audit

end Compliance
