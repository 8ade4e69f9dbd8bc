import Compliance.Audit.Crew

/-!
# Verdicts have their evidence

A finding could say one thing and record another: that it holds, with a check that
failed among its checks, or that it does not, with nothing to show for it.  None
does.  A finding holds if all its checks passed, so a resource that fails has a
check that failed, and so has a rule.

The same is said of judging with one record for everything, into which each
statement enters its checks behind those of the statements before it.

## Main definitions

* `Finding.Evident f` — `f` holds if all its checks passed.
* `Recording.statements` — judging with one record of checks.
* `Recording.run_statements` — what is entered are the checks of the finding.
* `Audit.verdicts_evident` — resources and rules fail if some check did.
-/

namespace Compliance

/-! ## Findings -/

namespace Finding

/-- A finding holds exactly if all its checks passed. -/
def Evident (f : Finding) : Prop := f.holds = f.checks.all (·.passed)

theorem evident_trivial : Evident trivial := rfl

theorem evident_single (check : Check) : Evident (single check) := by
  simp [Evident, single]

theorem Evident.both {a b : Finding} (ha : a.Evident) (hb : b.Evident) : (a.both b).Evident := by
  rw [Evident, holds_both, checks_both, List.all_append, ha, hb]

theorem evident_all {findings : List Finding} (h : ∀ f ∈ findings, f.Evident) :
    (all findings).Evident := by
  induction findings with
  | nil => exact evident_trivial
  | cons f more ih =>
    rw [List.forall_mem_cons] at h
    exact h.1.both (ih h.2)

theorem evident_ofProperty (place : String) (predicate : Predicate) (property : Option Property) :
    (ofProperty place predicate property).Evident := by
  rcases property with _ | _ | _ <;> exact evident_single _

theorem evident_ofEntry (place key : String) (predicate : Predicate) (property : Option Property) :
    (ofEntry place key predicate property).Evident := by
  rcases property with _ | _ | _ <;> exact evident_single _

theorem evident_presence (place : String) (targets : Option (List ResourceRef)) :
    (presence place targets).Evident := by
  cases targets <;> exact evident_single _

mutual

theorem evident_ofStatement (store : Store) (place : String) (scope : Attributes) :
    ∀ s : Statement, (ofStatement store place scope s).Evident
  | .property name predicate => by
    rw [ofStatement]
    exact evident_ofProperty ..
  | .entry name key predicate => by
    rw [ofStatement]
    exact evident_ofEntry ..
  | .nested name children => by
    rw [ofStatement]
    split
    · refine evident_all (List.forall_mem_map.mpr fun (spot, element) _ => ?_)
      exact evident_ofStatements store spot element children
    · exact evident_single _
  | .association name [] => by
    rw [ofStatement]
    exact evident_presence ..
  | .association name (child :: more) => by
    rw [ofStatement]
    split
    · exact evident_trivial
    · refine evident_all (List.forall_mem_map.mpr fun (spot, target) _ => ?_)
      exact evident_ofStatements store spot target (child :: more)

/-- **What statements say is what their checks show.** -/
theorem evident_ofStatements (store : Store) (place : String) (scope : Attributes) :
    ∀ ss : List Statement, (ofStatements store place scope ss).Evident
  | [] => evident_trivial
  | s :: more => by
    rw [ofStatements]
    exact (evident_ofStatement store place scope s).both
      (evident_ofStatements store place scope more)

end

end Finding

/-! ## One record for all -/

/-- Judging with a record of the checks made so far, the newest last. -/
abbrev Recording := StateM (List Check) Bool

namespace Recording

open Finding

/-- Enters the checks of a finding. -/
def enter (f : Finding) : Recording := do
  modify (· ++ f.checks)
  return f.holds

/-- Judges some things, each whether or not those before it held. -/
def each {α : Type} (judge : α → Recording) : List α → Recording
  | [] => return true
  | a :: more => do
    let first ← judge a
    let others ← each judge more
    return first && others

mutual

/-- What a statement says, its checks entered. -/
def statement (store : Store) (place : String) (scope : Attributes) : Statement → Recording
  | .property name predicate =>
    enter (ofProperty (below place name) predicate (scope.property? name))
  | .entry name key predicate =>
    enter (ofEntry (item (below place name) (Text.quote key)) key predicate (scope.property? name))
  | .nested name children =>
    match scope.property? name with
    | some (.nested elements) =>
      each (fun (spot, element) => statements store spot element children)
        (placed (below place name) elements)
    | other => enter (noElements (below place name) other)
  | .association name [] => enter (presence (below place name) (scope.targets? name))
  | .association name (child :: more) =>
    match scope.targets? name with
    | none => return true
    | some targets =>
      each (fun (spot, target) => statements store spot target (child :: more))
        (placedTargets store (below place name) targets)

/-- What statements say, one after the other. -/
def statements (store : Store) (place : String) (scope : Attributes) : List Statement → Recording
  | [] => return true
  | s :: more => do
    let first ← statement store place scope s
    let others ← statements store place scope more
    return first && others

end

/-- With a record, judging comes to a finding and enters its checks behind the others. -/
def Enters (act : Recording) (f : Finding) : Prop :=
  ∀ record, act.run record = (f.holds, record ++ f.checks)

theorem enters_enter (f : Finding) : Enters (enter f) f := fun _ => rfl

theorem enters_nothing : Enters (return true) Finding.trivial := fun record =>
  congrArg (Prod.mk true) (List.append_nil record).symm

theorem Enters.both {x y : Recording} {a b : Finding} (hx : Enters x a) (hy : Enters y b) :
    Enters (do return (← x) && (← y)) (a.both b) := by
  intro record
  have parts : (do return (← x) && (← y) : Recording).run record =
      ((x.run record).1 && (y.run (x.run record).2).1, (y.run (x.run record).2).2) := rfl
  rw [parts, hx, hy, holds_both, checks_both, List.append_assoc]

theorem enters_each {α : Type} {judge : α → Recording} {find : α → Finding} {things : List α}
    (h : ∀ a ∈ things, Enters (judge a) (find a)) :
    Enters (each judge things) (all (things.map find)) := by
  induction things with
  | nil => exact enters_nothing
  | cons a more ih =>
    rw [List.forall_mem_cons] at h
    exact h.1.both (ih h.2)

mutual

theorem enters_statement (store : Store) (place : String) (scope : Attributes) :
    ∀ s : Statement, Enters (statement store place scope s) (ofStatement store place scope s)
  | .property _ _ => by
    rw [statement, ofStatement]
    exact enters_enter _
  | .entry _ _ _ => by
    rw [statement, ofStatement]
    exact enters_enter _
  | .nested name children => by
    rw [statement, ofStatement]
    rcases scope.property? name with _ | _ | elements
    · exact enters_enter _
    · exact enters_enter _
    · refine enters_each fun entry _ => ?_
      exact enters_statements store entry.1 entry.2 children
  | .association _ [] => by
    rw [statement, ofStatement]
    exact enters_enter _
  | .association name (child :: more) => by
    rw [statement, ofStatement]
    cases scope.targets? name with
    | none => exact enters_nothing
    | some targets =>
      refine enters_each fun entry _ => ?_
      exact enters_statements store entry.1 entry.2 (child :: more)

theorem enters_statements (store : Store) (place : String) (scope : Attributes) :
    ∀ ss : List Statement,
      Enters (statements store place scope ss) (ofStatements store place scope ss)
  | [] => by
    rw [statements, ofStatements]
    exact enters_nothing
  | s :: more => by
    rw [statements, ofStatements]
    exact (enters_statement store place scope s).both (enters_statements store place scope more)

end

/-- **Judging leaves the record as it was and enters its checks behind**, and what it comes to is
whether all of these passed. -/
theorem run_statements (store : Store) (place : String) (scope : Attributes) (ss : List Statement)
    (record : List Check) : (statements store place scope ss).run record =
      ((ofStatements store place scope ss).checks.all (·.passed),
        record ++ (ofStatements store place scope ss).checks) := by
  rw [← evident_ofStatements store place scope ss]
  exact enters_statements store place scope ss record

end Recording

/-! ## Verdicts and reports -/

namespace Verdict

variable (store : Store) (rule : Resolved.Rule) (resource : Resource)

theorem failures_ne_nil_iff (v : Verdict) : v.failures ≠ [] ↔ ∃ c ∈ v.checks, c.passed = false := by
  simp [failures, List.filter_eq_nil_iff]

theorem of_cases :
    ((of store rule resource).standing = .skipped ∧ (of store rule resource).checks = []) ∨
    ((of store rule resource).standing = .passed ∧
      ∀ c ∈ (of store rule resource).checks, c.passed = true) ∨
    ((of store rule resource).standing = .failed ∧
      ∃ c ∈ (of store rule resource).checks, c.passed = false) := by
  have evident := Finding.evident_ofStatements store "" resource.attributes rule.assertions
  rw [of]
  split
  · rw [Finding.Evident] at evident
    cases holds : (Finding.ofStatements store "" resource.attributes rule.assertions).holds with
    | true =>
      rw [holds] at evident
      exact .inr (.inl ⟨by simp [holds], List.all_eq_true.mp evident.symm⟩)
    | false =>
      rw [holds] at evident
      obtain ⟨c, hc, failed⟩ := List.all_eq_false.mp evident.symm
      exact .inr (.inr ⟨by simp [holds], c, hc, by simpa using failed⟩)
  · exact .inl ⟨rfl, rfl⟩

/-- A resource fails exactly if one of its checks did. -/
theorem standing_eq_failed_iff : (of store rule resource).standing = .failed ↔
    ∃ c ∈ (of store rule resource).checks, c.passed = false := by
  rcases of_cases store rule resource with ⟨standing, checks⟩ | ⟨standing, checks⟩ |
    ⟨standing, checks⟩
  · simp [standing, checks]
  · simpa [standing] using checks
  · simp [standing, checks]

end Verdict

/-- A rule that was evaluated fails exactly if a resource does. -/
theorem RuleReport.standing_eq_failed_iff {report : RuleReport} {found : Findings}
    (evaluated : report.result = .ok found) :
    report.standing = .failed ↔ ∃ v ∈ found.verdicts, v.standing = .failed := by
  simp [standing, evaluated]

namespace Audit

/-- A rule fails exactly if one of the checks made for it did. -/
theorem standing_reported_eq_failed_iff (rule : Resolved.Rule) (store : Store)
    (gathered : Except ProviderFault Gathered) :
    (reported rule store gathered).standing = .failed ↔
      ∃ v ∈ (reported rule store gathered).verdicts, ∃ c ∈ v.checks, c.passed = false := by
  cases gathered with
  | error fault => simp [reported, RuleReport.standing, RuleReport.verdicts]
  | ok gathered =>
    have judged : ∀ v ∈ gathered.resources.map (Verdict.of store rule),
        (v.standing = .failed ↔ ∃ c ∈ v.checks, c.passed = false) :=
      List.forall_mem_map.mpr fun resource _ => Verdict.standing_eq_failed_iff store rule resource
    refine (RuleReport.standing_eq_failed_iff rfl).trans ?_
    exact exists_congr fun v => and_congr_right (judged v)

/-- **A verdict always has its evidence.**

By any store, a resource fails a rule exactly if one of the checks on it failed, which is exactly if
there is a failure to report; it passes only if all of them passed, and is skipped only if there are
none.  Statements that are judged in any place enter their checks behind the earlier ones, which
stay as they were, and hold exactly if all those entered passed.  A report on a rule, whatever was
gathered for it or asked before, says that it failed exactly if some check in it did. -/
theorem verdicts_evident (store : Store) (rule : Resolved.Rule) :
    (∀ resource,
      ((Verdict.of store rule resource).standing = .failed ↔
        ∃ c ∈ (Verdict.of store rule resource).checks, c.passed = false) ∧
      ((Verdict.of store rule resource).failures ≠ [] ↔
        (Verdict.of store rule resource).standing = .failed) ∧
      ((Verdict.of store rule resource).standing = .passed →
        ∀ c ∈ (Verdict.of store rule resource).checks, c.passed = true) ∧
      ((Verdict.of store rule resource).standing = .skipped →
        (Verdict.of store rule resource).checks = [])) ∧
    (∀ place scope ss record, (Recording.statements store place scope ss).run record =
      ((Finding.ofStatements store place scope ss).checks.all (·.passed),
        record ++ (Finding.ofStatements store place scope ss).checks)) ∧
    (∀ gathered, (reported rule store gathered).standing = .failed ↔
      ∃ v ∈ (reported rule store gathered).verdicts, ∃ c ∈ v.checks, c.passed = false) ∧
    ∀ registry s, ((check registry rule).run s).1.standing = .failed ↔
      ∃ v ∈ ((check registry rule).run s).1.verdicts, ∃ c ∈ v.checks, c.passed = false := by
  refine ⟨fun resource => ⟨Verdict.standing_eq_failed_iff store rule resource, ?_, ?_, ?_⟩,
    Recording.run_statements store, standing_reported_eq_failed_iff rule store, fun registry s =>
      standing_reported_eq_failed_iff rule _ _⟩
  · exact (Verdict.failures_ne_nil_iff _).trans
      (Verdict.standing_eq_failed_iff store rule resource).symm
  · intro passed
    have cases' := Verdict.of_cases store rule resource
    simpa [passed] using cases'
  · intro skipped
    have cases' := Verdict.of_cases store rule resource
    simpa [skipped] using cases'

end Audit

end Compliance
