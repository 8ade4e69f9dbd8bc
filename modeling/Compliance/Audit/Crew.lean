import Compliance.Audit

/-!
# Audits with a task for each rule

Rules can also be checked at the same time, each by a task of its own, all by way of
one store.  What a task does at a time is small: it asks the store for one answer,
or calls a provider, or gives the store one entry.  Between any two of these the
other tasks may take as many steps as they like.

A question that a task has put to a provider is pending until the store has the
answer.  Other tasks that would ask it wait, and a listing that arrives passes over
those of its resources whose own questions are pending.

## Main definitions

* `Phase`, `Task`, `Crew` — how far a task has come, and all tasks with their store.
* `Phase.step`, `Crew.step` — a step of a task.
* `Crew.run` — steps of tasks in the order of a schedule.
* `Crew.start`, `Crew.report?` — the tasks for some rules, and what came of them.
-/

namespace Compliance

/-! ## Tasks -/

/-- How far a task has come. -/
inductive Phase where
  /-- The next question is about to be asked, or nothing is left to be asked. -/
  | asking (rest : Inquiry Gathered)
  /-- A provider was called, and its answer has not arrived. -/
  | calling (call : Call) (answer : Answer call.Reply) (next : call.Reply → Inquiry Gathered)
  /-- A listing has arrived, and some of its resources are still to be kept. -/
  | keeping (type : TypeRef) (resources left : List Resource)
      (next : List Resource → Inquiry Gathered)
  /-- The rule was judged. -/
  | done (report : RuleReport)

/-- The question whose answer the store is to have from a task. -/
def Phase.pending? : Phase → Option Call
  | .calling call _ _ => some call
  | .keeping type _ _ _ => some (.list type)
  | _ => none

def Phase.report? : Phase → Option RuleReport
  | .done report => some report
  | _ => none

/-- A rule, and how far its task has come. -/
structure Task where
  rule : Resolved.Rule
  phase : Phase

/-- The report on a rule by what came of gathering, judged by a store. -/
def Audit.reported (rule : Resolved.Rule) (store : Store)
    (gathered : Except ProviderFault Gathered) : RuleReport where
  rule := rule.name
  target := rule.target
  result :=
    match gathered with
    | .ok gathered => .ok (findings store rule gathered)
    | .error fault => .error fault.message

/-- The store with the answer to a question, and nothing else: resources that were listed are kept
one by one. -/
def Store.fill (store : Store) : (call : Call) → Answer call.Reply → Store
  | .list type, answer => { store with listings := (type, answer) :: store.listings }
  | .lookup ref, answer => store.keep ref answer

/-- A task gives the store the answer to its question, and goes on with it. -/
def Phase.deliver (s : Session) (call : Call) (answer : Answer call.Reply)
    (next : call.Reply → Inquiry Gathered) : Phase × Session :=
  (.asking (.onward next answer), { s with store := s.store.fill call answer })

/-- A step of the task for a rule while some questions are pending, if it need not wait. -/
def Phase.step (registry : Registry) (rule : Resolved.Rule) (pending : List Call) (s : Session) :
    Phase → Option (Phase × Session)
  | .asking (.done gathered) => some (.done (Audit.reported rule s.store gathered), s)
  | .asking (.ask call next) =>
    match registry.forType call.type with
    | .error fault => some (.asking (.done (.error fault)), s)
    | .ok provider =>
      match s.store.answerTo? call with
      | some answer => some (.asking (.onward next answer), s)
      | none =>
        if call ∈ pending then none
        else some (.calling call (provider.answer s.calls call) next,
          { s with calls := s.calls ++ [call] })
  | .calling (.list type) (.ok resources) next => some (.keeping type resources resources next, s)
  | .calling (.list type) (.error fault) next => some (deliver s (.list type) (.error fault) next)
  | .calling (.lookup ref) answer next => some (deliver s (.lookup ref) answer next)
  | .keeping type resources (r :: left) next =>
    some (.keeping type resources left next,
      if .lookup r.ref ∈ pending then s
      else { s with store := s.store.fill (.lookup r.ref) (.ok (some r)) })
  | .keeping type resources [] next => some (deliver s (.list type) (.ok resources) next)
  | .done _ => none

/-! ## Crews -/

/-- The tasks for some rules, and the session they share. -/
structure Crew where
  session : Session
  tasks : List Task

namespace Crew

/-- The tasks for some rules, none of which has taken a step. -/
def start (s : Session) (rules : List Resolved.Rule) : Crew :=
  ⟨s, rules.map fun rule => ⟨rule, .asking (Inquiry.rule rule)⟩⟩

/-- The questions that providers were asked and the store has no answers for yet. -/
def pending (crew : Crew) : List Call := crew.tasks.filterMap (·.phase.pending?)

/-- A step of the task at a position, if there is one that need not wait. -/
def step (registry : Registry) (crew : Crew) (i : Nat) : Option Crew := do
  let task ← crew.tasks[i]?
  let (phase, session) ← task.phase.step registry task.rule crew.pending crew.session
  return ⟨session, crew.tasks.set i ⟨task.rule, phase⟩⟩

/-- Steps of the tasks at the positions of a schedule. -/
def run (registry : Registry) : Crew → List Nat → Option Crew
  | crew, [] => some crew
  | crew, i :: schedule => do (← crew.step registry i).run registry schedule

/-- The report of the run in the order of the rules, once all tasks are done. -/
def report? (crew : Crew) : Option RunReport :=
  (crew.tasks.mapM fun task : Task => task.phase.report?).map RunReport.mk

end Crew

end Compliance
