import Compliance.Proofs.Resolution.Places
import Mathlib.Data.List.Dedup
import Mathlib.Logic.Function.Iterate

/-!
# A resolution step by step

A resolution takes one member of a declaration at a time.  What is still to be done
lies on a stack of tasks: a declaration is replaced by its members, a reference by
what is declared behind it, with the task of leaving its path below that.  So the
active paths can be seen at every moment, and not only at the end, where none is
left.  The steps know nothing of unread paths: that references end is a theorem here.

## Main definitions

* `Resolver.Task`, `Resolver.Stage` — what is to be done, and a moment of a resolution.
* `Resolver.step`, `Resolver.after` — one step, and the moment after some steps.
* `Resolver.Sound` — active paths differ, and something is declared behind each.
* `Resolver.Becomes.leads` — the steps come to the issues of the resolution.
* `Resolver.expansion_ends` — references end, and what their paths do on the way.
-/

namespace Compliance

open Declaration Resolving

namespace Resolver

/-! ## Stages -/

/-- Something to be done. -/
inductive Task where
  /-- To resolve a member of a declaration in a place. -/
  | resolve (place : Path) (member : Member)
  /-- To leave the innermost active path. -/
  | leave

/-- A moment of a resolution: what is still to be done, the active paths with the innermost first,
and the issues so far. -/
structure Stage where
  tasks : List Task
  active : List Path
  issues : List Issue

/-- The tasks of some members. -/
def tasksOf (place : Path) (members : List Member) : List Task := members.map (.resolve place)

theorem tasksOf_cons (place : Path) (member : Member) (more : List Member) :
    tasksOf place (member :: more) = .resolve place member :: tasksOf place more := rfl

/-- The tasks of what is declared behind a path, with leaving it as the last. -/
def tasksBehind (r : Resolver) (path : Path) (fragment : List Declaration) : List Task :=
  tasksOf (r.sources.baseDir path) (fragment.map .written) ++ [.leave]

namespace Stage

/-- The first task is done, and makes an issue. -/
def refuse (rest : List Task) (s : Stage) (issue : Issue) : Stage :=
  { s with tasks := rest, issues := s.issues ++ [issue] }

end Stage

/-- A declaration is replaced by its members, and its settings are looked at.  A rule without a
target is lost. -/
def stepInto (r : Resolver) (place : Path) (d : Declaration) (rest : List Task) (s : Stage) :
    Stage :=
  let inside : Stage := { s with
    tasks := tasksOf place d.members ++ rest
    issues := s.issues ++ r.settingIssues d.settings }
  match d with
  | .rule d =>
    if (TypeRef.read? d.target).isNone then
      s.refuse rest (.malformedTarget d.origin d.name d.target)
    else inside
  | _ => inside

/-- A reference is replaced by what is declared behind its path, which becomes active, or it is
refused. -/
def stepBehind (r : Resolver) (place : Path) (kind : DeclarationKind) (reference : Inclusion)
    (rest : List Task) (s : Stage) : Stage :=
  let path := Sources.locate place reference.path
  if path ∈ s.active then s.refuse rest (.includeCycle reference.origin path.text)
  else
    match r.sources.read path with
    | .error fault => s.refuse rest (Issue.ofReadFault reference.origin path fault)
    | .ok text =>
      match parse text path.text kind with
      | .error error => s.refuse rest (.fragment error)
      | .ok fragment =>
        { s with tasks := r.tasksBehind path fragment ++ rest, active := path :: s.active }

/-- The next moment of a resolution; behind the last one nothing changes. -/
def step (r : Resolver) (s : Stage) : Stage :=
  match s.tasks with
  | [] => s
  | .leave :: rest => { s with tasks := rest, active := s.active.tail }
  | .resolve place (.written d) :: rest => r.stepInto place d rest s
  | .resolve place (.used kind reference) :: rest => r.stepBehind place kind reference rest s

/-- The moment after a number of steps. -/
def after (r : Resolver) (n : Nat) (s : Stage) : Stage := r.step^[n] s

/-- The first moment of the resolution of a declaration. -/
def Stage.start (base : Path) (d : Declaration) : Stage := ⟨tasksOf base [.written d], [], []⟩

variable {r : Resolver} {s : Stage} {place : Path} {rest : List Task} {active : List Path}
  {before : List Issue}

theorem after_add (m n : Nat) (s : Stage) : r.after (m + n) s = r.after n (r.after m s) := by
  rw [Nat.add_comm, after, Function.iterate_add_apply]
  rfl

/-- Some steps lead from one moment to another. -/
def Leads (r : Resolver) (s t : Stage) : Prop := ∃ n, r.after n s = t

theorem Leads.refl (r : Resolver) (s : Stage) : r.Leads s s := ⟨0, rfl⟩

theorem Leads.cons {t : Stage} (h : r.Leads (r.step s) t) : r.Leads s t := by
  obtain ⟨n, rfl⟩ := h
  exact ⟨n + 1, rfl⟩

theorem Leads.trans {t u : Stage} (h : r.Leads s t) (h' : r.Leads t u) : r.Leads s u := by
  obtain ⟨m, rfl⟩ := h
  obtain ⟨n, rfl⟩ := h'
  exact ⟨m + n, after_add m n s⟩

/-! ## Active paths -/

/-- Something is declared behind a path. -/
def Opens (r : Resolver) (path : Path) : Prop :=
  ∃ text kind fragment, r.sources.read path = .ok text ∧ parse text path.text kind = .ok fragment

/-- No path is active twice, all are without detours, and behind each something is declared.  No
reference is to plans. -/
structure Sound (r : Resolver) (s : Stage) : Prop where
  nodup : s.active.Nodup
  normal : ∀ path ∈ s.active, path.normalize = path
  opens : ∀ path ∈ s.active, r.Opens path
  named : ∀ place reference, .resolve place (.used .plan reference) ∉ s.tasks

theorem not_mem_tasksOf_members (place place' : Path) (reference : Inclusion) (d : Declaration) :
    .resolve place' (.used .plan reference) ∉ tasksOf place d.members := by
  cases d <;> simp [tasksOf, members, membersOf]

theorem not_mem_tasksBehind (path place : Path) (reference : Inclusion)
    (fragment : List Declaration) :
    .resolve place (.used .plan reference) ∉ r.tasksBehind path fragment := by
  simp [tasksBehind, tasksOf]

theorem sound_start (r : Resolver) (base : Path) (d : Declaration) : r.Sound (.start base d) where
  nodup := List.nodup_nil
  normal := List.forall_mem_nil _
  opens := List.forall_mem_nil _
  named place reference := by simp [Stage.start, tasksOf]

/-- A path that is not active and declares something may become active. -/
theorem Sound.enter {path : Path} (h : r.Sound s) (fresh : path ∉ s.active)
    (normal : path.normalize = path) (opens : r.Opens path) {tasks : List Task}
    (named : ∀ place reference, .resolve place (.used .plan reference) ∉ tasks) :
    r.Sound { s with tasks, active := path :: s.active } :=
  ⟨List.nodup_cons.mpr ⟨fresh, h.nodup⟩, List.forall_mem_cons.mpr ⟨normal, h.normal⟩,
    List.forall_mem_cons.mpr ⟨opens, h.opens⟩, named⟩

/-- The innermost path may be left. -/
theorem Sound.leave (h : r.Sound s) {tasks : List Task}
    (named : ∀ place reference, .resolve place (.used .plan reference) ∉ tasks) :
    r.Sound { s with tasks, active := s.active.tail } :=
  ⟨h.nodup.tail, fun path hp => h.normal path (List.mem_of_mem_tail hp),
    fun path hp => h.opens path (List.mem_of_mem_tail hp), named⟩

/-- Tasks and issues may change. -/
theorem Sound.go {tasks : List Task} (h : r.Sound s)
    (named : ∀ place reference, .resolve place (.used .plan reference) ∉ tasks)
    (issues : List Issue) : r.Sound { s with tasks, issues } :=
  ⟨h.nodup, h.normal, h.opens, named⟩

theorem stepBehind_sound (h : r.Sound s) (place : Path) (kind : DeclarationKind)
    (reference : Inclusion)
    (named : ∀ place reference, .resolve place (.used .plan reference) ∉ rest) :
    r.Sound (r.stepBehind place kind reference rest s) := by
  unfold stepBehind
  simp only
  split
  · exact h.go named _
  · next fresh =>
    split
    · exact h.go named _
    · next text read =>
      split
      · exact h.go named _
      · next fragment parsed =>
        refine h.enter fresh (Path.normalize_normalize _) ⟨text, kind, fragment, read, parsed⟩ ?_
        intro place' reference'
        rw [List.mem_append, not_or]
        exact ⟨not_mem_tasksBehind _ place' reference' fragment, named place' reference'⟩

theorem stepInto_sound (h : r.Sound s) (place : Path) (d : Declaration)
    (named : ∀ place reference, .resolve place (.used .plan reference) ∉ rest) :
    r.Sound (r.stepInto place d rest s) := by
  have inside : ∀ place' reference,
      .resolve place' (.used .plan reference) ∉ tasksOf place d.members ++ rest := by
    intro place' reference
    rw [List.mem_append, not_or]
    exact ⟨not_mem_tasksOf_members place place' reference d, named place' reference⟩
  cases d with
  | rule d =>
    simp only [stepInto]
    split
    · exact h.go named _
    · exact h.go inside _
  | _ => exact h.go inside _

/-- **One step keeps the active paths different, and something declared behind each.** -/
theorem step_sound (h : r.Sound s) : r.Sound (r.step s) := by
  have named {task : Task} {rest : List Task} (tasks : s.tasks = task :: rest) (place reference) :
      .resolve place (.used .plan reference) ∉ rest := fun hm =>
    h.named place reference (tasks ▸ List.mem_cons_of_mem task hm)
  unfold step
  split
  · exact h
  · next rest tasks => exact h.leave (named tasks)
  · next place d rest tasks => exact stepInto_sound h place d (named tasks)
  · next place kind reference rest tasks =>
    exact stepBehind_sound h place kind reference (named tasks)

theorem Leads.sound {t : Stage} (h : r.Leads s t) (start : r.Sound s) : r.Sound t := by
  obtain ⟨n, rfl⟩ := h
  induction n generalizing s with
  | zero => exact start
  | succ n ih => exact ih (step_sound start)

section Tree

variable {tree : SourceTree} {catalogue : Catalogue}

theorem Sound.mem_extent (h : Sound ⟨tree.sources, catalogue⟩ s) :
    ∀ path ∈ s.active, path ∈ tree.extent := by
  intro path hp
  obtain ⟨text, -, -, read, -⟩ := h.opens path hp
  rw [← h.normal path hp] at read ⊢
  exact SourceTree.mem_extent_of_read read

theorem Sound.stacked (h : Sound ⟨tree.sources, catalogue⟩ s) :
    Stacked ⟨tree.sources, catalogue⟩ s.active := ⟨h.nodup, h.mem_extent⟩

/-- In a tree there are no more active paths than files and places above them. -/
theorem Sound.length_le (h : Sound ⟨tree.sources, catalogue⟩ s) :
    s.active.length ≤ tree.extent.dedup.length :=
  h.nodup.length_le_of_subset fun path hp => List.mem_dedup.mpr (h.mem_extent path hp)

end Tree

/-! ## The steps of a resolution -/

/-- A declaration that is resolved is replaced by its members. -/
theorem step_written {d : Declaration} {x : Resolved} (stands : x.StandsFor d) :
    r.step ⟨.resolve place (.written d) :: rest, active, before⟩ =
      ⟨tasksOf place d.members ++ rest, active, before ++ r.settingIssues d.settings⟩ := by
  cases d with
  | rule d =>
    cases x with
    | rule x => simp [step, stepInto, stands.2.1]
    | _ => cases stands
  | _ => rfl

theorem step_lost {d : Rule} (lost : TypeRef.read? d.target = none) :
    r.step ⟨.resolve place (.written (.rule d)) :: rest, active, before⟩ =
      ⟨rest, active, before ++ [.malformedTarget d.origin d.name d.target]⟩ := by
  simp [step, stepInto, lost, Stage.refuse]

theorem step_used {kind : DeclarationKind} {reference : Inclusion} {path : Path}
    {fragment : List Declaration} (expands : r.sources.Expands place kind reference path fragment)
    (fresh : path ∉ active) :
    r.step ⟨.resolve place (.used kind reference) :: rest, active, before⟩ =
      ⟨r.tasksBehind path fragment ++ rest, path :: active, before⟩ := by
  obtain ⟨rfl, text, read, parsed⟩ := expands
  simp [step, stepBehind, fresh, read, parsed]

theorem step_unused {kind : DeclarationKind} {reference : Inclusion} {issue : Issue}
    (refused : r.Refuses active place kind reference issue) :
    r.step ⟨.resolve place (.used kind reference) :: rest, active, before⟩ =
      ⟨rest, active, before ++ [issue]⟩ := by
  cases refused with
  | cycle located again => simp [step, stepBehind, ← located, again, Stage.refuse]
  | unread located fresh read => simp [step, stepBehind, ← located, fresh, read, Stage.refuse]
  | unparsed located fresh read parsed =>
    simp [step, stepBehind, ← located, fresh, read, parsed, Stage.refuse]

/-- **Step by step members make the issues of their resolution**, and leave the paths active that
were. -/
theorem Becomes.leads {top : Settings} {outer : List (List Assignment)} {members : List Member}
    {found : List Resolved} {issues : List Issue}
    (h : r.Becomes top active outer place members found issues) (rest : List Task)
    (before : List Issue) :
    r.Leads ⟨tasksOf place members ++ rest, active, before⟩ ⟨rest, active, before ++ issues⟩ := by
  induction h generalizing rest before with
  | nil =>
    rw [List.append_nil]
    exact .refl r _
  | written stands _ _ _ inside behind =>
    refine .cons ?_
    rw [tasksOf_cons, List.cons_append, step_written stands]
    refine (inside _ _).trans ?_
    rw [← List.append_assoc, ← List.append_assoc]
    exact behind _ _
  | lost lost _ behind =>
    refine .cons ?_
    rw [tasksOf_cons, List.cons_append, step_lost lost]
    have onward := fun issue => behind rest (before ++ [issue])
    simp only [List.append_assoc, List.singleton_append] at onward
    exact onward _
  | used expands fresh _ _ inside behind =>
    refine .cons ?_
    rw [tasksOf_cons, List.cons_append, step_used expands fresh, tasksBehind, List.append_assoc]
    refine (inside _ _).trans (.cons ?_)
    rw [← List.append_assoc before]
    exact behind _ _
  | unused refused _ behind =>
    refine .cons ?_
    rw [tasksOf_cons, List.cons_append, step_unused refused]
    have onward := fun issue => behind rest (before ++ [issue])
    simp only [List.append_assoc, List.singleton_append] at onward
    exact onward _

/-- **A reference is answered with a cycle just if its path is active.** -/
theorem stepBehind_eq_cycle_iff {kind : DeclarationKind} {reference : Inclusion} {origin : Origin}
    {path : String} :
    r.stepBehind place kind reference rest s = s.refuse rest (.includeCycle origin path) ↔
      Sources.locate place reference.path ∈ s.active ∧ origin = reference.origin ∧
        path = (Sources.locate place reference.path).text := by
  have same {issue issue' : Issue} :
      s.refuse rest issue = s.refuse rest issue' ↔ issue = issue' := by
    simp [Stage.refuse]
  unfold stepBehind
  simp only
  split
  · next again => simp [same, again, eq_comm]
  · next fresh =>
    simp only [fresh, false_and, iff_false]
    split
    · next fault _ =>
      rw [same]
      cases fault <;> exact Issue.noConfusion
    · split
      · rw [same]
        exact Issue.noConfusion
      · intro refused
        have shorter := congrArg (·.active.length) refused
        simp [Stage.refuse] at shorter

/-! ## References end -/

/-- What the resolver itself answers to a reference from a place, among active paths: declarations
that come to the place, and issues.  There are no references to plans. -/
inductive Answers (r : Resolver) (inherited : Settings) (active : List Path) (place : Path)
    (reference : Inclusion) : DeclarationKind → List Issue → Prop
  | rule {found new} :
      Yields (r.expand .rule place (fun _ d => r.ruleOf inherited d) reference) active found new →
      Answers r inherited active place reference .rule new
  | group {found new} :
      Yields (r.expand .group place (r.groupOf inherited) reference) active found new →
      Answers r inherited active place reference .group new
  | module {found new} :
      Yields (r.expand .module place (r.moduleOf active inherited) reference) active found new →
      Answers r inherited active place reference .module new

/-- **The resolver answers a reference as the steps do**, and the paths that are active when it is
done are those from before. -/
theorem exists_answers (stacked : r.Stacked active) (inherited : Settings) {kind : DeclarationKind}
    (other : kind ≠ .plan) (place : Path) (reference : Inclusion) (rest : List Task)
    (before : List Issue) :
    ∃ new, r.Answers inherited active place reference kind new ∧
      r.Leads ⟨.resolve place (.used kind reference) :: rest, active, before⟩
        ⟨rest, active, before ++ new⟩ := by
  have handed : r.Handed inherited [] inherited := fun _ => rfl
  cases kind with
  | plan => exact absurd rfl other
  | rule =>
    have follow : r.Achieves inherited active [] place [.used .rule reference] .rule
        (r.expand .rule place (fun _ d => r.ruleOf inherited d) reference) :=
      achieves_expand stacked (fun _ _ _ kind => achieves_ruleOf handed kind) reference
    obtain ⟨found, new, yields, becomes⟩ := follow
    exact ⟨new, .rule yields, becomes.leads rest before⟩
  | group =>
    have follow : r.Achieves inherited active [] place [.used .group reference] .group
        (r.expand .group place (r.groupOf inherited) reference) :=
      achieves_expand stacked
        (fun path stacked _ kind => achieves_groupOf stacked handed path kind) reference
    obtain ⟨found, new, yields, becomes⟩ := follow
    exact ⟨new, .group yields, becomes.leads rest before⟩
  | module =>
    have within : r.Achieving inherited active (r.moduleOf active) := achieving_moduleOf active
    have follow : r.Achieves inherited active [] place [.used .module reference] .module
        (r.expand .module place (r.moduleOf active inherited) reference) :=
      achieves_expand stacked (fun path stacked => within path stacked [] inherited handed)
        reference
    obtain ⟨found, new, yields, becomes⟩ := follow
    exact ⟨new, .module yields, becomes.leads rest before⟩

/-- **References end, whatever the files are.**

The steps of a resolution come to an end, where all is done, no path is active, and the issues are
those of the resolution.  At every moment on the way the active paths are different and something
is declared behind each of them, so there are at most as many as there are files and places above
them.  A reference is answered with a cycle just if its path is active then.  However it is
answered, the steps do what the resolver does, and the paths that are active when it is done are
those from before. -/
theorem expansion_ends (tree : SourceTree) (catalogue : Catalogue) (top : Settings) (base : Path)
    (d : Declaration) :
    let r : Resolver := ⟨tree.sources, catalogue⟩
    ∃ resolution, (r.resolveIn top base d).run State.idle = (resolution, State.idle) ∧
      r.Leads (.start base d) ⟨[], [], resolution.issues⟩ ∧
      ∀ now, r.Leads (.start base d) now →
        r.Sound now ∧ now.active.length ≤ tree.extent.dedup.length ∧
        ∀ place kind reference rest, now.tasks = .resolve place (.used kind reference) :: rest →
          (∀ origin path, r.step now = now.refuse rest (.includeCycle origin path) ↔
            Sources.locate place reference.path ∈ now.active ∧ origin = reference.origin ∧
              path = (Sources.locate place reference.path).text) ∧
          ∀ inherited, ∃ new, r.Answers inherited now.active place reference kind new ∧
            r.Leads now ⟨rest, now.active, now.issues ++ new⟩ := by
  intro r
  obtain ⟨resolution, run, comes⟩ := r.run_resolveIn top base d
  obtain ⟨value, issues, yields, becomes⟩ := r.becomes_declaration top base d
  have same := (yields.unique comes).2
  have ends : r.Leads (.start base d) ⟨[], [], resolution.issues⟩ := same ▸ becomes.leads [] []
  refine ⟨resolution, run, ends, ?_⟩
  intro now reached
  have sound : r.Sound now := reached.sound (sound_start r base d)
  refine ⟨sound, sound.length_le, ?_⟩
  intro place kind reference rest first
  constructor
  · intro origin path
    rw [step, first]
    exact stepBehind_eq_cycle_iff
  · intro inherited
    have other : kind ≠ .plan := by
      rintro rfl
      exact sound.named place reference (first ▸ List.mem_cons_self)
    have answers := r.exists_answers sound.stacked inherited other place reference rest now.issues
    rw [← first] at answers
    exact answers

end Resolver

end Compliance
