import Compliance.Proofs.Gathering.Trail
import Mathlib.Logic.Function.Iterate

/-!
# A walk with a stack

The walk of gathering, with a stack of frames in place of recursion: a frame is one
statement to be visited, on a resource and below a path.  What a visit uncovers is put on
top of the stack, the last first, so that the first is visited next.  A circle of
associations is no obstacle, since each visit goes one level down in a statement: the
stack runs empty, and what is seen until then is what is seen of the recursive walk.

## Main definitions

* `Walk.Frame`, `Walk.visit` — a statement to be visited, and the stack behind a visit.
* `Walk.Stage`, `Walk.step` — a moment of the walk, and the next one.
* `Walk.Leads` — some steps lead from one moment to another.
* `Walk.leads_statements` — statements on the stack are visited as by recursion.
-/

namespace Compliance

namespace Walk

variable {α β : Type}

/-! ## Frames -/

/-- A statement to be visited below a path of nested properties of a resource. -/
structure Frame where
  base : Resource
  path : List String
  statement : Statement

/-- The frames of some statements, in order. -/
def Frame.ofStatements (base : Resource) (path : List String) (statements : List Statement) :
    List Frame :=
  statements.map fun s => ⟨base, path, s⟩

/-- A stack with some frames put on top of it, one after the other. -/
def push (stack frames : List Frame) : List Frame := frames.foldl (fun stack f => f :: stack) stack

/-- Of frames that are put on a stack backwards the first comes to lie on top. -/
theorem push_reverse (stack frames : List Frame) : push stack frames.reverse = frames ++ stack := by
  simp [push]

/-- Looks up targets one after the other and collects those that exist. -/
def collect (registry : Registry) (rule : String) (base : ResourceRef) (found : List Resource) :
    List ResourceRef → Walk (List Resource)
  | [] => return found
  | target :: more => do
    match ← lookup registry target with
    | some resource => collect registry rule base (found ++ [resource]) more
    | none =>
      see (.note (.targetMissing rule base target))
      collect registry rule base found more

/-- Visits a frame that was on top of a stack, and hands back the stack with what it uncovers. -/
def visit (registry : Registry) (rule : String) (frame : Frame) (stack : List Frame) :
    Walk (List Frame) :=
  match frame.statement with
  | .property _ _ => return stack
  | .entry _ _ _ => return stack
  | .nested name children =>
    return push stack (Frame.ofStatements frame.base (frame.path ++ [name]) children).reverse
  | .association name children =>
    match frame.base.attributes.association? frame.path name with
    | none => do
      see (.note (.associationNotFound rule frame.base.ref (Gathering.dotted frame.path name)))
      return stack
    | some refs => do
      let found ← collect registry rule frame.base.ref [] refs
      return found.reverse.foldl
        (fun stack target => push stack (Frame.ofStatements target [] children).reverse) stack

/-! ## Stages -/

/-- A moment of a walk. -/
inductive Stage where
  /-- Of the resources of the rule some are waiting, and frames behind the one before them are
  still to be visited. -/
  | walking (resources waiting : List Resource) (stack : List Frame) (trail : Trail)
  /-- The walk has ended. -/
  | ended (answer : Answer (List Resource)) (trail : Trail)

/-- The moment behind part of a walk: it goes on with what that part hands back, and ends with a
fault. -/
def Stage.behind (outcome : Answer α × Trail) (next : α → Trail → Stage) : Stage :=
  match outcome with
  | (.ok a, trail) => next a trail
  | (.error fault, trail) => .ended (.error fault) trail

/-- The first moment of a walk: the resources of the rule are listed. -/
def Stage.start (registry : Registry) (r : Resolved.Rule) (session : Session) : Stage :=
  .behind ((list registry r.target).outcome ⟨session, []⟩) fun resources trail =>
    .walking resources resources [] trail

/-- The next moment of a walk: the frame on top is visited; if there is none, the next resource is
taken up, with the assertions of the rule below its conditions.  Behind the end nothing changes. -/
def step (registry : Registry) (r : Resolved.Rule) : Stage → Stage
  | .walking resources waiting (frame :: stack) trail =>
    .behind ((visit registry r.name frame stack).outcome trail) fun stack trail =>
      .walking resources waiting stack trail
  | .walking resources (base :: waiting) [] trail =>
    .walking resources waiting
      (push (push [] (Frame.ofStatements base [] r.assertions).reverse)
        (Frame.ofStatements base [] r.conditions).reverse) trail
  | .walking resources [] [] trail => .ended (.ok resources) trail
  | .ended answer trail => .ended answer trail

variable {registry : Registry} {r : Resolved.Rule}

theorem Stage.behind_bind (w : Walk α) (k : α → Walk β) (trail : Trail)
    (next : β → Trail → Stage) :
    behind ((w >>= k).outcome trail) next =
      behind (w.outcome trail) fun a trail => behind ((k a).outcome trail) next := by
  rw [outcome_bind]
  rcases w.outcome trail with ⟨fault | a, trail⟩ <;> rfl

/-- Some steps lead from one moment to another. -/
def Leads (registry : Registry) (r : Resolved.Rule) (s t : Stage) : Prop :=
  ∃ n, (step registry r)^[n] s = t

theorem Leads.refl (s : Stage) : Leads registry r s s := ⟨0, rfl⟩

theorem Leads.cons {s t : Stage} (h : Leads registry r (step registry r s) t) :
    Leads registry r s t := by
  obtain ⟨n, rfl⟩ := h
  exact ⟨n + 1, rfl⟩

theorem Leads.trans {s t u : Stage} (h : Leads registry r s t) (h' : Leads registry r t u) :
    Leads registry r s u := by
  obtain ⟨m, rfl⟩ := h
  obtain ⟨n, rfl⟩ := h'
  exact ⟨n + m, Function.iterate_add_apply ..⟩

/-- What is reached behind a part that ends well may be gone on from. -/
theorem Leads.behind {s : Stage} {outcome : Answer α × Trail} {next next' : α → Trail → Stage}
    (h : Leads registry r s (.behind outcome next))
    (go : ∀ a trail, Leads registry r (next a trail) (next' a trail)) :
    Leads registry r s (.behind outcome next') := by
  rcases outcome with ⟨fault | a, trail⟩
  · exact h
  · exact h.trans (go a trail)

/-! ## As by recursion -/

theorem collect_eq (rule : String) (base : ResourceRef) (found : List Resource)
    (refs : List ResourceRef) :
    collect registry rule base found refs =
      (found ++ ·) <$> targets registry rule base refs := by
  induction refs generalizing found with
  | nil => simp [collect, targets]
  | cons target more ih =>
    simp only [collect, targets, map_bind]
    congr 1
    funext answer
    cases answer with
    | some resource => simp [ih]
    | none => simp [ih]

/-- The frames of some found resources come to lie on a stack in order. -/
theorem push_each (found : List Resource) (children : List Statement) (stack : List Frame) :
    found.reverse.foldl
      (fun stack target => push stack (Frame.ofStatements target [] children).reverse) stack =
      found.flatMap (Frame.ofStatements · [] children) ++ stack := by
  induction found with
  | nil => rfl
  | cons target more ih =>
    rw [List.reverse_cons, List.foldl_append, ih]
    simp [push_reverse]

/-- Of an association all targets are looked up, and then come to lie on the stack in order. -/
theorem visit_association (base : Resource) (path : List String) (name : String)
    (children : List Statement) {refs : List ResourceRef} (stack : List Frame)
    (h : base.attributes.association? path name = some refs) :
    visit registry r.name ⟨base, path, .association name children⟩ stack = do
      let found ← targets registry r.name base.ref refs
      return found.flatMap (Frame.ofStatements · [] children) ++ stack := by
  simp only [visit, h, collect_eq, bind_map_left, push_each, List.nil_append]

/-- If the statements of each of some resources are visited as by recursion, so are those of all. -/
theorem leads_each {resources waiting : List Resource} {children : List Statement}
    (visited : ∀ target stack trail, Leads registry r
      (.walking resources waiting (Frame.ofStatements target [] children ++ stack) trail)
      (.behind ((statements registry r.name target [] children).outcome trail) fun _ trail =>
        .walking resources waiting stack trail))
    (found : List Resource) (stack : List Frame) (trail : Trail) : Leads registry r
      (.walking resources waiting (found.flatMap (Frame.ofStatements · [] children) ++ stack) trail)
      (.behind ((each (fun target => statements registry r.name target [] children) found).outcome
        trail) fun _ trail => .walking resources waiting stack trail) := by
  induction found generalizing trail with
  | nil => exact .refl _
  | cons target more ih =>
    rw [List.flatMap_cons, List.append_assoc, each, Stage.behind_bind]
    exact (visited target _ trail).behind fun _ trail => ih trail

mutual

/-- A statement on top of the stack is visited as by recursion, with all that it uncovers, before
what lies below it. -/
theorem leads_statement (resources waiting : List Resource) (base : Resource)
    (path : List String) : ∀ (s : Statement) (stack : List Frame) (trail : Trail),
    Leads registry r (.walking resources waiting (⟨base, path, s⟩ :: stack) trail)
      (.behind ((statement registry r.name base path s).outcome trail) fun _ trail =>
        .walking resources waiting stack trail)
  | .property _ _, _, _ => .cons (.refl _)
  | .entry _ _ _, _, _ => .cons (.refl _)
  | .nested name children, stack, trail => by
    apply Leads.cons
    rw [statement]
    have uncovered := leads_statements resources waiting base (path ++ [name]) children stack trail
    rwa [← push_reverse] at uncovered
  | .association name children, stack, trail => by
    apply Leads.cons
    rw [statement, step]
    cases h : base.attributes.association? path name with
    | none =>
      rw [visit]
      simp only [h]
      exact .refl _
    | some refs =>
      rw [visit_association base path name children stack h, Stage.behind_bind, Stage.behind_bind]
      exact (Leads.refl _).behind fun found trail => leads_each
        (fun target stack trail =>
          leads_statements resources waiting target [] children stack trail)
        found stack trail

/-- **Statements on top of the stack are visited as by recursion**: in order, each with all that it
uncovers before the next, and all of them before what lies below. -/
theorem leads_statements (resources waiting : List Resource) (base : Resource)
    (path : List String) : ∀ (ss : List Statement) (stack : List Frame) (trail : Trail),
    Leads registry r
      (.walking resources waiting (Frame.ofStatements base path ss ++ stack) trail)
      (.behind ((statements registry r.name base path ss).outcome trail) fun _ trail =>
        .walking resources waiting stack trail)
  | [], _, _ => .refl _
  | s :: more, stack, trail => by
    rw [statements, Stage.behind_bind]
    exact (leads_statement resources waiting base path s _ trail).behind fun _ trail =>
      leads_statements resources waiting base path more stack trail

end

/-- The resources that are waiting are visited as by recursion. -/
theorem leads_resources (resources waiting : List Resource) (trail : Trail) : Leads registry r
    (.walking resources waiting [] trail)
    (.behind ((each (resource registry r) waiting).outcome trail) fun _ trail =>
      .walking resources [] [] trail) := by
  induction waiting generalizing trail with
  | nil => exact .refl _
  | cons base waiting ih =>
    apply Leads.cons
    rw [step, push_reverse, push_reverse, each, resource, Stage.behind_bind, Stage.behind_bind]
    have conditions : Leads registry r _ _ := leads_statements resources waiting base []
      r.conditions (Frame.ofStatements base [] r.assertions ++ []) trail
    refine conditions.behind fun _ trail => ?_
    have assertions : Leads registry r _ _ := leads_statements resources waiting base []
      r.assertions [] trail
    exact assertions.behind fun _ trail => ih trail

/-! ## The whole walk -/

/-- The walk with a stack ends with what the recursive walk hands back and sees. -/
theorem leads_start (registry : Registry) (r : Resolved.Rule) (session : Session) :
    Leads registry r (.start registry r session)
      (.ended ((rule registry r).outcome ⟨session, []⟩).1
        ((rule registry r).outcome ⟨session, []⟩).2) := by
  have ended : ∀ outcome : Answer (List Resource) × Trail,
      Stage.behind outcome (fun resources trail => .ended (.ok resources) trail) =
        .ended outcome.1 outcome.2 := by
    rintro ⟨fault | resources, trail⟩ <;> rfl
  rw [← ended, rule, Stage.behind_bind]
  refine (Leads.refl (Stage.start registry r session)).behind fun resources trail => ?_
  rw [Stage.behind_bind]
  exact (leads_resources resources resources trail).behind fun _ _ => .cons (.refl _)

theorem iterate_step_ended (n : Nat) (answer : Answer (List Resource)) (trail : Trail) :
    (step registry r)^[n] (.ended answer trail) = .ended answer trail :=
  Function.iterate_fixed rfl n

/-- **The walk with a stack is the recursive walk, and it ends**, whatever refers to what: from some
step on it stands at its end, with the events that are seen of the recursive walk in the same order
and the same answer, a fault if a provider has failed.  Gathering leaves the same session, and hands
back the resources with the notes among these events, or the same fault. -/
theorem stack_walk_ends (registry : Registry) (r : Resolved.Rule) (session : Session) :
    ∃ answer trail, (rule registry r).outcome ⟨session, []⟩ = (answer, trail) ∧
      (∃ n, ∀ m, n ≤ m → (step registry r)^[m] (.start registry r session) = .ended answer trail) ∧
      (Gathering.rule registry r).outcome session =
        (answer.map fun resources => ⟨resources, Event.notes trail.events⟩, trail.session) := by
  refine ⟨_, _, (Prod.eta _).symm, ?_, outcome_gathering registry r session⟩
  obtain ⟨n, reached⟩ := leads_start registry r session
  refine ⟨n, fun m later => ?_⟩
  obtain ⟨k, rfl⟩ := Nat.exists_eq_add_of_le' later
  rw [Function.iterate_add_apply, reached, iterate_step_ended]

end Walk

end Compliance
