import Compliance.Proofs.Access

/-!
# What is seen of a walk

Gathering hands back the resources of a rule and the notes on them, and nothing of either
if a provider fails on the way.  Here it is told step by step: which resources are looked
up, and which notes are made between, up to the end or to the first fault.  The walk is
the recursive one, depth first; what gathering hands back is what this walk comes to.

## Main definitions

* `Event`, `Trail` — what is seen of a walk, and the session that it leaves.
* `Walk` — what leaves a trail, and ends at the first fault.
* `Walk.statement`, `Walk.rule` — the recursive walk.
* `Walk.Shows registry w x R` — `x` does without a trail what `w` does.
* `Walk.rule_shows` — gathering is the walk without its trail.
-/

namespace Compliance

/-- What is seen of a walk. -/
inductive Event where
  /-- All resources of a type are asked for. -/
  | listing (type : TypeRef)
  /-- A resource is looked up. -/
  | lookup (ref : ResourceRef)
  /-- Something is left out. -/
  | note (note : Note)
deriving DecidableEq

/-- The notes among events, in order. -/
def Event.notes (events : List Event) : List Note :=
  events.filterMap fun | .note n => some n | _ => none

@[simp] theorem Event.notes_append (events events' : List Event) :
    Event.notes (events ++ events') = Event.notes events ++ Event.notes events' :=
  List.filterMap_append

/-- A session, and what has been seen up to it. -/
structure Trail where
  session : Session
  events : List Event

/-- What leaves a trail, and ends at the first fault of a provider. -/
abbrev Walk (α : Type) := ExceptT ProviderFault (StateM Trail) α

namespace Walk

variable {α β γ δ : Type}

/-! ## Walks -/

/-- Lets something be seen. -/
def see (event : Event) : Walk Unit :=
  modify fun trail => { trail with events := trail.events ++ [event] }

/-- Asks by way of the session. -/
def ask (act : Session → Answer α × Session) : Walk α := ExceptT.mk fun trail =>
  ((act trail.session).1, { trail with session := (act trail.session).2 })

/-- All resources of a type, from the provider that serves it. -/
def list (registry : Registry) (type : TypeRef) : Walk (List Resource) := do
  let provider ← ExceptT.mk (pure (registry.forType type))
  see (.listing type)
  ask (Session.list provider type)

/-- The resource of a name, from the provider that serves its type. -/
def lookup (registry : Registry) (ref : ResourceRef) : Walk (Option Resource) := do
  let provider ← ExceptT.mk (pure (registry.forType ref.type))
  see (.lookup ref)
  ask (Session.lookup provider ref)

/-- Looks up the targets of an association one after the other, those that do not exist noted. -/
def targets (registry : Registry) (rule : String) (base : ResourceRef) :
    List ResourceRef → Walk (List Resource)
  | [] => return []
  | target :: more => do
    match ← lookup registry target with
    | some resource => return resource :: (← targets registry rule base more)
    | none =>
      see (.note (.targetMissing rule base target))
      targets registry rule base more

/-- Visits some resources one after the other. -/
def each (visit : Resource → Walk Unit) : List Resource → Walk Unit
  | [] => return
  | resource :: more => do
    visit resource
    each visit more

mutual

/-- Visits a statement below a path of nested properties of a resource.  An association first looks
up all its targets, and then visits its children on each of those found. -/
def statement (registry : Registry) (rule : String) (base : Resource) (path : List String) :
    Statement → Walk Unit
  | .property _ _ => return
  | .entry _ _ _ => return
  | .nested name children => statements registry rule base (path ++ [name]) children
  | .association name children =>
    match base.attributes.association? path name with
    | none => see (.note (.associationNotFound rule base.ref (Gathering.dotted path name)))
    | some refs => do
      let found ← targets registry rule base.ref refs
      each (fun target => statements registry rule target [] children) found

/-- Visits statements in order, each before the next. -/
def statements (registry : Registry) (rule : String) (base : Resource) (path : List String) :
    List Statement → Walk Unit
  | [] => return
  | s :: more => do
    statement registry rule base path s
    statements registry rule base path more

end

/-- Visits the conditions of a rule on a resource, then its assertions. -/
def resource (registry : Registry) (r : Resolved.Rule) (base : Resource) : Walk Unit := do
  statements registry r.name base [] r.conditions
  statements registry r.name base [] r.assertions

/-- Visits the statements of a rule on each resource of its type, which are handed back. -/
def rule (registry : Registry) (r : Resolved.Rule) : Walk (List Resource) := do
  let resources ← list registry r.target
  each (resource registry r) resources
  return resources

/-! ## Outcomes -/

/-- How a walk ends behind a trail, and the trail that it leaves. -/
def outcome (w : Walk α) (trail : Trail) : Answer α × Trail := w.run.run trail

/-- Going on behind a walk that ended well, and ending with one that did not. -/
theorem outcome_bind (w : Walk α) (k : α → Walk β) (trail : Trail) :
    (w >>= k).outcome trail = match w.outcome trail with
      | (.ok a, trail) => (k a).outcome trail
      | (.error fault, trail) => (.error fault, trail) := by
  change ExceptT.bindCont k (w.outcome trail).1 (w.outcome trail).2 = _
  rcases w.outcome trail with ⟨fault | a, trail⟩ <;> rfl

/-! ## Without a trail -/

/-- Two answers are the same fault, or results between which `R` holds. -/
inductive Alike (R : α → β → Prop) : Answer α → Answer β → Prop
  | ok {a b} : R a b → Alike R (.ok a) (.ok b)
  | error (fault) : Alike R (.error fault) (.error fault)

theorem Alike.of_eq {R : α → α → Prop} {answer : Answer α} (h : ∀ a, R a a) :
    Alike R answer answer := by
  cases answer with
  | ok a => exact .ok (h a)
  | error fault => exact .error fault

/-- A walk does to the session what an inquiry does that is asked at once, and the two end alike.
Where both end well `R` holds of the result of the walk, the notes that it makes, and the result of
the inquiry. -/
def Shows (registry : Registry) (w : Walk α) (x : Inquiry β) (R : α → List Note → β → Prop) :
    Prop :=
  ∀ trail, ∃ new, (w.outcome trail).2.events = trail.events ++ new ∧
    ((x.access registry).outcome trail.session).2 = (w.outcome trail).2.session ∧
    Alike (R · (Event.notes new) ·) (w.outcome trail).1
      ((x.access registry).outcome trail.session).1

variable {registry : Registry} {w : Walk α} {x : Inquiry β} {R : α → List Note → β → Prop}

theorem Shows.pure {a : α} {b : β} (h : R a [] b) :
    Shows registry (Pure.pure a : Walk α) (Pure.pure b) R :=
  fun _ => ⟨[], (List.append_nil _).symm, rfl, .ok h⟩

theorem Shows.bind {k : α → Walk γ} {l : β → Inquiry δ} {S : γ → List Note → δ → Prop}
    (h : Shows registry w x R) (hk : ∀ a notes b, R a notes b →
      Shows registry (k a) (l b) fun c more d => S c (notes ++ more) d) :
    Shows registry (w >>= k) (x >>= l) S := by
  intro trail
  obtain ⟨new, events, session, ends⟩ := h trail
  rw [outcome_bind, Inquiry.access_bind, Access.outcome_bind]
  generalize w.outcome trail = walked at events session ends ⊢
  generalize (x.access registry).outcome trail.session = done at session ends ⊢
  obtain ⟨answer, trail'⟩ := walked
  obtain ⟨answer', session'⟩ := done
  obtain rfl : session' = trail'.session := session
  cases ends with
  | error fault => exact ⟨new, events, rfl, .error fault⟩
  | ok hr =>
    obtain ⟨more, events', session, ends⟩ := hk _ _ _ hr trail'
    refine ⟨new ++ more, ?_, session, ?_⟩
    · rw [events', events, List.append_assoc]
    · rwa [Event.notes_append]

/-- An inquiry may put its result into another one at the end. -/
theorem Shows.result {f : β → γ} {S : α → List Note → γ → Prop} (h : Shows registry w x R)
    (less : ∀ a notes b, R a notes b → S a notes (f b)) :
    Shows registry w (x >>= fun b => Pure.pure (f b)) S := by
  have bound : Shows registry (w >>= Pure.pure) (x >>= fun b => Pure.pure (f b)) S :=
    h.bind fun a notes b hr => .pure (by rw [List.append_nil]; exact less a notes b hr)
  rwa [bind_pure] at bound

theorem Shows.note {note : Note} {b : β} {R : Unit → List Note → β → Prop} (h : R () [note] b) :
    Shows registry (see (.note note)) (Pure.pure b) R :=
  fun _ => ⟨[.note note], rfl, rfl, .ok h⟩

/-- What is noted first comes before the other notes. -/
theorem Shows.noted {note : Note} {S : α → List Note → β → Prop}
    (h : Shows registry w x fun a notes b => S a (note :: notes) b) :
    Shows registry (see (.note note) >>= fun _ => w) x S := by
  have first : Shows registry (see (.note note)) (Pure.pure ()) fun _ notes _ => notes = [note] :=
    .note rfl
  have bound : Shows registry (see (.note note) >>= fun _ => w) (Pure.pure () >>= fun _ => x) S :=
    first.bind fun _ notes _ same => by
      rw [same]
      exact h
  exact bound

theorem outcome_list (registry : Registry) (type : TypeRef) (trail : Trail) :
    (list registry type).outcome trail = match registry.forType type with
      | .ok provider => ((Session.list provider type trail.session).1,
          ⟨(Session.list provider type trail.session).2, trail.events ++ [.listing type]⟩)
      | .error fault => (.error fault, trail) := by
  rw [list, outcome_bind]
  cases registry.forType type <;> rfl

theorem outcome_lookup (registry : Registry) (ref : ResourceRef) (trail : Trail) :
    (lookup registry ref).outcome trail = match registry.forType ref.type with
      | .ok provider => ((Session.lookup provider ref trail.session).1,
          ⟨(Session.lookup provider ref trail.session).2, trail.events ++ [.lookup ref]⟩)
      | .error fault => (.error fault, trail) := by
  rw [lookup, outcome_bind]
  cases registry.forType ref.type <;> rfl

theorem shows_list (registry : Registry) (type : TypeRef) :
    Shows registry (list registry type) (.list type) fun a notes b => notes = [] ∧ a = b := by
  intro trail
  rw [Inquiry.access_list, Access.outcome_list, outcome_list]
  cases registry.forType type with
  | error fault => exact ⟨[], (List.append_nil _).symm, rfl, .error fault⟩
  | ok provider => exact ⟨[.listing type], rfl, rfl, .of_eq fun _ => ⟨rfl, rfl⟩⟩

theorem shows_lookup (registry : Registry) (ref : ResourceRef) :
    Shows registry (lookup registry ref) (.lookup ref) fun a notes b => notes = [] ∧ a = b := by
  intro trail
  rw [Inquiry.access_lookup, Access.outcome_lookup, outcome_lookup]
  cases registry.forType ref.type with
  | error fault => exact ⟨[], (List.append_nil _).symm, rfl, .error fault⟩
  | ok provider => exact ⟨[.lookup ref], rfl, rfl, .of_eq fun _ => ⟨rfl, rfl⟩⟩

/-! ## Gathering without a trail -/

theorem targets_shows (rule : String) (base : ResourceRef) (refs : List ResourceRef) :
    Shows registry (targets registry rule base refs) (.targets rule base refs)
      fun found notes b => b = (found, notes) := by
  induction refs with
  | nil => exact .pure rfl
  | cons target more ih =>
    refine (shows_lookup registry target).bind fun answer _ _ => ?_
    rintro ⟨rfl, rfl⟩
    cases answer with
    | some resource =>
      refine ih.bind fun found notes _ => ?_
      rintro rfl
      exact .pure (by simp)
    | none => exact .noted (ih.result fun found notes _ same => by rw [same]; rfl)

theorem each_shows {visit : Resource → Walk Unit} {gather : Resource → Inquiry (List Note)}
    (h : ∀ resource, Shows registry (visit resource) (gather resource) fun _ notes b => b = notes)
    (resources : List Resource) :
    Shows registry (each visit resources) (.each gather resources) fun _ notes b => b = notes := by
  induction resources with
  | nil => exact .pure rfl
  | cons resource more ih =>
    refine (h resource).bind fun _ first _ same => ih.result fun _ others _ same' => ?_
    rw [same, same']

mutual

theorem statement_shows (rule : String) (base : Resource) (path : List String) :
    ∀ s : Statement, Shows registry (statement registry rule base path s)
      (.statement rule base path s) fun _ notes b => b = notes
  | .property _ _ => .pure rfl
  | .entry _ _ _ => .pure rfl
  | .nested name children => by
    rw [statement, Inquiry.statement]
    exact statements_shows rule base (path ++ [name]) children
  | .association name children => by
    rw [statement, Inquiry.statement]
    cases base.attributes.association? path name with
    | none => exact .note rfl
    | some refs =>
      refine (targets_shows rule base.ref refs).bind fun found missing _ same => ?_
      have below := each_shows
        (fun target => statements_shows rule target [] children) found
      subst same
      exact below.result fun _ _ _ same => by rw [same]

theorem statements_shows (rule : String) (base : Resource) (path : List String) :
    ∀ ss : List Statement, Shows registry (statements registry rule base path ss)
      (.statements rule base path ss) fun _ notes b => b = notes
  | [] => .pure rfl
  | s :: more => by
    rw [statements, Inquiry.statements]
    refine (statement_shows rule base path s).bind fun _ first _ same => ?_
    refine (statements_shows rule base path more).result fun _ others _ same' => ?_
    rw [same, same']

end

theorem resource_shows (r : Resolved.Rule) (base : Resource) :
    Shows registry (resource registry r base) (.resource r base) fun _ notes b => b = notes := by
  refine (statements_shows r.name base [] r.conditions).bind fun _ conditions _ same => ?_
  refine (statements_shows r.name base [] r.assertions).result fun _ assertions _ same' => ?_
  rw [same, same']

/-- **Gathering is the walk without its trail**: it leaves the same session, and hands back the
resources of the rule and the notes that were seen, or the same fault. -/
theorem rule_shows (registry : Registry) (r : Resolved.Rule) :
    Shows registry (rule registry r) (.rule r)
      fun resources notes b => b = ⟨resources, notes⟩ := by
  refine (shows_list registry r.target).bind fun resources _ _ listed => ?_
  obtain ⟨rfl, rfl⟩ := listed
  refine (each_shows (resource_shows r) resources).bind fun _ notes _ same => .pure ?_
  rw [same, List.append_nil]
  rfl

/-- What gathering hands back and leaves, read off the walk. -/
theorem outcome_gathering (registry : Registry) (r : Resolved.Rule) (session : Session) :
    (Gathering.rule registry r).outcome session =
      (((rule registry r).outcome ⟨session, []⟩).1.map fun resources =>
          ⟨resources, Event.notes ((rule registry r).outcome ⟨session, []⟩).2.events⟩,
        ((rule registry r).outcome ⟨session, []⟩).2.session) := by
  obtain ⟨new, events, left, ends⟩ := rule_shows registry r ⟨session, []⟩
  generalize (rule registry r).outcome ⟨session, []⟩ = walked at events left ends ⊢
  rw [Gathering.rule]
  dsimp only at left ends
  generalize ((Inquiry.rule r).access registry).outcome session = gathered at left ends ⊢
  obtain ⟨answer, trail⟩ := walked
  obtain ⟨answer', session'⟩ := gathered
  obtain rfl : session' = trail.session := left
  obtain rfl : trail.events = new := events
  cases ends with
  | error fault => rfl
  | ok same => rw [same]; rfl

end Walk

end Compliance
