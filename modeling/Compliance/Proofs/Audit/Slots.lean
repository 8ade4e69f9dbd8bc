import Compliance.Audit.Crew
import Compliance.Proofs.Store.History
import Compliance.Proofs.Verdict.Meaning

/-!
# Tasks that share a store

What the tasks of a crew do to the store and to the list of calls does not depend on
the rules they are for: a question is opened by a call, and filled once by the task
that called; between the two it is pending, and no other task touches it.

## Main definitions

* `Phase.Steps` — what a task can do in a step, case by case.
* `Slots` — what a step does to the questions of the task and to the session.
* `Audit.Ends`, `Session.LeftBy` — how a run ends, and the sessions that runs leave behind.
* `Session.asks_once` — every question is put once, and its first answer stays.
-/

namespace Compliance

/-! ## Steps of a task -/

/-- What the task for a rule can do in a step while some questions are pending. -/
inductive Phase.Steps (registry : Registry) (rule : Resolved.Rule) (pending : List Call)
    (s : Session) : Phase → Phase → Session → Prop
  /-- Nothing is left to be asked. -/
  | judge {gathered} :
      Steps registry rule pending s (.asking (.done gathered))
        (.done (Audit.reported rule s.store gathered)) s
  /-- No provider serves the type of a question. -/
  | unserved {call next fault} : registry.forType call.type = .error fault →
      Steps registry rule pending s (.asking (.ask call next)) (.asking (.done (.error fault))) s
  /-- The store has the answer. -/
  | told {call next provider answer} : registry.forType call.type = .ok provider →
      s.store.answerTo? call = some answer →
      Steps registry rule pending s (.asking (.ask call next)) (.asking (.onward next answer)) s
  /-- The provider is called. -/
  | call {call next provider} : registry.forType call.type = .ok provider →
      s.store.answerTo? call = none → call ∉ pending →
      Steps registry rule pending s (.asking (.ask call next))
        (.calling call (provider.answer s.calls call) next) { s with calls := s.calls ++ [call] }
  /-- A listing arrives. -/
  | listed {type resources next} :
      Steps registry rule pending s (.calling (.list type) (.ok resources) next)
        (.keeping type resources resources next) s
  /-- A listed resource is kept, or was answered before. -/
  | keep {type resources r left next} : .lookup r.ref ∉ pending →
      Steps registry rule pending s (.keeping type resources (r :: left) next)
        (.keeping type resources left next)
        { s with store := s.store.fill (.lookup r.ref) (.ok (some r)) }
  /-- A listed resource is passed over, since another task has called for it. -/
  | passOver {type resources r left next} : .lookup r.ref ∈ pending →
      Steps registry rule pending s (.keeping type resources (r :: left) next)
        (.keeping type resources left next) s
  /-- A resource arrives, or that there is none, or why not. -/
  | lookedUp {ref answer next} :
      Steps registry rule pending s (.calling (.lookup ref) answer next)
        (.asking (.onward next answer)) { s with store := s.store.fill (.lookup ref) answer }
  /-- There will be no listing. -/
  | failed {type fault next} :
      Steps registry rule pending s (.calling (.list type) (.error fault) next)
        (.asking (.done (.error fault)))
        { s with store := s.store.fill (.list type) (.error fault) }
  /-- All resources of a listing were gone through. -/
  | close {type resources next} :
      Steps registry rule pending s (.keeping type resources [] next)
        (.asking (next resources))
        { s with store := s.store.fill (.list type) (.ok resources) }

variable {registry : Registry} {rule : Resolved.Rule} {pending : List Call} {s s' : Session}
  {phase phase' : Phase}

theorem Phase.steps_of_step
    (h : phase.step registry rule pending s = some (phase', s')) :
    Phase.Steps registry rule pending s phase phase' s' := by
  cases phase with
  | asking rest =>
    cases rest with
    | done gathered =>
      obtain ⟨rfl, rfl⟩ := Prod.mk.inj (Option.some.inj h)
      exact .judge
    | ask call next =>
      simp only [step] at h
      split at h
      · next unserved =>
        obtain ⟨rfl, rfl⟩ := Prod.mk.inj (Option.some.inj h)
        exact .unserved unserved
      · next served =>
        split at h
        · next told =>
          obtain ⟨rfl, rfl⟩ := Prod.mk.inj (Option.some.inj h)
          exact .told served told
        · next unanswered =>
          split at h
          · cases h
          · next free =>
            obtain ⟨rfl, rfl⟩ := Prod.mk.inj (Option.some.inj h)
            exact .call served unanswered free
  | calling call answer next =>
    cases call with
    | lookup ref =>
      obtain ⟨rfl, rfl⟩ := Prod.mk.inj (Option.some.inj h)
      exact .lookedUp
    | list type =>
      cases answer <;> obtain ⟨rfl, rfl⟩ := Prod.mk.inj (Option.some.inj h)
      · exact .failed
      · exact .listed
  | keeping type resources left next =>
    cases left with
    | nil =>
      obtain ⟨rfl, rfl⟩ := Prod.mk.inj (Option.some.inj h)
      exact .close
    | cons r left =>
      obtain ⟨rfl, rfl⟩ := Prod.mk.inj (Option.some.inj h)
      split
      · next busy => exact .passOver busy
      · next free => exact .keep free
  | done report => cases h

/-! ## Questions of a task -/

/-- What a step of a task does to its own pending question and to the session, while some questions
are pending. -/
inductive Slots (pending : List Call) (s : Session) : Option Call → Option Call → Session → Prop
  /-- Nothing happens to questions. -/
  | quiet {own} : Slots pending s own own s
  /-- A question is put to a provider. -/
  | opened {call} : s.store.answerTo? call = none → call ∉ pending →
      Slots pending s none (some call) { s with calls := s.calls ++ [call] }
  /-- A resource that was listed is kept. -/
  | kept {own ref answer} : .lookup ref ∉ pending →
      Slots pending s own own { s with store := s.store.fill (.lookup ref) answer }
  /-- The question is answered. -/
  | filled {call answer} :
      Slots pending s (some call) none { s with store := s.store.fill call answer }

theorem Phase.Steps.slots (h : Phase.Steps registry rule pending s phase phase' s') :
    Slots pending s phase.pending? phase'.pending? s' := by
  cases h with
  | judge | unserved | told | listed | passOver => exact .quiet
  | call served unanswered free => exact .opened unanswered free
  | keep free => exact .kept free
  | lookedUp | failed | close => exact .filled

/-! ### Filling -/

namespace Store

/-- A question that is filled has its answer, if it had none. -/
theorem answerTo?_fill {store : Store} {call : Call} (fresh : store.answerTo? call = none)
    (answer : Answer call.Reply) : (store.fill call answer).answerTo? call = some answer := by
  cases call with
  | list type => simp [fill, answerTo?, listing?]
  | lookup ref =>
    simp only [answerTo?] at fresh
    simp [fill, answerTo?, fresh]

theorem answerTo?_fill_of_ne {store : Store} {call other : Call} (differ : other ≠ call)
    (answer : Answer call.Reply) :
    (store.fill call answer).answerTo? other = store.answerTo? other := by
  cases call with
  | list type =>
    cases other with
    | list other =>
      have differ' : (other == type) = false := by simpa using differ
      simp [fill, answerTo?, listing?, List.lookup_cons, differ']
    | lookup ref => rfl
  | lookup ref =>
    cases other with
    | list other => simp [fill, answerTo?, listing?]
    | lookup other =>
      have differ' : other ≠ ref := by simpa using differ
      simp [fill, answerTo?, differ']

theorem keptBy_fill {store : Store} {call : Call} (fresh : store.answerTo? call = none)
    (answer : Answer call.Reply) : store.KeptBy (store.fill call answer) := by
  refine keptBy_iff.mpr fun other known h => ?_
  by_cases same : other = call
  · subst same
    rw [fresh] at h
    cases h
  · rwa [answerTo?_fill_of_ne same]

end Store

/-! ### Order -/

/-- The order of pending questions does not matter. -/
theorem Session.Orderly.perm {other : List Call} (h : s.Orderly pending)
    (same : pending.Perm other) : s.Orderly other where
  apart := same.nodup h.apart
  unanswered call hm := h.unanswered call (same.mem_iff.mpr hm)
  once := h.once
  placed call asked := (h.placed call asked).imp_right same.mem_iff.mp

namespace Slots

variable {own own' : Option Call} {others : List Call}

theorem perm {other : List Call} (h : Slots pending s own own' s') (same : pending.Perm other) :
    Slots other s own own' s' := by
  cases h with
  | quiet => exact .quiet
  | opened fresh free => exact .opened fresh (free ∘ same.mem_iff.mpr)
  | kept free => exact .kept (free ∘ same.mem_iff.mpr)
  | filled => exact .filled

theorem keptBy (h : Slots pending s own own' s') (ho : s.Orderly pending)
    (mine : ∀ call ∈ own, call ∈ pending) : s.store.KeptBy s'.store := by
  cases h with
  | quiet => exact .refl _
  | opened => exact .refl _
  | kept => exact Store.keptBy_keep _ _ _
  | filled => exact Store.keptBy_fill (ho.unanswered _ (mine _ rfl)) _

/-- A question that is answered or pending stays so. -/
theorem placed (h : Slots (own.toList ++ others) s own own' s')
    (ho : s.Orderly (own.toList ++ others)) {call : Call}
    (hc : s.store.answerTo? call ≠ none ∨ call ∈ own.toList ++ others) :
    s'.store.answerTo? call ≠ none ∨ call ∈ own'.toList ++ others := by
  have kept := Store.keptBy_iff.mp (h.keptBy ho fun call hm => by simp [Option.mem_def.mp hm])
  rcases hc with answered | waiting
  · obtain ⟨answer, known⟩ := Option.ne_none_iff_exists'.mp answered
    exact .inl (by simp [kept call answer known])
  · cases h with
    | quiet | kept => exact .inr waiting
    | opened => exact .inr (List.mem_append_right _ waiting)
    | filled =>
      rcases List.mem_cons.mp waiting with rfl | other
      · have fresh := ho.unanswered _ (List.mem_cons_self ..)
        exact .inl (by simp [Store.answerTo?_fill fresh])
      · exact .inr other

/-- **A step of a task leaves the session in order.** -/
theorem orderly (h : Slots (own.toList ++ others) s own own' s')
    (ho : s.Orderly (own.toList ++ others)) : s'.Orderly (own'.toList ++ others) := by
  have placed (call : Call) (hc : s.store.answerTo? call ≠ none ∨ call ∈ own.toList ++ others) :=
    h.placed ho hc
  cases h with
  | quiet => exact ho
  | @opened call fresh free =>
    refine ⟨List.nodup_cons.mpr ⟨free, ho.apart⟩, ?_, ?_, ?_⟩
    · intro other hm
      rcases List.mem_cons.mp hm with rfl | hm
      · exact fresh
      · exact ho.unanswered other hm
    · refine List.nodup_append.mpr ⟨ho.once, by simp, fun asked before new hn => ?_⟩
      rintro rfl
      obtain rfl := List.mem_singleton.mp hn
      exact (ho.placed asked before).elim (absurd fresh) free
    · intro other asked
      rcases List.mem_append.mp asked with before | now
      · exact placed other (ho.placed other before)
      · exact .inr (List.mem_append_left _ (by simpa using now))
  | @kept _ ref answer free =>
    refine ⟨ho.apart, fun other hm => ?_, ho.once, fun other asked =>
      placed other (ho.placed other asked)⟩
    have differ : other ≠ .lookup ref := fun same => free (same ▸ hm)
    exact (Store.answerTo?_fill_of_ne differ answer).trans (ho.unanswered other hm)
  | @filled call answer =>
    obtain ⟨absent, apart⟩ := List.nodup_cons.mp ho.apart
    refine ⟨apart, fun other hm => ?_, ho.once, fun other asked =>
      placed other (ho.placed other asked)⟩
    have differ : other ≠ call := fun same => absent (same ▸ hm)
    exact (Store.answerTo?_fill_of_ne differ answer).trans
      (ho.unanswered other (List.mem_cons_of_mem _ hm))

end Slots

/-! ## Crews -/

namespace Crew

variable {crew crew' : Crew} {i : Nat} {schedule : List Nat}

/-- A step of a crew is one of its tasks, and the others stay as they are. -/
theorem steps_of_step (h : crew.step registry i = some crew') :
    ∃ before task after phase, crew.tasks = before ++ task :: after ∧
      task.phase.Steps registry task.rule crew.pending crew.session phase crew'.session ∧
      crew'.tasks = before ++ ⟨task.rule, phase⟩ :: after := by
  simp only [step, Option.bind_eq_bind, Option.bind_eq_some_iff] at h
  obtain ⟨task, ht, ⟨phase, session⟩, hp, h⟩ := h
  obtain rfl := Option.some.inj h
  obtain ⟨hi, rfl⟩ := List.getElem?_eq_some_iff.mp ht
  refine ⟨crew.tasks.take i, crew.tasks[i], crew.tasks.drop (i + 1), phase, ?_,
    Phase.steps_of_step hp, ?_⟩
  · simp
  · simp [List.set_eq_take_append_cons_drop, hi]

/-- The pending questions of a crew are that of a task and those of the others. -/
theorem pending_perm {before after : List Task} {task : Task}
    (h : crew.tasks = before ++ task :: after) : crew.pending.Perm
      (task.phase.pending?.toList ++ (before ++ after).filterMap (·.phase.pending?)) := by
  rw [pending, h, List.filterMap_append, List.filterMap_append, List.filterMap_cons]
  cases task.phase.pending? with
  | none => exact .refl _
  | some call => exact List.perm_middle

theorem slots_of_step (h : crew.step registry i = some crew') : ∃ own own' others,
    crew.pending.Perm (own.toList ++ others) ∧ crew'.pending.Perm (own'.toList ++ others) ∧
      Slots (own.toList ++ others) crew.session own own' crew'.session := by
  obtain ⟨before, task, after, phase, hb, steps, ha⟩ := steps_of_step h
  exact ⟨_, _, _, pending_perm hb, pending_perm ha, steps.slots.perm (pending_perm hb)⟩

/-- **A step of a crew leaves its session in order.** -/
theorem orderly_step (h : crew.step registry i = some crew')
    (ho : crew.session.Orderly crew.pending) : crew'.session.Orderly crew'.pending := by
  obtain ⟨own, own', others, hb, ha, slots⟩ := slots_of_step h
  exact (slots.orderly (ho.perm hb)).perm ha.symm

theorem keptBy_step (h : crew.step registry i = some crew')
    (ho : crew.session.Orderly crew.pending) : crew.session.store.KeptBy crew'.session.store := by
  obtain ⟨own, own', others, hb, -, slots⟩ := slots_of_step h
  exact slots.keptBy (ho.perm hb) fun call hm => by simp [Option.mem_def.mp hm]

theorem placed_step (h : crew.step registry i = some crew')
    (ho : crew.session.Orderly crew.pending) {call : Call}
    (hc : crew.session.store.answerTo? call ≠ none ∨ call ∈ crew.pending) :
    crew'.session.store.answerTo? call ≠ none ∨ call ∈ crew'.pending := by
  obtain ⟨own, own', others, hb, ha, slots⟩ := slots_of_step h
  exact (slots.placed (ho.perm hb) (hc.imp_right hb.mem_iff.mp)).imp_right ha.mem_iff.mpr

theorem run_induction {motive : Crew → Prop}
    (step : ∀ crew i crew', crew.step registry i = some crew' → motive crew → motive crew')
    (h : crew.run registry schedule = some crew') (hm : motive crew) : motive crew' := by
  induction schedule generalizing crew with
  | nil => exact Option.some.inj h ▸ hm
  | cons i more ih =>
    obtain ⟨next, hn, h⟩ := Option.bind_eq_some_iff.mp h
    exact ih h (step crew i next hn hm)

theorem orderly_run (h : crew.run registry schedule = some crew')
    (ho : crew.session.Orderly crew.pending) : crew'.session.Orderly crew'.pending :=
  run_induction (fun _ _ _ => orderly_step) h ho

/-- **Answers stay**, whatever the tasks do. -/
theorem keptBy_run (h : crew.run registry schedule = some crew')
    (ho : crew.session.Orderly crew.pending) : crew.session.store.KeptBy crew'.session.store := by
  refine (run_induction (motive := fun next => next.session.Orderly next.pending ∧
    crew.session.store.KeptBy next.session.store) ?_ h ⟨ho, .refl _⟩).2
  intro next i next' hs ⟨orderly, kept⟩
  exact ⟨orderly_step hs orderly, kept.trans (keptBy_step hs orderly)⟩

@[simp] theorem pending_start (s : Session) (rules : List Resolved.Rule) :
    (start s rules).pending = [] := by
  simp [start, pending, Phase.pending?]

/-- A crew has reported if every task has, in the order of the tasks. -/
theorem report?_eq_some {report : RunReport} : crew.report? = some report ↔
    crew.tasks.map (·.phase.report?) = report.rules.map some := by
  have each : ∀ (tasks : List Task) (reports : List RuleReport),
      tasks.mapM (fun task => task.phase.report?) = some reports ↔
        tasks.map (·.phase.report?) = reports.map some := by
    intro tasks
    induction tasks with
    | nil =>
      intro reports
      cases reports <;> simp
    | cons task more ih =>
      rintro (_ | ⟨first, others⟩) <;>
        simp [List.mapM_cons, Option.bind_eq_some_iff, ih]
  obtain ⟨reports⟩ := report
  simp [report?, Option.map_eq_some_iff, each]

theorem exists_done {report : RunReport} (h : crew.report? = some report) {task : Task}
    (hm : task ∈ crew.tasks) : ∃ own, task.phase = .done own := by
  have reported := List.mem_map_of_mem (f := (·.phase.report?)) hm
  rw [report?_eq_some.mp h, List.mem_map] at reported
  obtain ⟨own, -, done⟩ := reported
  cases hp : task.phase <;> simp [hp, Phase.report?] at done ⊢

theorem pending_of_report {report : RunReport} (h : crew.report? = some report) :
    crew.pending = [] := by
  refine List.filterMap_eq_nil_iff.mpr fun task hm => ?_
  obtain ⟨own, done⟩ := exists_done h hm
  simp [done, Phase.pending?]

/-! ### Nobody waits for ever -/

/-- Only a task that is done, or whose question another task has called for, has no step. -/
theorem done_or_waits (h : phase.step registry rule pending s = none) :
    phase.report?.isSome ∨ phase.pending? = none ∧ pending ≠ [] := by
  cases phase with
  | asking rest =>
    cases rest with
    | done gathered => cases h
    | ask call next =>
      simp only [Phase.step] at h
      refine .inr ⟨rfl, ?_⟩
      rintro rfl
      split at h
      · cases h
      · split at h <;> simp at h
  | calling call answer next => rcases call with type | ref <;> rcases answer with _ | _ <;> cases h
  | keeping type resources left next => cases left <;> cases h
  | done report => exact .inl rfl

/-- **Unless all tasks are done, one of them has a step.** -/
theorem exists_step (h : crew.report? = none) : ∃ i next, crew.step registry i = some next := by
  by_contra stuck
  have waits : ∀ task ∈ crew.tasks,
      task.phase.step registry task.rule crew.pending crew.session = none := by
    intro task hm
    obtain ⟨i, hi, rfl⟩ := List.mem_iff_getElem.mp hm
    by_contra steps
    obtain ⟨⟨phase, session⟩, hs⟩ := Option.ne_none_iff_exists'.mp steps
    exact stuck ⟨i, _, by simp only [step, List.getElem?_eq_getElem hi, Option.bind_eq_bind,
      Option.bind_some, hs]; rfl⟩
  have nothing : crew.pending = [] := by
    refine List.filterMap_eq_nil_iff.mpr fun task hm => ?_
    rcases done_or_waits (waits task hm) with done | ⟨none, -⟩
    · cases hp : task.phase <;> simp [hp, Phase.report?, Phase.pending?] at done ⊢
    · exact none
  have each : ∀ task ∈ crew.tasks, task.phase.report?.isSome := fun task hm =>
    (done_or_waits (waits task hm)).resolve_right fun w => w.2 nothing
  have all : crew.tasks.map (·.phase.report?) =
      (crew.tasks.filterMap (·.phase.report?)).map some := by
    rw [List.map_filterMap]
    refine (List.filterMap_eq_map_iff_forall_eq_some.mpr fun task hm => ?_).symm
    obtain ⟨own, done⟩ := Option.isSome_iff_exists.mp (each task hm)
    simp [done]
  have reported : crew.report? = some ⟨_⟩ := report?_eq_some.mpr all
  simp [reported] at h

end Crew

/-! ## Runs one after the other -/

theorem Registry.preserves_orderly (registry : Registry) :
    registry.Preserves fun s => s.Orderly [] where
  list type s h := by
    rw [Access.outcome_list]
    cases registry.forType type with
    | error fault => exact h
    | ok provider => exact h.ask provider (.list type)
  lookup ref s h := by
    rw [Access.outcome_lookup]
    cases registry.forType ref.type with
    | error fault => exact h
    | ok provider => exact h.ask provider (.lookup ref)

/-- Rules that are checked keep what the two operations keep. -/
theorem Audit.run_preserves {I : Session → Prop} (h : registry.Preserves I)
    (rules : List Resolved.Rule) {s : Session} (hs : I s) :
    I ((Audit.run registry rules).run s).2 := by
  change I ((Audit.checkAll registry rules).run s).2
  induction rules generalizing s with
  | nil => exact hs
  | cons rule more ih => exact ih (Gathering.rule_preserves h rule s hs)

/-- A run of rules ends with a report and leaves a session behind: either the rules are checked one
after the other, or each has a task, and the tasks take steps until all are done. -/
inductive Audit.Ends (registry : Registry) (s : Session) (rules : List Resolved.Rule) :
    RunReport → Session → Prop
  | inTurn : Ends registry s rules ((run registry rules).run s).1 ((run registry rules).run s).2
  | atOnce {schedule : List Nat} {crew : Crew} {report : RunReport} :
      (Crew.start s rules).run registry schedule = some crew → crew.report? = some report →
      Ends registry s rules report crew.session

/-- The sessions that runs one after the other leave behind. -/
inductive Session.LeftBy (registry : Registry) : Session → Prop
  | start : LeftBy registry .start
  | run {s t : Session} {rules : List Resolved.Rule} {report : RunReport} : LeftBy registry s →
      Audit.Ends registry s rules report t → LeftBy registry t

theorem Session.LeftBy.orderly (h : s.LeftBy registry) : s.Orderly [] := by
  induction h with
  | start => exact Session.orderly_start
  | run _ ends ih =>
    cases ends with
    | inTurn => exact Audit.run_preserves registry.preserves_orderly _ ih
    | atOnce hr hd =>
      have done := Crew.orderly_run hr (by rwa [Crew.pending_start])
      rwa [Crew.pending_of_report hd] at done

/-- **Every question is put once, and its first answer stays.**

Whatever is asked of a new store, in whichever order and of whichever providers, no call is made
twice.  A question that an earlier exchange tells the answer to is answered that way without a
call, and any other one is put to the provider.  So whoever asks again is told the same, a resource
that was listed is not looked up, and what can be read without asking is what was told first.

It is no different if the operations of several tasks overlap, in runs one after the other. -/
theorem Session.asks_once :
    (∀ requests : List (Provider × Call),
      let (history, s) := askAll requests start
      s.calls.Nodup ∧
      (∀ provider call, s.ask provider call = match history.answer? call with
        | some first => (first, s)
        | none => (provider.answer s.calls call,
            ⟨s.store.record call (provider.answer s.calls call), s.calls ++ [call]⟩)) ∧
      (∀ call answer, ⟨call, answer⟩ ∈ history → ∀ provider, s.ask provider call = (answer, s)) ∧
      (∀ type resources, ⟨.list type, .ok resources⟩ ∈ history → ∀ r ∈ resources,
        ∀ provider, (s.ask provider (.lookup r.ref)).2 = s) ∧
      ∀ ref r, s.store.cached? ref = some r ↔
        history.answer? (.lookup ref) = some (.ok (some r))) ∧
    ∀ (registry : Registry) (s : Session), s.LeftBy registry →
      ∀ rules schedule crew, (Crew.start s rules).run registry schedule = some crew →
        crew.session.calls.Nodup ∧
        ∀ further later, crew.run registry further = some later →
          crew.session.store.KeptBy later.session.store := by
  constructor
  · intro requests
    have reflects := reflects_start.askAll requests
    rw [List.nil_append] at reflects
    refine ⟨(orderly_start.askAll requests).once, fun provider call => ?_, ?_, ?_, fun ref r => ?_⟩
    · have asked := Session.ask_eq provider call (askAll requests start).2
      rw [reflects.first] at asked
      exact asked
    · exact fun call answer he => reflects.ask_of_told (reflects.returned ⟨call, answer⟩ he)
    · exact fun type resources listed r hr => reflects.ask_listed listed hr
    · rw [← reflects.first]
      exact Store.cached?_eq_some
  · intro registry s left rules schedule crew hr
    have orderly := Crew.orderly_run hr (by rw [Crew.pending_start]; exact left.orderly)
    exact ⟨orderly.once, fun further later hl => Crew.keptBy_run hl orderly⟩

end Compliance
