import Compliance.Proofs.Audit.Alone
import Compliance.Proofs.Audit.Slots

/-!
# Rules do not influence each other

The rules of a run share one store, and what one rule asked decides which calls
another one makes.  If the providers are steady it decides nothing else, also where
every rule has a task and the steps of the tasks come in any order: each task is on
the way to the report that its rule gets alone, whatever the others do meanwhile.

## Main definitions

* `Inquiry.Continues` — what is left to be asked leads to what comes of the rule.
* `Phase.Sound`, `Crew.Sound` — tasks are on the way to the reports of their rules.
* `Crew.costAll` — a bound on the steps that are left.
* `Audit.rules_independent` — rules in turn or at once are reported as if alone.
-/

namespace Compliance

variable {registry : Registry}

/-! ## Tasks on their way -/

variable {s : Session} {store after : Store} {pending : List Call} {r : Resolved.Rule}

/-- What is left to be asked for a rule leads to what comes of the rule, and whatever the rule asks
is answered by the store or still to be asked. -/
structure Inquiry.Continues (registry : Registry) (store : Store) (r : Resolved.Rule)
    (rest : Inquiry Gathered) : Prop where
  result : rest.result registry = (Inquiry.rule r).result registry
  asked : ∀ call ∈ (Inquiry.rule r).asked registry,
    store.answerTo? call ≠ none ∨ call ∈ rest.asked registry

namespace Inquiry.Continues

variable {rest : Inquiry Gathered} {call : Call} {next : call.Reply → Inquiry Gathered}

theorem start (r : Resolved.Rule) : Continues registry store r (Inquiry.rule r) where
  result := rfl
  asked _ h := .inr h

theorem mono (h : Continues registry store r rest) (kept : store.KeptBy after) :
    Continues registry after r rest where
  result := h.result
  asked call hc := (h.asked call hc).imp_left fun answered => by
    obtain ⟨answer, known⟩ := Option.ne_none_iff_exists'.mp answered
    simp [Store.keptBy_iff.mp kept call answer known]

/-- Behind a question, what is left is what follows its answer. -/
theorem onward (h : Continues registry store r (.ask call next)) {answer : Answer call.Reply}
    (ideal : registry.answer call = answer)
    (answered : answer.isOk → store.answerTo? call ≠ none) :
    Continues registry store r (.onward next answer) := by
  have result := h.result
  have asked := h.asked
  simp only [Inquiry.result, Inquiry.asked, ideal] at result asked
  cases answer with
  | error fault => exact ⟨result, asked⟩
  | ok reply =>
    refine ⟨result, fun other hc => ?_⟩
    rcases asked other hc with known | way
    · exact .inl known
    · rcases List.mem_cons.mp way with rfl | later
      · exact .inl (answered rfl)
      · exact .inr later

end Inquiry.Continues

/-- A task for a rule is on the way to the report that the rule gets alone. -/
inductive Phase.Sound (registry : Registry) (store : Store) (pending : List Call)
    (r : Resolved.Rule) : Phase → Prop
  | asking {rest} : rest.Continues registry store r → Sound registry store pending r (.asking rest)
  | calling {call answer next} : (Inquiry.ask call next).Continues registry store r →
      registry.answer call = answer → Sound registry store pending r (.calling call answer next)
  /-- The listed resources that were gone through are answered, or others have called for them. -/
  | keeping {type resources left next} (kept : List Resource) :
      (Inquiry.ask (.list type) next).Continues registry store r →
      registry.answer (.list type) = .ok resources → resources = kept ++ left →
      (∀ r ∈ kept, store.answerTo? (.lookup r.ref) ≠ none ∨ .lookup r.ref ∈ pending) →
      Sound registry store pending r (.keeping type resources left next)
  | done : Sound registry store pending r (.done (Audit.alone registry r))

namespace Phase.Sound

variable {phase phase' : Phase} {s' : Session} {pending' : List Call}

/-- What other tasks do does not lead a task astray. -/
theorem mono (h : Sound registry store pending r phase) (kept : store.KeptBy after)
    (placed : ∀ call, store.answerTo? call ≠ none ∨ call ∈ pending →
      after.answerTo? call ≠ none ∨ call ∈ pending') :
    Sound registry after pending' r phase := by
  cases h with
  | asking h => exact .asking (h.mono kept)
  | calling h ideal => exact .calling (h.mono kept) ideal
  | keeping gone h ideal all placed' =>
    exact .keeping gone (h.mono kept) ideal all fun r hr => placed _ (placed' r hr)
  | done => exact .done

end Phase.Sound

namespace Store.Agrees

/-- A resource that is kept leaves a store that agrees with the providers, unless it would be the
first answer for its name and a wrong one. -/
theorem keep (h : store.Agrees registry) {ref : ResourceRef} {answer : Answer (Option Resource)}
    (ideal : store.answer? ref = none → registry.answer (.lookup ref) = answer) :
    (store.keep ref answer).Agrees registry := by
  cases known : store.answer? ref with
  | some first =>
    have same : store.keep ref answer = store := by simp only [Store.keep, known]
    rwa [same]
  | none =>
    intro other told ho
    by_cases same : other = .lookup ref
    · subst same
      simp only [Store.answerTo?, Store.answer?_keep, known, if_true, Option.getD_none,
        Option.some.injEq] at ho
      exact (ideal known).trans ho
    · have differ : (store.fill (.lookup ref) answer).answerTo? other = store.answerTo? other :=
        Store.answerTo?_fill_of_ne same answer
      exact h other told (differ.symm.trans ho)

/-- An answer of the providers that is filled in leaves a store that agrees with them. -/
theorem fill (h : store.Agrees registry) {call : Call} {answer : Answer call.Reply}
    (ideal : registry.answer call = answer) : (store.fill call answer).Agrees registry := by
  cases call with
  | lookup ref => exact h.keep fun _ => ideal
  | list type =>
    intro other told ho
    by_cases same : other = .list type
    · subst same
      simp only [Store.answerTo?, Store.fill, Store.listing?, List.lookup_cons_self,
        Option.some.injEq] at ho
      exact ideal.trans ho
    · exact h other told ((Store.answerTo?_fill_of_ne same answer).symm.trans ho)

end Store.Agrees

namespace Phase.Steps

variable {phase phase' : Phase} {s' : Session} {pending' : List Call}

/-- A task fills in answers of the providers. -/
theorem agrees (steady : registry.Steady) (h : Phase.Steps registry r pending s phase phase' s')
    (agrees : s.store.Agrees registry) (sound : Phase.Sound registry s.store pending r phase) :
    s'.store.Agrees registry := by
  cases h with
  | judge | unserved | told | call | listed | passOver => exact agrees
  | lookedUp | failed =>
    cases sound with
    | calling _ ideal => exact agrees.fill ideal
  | close =>
    cases sound with
    | keeping _ _ ideal => exact agrees.fill ideal
  | @keep type resources listed left next free =>
    cases sound with
    | keeping gone _ ideal all placed =>
      subst all
      refine agrees.keep fun fresh => ?_
      -- An earlier resource of the name would have been answered, or be called for.
      have first : gone.find? (·.ref = listed.ref) = none := by
        refine List.find?_eq_none.mpr fun earlier hm same => ?_
        have same : earlier.ref = listed.ref := by simpa using same
        rcases same ▸ placed earlier hm with answered | busy
        · exact answered fresh
        · exact free busy
      rw [steady.answer_listed ideal (by simp), List.find?_append, first]
      simp

/-- **A step of a task keeps it on the way.** -/
theorem sound (steady : registry.Steady) (h : Phase.Steps registry r pending s phase phase' s')
    (agrees : s.store.Agrees registry) (sound : Phase.Sound registry s.store pending r phase)
    (kept : s.store.KeptBy s'.store)
    (mine : ∀ call ∈ phase.pending?, s.store.answerTo? call = none)
    (placed : ∀ call, s.store.answerTo? call ≠ none ∨ call ∈ pending →
      s'.store.answerTo? call ≠ none ∨ call ∈ pending') :
    Phase.Sound registry s'.store pending' r phase' := by
  cases h with
  | judge =>
    cases sound with
    | asking rest =>
      have covers : s.store.Covers registry r :=
        ⟨agrees, fun call hc => (rest.asked call hc).resolve_right List.not_mem_nil⟩
      have same := Audit.reported_eq_alone steady covers
      rw [← rest.result] at same
      exact same ▸ .done
  | unserved none =>
    cases sound with
    | asking rest =>
      have failed := rest.onward (Registry.answer_of_unserved none) fun served => by cases served
      exact .asking failed
  | told served known =>
    cases sound with
    | asking rest => exact .asking (rest.onward (agrees _ _ known) fun _ => by simp [known])
  | call served fresh free =>
    cases sound with
    | asking rest => exact .calling rest (steady.answer served _).symm
  | listed =>
    cases sound with
    | calling rest ideal => exact .keeping [] rest ideal rfl (by simp)
  | @passOver type resources listed left next busy =>
    cases sound with
    | keeping gone rest ideal all placed' =>
      refine .keeping (gone ++ [listed]) rest ideal (by simp [all]) fun other hm => ?_
      rcases List.mem_append.mp hm with before | now
      · exact placed _ (placed' other before)
      · exact placed _ (.inr (List.mem_singleton.mp now ▸ busy))
  | @keep type resources listed left next free =>
    cases sound with
    | keeping gone rest ideal all placed' =>
      refine .keeping (gone ++ [listed]) (rest.mono kept) ideal (by simp [all]) fun other hm => ?_
      rcases List.mem_append.mp hm with before | now
      · exact placed _ (placed' other before)
      · obtain rfl := List.mem_singleton.mp now
        exact .inl (by simp [Store.fill, Store.answerTo?])
  | lookedUp =>
    cases sound with
    | calling rest ideal =>
      have filled := Store.answerTo?_fill (mine _ rfl)
      exact .asking ((rest.mono kept).onward ideal fun _ => by simp [filled])
  | failed =>
    cases sound with
    | calling rest ideal =>
      have failed := (rest.mono kept).onward ideal fun served => by cases served
      exact .asking failed
  | close =>
    cases sound with
    | keeping _ rest ideal =>
      have filled := Store.answerTo?_fill (mine _ rfl)
      exact .asking ((rest.mono kept).onward ideal fun _ => by simp [filled])

end Phase.Steps

/-! ## Crews on their way -/

/-- The tasks of a crew are on the way to the reports that their rules get alone. -/
structure Crew.Sound (registry : Registry) (rules : List Resolved.Rule) (crew : Crew) : Prop where
  orderly : crew.session.Orderly crew.pending
  agrees : crew.session.store.Agrees registry
  rules : crew.tasks.map (·.rule) = rules
  tasks : ∀ task ∈ crew.tasks,
    task.phase.Sound registry crew.session.store crew.pending task.rule

namespace Crew

variable {rules : List Resolved.Rule} {crew crew' : Crew} {i : Nat} {schedule : List Nat}

theorem Sound.start (orderly : s.Orderly []) (agrees : s.store.Agrees registry)
    (rules : List Resolved.Rule) : (Crew.start s rules).Sound registry rules where
  orderly := by rwa [pending_start]
  agrees := agrees
  rules := by simp [Crew.start, Function.comp_def]
  tasks task hm := by
    obtain ⟨rule, -, rfl⟩ := List.mem_map.mp hm
    exact .asking (.start rule)

/-- **A step of a crew keeps its tasks on the way.** -/
theorem Sound.step (steady : registry.Steady) (sound : crew.Sound registry rules)
    (h : crew.step registry i = some crew') : crew'.Sound registry rules := by
  obtain ⟨before, task, after, phase, hb, steps, ha⟩ := steps_of_step h
  have own := sound.tasks task (by simp [hb])
  have kept := keptBy_step h sound.orderly
  have placed (call : Call) (hc : crew.session.store.answerTo? call ≠ none ∨ call ∈ crew.pending) :=
    placed_step h sound.orderly hc
  refine ⟨orderly_step h sound.orderly, steps.agrees steady sound.agrees own, ?_, ?_⟩
  · rw [← sound.rules, hb, ha]
    simp
  · rw [ha]
    intro other hm
    have cases' : other = ⟨task.rule, phase⟩ ∨ other ∈ crew.tasks := by
      simp only [hb, List.mem_append, List.mem_cons] at hm ⊢
      tauto
    rcases cases' with rfl | still
    · refine steps.sound steady sound.agrees own kept (fun call hc => ?_) placed
      exact sound.orderly.unanswered call (List.mem_filterMap.mpr ⟨task, by simp [hb], hc⟩)
    · exact (sound.tasks other still).mono kept placed

theorem Sound.run (steady : registry.Steady) (sound : crew.Sound registry rules)
    (h : crew.run registry schedule = some crew') : crew'.Sound registry rules :=
  run_induction (fun _ _ _ hs sound => sound.step steady hs) h sound

/-- Once all tasks are done, their reports are those that the rules get alone. -/
theorem Sound.report (sound : crew.Sound registry rules) {report : RunReport}
    (h : crew.report? = some report) : report.rules = rules.map (Audit.alone registry) := by
  have each : ∀ task ∈ crew.tasks,
      task.phase.report? = some (Audit.alone registry task.rule) := by
    intro task hm
    obtain ⟨own, done⟩ := exists_done h hm
    have own := sound.tasks task hm
    rw [done] at own ⊢
    cases own
    rfl
  have reports := report?_eq_some.mp h
  rw [List.map_congr_left each] at reports
  refine (List.map_inj_right fun _ _ => Option.some.inj).mp ?_
  rw [← reports, ← sound.rules]
  simp

end Crew

/-! ## How long it takes -/

/-- How many entries an answer brings to the store besides its own. -/
def Call.entries : (call : Call) → Answer call.Reply → Nat
  | .list _, .ok resources => resources.length
  | _, _ => 0

/-- A bound on the steps that an inquiry takes: to call, to receive the answer, to give the store
what it brings, and to go on. -/
def Inquiry.cost {α : Type} (registry : Registry) : Inquiry α → Nat
  | .done _ => 1
  | .ask call next => call.entries (registry.answer call) + 3 +
    match registry.answer call with
    | .ok reply => (next reply).cost registry
    | .error _ => 1

/-- A bound on the steps that a task still takes. -/
def Phase.cost (registry : Registry) : Phase → Nat
  | .asking rest => rest.cost registry
  | .calling call answer next =>
    call.entries answer + 2 + (Inquiry.onward next answer).cost registry
  | .keeping _ resources left next => left.length + 1 + (next resources).cost registry
  | .done _ => 0

theorem Inquiry.cost_ask {α : Type} (call : Call) (next : call.Reply → Inquiry α) :
    (Inquiry.ask call next).cost registry = call.entries (registry.answer call) + 3 +
      (Inquiry.onward next (registry.answer call)).cost registry := by
  rw [cost]
  cases registry.answer call <;> rfl

theorem Phase.Steps.cost_lt (steady : registry.Steady) {phase phase' : Phase} {s' : Session}
    (h : Phase.Steps registry r pending s phase phase' s') (agrees : s.store.Agrees registry) :
    phase'.cost registry < phase.cost registry := by
  cases h with
  | judge => simp [Phase.cost, Inquiry.cost]
  | @unserved call next fault none =>
    rw [Phase.cost, Phase.cost, Inquiry.cost_ask, Registry.answer_of_unserved none]
    simp only [Inquiry.onward, Inquiry.cost]
    omega
  | told served known =>
    rw [Phase.cost, Phase.cost, Inquiry.cost_ask, agrees _ _ known]
    omega
  | call served fresh free =>
    rw [Phase.cost, Phase.cost, Inquiry.cost_ask, steady.answer served]
    omega
  | listed => simp only [Phase.cost, Call.entries, Inquiry.onward]; omega
  | keep | passOver => simp only [Phase.cost, List.length_cons]; omega
  | lookedUp => simp only [Phase.cost]; omega
  | failed => simp only [Phase.cost, Inquiry.onward, Inquiry.cost]; omega
  | close => simp only [Phase.cost, List.length_nil]; omega

namespace Crew

variable {rules : List Resolved.Rule} {crew crew' : Crew} {i : Nat} {schedule : List Nat}

/-- A bound on the steps that some tasks still take. -/
def costAll (registry : Registry) : List Task → Nat
  | [] => 0
  | task :: more => task.phase.cost registry + costAll registry more

theorem costAll_lt {before after : List Task} {task task' : Task}
    (less : task'.phase.cost registry < task.phase.cost registry) :
    costAll registry (before ++ task' :: after) < costAll registry (before ++ task :: after) := by
  induction before with
  | nil => exact Nat.add_lt_add_right less _
  | cons first more ih => exact Nat.add_lt_add_left ih _

theorem cost_step (steady : registry.Steady) (h : crew.step registry i = some crew')
    (agrees : crew.session.store.Agrees registry) :
    costAll registry crew'.tasks < costAll registry crew.tasks := by
  obtain ⟨before, task, after, phase, hb, steps, ha⟩ := steps_of_step h
  rw [hb, ha]
  exact costAll_lt (steps.cost_lt steady agrees)

/-- **A schedule is no longer than the steps that are left.** -/
theorem length_le_cost (steady : registry.Steady) (sound : crew.Sound registry rules)
    (h : crew.run registry schedule = some crew') :
    schedule.length ≤ costAll registry crew.tasks := by
  induction schedule generalizing crew with
  | nil => simp
  | cons i more ih =>
    obtain ⟨next, hn, h⟩ := Option.bind_eq_some_iff.mp h
    have rest := ih (sound.step steady hn) h
    have less := cost_step steady hn sound.agrees
    simp only [List.length_cons]
    omega

end Crew

/-! ## Runs -/

/-- Whatever runs leave behind agrees with steady providers. -/
theorem Session.LeftBy.agrees (steady : registry.Steady) (h : s.LeftBy registry) :
    s.store.Agrees registry := by
  induction h with
  | start => exact Store.agrees_empty registry
  | run left ends ih =>
    cases ends with
    | inTurn => exact Audit.run_preserves steady.preserves_agrees _ ih
    | atOnce hr _ => exact ((Crew.Sound.start left.orderly ih _).run steady hr).agrees

/-- However a run ends, its rules are reported as if alone. -/
theorem Audit.Ends.eq_alone (steady : registry.Steady) (left : s.LeftBy registry)
    {rules : List Resolved.Rule} {report : RunReport} {t : Session}
    (h : Audit.Ends registry s rules report t) : report.rules = rules.map (alone registry) := by
  have agrees := left.agrees steady
  cases h with
  | inTurn => exact run_eq_alone steady rules agrees
  | atOnce hr hd => exact ((Crew.Sound.start left.orderly agrees rules).run steady hr).report hd

/-- Reports that are the same up to their order make for the same outcome. -/
theorem RunReport.outcome_perm {a b : RunReport} (h : a.rules.Perm b.rules) :
    a.outcome = b.outcome := by
  simp only [outcome, h.all_eq]

/-- **Rules of a run do not influence each other.**

If providers are steady, as providers of given resources are, then by way of whatever store earlier
runs left behind each rule is reported as if it were checked alone and with a new store, be its
report an error or not.  This is so for rules one after the other and for rules with a task each:
however the steps of the tasks are scheduled, they come to an end, and until then some task has a
step.  So rules in another order have the same reports in that order and the same outcome, and a
run that is repeated has the same report. -/
theorem Audit.rules_independent :
    (∀ holdings : List (String × List Resource),
      (Registry.ofProviders (holdings.map fun h => .holding h.1 h.2)).Steady) ∧
    ∀ (registry : Registry), registry.Steady → ∀ s : Session, s.LeftBy registry →
      ∀ rules : List Resolved.Rule,
        (∀ report t, Ends registry s rules report t →
          report.rules = rules.map (alone registry)) ∧
        (∃ most, ∀ schedule crew, (Crew.start s rules).run registry schedule = some crew →
          schedule.length ≤ most ∧
          (crew.report? = none → ∃ i next, crew.step registry i = some next)) ∧
        (∀ other report report' t t', other.Perm rules → Ends registry s rules report t →
          Ends registry s other report' t' →
          report'.rules.Perm report.rules ∧ report'.outcome = report.outcome) ∧
        ∀ report report' t t', Ends registry s rules report t →
          Ends registry t rules report' t' → report' = report := by
  constructor
  · intro holdings
    refine Registry.steady_of_holding fun type provider served => ?_
    obtain ⟨h, -, rfl⟩ := List.mem_map.mp (Registry.mem_of_forType_ofProviders served)
    exact ⟨h.1, h.2, rfl⟩
  · intro registry steady s left rules
    refine ⟨fun report t ends => ends.eq_alone steady left,
      ⟨Crew.costAll registry (Crew.start s rules).tasks, fun schedule crew hr => ?_⟩, ?_, ?_⟩
    · have sound := Crew.Sound.start left.orderly (left.agrees steady) rules
      exact ⟨Crew.length_le_cost steady sound hr, Crew.exists_step⟩
    · intro other report report' t t' perm ends ends'
      have reports : report'.rules.Perm report.rules := by
        rw [ends.eq_alone steady left, ends'.eq_alone steady left]
        exact perm.map _
      exact ⟨reports, RunReport.outcome_perm reports⟩
    · intro report report' t t' ends ends'
      have again := ends'.eq_alone steady (left.run ends)
      exact congrArg RunReport.mk (again.trans (ends.eq_alone steady left).symm)

/-- A provider that lists buckets and fails otherwise is steady; the rule on keys that comes first
has its error, and the rule on buckets does not notice. -/
theorem Audit.rules_independent_failing :
    let bucket : TypeRef := ⟨"aws", "s3", "bucket"⟩
    let b : Resource := ⟨bucket, "b", .empty⟩
    let aws : Provider :=
      { name := "aws"
        keys := []
        list := fun _ type => if type = bucket then .ok [b] else .error (.fetch "aws" "down")
        lookup := fun _ ref => if ref = b.ref then .ok (some b) else .error (.fetch "aws" "down") }
    let registry : Registry := .ofProviders [aws]
    let buckets : Resolved.Rule := ⟨"buckets", bucket, .empty, [], [], ⟨"", 1⟩⟩
    let keys : Resolved.Rule := ⟨"keys", ⟨"aws", "kms", "key"⟩, .empty, [], [], ⟨"", 2⟩⟩
    registry.Steady ∧
      ((run registry [keys, buckets]).run .start).1.rules =
        [alone registry keys, alone registry buckets] ∧
      (alone registry keys).result = .error (ProviderFault.fetch "aws" "down").message ∧
      (alone registry buckets).standing = .passed := by
  intro bucket b aws registry buckets keys
  have served : ∀ {type provider}, registry.forType type = .ok provider → provider = aws := by
    intro type provider h
    exact List.mem_singleton.mp (Registry.mem_of_forType_ofProviders h)
  have only : ∀ {type resources}, aws.list [] type = .ok resources →
      type = bucket ∧ resources = [b] := by
    intro type resources h
    simp only [aws] at h
    split at h
    · next same => exact ⟨same, (Except.ok.inj h).symm⟩
    · cases h
  have steady : registry.Steady := by
    refine ⟨fun h _ => ?_, fun h _ => ?_, fun h listed r hr => ?_, fun h listed r hr => ?_⟩
    · rw [served h]
    · rw [served h]
    · rw [served h] at listed
      obtain ⟨rfl, rfl⟩ := only listed
      rw [List.mem_singleton.mp hr]
    · rw [served h] at listed ⊢
      obtain ⟨rfl, rfl⟩ := only listed
      rw [List.mem_singleton.mp hr]
      rfl
  have independent := rules_independent.2 registry steady .start .start [keys, buckets]
  exact ⟨steady, independent.1 _ _ .inTurn, rfl, rfl⟩

end Compliance
