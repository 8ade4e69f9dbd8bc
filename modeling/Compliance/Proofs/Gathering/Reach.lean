import Compliance.Proofs.Audit.Alone
import Compliance.Proofs.Registry

/-!
# What a rule reaches

Against providers of given resources nothing fails but the search for a provider.
Whether a rule can be evaluated is then settled by the resources alone: it can if
there is a provider for every target that its statements reach through the
associations of the resources.

## Main definitions

* `Resolved.Rule.Reaches` — a rule reaches a target among given resources.
* `Gathering.Follows` — what following statements comes to, by what they reach.
* `Inquiry.statement_follows` — following a statement comes to that.
* `Audit.alone_eq` — the report on a rule by what it reaches.
-/

namespace Compliance

/-! ## Targets within reach -/

/-- A statement below a path of nested properties of a resource reaches `target` through an
association of `source`, where targets stand for given resources. -/
inductive Statement.Reaches (resources : List Resource) :
    (base : Resource) → (path : List String) → Statement → (source target : ResourceRef) → Prop
  /-- A target of the association itself. -/
  | target {base path name children targets target} :
      base.attributes.association? path name = some targets → target ∈ targets →
      Reaches resources base path (.association name children) base.ref target
  /-- What a statement about elements reaches. -/
  | element {base path name children child source target} :
      child ∈ children → Reaches resources base (path ++ [name]) child source target →
      Reaches resources base path (.nested name children) source target
  /-- What a statement about a target reaches. -/
  | behind {base path name children targets next found child source target} :
      base.attributes.association? path name = some targets → next ∈ targets →
      resources.find? (·.ref = next) = some found → child ∈ children →
      Reaches resources found [] child source target →
      Reaches resources base path (.association name children) source target

namespace Statement

variable {resources : List Resource} {base : Resource} {path : List String} {name : String}
  {children : List Statement} {source target : ResourceRef}

theorem reaches_nested_iff : Reaches resources base path (.nested name children) source target ↔
    ∃ child ∈ children, child.Reaches resources base (path ++ [name]) source target := by
  constructor
  · rintro (_ | ⟨hc, reached⟩)
    exact ⟨_, hc, reached⟩
  · rintro ⟨child, hc, reached⟩
    exact .element hc reached

theorem reaches_association_iff :
    Reaches resources base path (.association name children) source target ↔
      ∃ targets, base.attributes.association? path name = some targets ∧
        ((source = base.ref ∧ target ∈ targets) ∨
          ∃ next ∈ targets, ∃ found, resources.find? (·.ref = next) = some found ∧
            ∃ child ∈ children, child.Reaches resources found [] source target) := by
  constructor
  · rintro (⟨known, hm⟩ | _ | ⟨known, hm, found, hc, reached⟩)
    · exact ⟨_, known, .inl ⟨rfl, hm⟩⟩
    · exact ⟨_, known, .inr ⟨_, hm, _, found, _, hc, reached⟩⟩
  · rintro ⟨targets, known, ⟨rfl, hm⟩ | ⟨next, hm, found, hf, child, hc, reached⟩⟩
    · exact .target known hm
    · exact .behind known hm hf hc reached

end Statement

/-- A rule reaches `target` through an association of `source`, from a resource of its type. -/
def Resolved.Rule.Reaches (resources : List Resource) (r : Resolved.Rule)
    (source target : ResourceRef) : Prop :=
  ∃ base ∈ resources.filter (·.type = r.target), ∃ s ∈ r.conditions ++ r.assertions,
    s.Reaches resources base [] source target

/-! ## Providers of given resources -/

namespace Registry

variable {resources : List Resource} {registry : Registry}

namespace Serves

/-- Providers that answer from given resources do not change their answers. -/
theorem steady (h : registry.Serves resources) : registry.Steady where
  list served calls := by rw [h.list served, h.list served]
  lookup served calls := by rw [h.lookup served, h.lookup served]
  typed {type provider listed} served answered r hr := by
    rw [h.list served] at answered
    obtain rfl := Except.ok.inj answered
    simpa using (List.mem_filter.mp hr).2
  listed {type provider listed} served answered r hr := by
    rw [h.list served] at answered
    obtain rfl := Except.ok.inj answered
    obtain rfl : r.type = type := by simpa using (List.mem_filter.mp hr).2
    rw [h.lookup served]
    exact congrArg Except.ok (Store.find?_filter_type resources r.ref).symm

theorem answer_list (h : registry.Serves resources) {type : TypeRef}
    (served : type.provider ∈ registry.names) :
    registry.answer (.list type) = .ok (resources.filter (·.type = type)) := by
  obtain ⟨provider, found⟩ := forType_of_mem_names served
  exact (answer_of_forType found).trans (h.list found [])

theorem answer_lookup (h : registry.Serves resources) {ref : ResourceRef}
    (served : ref.type.provider ∈ registry.names) :
    registry.answer (.lookup ref) = .ok (resources.find? (·.ref = ref)) := by
  obtain ⟨provider, found⟩ := forType_of_mem_names served
  exact (answer_of_forType found).trans (h.lookup found [])

end Serves

end Registry

/-! ## What following comes to -/

namespace Inquiry

variable {α β : Type} {registry : Registry}

/-- Of inquiries one behind the other, each comes to what it comes to by itself. -/
@[simp] theorem result_bind (x : Inquiry α) (f : α → Inquiry β) :
    (x >>= f).result registry = x.result registry >>= fun a => (f a).result registry := by
  change (x.bind f).result registry = _
  induction x with
  | done result => cases result <;> rfl
  | ask call next ih =>
    simp only [bind, result]
    cases registry.answer call with
    | error fault => rfl
    | ok reply => exact ih reply

@[simp] theorem result_lookup (ref : ResourceRef) :
    (lookup ref).result registry = registry.answer (.lookup ref) := by
  simp only [lookup, result]
  cases registry.answer (.lookup ref) <;> rfl

@[simp] theorem result_list (type : TypeRef) :
    (list type).result registry = registry.answer (.list type) := by
  simp only [list, result]
  cases registry.answer (.list type) <;> rfl

end Inquiry

namespace Gathering

/-- What following statements for a rule comes to, if they reach some targets: notes if all targets
have a provider, with one on each target that does not exist, and else the fault that one of the
targets has no provider. -/
structure Follows (registry : Registry) (resources : List Resource) (rule : String)
    (reaches : ResourceRef → ResourceRef → Prop) (answer : Answer (List Note)) : Prop where
  served : ∀ notes, answer = .ok notes →
    ∀ source target, reaches source target → target.type.provider ∈ registry.names
  noted : ∀ notes, answer = .ok notes → ∀ source target,
    .targetMissing rule source target ∈ notes ↔
      reaches source target ∧ resources.find? (·.ref = target) = none
  failed : ∀ fault, answer = .error fault → ∃ source target, reaches source target ∧
    target.type.provider ∉ registry.names ∧ fault = .unknownProvider target.type.provider

namespace Follows

variable {registry : Registry} {resources : List Resource} {rule : String}
  {reaches reaches' : ResourceRef → ResourceRef → Prop} {x y : Answer (List Note)}

theorem congr (h : Follows registry resources rule reaches x)
    (same : ∀ source target, reaches source target ↔ reaches' source target) :
    Follows registry resources rule reaches' x := by
  obtain rfl : reaches = reaches' := funext₂ fun source target => propext (same source target)
  exact h

/-- Where all targets have a provider, the notes say which of them do not exist. -/
theorem noting {notes : List Note}
    (served : ∀ source target, reaches source target → target.type.provider ∈ registry.names)
    (noted : ∀ source target, .targetMissing rule source target ∈ notes ↔
      reaches source target ∧ resources.find? (·.ref = target) = none) :
    Follows registry resources rule reaches (.ok notes) where
  served _ _ := served
  noted _ h := Except.ok.inj h ▸ noted
  failed _ := nofun

/-- Where nothing is reached, there is no note on a target. -/
theorem nowhere {notes : List Note} (reaches_not : ∀ source target, ¬reaches source target)
    (unnoted : ∀ source target, .targetMissing rule source target ∉ notes) :
    Follows registry resources rule reaches (.ok notes) :=
  noting (fun source target reached => absurd reached (reaches_not source target))
    fun source target => by simp [reaches_not, unnoted]

/-- Of statements one behind the other, one or the other reaches a target. -/
theorem append (hx : Follows registry resources rule reaches x)
    (hy : Follows registry resources rule reaches' y) :
    Follows registry resources rule (fun source target => reaches source target ∨
      reaches' source target) (do return (← x) ++ (← y)) := by
  rcases x with fault | first
  · refine ⟨nofun, nofun, fun _ h => ?_⟩
    obtain ⟨source, target, reached, absent⟩ := hx.failed _ h
    exact ⟨source, target, .inl reached, absent⟩
  rcases y with fault | second
  · refine ⟨nofun, nofun, fun _ h => ?_⟩
    obtain ⟨source, target, reached, absent⟩ := hy.failed _ h
    exact ⟨source, target, .inr reached, absent⟩
  refine ⟨fun _ _ source target reached => ?_, fun notes h source target => ?_, nofun⟩
  · exact reached.elim (hx.served _ rfl source target) (hy.served _ rfl source target)
  · obtain rfl : first ++ second = notes := Except.ok.inj h
    rw [List.mem_append, hx.noted _ rfl, hy.noted _ rfl, or_and_right]

end Follows

end Gathering

namespace Inquiry

open Gathering (Follows)

variable {registry : Registry} {resources : List Resource} {rule : String}

theorem each_follows {visit : Resource → Inquiry (List Note)}
    {reaches : Resource → ResourceRef → ResourceRef → Prop}
    (h : ∀ base, Follows registry resources rule (reaches base) ((visit base).result registry))
    (bases : List Resource) :
    Follows registry resources rule
      (fun source target => ∃ base ∈ bases, reaches base source target)
      ((each visit bases).result registry) := by
  induction bases with
  | nil => exact .nowhere (by simp) (by simp)
  | cons base more ih =>
    simp only [each, result_bind]
    exact ((h base).append ih).congr (by simp)

/-- If all targets of an association have a provider, those that exist are handed on, and those
that do not are noted. -/
theorem targets_of_served (serves : registry.Serves resources) (base : ResourceRef)
    {refs : List ResourceRef} (served : ∀ ref ∈ refs, ref.type.provider ∈ registry.names) :
    (targets rule base refs).result registry =
      .ok (refs.filterMap fun ref => resources.find? (·.ref = ref),
        (refs.filter fun ref => (resources.find? (·.ref = ref)).isNone).map
          (.targetMissing rule base)) := by
  induction refs with
  | nil => rfl
  | cons ref more ih =>
    obtain ⟨here, served⟩ := List.forall_mem_cons.mp served
    simp only [targets, result_bind, result_lookup, serves.answer_lookup here, ih served]
    cases found : resources.find? (·.ref = ref) <;> simp [found] <;> rfl

/-- The notes on these are what reaching the targets comes to. -/
theorem missing_follows (base : ResourceRef) {refs : List ResourceRef}
    (served : ∀ ref ∈ refs, ref.type.provider ∈ registry.names) :
    Follows registry resources rule (fun source target => source = base ∧ target ∈ refs)
      (.ok ((refs.filter fun ref => (resources.find? (·.ref = ref)).isNone).map
        (.targetMissing rule base))) := by
  refine .noting (fun _ target reached => served target reached.2) fun source target => ?_
  simp only [List.mem_map, List.mem_filter, Option.isNone_iff_eq_none,
    NoteOn.targetMissing.injEq, true_and]
  constructor
  · rintro ⟨ref, ⟨hr, missing⟩, rfl, rfl⟩
    exact ⟨⟨rfl, hr⟩, missing⟩
  · rintro ⟨⟨rfl, hr⟩, missing⟩
    exact ⟨_, ⟨hr, missing⟩, rfl, rfl⟩

/-- If some target has no provider, that is the fault of one of those that have none. -/
theorem targets_of_unserved (serves : registry.Serves resources) (base : ResourceRef)
    {refs : List ResourceRef} (unserved : ∃ ref ∈ refs, ref.type.provider ∉ registry.names) :
    ∃ ref ∈ refs, ref.type.provider ∉ registry.names ∧
      (targets rule base refs).result registry = .error (.unknownProvider ref.type.provider) := by
  induction refs with
  | nil => simp at unserved
  | cons ref more ih =>
    simp only [targets, result_bind, result_lookup]
    by_cases here : ref.type.provider ∈ registry.names
    · obtain ⟨other, later, absent, fails⟩ := ih (by simpa [here] using unserved)
      refine ⟨other, List.mem_cons_of_mem _ later, absent, ?_⟩
      rw [serves.answer_lookup here, fails]
      rfl
    · refine ⟨ref, List.mem_cons_self .., here, ?_⟩
      rw [Registry.answer_of_unserved (Registry.forType_of_not_mem_names here)]
      rfl

mutual

/-- **Following a statement comes to what it reaches.** -/
theorem statement_follows (serves : registry.Serves resources) (base : Resource)
    (path : List String) : ∀ s : Statement,
      Follows registry resources rule (s.Reaches resources base path)
        ((statement rule base path s).result registry)
  | .property _ _ => .nowhere nofun (by simp)
  | .entry _ _ _ => .nowhere nofun (by simp)
  | .nested name children => by
    rw [statement]
    refine (statements_follows serves base (path ++ [name]) children).congr fun source target => ?_
    exact Statement.reaches_nested_iff.symm
  | .association name children => by
    rw [statement]
    cases known : base.attributes.association? path name with
    | none =>
      refine .nowhere (fun source target reached => ?_) (by simp)
      obtain ⟨targets, known', -⟩ := Statement.reaches_association_iff.mp reached
      simp [known] at known'
    | some refs =>
      simp only [result_bind]
      by_cases served : ∀ ref ∈ refs, ref.type.provider ∈ registry.names
      · rw [targets_of_served serves base.ref served]
        have own : Follows registry resources rule _ _ := missing_follows base.ref served
        have below := each_follows (fun found => statements_follows serves found [] children)
          (refs.filterMap fun ref => resources.find? (·.ref = ref))
        refine (own.append below).congr fun source target => ?_
        simp only [Statement.reaches_association_iff, known, Option.some.injEq, exists_eq_left',
          List.mem_filterMap]
        refine or_congr_right ⟨?_, ?_⟩
        · rintro ⟨found, ⟨next, hm, hf⟩, reached⟩
          exact ⟨next, hm, found, hf, reached⟩
        · rintro ⟨next, hm, found, hf, reached⟩
          exact ⟨found, ⟨next, hm, hf⟩, reached⟩
      · obtain ⟨ref, hr, absent, fails⟩ :=
          targets_of_unserved serves base.ref (by simpa using served)
        rw [fails]
        refine ⟨nofun, nofun, fun fault h => ?_⟩
        exact ⟨base.ref, ref, .target known hr, absent, (Except.error.inj h).symm⟩

theorem statements_follows (serves : registry.Serves resources) (base : Resource)
    (path : List String) : ∀ ss : List Statement,
      Follows registry resources rule
        (fun source target => ∃ s ∈ ss, s.Reaches resources base path source target)
        ((statements rule base path ss).result registry)
  | [] => .nowhere (by simp) (by simp)
  | s :: more => by
    simp only [statements, result_bind]
    exact ((statement_follows serves base path s).append
      (statements_follows serves base path more)).congr (by simp)

end

/-- A rule whose own type has a provider comes to the resources of the type, and to what its
statements reach from them. -/
theorem rule_follows (serves : registry.Serves resources) {r : Resolved.Rule}
    (served : r.target.provider ∈ registry.names) :
    ∃ notes, Follows registry resources r.name (r.Reaches resources) notes ∧
      (Inquiry.rule r).result registry =
        notes.map fun notes => ⟨resources.filter (·.type = r.target), notes⟩ := by
  have visits (base : Resource) : Follows registry resources r.name
      (fun source target => ∃ s ∈ r.conditions ++ r.assertions,
        s.Reaches resources base [] source target) ((resource r base).result registry) := by
    simp only [resource, result_bind]
    exact ((statements_follows serves base [] r.conditions).append
      (statements_follows serves base [] r.assertions)).congr fun source target => by
        simp only [List.mem_append, or_and_right, exists_or]
  refine ⟨_, each_follows visits (resources.filter (·.type = r.target)), ?_⟩
  simp only [Inquiry.rule, result_bind, result_list, serves.answer_list served]
  change (do let notes ← (each (resource r) _).result registry; Except.ok _) = _
  cases (each (resource r) (resources.filter (·.type = r.target))).result registry <;> rfl

end Inquiry

/-! ## Reports -/

/-- A rule is errored if there is a reason why it was not evaluated. -/
theorem RuleReport.standing_eq_errored {report : RuleReport} :
    report.standing = .errored ↔ ∃ reason, report.result = .error reason := by
  rw [standing]
  split
  · next findings h => split <;> simp [h]
  · next reason h => simp [h]

theorem Remark.targetMissing_mem {rule source target : String} {notes : List Note} :
    .targetMissing rule source target ∈ notes.map Note.remark ↔
      ∃ holder missing, .targetMissing rule holder missing ∈ notes ∧ holder.text = source ∧
        missing.text = target := by
  rw [List.mem_map]
  constructor
  · rintro ⟨_ | ⟨rule', holder, missing⟩, hn, same⟩
    · cases same
    · obtain ⟨rfl, rfl, rfl⟩ := NoteOn.targetMissing.inj same
      exact ⟨holder, missing, hn, rfl, rfl⟩
  · rintro ⟨holder, missing, hn, rfl, rfl⟩
    exact ⟨_, hn, rfl⟩

/-- A report says of a rule what it reaches among given resources, if there are providers of some
names.  The rule is errored only where a target has none of these, and the reason names one such
target; else what it finds is what it means, and it has a remark on each target that does not
exist. -/
structure RuleReport.Tells (resources : List Resource) (served : String → Prop)
    (r : Resolved.Rule) (report : RuleReport) : Prop where
  judges : report.Judges resources r
  errored : report.standing = .errored ↔
    ∃ source target, r.Reaches resources source target ∧ ¬served target.type.provider
  reason : ∀ reason, report.error? = some reason →
    ∃ source target, r.Reaches resources source target ∧ ¬served target.type.provider ∧
      reason = (ProviderFault.unknownProvider target.type.provider).message
  remarks : report.standing ≠ .errored → ∀ source target,
    .targetMissing r.name source target ∈ report.remarks ↔
      ∃ holder missing, r.Reaches resources holder missing ∧
        resources.find? (·.ref = missing) = none ∧ holder.text = source ∧ missing.text = target

/-- **A rule that is checked alone is reported by what it reaches.** -/
theorem Audit.alone_tells {resources : List Resource} {registry : Registry}
    (serves : registry.Serves resources) {r : Resolved.Rule}
    (served : r.target.provider ∈ registry.names) :
    (alone registry r).Tells resources (· ∈ registry.names) r := by
  have judges : (alone registry r).Judges resources r :=
    (check_judges serves r (Store.reflects_empty resources)).1
  have fresh : Session.start.store.Agrees registry := Store.agrees_empty registry
  obtain ⟨store, -, report⟩ := exists_reported serves.steady fresh r
  obtain ⟨notes, follows, result⟩ := Inquiry.rule_follows serves served
  rw [result] at report
  change alone registry r = _ at report
  rcases notes with fault | notes
  · obtain ⟨source, target, reached, absent, rfl⟩ := follows.failed _ rfl
    have same : alone registry r = ⟨r.name, r.target,
        .error (ProviderFault.unknownProvider target.type.provider).message⟩ := report
    have errored : (alone registry r).standing = .errored :=
      RuleReport.standing_eq_errored.mpr ⟨_, congrArg RuleReport.result same⟩
    refine ⟨judges, iff_of_true errored ⟨source, target, reached, absent⟩, fun reason h => ?_,
      fun fine => absurd errored fine⟩
    rw [same] at h
    exact ⟨source, target, reached, absent, (Option.some.inj h).symm⟩
  · have same : alone registry r = ⟨r.name, r.target,
        .ok (findings store r ⟨resources.filter (·.type = r.target), notes⟩)⟩ := report
    have fine : (alone registry r).standing ≠ .errored := by
      simp [RuleReport.standing_eq_errored, same]
    refine ⟨judges, iff_of_false fine ?_, fun reason h => ?_, fun _ source target => ?_⟩
    · rintro ⟨source, target, reached, absent⟩
      exact absent (follows.served _ rfl source target reached)
    · rw [same] at h
      cases h
    · rw [same]
      refine Remark.targetMissing_mem.trans (exists₂_congr fun holder missing => ?_)
      rw [follows.noted _ rfl, and_assoc]

end Compliance
