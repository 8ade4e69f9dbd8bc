import Compliance.Proofs.Audit.Steady

/-!
# Rules alone and rules in turn

What a rule asks for is settled by the providers if they are steady, and so is what
judging looks at.  So a store that has all of this leads to one report, and it is the
one that the rule gets alone: neither what else the store has nor how it came to be
there makes a difference.

## Main definitions

* `Store.Covers` — a store has all that a rule asks for.
* `Audit.alone` — the report on a rule that is checked alone.
* `Audit.reported_eq_alone` — a store that covers a rule leads to this report.
* `Audit.run_eq_alone` — rules one after the other are reported as if alone.
-/

namespace Compliance

/-- A store has all that a rule asks for, and only answers of the providers. -/
structure Store.Covers (registry : Registry) (r : Resolved.Rule) (store : Store) : Prop where
  agrees : store.Agrees registry
  answered : ∀ call ∈ (Inquiry.rule r).asked registry, store.answerTo? call ≠ none

namespace Audit

variable {registry : Registry} {r : Resolved.Rule} {s : Session} {store : Store}

/-- Gathering a rule comes to what the providers settle, and leaves a store that covers it. -/
theorem outcome_rule (steady : registry.Steady) (agrees : s.store.Agrees registry)
    (r : Resolved.Rule) :
    ∃ t, (Gathering.rule registry r).outcome s = ((Inquiry.rule r).result registry, t) ∧
      t.store.Covers registry r := by
  obtain ⟨same, answered⟩ := Inquiry.outcome_access steady (Inquiry.rule r) agrees
  have after := Inquiry.access_preserves steady.preserves_agrees (Inquiry.rule r) s agrees
  exact ⟨_, Prod.ext same rfl, after, answered⟩

/-! ## What judging looks at -/

/-- The listings among some questions, each with its answer, and nothing that was looked up. -/
def listings (registry : Registry) (calls : List Call) : Store where
  listings := calls.filterMap fun
    | .list type => some (type, registry.answer (.list type))
    | .lookup _ => none
  resources := []

theorem agrees_listings (registry : Registry) (calls : List Call) :
    (listings registry calls).Agrees registry := by
  rintro (type | ref) answer known
  · obtain ⟨before, after, all, -⟩ := List.lookup_eq_some_iff.mp known
    have entry : (type, answer) ∈ (listings registry calls).listings := by simp [all]
    obtain ⟨call, -, same⟩ := List.mem_filterMap.mp entry
    cases call with
    | list other =>
      obtain ⟨rfl, rfl⟩ := Prod.mk.inj (Option.some.inj same)
      rfl
    | lookup ref => cases same
  · cases known

theorem listing?_listings {calls : List Call} {type : TypeRef} (h : .list type ∈ calls) :
    (listings registry calls).listing? type ≠ none := by
  have entry : (type, registry.answer (.list type)) ∈ (listings registry calls).listings :=
    List.mem_filterMap.mpr ⟨_, h, rfl⟩
  intro silent
  simpa using List.lookup_eq_none_iff.mp silent _ entry

/-- Some store that covers a rule is asked, when what was gathered is judged, for nothing but what
was looked up for the rule. -/
theorem exists_covers (steady : registry.Steady) {gathered : Gathered}
    (ends : (Inquiry.rule r).result registry = .ok gathered) :
    ∃ bare : Store, bare.Covers registry r ∧
      ∀ base ∈ gathered.resources, ∀ source target, Verdict.Asks bare r base source target →
        .lookup target ∈ (Inquiry.rule r).asked registry := by
  -- The listings are given, so that names are answered only if they are looked up.
  let s : Session := ⟨listings registry ((Inquiry.rule r).asked registry), []⟩
  have agrees : s.store.Agrees registry := agrees_listings registry _
  obtain ⟨t, outcome, covers⟩ := outcome_rule steady agrees r
  refine ⟨t.store, covers, fun base hb source target asks => ?_⟩
  have yields : (Gathering.rule registry r).Yields s gathered t := outcome.trans (by rw [ends])
  obtain ⟨found, known, -⟩ := Gathering.rule_answers yields (.refl _) hb asks
  have here : (((Inquiry.rule r).access registry).outcome s).2.store.answer? target ≠ none := by
    rw [Gathering.rule] at outcome
    rw [outcome]
    simp [known]
  refine (Inquiry.asked_of_answered steady (Inquiry.rule r) agrees ends
    (fun _ => listing?_listings) here).resolve_left ?_
  simp [s, listings, Store.answer?]

/-- What was gathered is judged the same by all stores that cover the rule. -/
theorem exists_findings (steady : registry.Steady) {gathered : Gathered}
    (ends : (Inquiry.rule r).result registry = .ok gathered) :
    ∃ found, ∀ store : Store, store.Covers registry r → findings store r gathered = found := by
  obtain ⟨bare, covers, asked⟩ := exists_covers steady ends
  refine ⟨findings bare r gathered, fun store covers' => ?_⟩
  have verdicts : ∀ base ∈ gathered.resources,
      Verdict.of store r base = Verdict.of bare r base := by
    intro base hb
    refine (Verdict.of_congr fun source target asks => ?_).symm
    have calls := asked base hb source target asks
    rw [covers.agrees.cached? (covers.answered _ calls),
      covers'.agrees.cached? (covers'.answered _ calls)]
  simp only [findings, List.map_congr_left verdicts]

/-! ## A rule alone -/

/-- The report on a rule that is checked alone, by way of a new store. -/
def alone (registry : Registry) (r : Resolved.Rule) : RuleReport :=
  ((check registry r).run .start).1

/-- By way of a store of the providers' answers, a rule gets a report that a store which covers it
leads to. -/
theorem exists_reported (steady : registry.Steady) (agrees : s.store.Agrees registry)
    (r : Resolved.Rule) : ∃ store : Store, store.Covers registry r ∧
      ((check registry r).run s).1 = reported r store ((Inquiry.rule r).result registry) := by
  obtain ⟨t, outcome, covers⟩ := outcome_rule steady agrees r
  have parts : ((check registry r).run s).1 =
      reported r ((Gathering.rule registry r).outcome s).2.store
        ((Gathering.rule registry r).outcome s).1 := rfl
  exact ⟨t.store, covers, by rw [parts, outcome]⟩

/-- **A store that covers a rule leads to the report that the rule gets alone.** -/
theorem reported_eq_alone (steady : registry.Steady) (covers : store.Covers registry r) :
    reported r store ((Inquiry.rule r).result registry) = alone registry r := by
  have fresh : Session.start.store.Agrees registry := Store.agrees_empty registry
  obtain ⟨other, covers', same⟩ := exists_reported steady fresh r
  rw [alone, same]
  cases ends : (Inquiry.rule r).result registry with
  | error fault => rfl
  | ok gathered =>
    obtain ⟨found, unique⟩ := exists_findings steady ends
    simp only [reported, unique store covers, unique other covers']

/-! ## Rules in turn -/

/-- By way of a store of the providers' answers, a rule is reported as if alone. -/
theorem check_eq_alone (steady : registry.Steady) (agrees : s.store.Agrees registry)
    (r : Resolved.Rule) : ((check registry r).run s).1 = alone registry r := by
  obtain ⟨store, covers, same⟩ := exists_reported steady agrees r
  exact same.trans (reported_eq_alone steady covers)

/-- **Rules one after the other are each reported as if alone.** -/
theorem run_eq_alone (steady : registry.Steady) (rules : List Resolved.Rule)
    (agrees : s.store.Agrees registry) :
    ((run registry rules).run s).1.rules = rules.map (alone registry) := by
  change ((checkAll registry rules).run s).1 = _
  induction rules generalizing s with
  | nil => rfl
  | cons r more ih =>
    have after := Gathering.rule_preserves steady.preserves_agrees r s agrees
    exact congrArg₂ List.cons (check_eq_alone steady agrees r) (ih after)

end Audit

end Compliance
