import Compliance.Proofs.Audit.Independence
import Compliance.Proofs.Command.Success
import Compliance.Proofs.Gathering.Reach

/-!
# Rules of a run against an inventory

A run has a provider for every name that the types of its resources start with, and
for every name that the targets of its rules start with.  Associations may lead to
other names.  These are the only ones that keep a rule from being evaluated: the
providers of an inventory never fail.

## Main definitions

* `Command.Provides` — the names that a run has a provider for.
* `Command.run_errored_iff_reaches_unserved` — which rules of a run are errored.
-/

namespace Compliance.Command

open Response

variable {resources : List Resource} {rules : List Resolved.Rule} {name : String}

/-- A run of some rules against some resources has a provider of a name: an association target is
not among the things that bring one. -/
def Provides (resources : List Resource) (rules : List Resolved.Rule) (name : String) : Prop :=
  (∃ resource ∈ resources, resource.type.provider = name) ∨
    ∃ rule ∈ rules, rule.target.provider = name

/-- The providers of a run are those of its resources, and those that its rules need besides. -/
theorem mem_names_serveTargets :
    name ∈ (serveTargets (Registry.ofResources resources) rules).names ↔
      Provides resources rules name := by
  have registered (names : List String) (registry : Registry) :
      names.foldl (fun registry name => registry.register (Provider.holding name [])) registry =
        (names.map (Provider.holding · [])).foldl Registry.register registry :=
    List.foldl_map.symm
  simp only [serveTargets, registered, Registry.mem_names_foldl, List.mem_map,
    List.mem_eraseDups, List.mem_filter, ← Registry.mem_names_ofResources, Provides]
  constructor
  · rintro (here | ⟨_, ⟨_, ⟨⟨rule, hr, rfl⟩, -⟩, rfl⟩, rfl⟩)
    · exact .inl here
    · exact .inr ⟨rule, hr, rfl⟩
  · rintro (here | ⟨rule, hr, rfl⟩)
    · exact .inl here
    · by_cases here : rule.target.provider ∈ (Registry.ofResources resources).names
      · exact .inl here
      · exact .inr ⟨_, ⟨_, ⟨⟨rule, hr, rfl⟩, by simpa using here⟩, rfl⟩, rfl⟩

/-- The providers of a run have an answer for whatever it has a provider for. -/
theorem tells_of_ends {report : RunReport} {t : Session}
    (ends : Audit.Ends (serveTargets (Registry.ofResources resources) rules) .start rules report
      t) :
    List.Forall₂ (RuleReport.Tells resources (Provides resources rules)) rules report.rules := by
  have serves := serves_serveTargets resources rules
  rw [ends.eq_alone serves.steady .start, List.forall₂_map_right_iff, List.forall₂_same]
  intro rule hr
  have tells := Audit.alone_tells serves (r := rule)
    (mem_names_serveTargets.mpr (.inr ⟨rule, hr, rfl⟩))
  simpa only [mem_names_serveTargets] using tells

/-- **The rules of a run are errored only for what associations lead to.**

Whatever the inventory and the specification, if they are read and nothing is wrong with the syntax
of the file, the run reports on the rules.  However it ends, be the rules checked in turn or at
once, a rule is errored if and only if its statements reach, through associations of the resources,
a target for which the run has no provider, that is one whose provider has no resource and no rule;
that there is none is then the reason.  Every other rule is judged, with a remark on each target
that it reaches and that does not exist. -/
theorem run_errored_iff_reaches_unserved (disk : Disk) (style : Style) (file inventory : Path)
    (kind : DeclarationKind) {resources : List Resource} {s : Specification}
    (read : readInventory disk inventory = .ok resources)
    (loaded : Specification.load disk (Registry.ofResources resources).catalogue file kind
      defaultMaxErrors = .ok s)
    (parsed : s.syntaxErrors = []) :
    run disk style file inventory kind =
        reported style s (audit (Registry.ofResources resources) s) ∧
      ∀ report t, Audit.Ends (serveTargets (Registry.ofResources resources) s.rules) .start
          s.rules report t →
        List.Forall₂ (RuleReport.Tells resources (Provides resources s.rules)) s.rules
          report.rules := by
  refine ⟨?_, fun report t => tells_of_ends⟩
  simp only [run, runBy, read, loaded, parsed, List.isEmpty_nil, if_true]

/-- What an inventory and a specification are like, evaluated. -/
private theorem exists_loaded (disk : Disk) (file inventory : Path) (kind : DeclarationKind)
    (p : List Resource → Specification → Bool)
    (h : (do
      let resources ← (readInventory disk inventory).toOption
      let s ← (Specification.load disk (Registry.ofResources resources).catalogue file kind
        defaultMaxErrors).toOption
      return p resources s) = some true) :
    ∃ resources s, readInventory disk inventory = .ok resources ∧
      Specification.load disk (Registry.ofResources resources).catalogue file kind
        defaultMaxErrors = .ok s ∧ p resources s = true := by
  cases hr : readInventory disk inventory with
  | error reason =>
    rw [hr] at h
    cases h
  | ok resources =>
    rw [hr] at h
    cases hs : Specification.load disk (Registry.ofResources resources).catalogue file kind
        defaultMaxErrors with
    | error fault => simp [hs, Except.toOption] at h
    | ok s => exact ⟨resources, s, rfl, hs, by simpa [hs, Except.toOption] using h⟩

/-- An instance is associated with a key of a provider that has no resources, as long as there is a
rule about some other type of that provider. -/
theorem run_errored_iff_reaches_unserved_ring :
    let disk : Disk := .ofEntries [
      (⟨"group.cs"⟩, .ok (.file (.ok
        ("group g \x7b rule r on aws:ec2:instance \x7b assert \x7b >key \x7b size > 0 \x7d \x7d " ++
          "\x7d rule s on gcp:kms:ring \x7b assert \x7b size > 0 \x7d \x7d \x7d")))),
      (⟨"all.json"⟩, .ok (.file (.ok
        ("\x7b\"resources\": [\x7b\"type\": \"aws:ec2:instance\", \"id\": \"i\", " ++
          "\"associations\": \x7b\"key\": [\x7b\"type\": \"gcp:kms:key\", \"id\": \"k\"\x7d]" ++
          "\x7d\x7d]\x7d"))))]
    ∃ resources s, readInventory disk ⟨"all.json"⟩ = .ok resources ∧
      Specification.load disk (Registry.ofResources resources).catalogue ⟨"group.cs"⟩ .group
        defaultMaxErrors = .ok s ∧ s.syntaxErrors = [] ∧ s.rules.length = 2 ∧
      List.Forall₂ (RuleReport.Tells resources (Provides resources s.rules)) s.rules
        (audit (Registry.ofResources resources) s).rules := by
  intro disk
  obtain ⟨resources, s, read, loaded, hp⟩ := exists_loaded disk ⟨"group.cs"⟩ ⟨"all.json"⟩ .group
    (fun _ s => s.syntaxErrors.isEmpty && s.rules.length == 2) (by decide +kernel)
  simp only [Bool.and_eq_true, List.isEmpty_iff, beq_iff_eq] at hp
  exact ⟨resources, s, read, loaded, hp.1, hp.2,
    (run_errored_iff_reaches_unserved disk ⟨.text, true⟩ _ _ _ read loaded hp.1).2 _ _ .inTurn⟩

/-- An instance is associated with a key of a provider that has neither resources nor rules: the
rule that follows the association is errored. -/
theorem errored_behind_association :
    let disk : Disk := .ofEntries [
      (⟨"rule.cs"⟩, .ok (.file (.ok
        "rule r on aws:ec2:instance \x7b assert \x7b >key \x7b size > 0 \x7d \x7d \x7d"))),
      (⟨"all.json"⟩, .ok (.file (.ok
        ("\x7b\"resources\": [\x7b\"type\": \"aws:ec2:instance\", \"id\": \"i\", " ++
          "\"associations\": \x7b\"key\": [\x7b\"type\": \"gcp:kms:key\", \"id\": \"k\"\x7d]" ++
          "\x7d\x7d]\x7d"))))]
    (∃ resources s, readInventory disk ⟨"all.json"⟩ = .ok resources ∧
      Specification.load disk (Registry.ofResources resources).catalogue ⟨"rule.cs"⟩ .rule
        defaultMaxErrors = .ok s ∧ s.syntaxErrors = [] ∧
      ∃ report ∈ (audit (Registry.ofResources resources) s).rules, report.standing = .errored) ∧
    run disk ⟨.text, false⟩ ⟨"rule.cs"⟩ ⟨"all.json"⟩ .rule =
      { exitCode := 1
        output := "ERROR r (aws:ec2:instance, 0 checked)\n" ++
          "      no provider registered for 'gcp'\n0 passed, 0 failed, 1 errored\n"
        errors := "" } := by
  intro disk
  refine ⟨?_, by decide +kernel⟩
  obtain ⟨resources, s, read, loaded, hp⟩ := exists_loaded disk ⟨"rule.cs"⟩ ⟨"all.json"⟩ .rule
    (fun resources s => s.syntaxErrors.isEmpty &&
      (audit (Registry.ofResources resources) s).rules.any (·.standing = .errored))
    (by decide +kernel)
  simp only [Bool.and_eq_true, List.isEmpty_iff, List.any_eq_true, decide_eq_true_eq] at hp
  exact ⟨resources, s, read, loaded, hp.1, hp.2⟩

end Compliance.Command
