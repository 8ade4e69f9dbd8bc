import Compliance.Proofs.Keyed
import Compliance.Proofs.Resolution.Framed

/-!
# The innermost setting counts

Declarations lie inside each other, and each makes settings of its own.  What is in
effect for a name inside all of them is what the innermost one sets that sets it
validly, and there the last such setting.  The settings of a resolver, which are
merged from the outside in, come to the same.

## Main definitions

* `Declaration.Assignment.valueFor?` — the value that a valid `set` gives to a name.
* `Catalogue.effective?` — the value in effect inside some declarations.
* `Settings.get?_inherit` — the values of settings that are handed down.
* `Resolver.yields_settings` — the settings of a declaration have these values.
-/

namespace Compliance

/-! ## Settings as they are written -/

/-- The value that a `set` gives to a name, if it is valid: its key is the name, its value is one
that settings may hold, and if the catalogue declares the name, it declares the kind of the
value. -/
def Declaration.Assignment.valueFor? (catalogue : Catalogue) (ref : SettingRef)
    (s : Declaration.Assignment) : Option Scalar :=
  if SettingRef.read? s.key = some ref then
    (Scalar.ofValue? s.value).filter fun value => (catalogue ref).all (· = value.kind)
  else none

namespace Catalogue

/-- The value that the last valid `set` for a name gives to it. -/
def lastValue? (catalogue : Catalogue) (ref : SettingRef) (own : List Declaration.Assignment) :
    Option Scalar :=
  own.reverse.findSome? (·.valueFor? catalogue ref)

/-- The value of a name inside declarations that make settings, the innermost first: that of the
first of them that has a valid one for the name, and what is handed down from outside if none
has. -/
def effective? (catalogue : Catalogue) (top : Settings)
    (scopes : List (List Declaration.Assignment)) (ref : SettingRef) : Option Scalar :=
  (scopes.findSome? (catalogue.lastValue? ref)).or (top.get? ref)

theorem lastValue?_cons (catalogue : Catalogue) (ref : SettingRef) (s : Declaration.Assignment)
    (more : List Declaration.Assignment) : catalogue.lastValue? ref (s :: more) =
      (catalogue.lastValue? ref more).or (s.valueFor? catalogue ref) := by
  simp [lastValue?, List.findSome?_append]

theorem effective?_cons (catalogue : Catalogue) (top : Settings) (own : List Declaration.Assignment)
    (outer : List (List Declaration.Assignment)) (ref : SettingRef) :
    catalogue.effective? top (own :: outer) ref =
      (catalogue.lastValue? ref own).or (catalogue.effective? top outer ref) := by
  simp only [effective?, List.findSome?_cons]
  cases catalogue.lastValue? ref own <;> rfl

/-- A `set` of no value hides none further out, and of two there the last counts. -/
example :
    let here : Origin := ⟨"", 1⟩
    let inner : List Declaration.Assignment := [⟨"aws:region", .null, here⟩]
    let outer : List Declaration.Assignment :=
      [⟨"aws:region", .string "eu", here⟩, ⟨"aws:region", .string "us", here⟩]
    effective? (fun _ => none) .empty [inner, outer] ⟨"aws", "region"⟩ = some (.string "us") := by
  cbv

end Catalogue

/-! ## Settings handed down -/

namespace Settings

/-- Settings that are handed down have the values of the inner declaration where it has one. -/
theorem get?_inherit (outer inner : Settings) (ref : SettingRef) :
    (outer.inherit inner).get? ref = (inner.get? ref).or (outer.get? ref) := by
  obtain ⟨entries, ordered⟩ := inner
  change (entries.foldl Settings.insert outer).get? ref = _
  induction entries generalizing outer with
  | nil => rfl
  | cons s more ih =>
    rw [List.foldl_cons, ih (outer.insert s) (List.pairwise_cons.mp ordered).2, get?_insert]
    by_cases same : s.ref = ref
    · subst same
      have last : more.find? (·.ref = s.ref) = none := Keyed.Ordered.find?_behind ordered
      simp [get?, last]
    · simp [get?, same]

end Settings

/-! ## Settings of a declaration -/

namespace Resolver

open Resolving

variable (r : Resolver)

/-- The issues of settings that are not valid, in order. -/
def settingIssues (own : List Declaration.Assignment) : List Issue :=
  own.filterMap fun s =>
    match r.setting s with
    | .ok _ => none
    | .error issue => some issue

/-- A `set` that is accepted gives its value to its name and to no other, and one that is not gives
none. -/
theorem valueFor?_eq (s : Declaration.Assignment) (ref : SettingRef) :
    s.valueFor? r.catalogue ref = match r.setting s with
      | .ok setting => if setting.ref = ref then some setting.value else none
      | .error _ => none := by
  simp only [Declaration.Assignment.valueFor?, setting]
  cases SettingRef.read? s.key with
  | none => rfl
  | some own =>
    cases Scalar.ofValue? s.value with
    | none => simp
    | some value =>
      by_cases same : own = ref
      · subst same
        cases declared : r.catalogue own with
        | none => simp [declared]
        | some kind => by_cases kinds : kind = value.kind <;> simp [declared, kinds]
      · cases declared : r.catalogue own with
        | none => simp [same, declared]
        | some kind => by_cases kinds : kind = value.kind <;> simp [same, declared, kinds]

/-- Settings that are added one by one come to the last valid one for each name. -/
theorem yields_ownSettings (active : List Path) (own : Settings)
    (ss : List Declaration.Assignment) :
    ∃ settings, Yields (r.ownSettings own ss) active settings (r.settingIssues ss) ∧
      ∀ ref, settings.get? ref = (r.catalogue.lastValue? ref ss).or (own.get? ref) := by
  induction ss generalizing own with
  | nil => exact ⟨own, yields_pure, fun ref => rfl⟩
  | cons s more ih =>
    have value := fun ref => r.valueFor?_eq s ref
    cases accepted : r.setting s with
    | ok setting =>
      simp only [accepted] at value
      obtain ⟨settings, yields, values⟩ := ih (own.insert setting)
      refine ⟨settings, ?_, fun ref => ?_⟩
      · simpa only [ownSettings, settingIssues, List.filterMap_cons, accepted] using yields
      · rw [values, Catalogue.lastValue?_cons, value, Settings.get?_insert, Option.or_assoc]
        split <;> rfl
    | error issue =>
      simp only [accepted] at value
      obtain ⟨settings, yields, values⟩ := ih own
      refine ⟨settings, ?_, fun ref => ?_⟩
      · have all := (yields_report issue).bind (k := fun _ => r.ownSettings own more) yields
        simpa only [ownSettings, settingIssues, List.filterMap_cons, accepted,
          List.singleton_append] using all
      · rw [values, Catalogue.lastValue?_cons, value, Option.or_none]

/-- **The settings of a declaration are those in effect inside it**, if what is handed down to it is
in effect around it. -/
theorem yields_settings (active : List Path) {top inherited : Settings}
    {outer : List (List Declaration.Assignment)}
    (h : ∀ ref, inherited.get? ref = r.catalogue.effective? top outer ref)
    (own : List Declaration.Assignment) :
    ∃ settings, Yields (r.settings inherited own) active settings (r.settingIssues own) ∧
      ∀ ref, settings.get? ref = r.catalogue.effective? top (own :: outer) ref := by
  obtain ⟨settings, yields, values⟩ := r.yields_ownSettings active .empty own
  refine ⟨inherited.inherit settings, ?_, fun ref => ?_⟩
  · have all := yields.bind (k := fun own => pure (inherited.inherit own)) yields_pure
    rwa [List.append_nil] at all
  · rw [Settings.get?_inherit, values, Settings.get?_empty, Option.or_none, h,
      Catalogue.effective?_cons]

end Resolver

end Compliance
