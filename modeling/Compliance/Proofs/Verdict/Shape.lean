import Compliance.Verdict
import Mathlib.Data.List.Forall2
import Mathlib.Data.Option.Basic

/-!
# What is checked does not depend on what fails

Which checks a rule makes on a resource is a matter of the resource's shape: which
properties are there, which of them have elements and how many, and which resources
it is associated with.  Values decide whether checks pass, and nothing else.  So two
resources that differ in scalar values only have the same checks in the same order,
and no failure keeps another check from being made.

Resources may refer to each other in circles, and then there is no end to comparing
their shapes.  What is compared are therefore all attributes at once, by a relation
that never leads to attributes it does not relate.

## Main definitions

* `PropertyOf.Alike` — properties of the same shape.
* `Store.Matches store other R` — `R` relates attributes of the same shape, and so on behind
  their associations.
* `Attributes.SameShape` — attributes that differ in scalar values only.
* `Verdict.checks_of_sameShape` — resources of the same shape have the same checks.
-/

namespace Compliance

/-! ## Shapes -/

/-- Two properties are alike: both are absent, both are scalars, or both have elements, and as
many, that are related one by one. -/
inductive PropertyOf.Alike {α : Type} (R : α → α → Prop) :
    Option (PropertyOf α) → Option (PropertyOf α) → Prop
  | absent : Alike R none none
  | scalar (v w : Value) : Alike R (some (.value v)) (some (.value w))
  | nested {as bs : List α} : List.Forall₂ R as bs → Alike R (some (.nested as)) (some (.nested bs))

/-- A relation between the attributes of resources in one store and those in another keeps shapes:
related attributes have like properties and the same associations, and what these lead to is in both
stores or in neither, and is related again. -/
structure Store.Matches (store other : Store) (R : Attributes → Attributes → Prop) : Prop where
  properties : ∀ {a b}, R a b → ∀ name, PropertyOf.Alike R (a.property? name) (b.property? name)
  associations : ∀ {a b}, R a b → ∀ name, a.targets? name = b.targets? name
  associated : ∀ {a b}, R a b → ∀ {name targets}, a.targets? name = some targets →
    ∀ t ∈ targets, Option.Rel (fun x y : Resource => R x.attributes y.attributes)
      (store.cached? t) (other.cached? t)

/-- Attributes in two stores have the same shape. -/
def Attributes.SameShape (store other : Store) (a b : Attributes) : Prop :=
  ∃ R, store.Matches other R ∧ R a b

/-! ## Findings -/

namespace Finding

/-- Where checks were made, and what they expected. -/
def places (f : Finding) : List (String × String) := f.checks.map fun c => (c.path, c.expectation)

theorem places_both (a b : Finding) : (a.both b).places = a.places ++ b.places := by
  rw [places, checks_both, List.map_append]
  rfl

/-- Findings on several things are made in the same places if those on each of them are. -/
theorem places_all {α β : Type} {f : α → Finding} {g : β → Finding} {as : List α} {bs : List β}
    (h : List.Forall₂ (fun a b => (f a).places = (g b).places) as bs) :
    (all (as.map f)).places = (all (bs.map g)).places := by
  induction h with
  | nil => rfl
  | @cons a b as bs first _ ih =>
    have more (first others : Finding) : (first.both others).places = _ := places_both first others
    rw [List.map_cons, List.map_cons, all, List.foldr_cons, more, first]
    exact (congrArg ((g b).places ++ ·) ih).trans (more _ _).symm

variable {store other : Store} {R : Attributes → Attributes → Prop}

/-- A thing and its place are related to another in the same place. -/
def Beside (R : Attributes → Attributes → Prop) (x y : String × Attributes) : Prop :=
  x.1 = y.1 ∧ R x.2 y.2

theorem placed_beside {as bs : List Attributes} (h : List.Forall₂ R as bs) (place : String) :
    List.Forall₂ (Beside R) (placed place as) (placed place bs) := by
  have numbered (start : Nat) : List.Forall₂ (Beside R)
      ((as.zipIdx start).map fun p => (item place (Text.natText p.2), p.1))
      ((bs.zipIdx start).map fun p => (item place (Text.natText p.2), p.1)) := by
    induction h generalizing start with
    | nil => exact .nil
    | cons first _ ih => exact .cons ⟨rfl, first⟩ (ih (start + 1))
  cases h with
  | nil => exact .nil
  | cons first others =>
    cases others with
    | nil => exact .cons ⟨rfl, first⟩ .nil
    | cons => exact numbered 0

/-- Targets that both stores have, or neither, have the same places. -/
theorem placedTargets_beside {targets : List ResourceRef} (h : ∀ t ∈ targets,
      Option.Rel (fun x y : Resource => R x.attributes y.attributes)
        (store.cached? t) (other.cached? t)) (place : String) :
    List.Forall₂ (Beside R) (placedTargets store place targets)
      (placedTargets other place targets) := by
  induction targets with
  | nil => exact .nil
  | cons t more ih =>
    rw [List.forall_mem_cons] at h
    obtain ⟨first, others⟩ := h
    simp only [placedTargets, List.filterMap_cons]
    generalize store.cached? t = here, other.cached? t = there at first
    cases first with
    | none => exact ih others
    | some related => exact .cons ⟨rfl, related⟩ (ih others)

theorem places_ofProperty {p q : Option Property} (h : PropertyOf.Alike R p q) (place : String)
    (predicate : Predicate) :
    (ofProperty place predicate p).places = (ofProperty place predicate q).places := by
  cases h <;> rfl

theorem places_ofEntry {p q : Option Property} (h : PropertyOf.Alike R p q) (place key : String)
    (predicate : Predicate) :
    (ofEntry place key predicate p).places = (ofEntry place key predicate q).places := by
  cases h <;> rfl

mutual

theorem places_ofStatement (m : store.Matches other R) (place : String) {a b : Attributes}
    (h : R a b) :
    ∀ s : Statement, (ofStatement store place a s).places = (ofStatement other place b s).places
  | .property name predicate => by
    rw [ofStatement, ofStatement]
    exact places_ofProperty (m.properties h name) _ predicate
  | .entry name key predicate => by
    rw [ofStatement, ofStatement]
    exact places_ofEntry (m.properties h name) _ key predicate
  | .nested name children => by
    have like := m.properties h name
    rw [ofStatement, ofStatement]
    generalize a.property? name = p, b.property? name = q at like
    cases like with
    | absent => rfl
    | scalar v w => rfl
    | nested elements =>
      refine places_all ((placed_beside elements _).imp ?_)
      rintro ⟨spot, element⟩ ⟨_, other⟩ ⟨rfl, related⟩
      exact places_ofStatements m spot related children
  | .association name [] => by
    rw [ofStatement, ofStatement, m.associations h name]
  | .association name (child :: more) => by
    rw [ofStatement, ofStatement, ← m.associations h name]
    cases found : a.targets? name with
    | none => rfl
    | some targets =>
      refine places_all ((placedTargets_beside (m.associated h found) _).imp ?_)
      rintro ⟨spot, target⟩ ⟨_, other⟩ ⟨rfl, related⟩
      exact places_ofStatements m spot related (child :: more)

/-- **Statements make the same checks on attributes of the same shape**, whatever comes of them. -/
theorem places_ofStatements (m : store.Matches other R) (place : String) {a b : Attributes}
    (h : R a b) : ∀ ss : List Statement,
      (ofStatements store place a ss).places = (ofStatements other place b ss).places
  | [] => rfl
  | s :: more => by
    rw [ofStatements, ofStatements, places_both, places_both, places_ofStatement m place h s,
      places_ofStatements m place h more]

end

end Finding

/-! ## Verdicts -/

namespace Verdict

/-- The checks on a resource that a rule applies to are those of its assertions. -/
theorem checks_of {store : Store} {rule : Resolved.Rule} {resource : Resource}
    (applies : (of store rule resource).standing ≠ .skipped) :
    (of store rule resource).checks =
      (Finding.ofStatements store "" resource.attributes rule.assertions).checks := by
  rw [of] at applies ⊢
  split
  · rfl
  · next not => exact absurd (by rw [if_neg not]) applies

/-- **No statement keeps another from being checked.**

If two resources, each with a store, have the same shape, and a rule applies to both, then as many
checks were made on both, in the same places and in the same order, and with the same expectations.
Only whether they passed, and what was there, may differ. -/
theorem checks_of_sameShape {store other : Store} {rule : Resolved.Rule} {x y : Resource}
    (shape : Attributes.SameShape store other x.attributes y.attributes)
    (first : (of store rule x).standing ≠ .skipped)
    (second : (of other rule y).standing ≠ .skipped) :
    (of store rule x).checks.length = (of other rule y).checks.length ∧
      (of store rule x).checks.map (·.path) = (of other rule y).checks.map (·.path) ∧
      (of store rule x).checks.map (·.expectation) =
        (of other rule y).checks.map (·.expectation) := by
  obtain ⟨R, m, related⟩ := shape
  have same := Finding.places_ofStatements m "" related rule.assertions
  rw [Finding.places, Finding.places, ← checks_of first, ← checks_of second] at same
  refine ⟨?_, ?_, ?_⟩
  · simpa using congrArg List.length same
  · simpa [Function.comp_def] using congrArg (List.map Prod.fst) same
  · simpa [Function.comp_def] using congrArg (List.map Prod.snd) same

/-- Two buckets, each its own twin.  All checks on the one pass, and on the other those fail that
come first and last and one of two elements. -/
theorem checks_of_sameShape_twins :
    let bucket : ResourceRef := ⟨⟨"aws", "s3", "bucket"⟩, "b"⟩
    let disk (size : Int64) : Attributes := ⟨[("size", .value (.number (.int size)))], []⟩
    let made (on : Bool) (first second : Int64) : Attributes :=
      ⟨[("disks", .nested [disk first, disk second]), ("on", .value (.boolean on))],
        [("twin", [bucket])]⟩
    let x : Resource := ⟨bucket.type, "b", made true 8 16⟩
    let y : Resource := ⟨bucket.type, "b", made false 4 16⟩
    let store := Store.empty.keep bucket (.ok (some x))
    let other := Store.empty.keep bucket (.ok (some y))
    let on : Statement := .property "on" (.equals false (.boolean true))
    let rule : Resolved.Rule := ⟨"r", bucket.type, .empty, [],
      [on, .nested "disks" [.property "size" (.number .atLeast (.int 8))],
        .association "twin" [on]], ⟨"", 1⟩⟩
    Attributes.SameShape store other x.attributes y.attributes ∧
      (of store rule x).standing = .passed ∧ (of other rule y).standing = .failed ∧
      (of other rule y).checks.map (·.passed) = [false, false, true, false] ∧
      (of store rule x).checks.map (·.path) = (of other rule y).checks.map (·.path) := by
  intro bucket disk made x y store other on rule
  have one (size : Int64) (name : String) : (disk size).property? name =
      if name = "size" then some (.value (.number (.int size))) else none :=
    Named.get?_cons name "size" _ []
  have whole (on : Bool) (first second : Int64) (name : String) :
      (made on first second).property? name =
        if name = "disks" then some (.nested [disk first, disk second])
        else if name = "on" then some (.value (.boolean on)) else none :=
    (Named.get?_cons name "disks" _ _).trans (congrArg _ (Named.get?_cons name "on" _ []))
  let R (a b : Attributes) : Prop := (∃ m n, a = disk m ∧ b = disk n) ∨
    a = x.attributes ∧ b = y.attributes
  have shape : Attributes.SameShape store other x.attributes y.attributes := by
    refine ⟨R, ⟨?_, ?_, ?_⟩, .inr ⟨rfl, rfl⟩⟩
    · rintro _ _ (⟨m, n, rfl, rfl⟩ | ⟨rfl, rfl⟩) name
      · rw [one, one]
        split
        · exact .scalar _ _
        · exact .absent
      · rw [whole, whole]
        split
        · exact .nested (.cons (.inl ⟨_, _, rfl, rfl⟩) (.cons (.inl ⟨_, _, rfl, rfl⟩) .nil))
        · split
          · exact .scalar _ _
          · exact .absent
    · rintro _ _ (⟨m, n, rfl, rfl⟩ | ⟨rfl, rfl⟩) name <;> rfl
    · rintro _ _ (⟨m, n, rfl, rfl⟩ | ⟨rfl, rfl⟩) name targets found t ht
      · cases found
      · have twins : Attributes.targets? x.attributes name =
            if name = "twin" then some [bucket] else none := Named.get?_cons name "twin" _ []
        rw [twins] at found
        split at found <;> cases found
        obtain rfl := List.mem_singleton.mp ht
        exact .some (.inr ⟨rfl, rfl⟩)
  have passed : (of store rule x).standing = .passed := by decide +kernel
  have failed : (of other rule y).standing = .failed := by decide +kernel
  refine ⟨shape, passed, failed, by decide +kernel, ?_⟩
  exact (checks_of_sameShape shape (by simp [passed]) (by simp [failed])).2.1

end Verdict

end Compliance
