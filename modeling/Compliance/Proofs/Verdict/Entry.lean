import Compliance.Verdict

/-!
# Entries of maps

A map is a nested property of one element, and its entries are the properties of
this element.  An entry can be asked for as such, `tags["owner"] …`, or as a
property of the element, `tags { owner … }`.  The two ways agree on an entry that
is scalar or absent.  They part where an entry is nested itself: as a property it
satisfies no predicate, while by its key it counts as absent, so that predicates
accept it which accept absence.

## Main definitions

* `Finding.holds_entry_of_single`, `Finding.holds_nested_of_single` — either way, on a map.
* `Finding.entry_agrees_iff` — on which entries, and for which predicates, the ways agree.
-/

namespace Compliance.Finding

variable {scope element : Attributes} {name : String}

/-- A statement on its own holds among others just if it holds. -/
theorem holds_ofStatements_singleton (store : Store) (place : String) (scope : Attributes)
    (s : Statement) :
    (ofStatements store place scope [s]).holds = (ofStatement store place scope s).holds := by
  rw [ofStatements, ofStatements, holds_both]
  exact Bool.and_true _

/-- What a predicate about a property says: nothing holds of a nested one, and otherwise it is
tested on the scalar, if there is one. -/
theorem holds_ofProperty (place : String) (p : Predicate) (property : Option Property) :
    (ofProperty place p property).holds = match property with
      | some (.nested _) => false
      | found => p.holds (found.bind PropertyOf.scalar?) := by
  rcases property with _ | _ | _ <;> rfl

/-- By its key, an entry of a map is the scalar that it is, if it is one. -/
theorem holds_entry_of_single (single : scope.property? name = some (.nested [element]))
    (store : Store) (place key : String) (p : Predicate) :
    (ofStatement store place scope (.entry name key p)).holds = p.holds (element.scalar? key) := by
  have first : [element].findSome? (·.scalar? key) = element.scalar? key := by
    rw [List.findSome?_cons, List.findSome?_nil]
    cases element.scalar? key <;> rfl
  rw [ofStatement, single, ofEntry, first]
  rfl

/-- Statements about a nested property of one element are about the element. -/
theorem holds_children_of_single (single : scope.property? name = some (.nested [element]))
    (store : Store) (place : String) (children : List Statement) :
    (ofStatement store place scope (.nested name children)).holds =
      (ofStatements store (below place name) element children).holds := by
  rw [ofStatement, single]
  simp only [placed, List.map_cons, List.map_nil, holds_all, List.all_cons, List.all_nil,
    Bool.and_true]

/-- As a property, an entry of a map is tested as any property is. -/
theorem holds_nested_of_single (single : scope.property? name = some (.nested [element]))
    (store : Store) (place key : String) (p : Predicate) :
    (ofStatement store place scope (.nested name [.property key p])).holds =
      match element.property? key with
      | some (.nested _) => false
      | found => p.holds (found.bind PropertyOf.scalar?) := by
  rw [holds_children_of_single single, holds_ofStatements_singleton, ofStatement,
    holds_ofProperty]

/-- **The two ways to ask for an entry of a map agree unless the entry is nested and the predicate
accepts absence.**  On a scalar or absent entry both test the scalar.  On a nested entry, which
satisfies no predicate as a property, the other way tests absence. -/
theorem entry_agrees_iff (single : scope.property? name = some (.nested [element])) (store : Store)
    (place key : String) (p : Predicate) :
    ((ofStatement store place scope (.entry name key p)).holds =
        (ofStatement store place scope (.nested name [.property key p])).holds ↔
      ¬ ((∃ elements, element.property? key = some (.nested elements)) ∧ p.holds none = true)) ∧
    (∀ elements, element.property? key = some (.nested elements) →
      (ofStatement store place scope (.nested name [.property key p])).holds = false ∧
        (ofStatement store place scope (.entry name key p)).holds = p.holds none) ∧
    ((∀ elements, element.property? key ≠ some (.nested elements)) →
      (ofStatement store place scope (.nested name [.property key p])).holds =
          p.holds (element.scalar? key) ∧
        (ofStatement store place scope (.entry name key p)).holds =
          p.holds (element.scalar? key)) := by
  have entry := holds_entry_of_single single store place key p
  have property := holds_nested_of_single single store place key p
  have scalar : element.scalar? key = (element.property? key).bind PropertyOf.scalar? := rfl
  rw [entry, property, scalar]
  rcases element.property? key with _ | v | elements
  · simp
  · simp
  · simp [PropertyOf.scalar?]

/-- An entry that is nested itself is null by its key, and not as a property. -/
theorem nested_entry_apart :
    let inner : Attributes := ⟨[("b", .value (.number (.int 1)))], []⟩
    let scope : Attributes := ⟨[("tags", .nested [⟨[("a", .nested [inner])], []⟩])], []⟩
    (ofStatement .empty "" scope (.entry "tags" "a" (.null false))).holds = true ∧
      (ofStatement .empty "" scope (.nested "tags" [.property "a" (.null false)])).holds =
        false := by
  decide +kernel

/-- Beside a nested entry, on which the ways part, a map has a scalar one and lacks the others. -/
theorem entry_agrees_iff_tags :
    let element : Attributes := ⟨[("a", .nested []), ("b", .value (.number (.int 1)))], []⟩
    let scope : Attributes := ⟨[("tags", .nested [element])], []⟩
    let entry (key : String) :=
      (ofStatement .empty "" scope (.entry "tags" key (.null false))).holds
    let property (key : String) :=
      (ofStatement .empty "" scope (.nested "tags" [.property key (.null false)])).holds
    scope.property? "tags" = some (.nested [element]) ∧
      entry "a" ≠ property "a" ∧ entry "b" = property "b" ∧ entry "c" = property "c" := by
  intro element scope entry property
  have single : scope.property? "tags" = some (.nested [element]) := rfl
  have agrees (key : String) := (entry_agrees_iff single .empty "" key (.null false)).1
  refine ⟨single, fun same => (agrees "a").mp same ⟨⟨[], rfl⟩, rfl⟩, (agrees "b").mpr ?_,
    (agrees "c").mpr ?_⟩
  · rintro ⟨⟨elements, nested⟩, -⟩
    cases nested
  · rintro ⟨⟨elements, nested⟩, -⟩
    cases nested

end Compliance.Finding
