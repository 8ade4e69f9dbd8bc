import Compliance.Proofs.Predicate.Built

/-!
# Negated operators

An operator with `not` or `!` in its text is made with the operands of the plain
one, and there are two ways in which it can be the negation.  The operators for
nullness, equality and membership are negated plainly: of any candidate exactly
one of the two forms holds.  All other operators are about candidates of one kind,
their subject.  There the negated form is the complement among these candidates,
and neither form holds of anything else, in particular not of what is absent.

## Main definitions

* `Subject`, `Predicate.subject?` — the candidates that a predicate is about.
* `Operator.negated?` — the negated form of an operator.
* `Predicate.holdsOf_of_negates` — how the two forms are related, for all predicates.
* `Predicate.negated_within_subject` — the same for all that operators make of operands, with
  what this means for dates.
-/

namespace Compliance

/-! ## Subjects -/

/-- The candidates that a typed operator is about. -/
inductive Subject where
  | number
  | string
  /-- Strings that denote an address, blanks around it dropped. -/
  | address
  | date
deriving DecidableEq, Repr

/-- Whether a value is one of the candidates. -/
def Subject.has : Subject → Value → Bool
  | .number, v => v.number?.isSome
  | .string, v => v.string?.isSome
  | .address, v => (Predicate.address? v).isSome
  | .date, v => v.date?.isSome

theorem Subject.has_null (s : Subject) : s.has .null = false := by
  cases s <;> rfl

/-- The candidates that a predicate is about; those for nullness, equality and membership are about
all values. -/
def Predicate.subject? : Predicate → Option Subject
  | .null _ | .equals _ _ | .member _ _ => none
  | .number _ _ | .numberBetween _ _ => some .number
  | .empty _ | .string _ _ _ => some .string
  | .address _ _ | .network _ _ | .family _ => some .address
  | .date _ _ _ | .dateBetween _ _ => some .date

/-- The other side of a date. -/
def Side.opposite : Side → Side
  | .before => .after
  | .after => .before

/-- The negated form of a plain operator that has one.  Difference of addresses is no such form: it
is a comparison, as equality of addresses is. -/
def Operator.negated? : Operator → Option Operator
  | .null false => some (.null true)
  | .equals false => some (.equals true)
  | .member false => some (.member true)
  | .empty false => some (.empty true)
  | .string false place => some (.string true place)
  | .network false => some (.network true)
  | .date false side => some (.date true side)
  | _ => none

namespace Predicate

/-! ## Two forms of a predicate -/

/-- The second predicate is the negated form of the first, with the same operands. -/
inductive Negates : Predicate → Predicate → Prop
  | null : Negates (.null false) (.null true)
  | equals (v : Value) : Negates (.equals false v) (.equals true v)
  | member (vs : List Value) : Negates (.member false vs) (.member true vs)
  | empty : Negates (.empty false) (.empty true)
  | string (place : Occurrence) (part : String) :
    Negates (.string false place part) (.string true place part)
  | network (block : Network) : Negates (.network false block) (.network true block)
  | date (side : Side) (m : Moment) : Negates (.date false side m) (.date true side m)

variable {p q : Predicate} {v : Value} {candidate : Option Value}

theorem Negates.subject?_eq (h : Negates p q) : q.subject? = p.subject? := by
  cases h <;> rfl

/-- What a test negated inside its option says: where there is nothing to test both fail. -/
private theorem any_not {α : Type} (found : Option α) (test : α → Bool) :
    found.any (fun a => true ^^ test a) =
      (found.isSome && !found.any fun a => false ^^ test a) := by
  cases found <;> simp

/-- **The negated form is the complement among the candidates that a predicate is about.** -/
theorem holdsOf_of_negates (h : Negates p q) (v : Value) :
    q.holdsOf v = (p.subject?.all (·.has v) && !p.holdsOf v) := by
  cases h with
  | null | equals | member => simp [holdsOf, subject?]
  | empty | string | network | date => exact any_not _ _

/-- **A typed predicate holds of nothing but the candidates that it is about.** -/
theorem has_of_holdsOf (h : p.holdsOf v = true) {s : Subject} (typed : p.subject? = some s) :
    s.has v = true := by
  cases p with
  | null | equals | member => cases typed
  | number | address =>
    cases typed
    exact Option.isSome_of_isSome_bind (Option.isSome_of_any h)
  | numberBetween =>
    cases typed
    have low := (Bool.and_eq_true_iff.mp h).1
    exact Option.isSome_of_isSome_bind (Option.isSome_of_any low)
  | empty | string | network | family | date | dateBetween =>
    cases typed
    exact Option.isSome_of_any h

/-! ## Dates -/

/-- Not to lie on a side of a date is to lie on the other one, or to be the same instant. -/
theorem holdsOf_date_not (side : Side) (m : Moment) (v : Value) :
    (Predicate.date true side m).holdsOf v = true ↔
      (Predicate.date false side.opposite m).holdsOf v = true ∨
        ∃ d, v = .date d ∧ d.instant = m.instant := by
  cases v with
  | date d =>
    have order : (true ^^ side.holds (d.compare m)) =
        (side.opposite.holds (d.compare m) || (d.compare m).isEq) := by
      cases side <;> cases d.compare m <;> rfl
    have equal : (d.compare m).isEq = true ↔ d.instant = m.instant := by
      rw [Ordering.isEq_iff_eq_eq]
      exact Std.LawfulEqOrd.compare_eq_iff_eq
    simp only [holdsOf, Value.date?, Option.any_some, order, Bool.false_xor, Bool.or_eq_true, equal,
      Value.date.injEq, exists_eq_left']
  | _ => simp [holdsOf, Value.date?]

/-- To lie between two dates is not to lie before the one and not to lie after the other. -/
theorem holdsOf_dateBetween (low high : Moment) (v : Value) :
    (Predicate.dateBetween low high).holdsOf v =
      ((Predicate.date true .before low).holdsOf v &&
        (Predicate.date true .after high).holdsOf v) := by
  have order (o : Ordering) : (true ^^ Side.before.holds o) = o.isGE ∧
      (true ^^ Side.after.holds o) = o.isLE := by
    cases o <;> exact ⟨rfl, rfl⟩
  cases v with
  | date d =>
    simp only [holdsOf, Value.date?, Option.any_some, (order _).1, (order _).2]
  | _ => rfl

/-! ## Operators -/

variable {op op' : Operator} {operands : List Value}

/-- **The negated operator takes the operands of the plain one**, and its predicate is the negated
form of the other. -/
theorem Built.negated (h : Built op operands p) (pair : op.negated? = some op') :
    ∃ q, build op' operands = .ok q ∧ Negates p q := by
  cases h with
  | null negated =>
    cases negated <;> cases pair
    exact ⟨_, (Built.null true).build_eq_ok, .null⟩
  | equals negated v =>
    cases negated <;> cases pair
    exact ⟨_, (Built.equals true v).build_eq_ok, .equals v⟩
  | member negated =>
    cases negated <;> cases pair
    exact ⟨_, (Built.member true operands).build_eq_ok, .member operands⟩
  | empty negated =>
    cases negated <;> cases pair
    exact ⟨_, (Built.empty true).build_eq_ok, .empty⟩
  | string negated place part =>
    cases negated <;> cases pair
    exact ⟨_, (Built.string true place part).build_eq_ok, .string place part⟩
  | network negated read =>
    cases negated <;> cases pair
    exact ⟨_, (Built.network true read).build_eq_ok, .network _⟩
  | date negated side m =>
    cases negated <;> cases pair
    exact ⟨_, (Built.date true side m).build_eq_ok, .date side m⟩
  | dateText negated side read =>
    cases negated <;> cases pair
    exact ⟨_, (Built.dateText true side read).build_eq_ok, .date side _⟩
  | number | numberBetween | dateBetween | switch | address | family => cases pair

/-- A date operator makes its predicate of the operands of the other side, too. -/
theorem Built.opposite {side : Side} (h : Built (.date true side) operands p) :
    ∃ m, p = .date true side m ∧
      build (.date false side.opposite) operands = .ok (.date false side.opposite m) := by
  cases h with
  | date _ _ m => exact ⟨m, rfl, (Built.date false _ m).build_eq_ok⟩
  | dateText _ _ read => exact ⟨_, rfl, (Built.dateText false _ read).build_eq_ok⟩

/-- **Negated operators keep to the candidates that they are about.**  An absent candidate counts as
null.  A typed predicate holds of no candidate of another kind, null included.  The negated operator
makes a predicate of the same operands.  It is the exact complement where the operator is about all
values; a typed one is the complement among its candidates, and neither form holds of another.  Not
to lie on a side of a date is to lie on the other or to be the same instant, and a range of dates
excludes what lies before the first and after the second. -/
theorem negated_within_subject (built : build op operands = .ok p) (candidate : Option Value) :
    p.holds none = p.holds (some .null) ∧
    (∀ s, p.subject? = some s → (s.has (candidate.getD .null) = false → p.holds candidate = false) ∧
      p.holds none = false) ∧
    (∀ op', op.negated? = some op' → ∃ q, build op' operands = .ok q ∧
      (p.subject? = none → q.holds candidate = !p.holds candidate) ∧
      ∀ s, p.subject? = some s →
        (s.has (candidate.getD .null) = true → q.holds candidate = !p.holds candidate) ∧
        (s.has (candidate.getD .null) = false →
          p.holds candidate = false ∧ q.holds candidate = false)) ∧
    (∀ side, op = .date true side → ∃ m q, p = .date true side m ∧
      build (.date false side.opposite) operands = .ok q ∧
      (p.holds candidate = true ↔ q.holds candidate = true ∨
        ∃ d, candidate = some (.date d) ∧ d.instant = m.instant)) ∧
    (∀ low high : Moment, operands = [.date low, .date high] → op = .between → ∃ q r,
      build (.date true .before) [.date low] = .ok q ∧
      build (.date true .after) [.date high] = .ok r ∧
      p.holds candidate = (q.holds candidate && r.holds candidate)) := by
  have shape := built_of_build built
  have elsewhere {p : Predicate} {s : Subject} {v : Value} (typed : p.subject? = some s)
      (other : s.has v = false) : p.holdsOf v = false := by
    rw [← Bool.not_eq_true]
    intro holds
    rw [has_of_holdsOf holds typed] at other
    cases other
  refine ⟨rfl, fun s typed => ⟨elsewhere typed, elsewhere typed s.has_null⟩, fun op' pair => ?_,
    ?_, ?_⟩
  · obtain ⟨q, made, negates⟩ := shape.negated pair
    have both := holdsOf_of_negates negates (candidate.getD .null)
    refine ⟨q, made, fun untyped => ?_, fun s typed => ⟨fun inside => ?_, fun other => ?_⟩⟩
    · simpa [holds, untyped] using both
    · simpa [holds, typed, inside] using both
    · exact ⟨elsewhere typed other, elsewhere (negates.subject?_eq.trans typed) other⟩
  · rintro side rfl
    obtain ⟨m, rfl, made⟩ := shape.opposite
    refine ⟨m, _, rfl, made, (holdsOf_date_not side m _).trans (or_congr Iff.rfl ?_)⟩
    cases candidate <;> simp
  · rintro low high rfl rfl
    cases shape
    exact ⟨_, _, rfl, rfl, holdsOf_dateBetween low high _⟩

/-- A bucket's name is looked at by its start: what is no string passes neither form. -/
theorem negated_within_subject_prod :
    ∃ p q : Predicate, build (.string false .atStart) [.string "prod-"] = .ok p ∧
      build (.string true .atStart) [.string "prod-"] = .ok q ∧
      q.holds (some (.string "dev-web")) = !p.holds (some (.string "dev-web")) ∧
      p.holds none = false ∧ q.holds none = false := by
  have built : build (.string false .atStart) [.string "prod-"] =
      .ok (.string false .atStart "prod-") := rfl
  obtain ⟨-, -, pair, -⟩ := negated_within_subject built (some (.string "dev-web"))
  obtain ⟨q, made, -, typed⟩ := pair _ rfl
  obtain ⟨-, -, absent, -⟩ := negated_within_subject built none
  obtain ⟨r, again, -, typedAbsent⟩ := absent _ rfl
  obtain rfl : q = r := Except.ok.inj (made.symm.trans again)
  exact ⟨_, q, built, made, (typed .string rfl).1 rfl, ((typedAbsent .string rfl).2 rfl).1,
    ((typedAbsent .string rfl).2 rfl).2⟩

end Predicate

end Compliance
