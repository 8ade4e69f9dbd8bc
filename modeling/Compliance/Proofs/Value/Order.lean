import Compliance.Predicate
import Compliance.Proofs.Binary64.Nearest

/-!
# The order of numbers

Integers are compared exactly, and any other two numbers by their nearest
binary64 numbers.  As rounding keeps order, the two rules agree, except that
several integers may share a nearest number: a floating number that equals them
all does not tell which of them is larger.  There, and nowhere else, the order is
not transitive, equality of values is not either, and a bound that is replaced by
an equal one may have another effect.

## Main definitions

* `Number.Blurred a b c` — two different integers with a floating number that equals both.
* `Number.AtMost a b` — `a` is compared with `b` and is not larger.
* `Predicate.Rebound m n p q` — `q` is `p` with the bound `n` in place of `m`.
* `Number.order_consistent_unless_blurred` — what holds of the order but where integers are blurred.
-/

namespace Compliance

namespace Number

/-- A number that has a place in the order: any but the one that is no number. -/
def Comparable (n : Number) : Prop := n.toBinary64.isNan = false

/-- Where a number stands among binary64 numbers. -/
def rank (n : Number) : Int := n.toBinary64.rank

/-- The first number is compared with the second and is not larger. -/
def AtMost (a b : Number) : Prop := (a.compare? b).any Ordering.isLE = true

/-- Two different integers, and between them a floating number that equals both. -/
def Blurred : Number → Number → Number → Prop
  | .int i, .float x, .int j =>
    i ≠ j ∧ agrees (.int i) (.float x) = true ∧ agrees (.int j) (.float x) = true
  | _, _, _ => False

instance (n : Number) : Decidable n.Comparable := inferInstanceAs (Decidable (_ = false))

instance (a b : Number) : Decidable (a.AtMost b) := inferInstanceAs (Decidable (_ = true))

variable {a b c m n : Number} {i j k : Int64} {x : Binary64}

/-! ## Comparing two numbers -/

theorem comparable_int (i : Int64) : Comparable (.int i) := Binary64.isNan_signed _ _

theorem compare?_int (i j : Int64) :
    compare? (.int i) (.int j) = some (Ord.compare i.toInt j.toInt) := rfl

/-- Where one number is floating, numbers are compared where they stand. -/
theorem compare?_of_float (ha : a.Comparable) (hb : b.Comparable)
    (mixed : (∃ x, a = .float x) ∨ ∃ x, b = .float x) :
    a.compare? b = some (Ord.compare a.rank b.rank) := by
  have known : a.toBinary64.compare? b.toBinary64 = some (Ord.compare a.rank b.rank) := by
    rw [Binary64.compare?, ha, hb]
    rfl
  cases a with
  | float x => exact known
  | int i =>
    cases b with
    | float y => exact known
    | int j => simp at mixed

theorem comparable_of_compare? {o : Ordering} (h : a.compare? b = some o) :
    a.Comparable ∧ b.Comparable := by
  have known : ∀ x y : Binary64, x.compare? y = some o → x.isNan = false ∧ y.isNan = false := by
    intro x y h
    rw [Binary64.compare?] at h
    split at h
    · cases h
    · next both => simpa using both
  cases a with
  | float x => exact known _ _ h
  | int i =>
    cases b with
    | float y => exact known _ _ h
    | int j => exact ⟨comparable_int i, comparable_int j⟩

/-- **Comparing the other way round gives the reverse order**, or none either way. -/
theorem compare?_swap (a b : Number) : b.compare? a = (a.compare? b).map Ordering.swap := by
  have known : ∀ x y : Binary64, y.compare? x = (x.compare? y).map Ordering.swap := by
    intro x y
    rw [Binary64.compare?, Binary64.compare?, Bool.or_comm, ← Int.compare_swap]
    split <;> rfl
  cases a with
  | float x => cases b <;> exact known _ _
  | int i =>
    cases b with
    | float y => exact known _ _
    | int j =>
      rw [compare?_int, compare?_int, ← Int.compare_swap]
      rfl

theorem exists_compare? (ha : a.Comparable) (hb : b.Comparable) : ∃ o, a.compare? b = some o := by
  cases a with
  | float x => exact ⟨_, compare?_of_float ha hb (.inl ⟨x, rfl⟩)⟩
  | int i =>
    cases b with
    | float y => exact ⟨_, compare?_of_float ha hb (.inr ⟨y, rfl⟩)⟩
    | int j => exact ⟨_, rfl⟩

/-! ## Where numbers stand -/

/-- Integers stand where their order puts them, or in one place. -/
theorem rank_int_mono (h : i.toInt ≤ j.toInt) : rank (.int i) ≤ rank (.int j) :=
  Binary64.rank_ofInt_mono h

/-- A number that is not larger does not stand higher. -/
theorem rank_le_of_atMost (h : a.AtMost b) : a.rank ≤ b.rank := by
  rw [AtMost, Option.any_eq_true] at h
  obtain ⟨o, compared, le⟩ := h
  obtain ⟨ha, hb⟩ := comparable_of_compare? compared
  by_cases mixed : (∃ x, a = .float x) ∨ ∃ x, b = .float x
  · rw [compare?_of_float ha hb mixed] at compared
    obtain rfl := Option.some.inj compared
    exact Int.isLE_compare.mp le
  · cases a with
    | float x => exact absurd (.inl ⟨x, rfl⟩) mixed
    | int i =>
      cases b with
      | float y => exact absurd (.inr ⟨y, rfl⟩) mixed
      | int j =>
        obtain rfl := Option.some.inj compared
        exact rank_int_mono (Int.isLE_compare.mp le)

theorem comparable_of_atMost (h : a.AtMost b) : a.Comparable ∧ b.Comparable := by
  rw [AtMost, Option.any_eq_true] at h
  obtain ⟨o, compared, -⟩ := h
  exact comparable_of_compare? compared

theorem atMost_int : AtMost (.int i) (.int j) ↔ i.toInt ≤ j.toInt := by
  rw [AtMost, compare?_int, Option.any_some, Int.isLE_compare]

theorem atMost_of_float (ha : a.Comparable) (hb : b.Comparable)
    (mixed : (∃ x, a = .float x) ∨ ∃ x, b = .float x) (h : a.rank ≤ b.rank) : a.AtMost b := by
  rw [AtMost, compare?_of_float ha hb mixed, Option.any_some, Int.isLE_compare]
  exact h

theorem agrees_iff : a.agrees b = true ↔ a.compare? b = some .eq := by
  rw [agrees, beq_iff_eq]

theorem agrees_comm (a b : Number) : a.agrees b = b.agrees a := by
  rw [Bool.eq_iff_iff, agrees_iff, agrees_iff, compare?_swap]
  cases b.compare? a with
  | none => simp
  | some o => cases o <;> simp

theorem agrees_int : agrees (.int i) (.int j) = true ↔ i = j := by
  rw [agrees_iff, compare?_int, Option.some.injEq, Int.compare_eq_eq, Int64.toInt_inj]

/-- An integer equals a floating number that stands in its place. -/
theorem agrees_int_float : agrees (.int i) (.float x) = true ↔
    Comparable (.float x) ∧ rank (.int i) = rank (.float x) := by
  rw [agrees_iff]
  constructor
  · intro compared
    obtain ⟨hi, hx⟩ := comparable_of_compare? compared
    rw [compare?_of_float hi hx (.inr ⟨x, rfl⟩), Option.some.injEq, Int.compare_eq_eq] at compared
    exact ⟨hx, compared⟩
  · rintro ⟨hx, same⟩
    rw [compare?_of_float (comparable_int i) hx (.inr ⟨x, rfl⟩), same, Option.some.injEq,
      Int.compare_eq_eq]

theorem rank_eq_of_agrees (h : a.agrees b = true) : a.rank = b.rank := by
  have back := h
  rw [agrees_comm] at back
  rw [agrees_iff] at h back
  refine Int.le_antisymm (rank_le_of_atMost ?_) (rank_le_of_atMost ?_)
  · rw [AtMost, h]
    rfl
  · rw [AtMost, back]
    rfl

theorem agrees_self (h : a.Comparable) : a.agrees a = true := by
  cases a with
  | int i => exact agrees_int.mpr rfl
  | float x =>
    rw [agrees_iff, compare?_of_float h h (.inl ⟨x, rfl⟩), Option.some.injEq, Int.compare_eq_eq]

/-! ## Three numbers -/

/-- Different integers that are blurred have more than 53 bits, or are `2 ^ 53`. -/
theorem natAbs_of_blurred (h : Blurred (.int i) (.float x) (.int j)) :
    2 ^ 53 ≤ i.toInt.natAbs ∧ 2 ^ 53 ≤ j.toInt.natAbs := by
  obtain ⟨differ, hi, hj⟩ := h
  have differ' : i.toInt ≠ j.toInt := fun same => differ (Int64.toInt_inj.mp same)
  have same : rank (.int i) = rank (.int j) :=
    (agrees_int_float.mp hi).2.trans (agrees_int_float.mp hj).2.symm
  exact ⟨Binary64.natAbs_of_rank_ofInt_eq differ' same,
    Binary64.natAbs_of_rank_ofInt_eq differ'.symm same.symm⟩

/-- Only integers are blurred, and none of less than 53 bits. -/
theorem exists_int_of_blurred (h : Blurred a b c) :
    ∃ i j : Int64, a = .int i ∧ c = .int j ∧ i ≠ j ∧
      2 ^ 53 ≤ i.toInt.natAbs ∧ 2 ^ 53 ≤ j.toInt.natAbs := by
  unfold Blurred at h
  split at h
  · next i x j => exact ⟨i, j, rfl, rfl, h.1, natAbs_of_blurred h⟩
  · exact h.elim

/-- **The order is transitive unless integers are blurred.** -/
theorem atMost_trans (ab : a.AtMost b) (bc : b.AtMost c) : a.AtMost c ∨ Blurred a b c := by
  obtain ⟨ha, -⟩ := comparable_of_atMost ab
  obtain ⟨hb, hc⟩ := comparable_of_atMost bc
  have low := rank_le_of_atMost ab
  have high := rank_le_of_atMost bc
  cases a with
  | float x => exact .inl (atMost_of_float ha hc (.inl ⟨x, rfl⟩) (Int.le_trans low high))
  | int i =>
    cases c with
    | float x => exact .inl (atMost_of_float ha hc (.inr ⟨x, rfl⟩) (Int.le_trans low high))
    | int j =>
      rcases Int.lt_or_le j.toInt i.toInt with less | le
      · cases b with
        | int k =>
          rw [atMost_int] at ab bc
          omega
        | float x =>
          -- all three stand in one place, as the larger integer stands no lower
          have back := rank_int_mono (Int.le_of_lt less)
          refine .inr ⟨?_, agrees_int_float.mpr ⟨hb, by omega⟩, agrees_int_float.mpr ⟨hb, by omega⟩⟩
          rintro rfl
          exact Int.lt_irrefl _ less
      · exact .inl (atMost_int.mpr le)

/-- Blurred integers are in order both ways with the floating number, but not with each other. -/
theorem atMost_of_blurred (h : Blurred a b c) :
    a.AtMost b ∧ b.AtMost c ∧ ¬ (a.AtMost c ∧ c.AtMost a) := by
  unfold Blurred at h
  split at h
  · next i x j =>
    obtain ⟨differ, hi, hj⟩ := h
    obtain ⟨hx, hi⟩ := agrees_int_float.mp hi
    obtain ⟨-, hj⟩ := agrees_int_float.mp hj
    refine ⟨atMost_of_float (comparable_int i) hx (.inr ⟨x, rfl⟩) (Int.le_of_eq hi),
      atMost_of_float hx (comparable_int j) (.inl ⟨x, rfl⟩) (Int.le_of_eq hj.symm), ?_⟩
    rw [atMost_int, atMost_int]
    rintro ⟨le, ge⟩
    exact differ (Int64.toInt_inj.mp (Int.le_antisymm le ge))
  · exact h.elim

/-- An integer compares with an integer as with a floating number that equals this. -/
private theorem compare?_int_of_agrees (h : agrees (.int j) (.float x) = true)
    (sharp : ¬ Blurred (.int k) (.float x) (.int j)) :
    compare? (.int k) (.int j) = compare? (.int k) (.float x) := by
  obtain ⟨hx, place⟩ := agrees_int_float.mp h
  rw [compare?_int, compare?_of_float (comparable_int k) hx (.inr ⟨x, rfl⟩), Option.some.injEq,
    ← place]
  by_cases same : k = j
  · rw [same, Int.compare_eq_eq.mpr rfl, Int.compare_eq_eq.mpr rfl]
  · have apart : rank (.int k) ≠ rank (.int j) := fun hk =>
      sharp ⟨same, agrees_int_float.mpr ⟨hx, hk.trans place⟩, h⟩
    rcases Int.lt_or_le k.toInt j.toInt with less | le
    · have := rank_int_mono (Int.le_of_lt less)
      rw [Int.compare_eq_lt.mpr less, Int.compare_eq_lt.mpr (by omega)]
    · have := rank_int_mono le
      have more : j.toInt < k.toInt := by
        have differ : k.toInt ≠ j.toInt := fun hk => same (Int64.toInt_inj.mp hk)
        omega
      rw [Int.compare_eq_gt.mpr more, Int.compare_eq_gt.mpr (by omega)]

/-- Only where the two integers are blurred does it matter with which of the two one compares. -/
private theorem compare?_int_iff (h : agrees (.int j) (.float x) = true) :
    compare? (.int k) (.int j) = compare? (.int k) (.float x) ↔
      ¬ Blurred (.int k) (.float x) (.int j) := by
  refine ⟨?_, compare?_int_of_agrees h⟩
  rintro alike ⟨differ, hk, -⟩
  rw [agrees_iff.mp hk, ← agrees_iff] at alike
  exact differ (agrees_int.mp alike)

/-- **Equal numbers compare alike** with a third one, exactly unless integers are blurred. -/
theorem compare?_eq_iff (h : m.agrees n = true) :
    a.compare? m = a.compare? n ↔ ¬ (Blurred a m n ∨ Blurred a n m) := by
  obtain ⟨hm, hn⟩ := comparable_of_compare? (agrees_iff.mp h)
  have place := rank_eq_of_agrees h
  have both (ha : a.Comparable) (hm' : (∃ x, a = .float x) ∨ ∃ x, m = .float x)
      (hn' : (∃ x, a = .float x) ∨ ∃ x, n = .float x) : a.compare? m = a.compare? n := by
    rw [compare?_of_float ha hm hm', compare?_of_float ha hn hn', place]
  cases a with
  | float x =>
    simp only [Blurred, or_self, not_false_eq_true, iff_true]
    by_cases hx : Comparable (.float x)
    · exact both hx (.inl ⟨x, rfl⟩) (.inl ⟨x, rfl⟩)
    · have lost (b : Number) : compare? (.float x) b = none := by
        rw [Option.eq_none_iff_forall_ne_some]
        exact fun o compared => hx (comparable_of_compare? compared).1
      rw [lost, lost]
  | int k =>
    have hk := comparable_int k
    cases m with
    | int i =>
      cases n with
      | int j => simp [agrees_int.mp h, Blurred]
      | float y => simpa [Blurred] using compare?_int_iff h
    | float x =>
      cases n with
      | int j =>
        rw [agrees_comm] at h
        rw [eq_comm, compare?_int_iff h]
        simp [Blurred]
      | float y => simpa [Blurred] using both hk (.inr ⟨x, rfl⟩) (.inr ⟨y, rfl⟩)

/-- A blurred integer equals the floating number, but not the other integer. -/
theorem agrees_of_blurred (h : Blurred a b c) : a.agrees b = true ∧ a.agrees c = false := by
  unfold Blurred at h
  split at h
  · exact ⟨h.2.1, Bool.eq_false_iff.mpr fun same => h.1 (agrees_int.mp same)⟩
  · exact h.elim

/-- A third number equals both of two equal ones or neither. -/
theorem agrees_eq_iff (h : m.agrees n = true) :
    a.agrees m = a.agrees n ↔ ¬ (Blurred a m n ∨ Blurred a n m) := by
  refine ⟨?_, fun sharp => by rw [agrees, agrees, (compare?_eq_iff h).mpr sharp]⟩
  rintro alike (blur | blur)
  all_goals
    obtain ⟨one, other⟩ := agrees_of_blurred blur
    rw [one, other] at alike
    cases alike

end Number

/-! ## Values -/

namespace Value

/-- A value that is compared with itself: any but the number that is no number. -/
def Comparable : Value → Prop
  | .number n => n.Comparable
  | _ => True

/-- Two different integers, and between them a floating number that equals both. -/
def Blurred : Value → Value → Value → Prop
  | .number a, .number b, .number c => Number.Blurred a b c
  | _, _, _ => False

variable {u v w : Value}

theorem agrees_self (h : v.Comparable) : v.agrees v = true := by
  cases v with
  | number n => exact Number.agrees_self h
  | _ => simp [agrees, same, Moment.sameInstant]

theorem agrees_comm (u v : Value) : u.agrees v = v.agrees u := by
  cases u with
  | number a =>
    cases v with
    | number b => exact Number.agrees_comm a b
    | _ => rfl
  | _ => cases v <;> simp [agrees, same, Moment.sameInstant, Bool.beq_comm]

/-- **Equal values are equal to the same values**, exactly unless integers are blurred. -/
theorem agrees_eq_iff (h : v.agrees w = true) :
    u.agrees v = u.agrees w ↔ ¬ (Blurred u v w ∨ Blurred u w v) := by
  cases v with
  | number m =>
    cases w with
    | number n =>
      cases u with
      | number a => exact Number.agrees_eq_iff h
      | _ => simp [agrees, same, Blurred]
    | _ => simp [agrees, same] at h
  | _ =>
    cases w <;> simp only [agrees, same, Moment.sameInstant, beq_iff_eq, Bool.false_eq_true] at h
    all_goals cases u <;> simp [agrees, same, Moment.sameInstant, Blurred, h]

/-- Equality of values is transitive but where integers are blurred. -/
theorem agrees_trans_iff (uv : u.agrees v = true) (vw : v.agrees w = true) :
    u.agrees w = true ↔ ¬ Blurred u v w := by
  have never : ¬ Blurred u w v := by
    unfold Blurred
    split
    · exact fun blur => Bool.false_ne_true ((Number.agrees_of_blurred blur).2.symm.trans uv)
    · exact id
  rw [← uv, eq_comm, agrees_eq_iff vw, or_iff_left never]

end Value

/-! ## Bounds of predicates -/

namespace Predicate

variable {m n : Number} {p q : Predicate} {v : Value}

/-- The second predicate is the first with the bound `n` in place of the bound `m`. -/
inductive Rebound (m n : Number) : Predicate → Predicate → Prop
  | equals (negated : Bool) :
    Rebound m n (.equals negated (.number m)) (.equals negated (.number n))
  | member (negated : Bool) (front back : List Value) :
    Rebound m n (.member negated (front ++ .number m :: back))
      (.member negated (front ++ .number n :: back))
  | number (bound : Bound) : Rebound m n (.number bound m) (.number bound n)
  | low (high : Number) : Rebound m n (.numberBetween m high) (.numberBetween n high)
  | high (low : Number) : Rebound m n (.numberBetween low m) (.numberBetween low n)

/-- A number satisfies a bound as it does an equal one, unless integers are blurred. -/
private theorem numberIs_eq (h : m.agrees n = true)
    (sharp : ∀ a, v = .number a → ¬ (Number.Blurred a m n ∨ Number.Blurred a n m)) (bound : Bound) :
    numberIs bound m v = numberIs bound n v := by
  cases v with
  | number a => simp only [numberIs, Value.number?, Option.bind_some,
      (Number.compare?_eq_iff h).mpr (sharp a rfl)]
  | _ => rfl

/-- **A bound may be replaced by an equal one** for every value but a blurred integer. -/
theorem Rebound.holdsOf_eq (step : Rebound m n p q) (h : m.agrees n = true)
    (sharp : ∀ a, v = .number a → ¬ (Number.Blurred a m n ∨ Number.Blurred a n m)) :
    p.holdsOf v = q.holdsOf v := by
  have equal : v.agrees (.number m) = v.agrees (.number n) := by
    cases v with
    | number a => exact (Number.agrees_eq_iff h).mpr (sharp a rfl)
    | _ => rfl
  cases step with
  | equals negated => rw [holdsOf, holdsOf, equal]
  | member negated front back => simp only [holdsOf, List.any_append, List.any_cons, equal]
  | number bound => exact numberIs_eq h sharp bound
  | low high => rw [holdsOf, holdsOf, numberIs_eq h sharp]
  | high low => rw [holdsOf, holdsOf, numberIs_eq h sharp]

end Predicate

/-! ## The order as a whole -/

namespace Number

/-- The order of numbers is not transitive: a floating number may equal two integers.  Nor is the
equality of values, so that a bound and one that equals it may differ in what they let pass. -/
theorem order_not_transitive :
    let low : Number := .int 9007199254740992
    let middle : Number := .float (Binary64.ofInt 9007199254740992)
    let high : Number := .int 9007199254740993
    high.AtMost middle ∧ middle.AtMost low ∧ ¬ high.AtMost low ∧
      (Value.number middle).agrees (.number low) = true ∧
      (Predicate.equals false (.number middle)).holds (some (.number high)) = true ∧
      (Predicate.equals false (.number low)).holds (some (.number high)) = false := by
  decide +kernel

/-- **The order of numbers is consistent unless integers are blurred.**  Any two numbers that have
a place are compared, the other way round in reverse.  The order is transitive, and fails to be at
most between two different integers that a floating number equals, which have at least 53 bits.
Equality of values is reflexive and symmetric, and is transitive exactly where no integers are
blurred; and a bound may be replaced by one that equals it, with the same effect on every candidate
but an integer that is blurred with one of the two. -/
theorem order_consistent_unless_blurred {a b c m n : Number} {u v w : Value}
    (ha : a.Comparable) (hb : b.Comparable) (hu : u.Comparable) (hmn : m.agrees n = true) :
    (∃ o, a.compare? b = some o ∧ b.compare? a = some o.swap) ∧
    (a.AtMost b → b.AtMost c → a.AtMost c ∨ Blurred a b c) ∧
    (Blurred a b c →
      (∃ i j : Int64, a = .int i ∧ c = .int j ∧ i ≠ j ∧
        2 ^ 53 ≤ i.toInt.natAbs ∧ 2 ^ 53 ≤ j.toInt.natAbs) ∧
      a.AtMost b ∧ b.AtMost c ∧ ¬ (a.AtMost c ∧ c.AtMost a)) ∧
    u.agrees u = true ∧ u.agrees v = v.agrees u ∧
    (u.agrees v = true → v.agrees w = true → (u.agrees w = true ↔ ¬ Value.Blurred u v w)) ∧
    ∀ (p q : Predicate) (candidate : Option Value), Predicate.Rebound m n p q →
      (∀ k, candidate = some (.number k) → ¬ (Blurred k m n ∨ Blurred k n m)) →
      p.holds candidate = q.holds candidate := by
  obtain ⟨o, compared⟩ := exists_compare? ha hb
  refine ⟨⟨o, compared, by rw [compare?_swap, compared, Option.map_some]⟩, atMost_trans,
    fun blur => ⟨exists_int_of_blurred blur, atMost_of_blurred blur⟩, Value.agrees_self hu,
    Value.agrees_comm u v, Value.agrees_trans_iff, ?_⟩
  intro p q candidate step sharp
  refine step.holdsOf_eq hmn fun k known => sharp k ?_
  cases candidate with
  | none => cases known
  | some v => exact congrArg some known

/-- Two integers blurred beside `2 ^ 53`, and a small bound replaced by its floating form. -/
theorem order_consistent_at_two_pow :
    let low : Number := .int 9007199254740992
    let middle : Number := .float (Binary64.ofInt 9007199254740992)
    let high : Number := .int 9007199254740993
    (high.AtMost low ∨ Blurred high middle low) ∧
      ¬ (Value.number high).agrees (.number low) = true ∧
      (Predicate.numberBetween (.int 2) high).holds (some (.number (.int 2))) =
        (Predicate.numberBetween (.float (Binary64.ofInt 2)) high).holds
          (some (.number (.int 2))) := by
  intro low middle high
  have blur : Blurred high middle low := by
    refine ⟨by decide, ?_, ?_⟩ <;> decide +kernel
  obtain ⟨-, trans, -, -, -, equal, rebound⟩ :=
    @order_consistent_unless_blurred high middle low (.int 2) (.float (Binary64.ofInt 2))
      (.number high) (.number middle) (.number low) (by decide +kernel) (by decide +kernel)
      (show high.Comparable by decide +kernel) (by decide +kernel)
  refine ⟨trans (by decide +kernel) (by decide +kernel), fun same =>
    (equal (by decide +kernel) (by decide +kernel)).mp same blur, rebound _ _ _ (.low high) ?_⟩
  rintro _ ⟨⟩ (⟨⟨⟩⟩ | ⟨differ, -⟩)
  exact differ rfl

end Number

end Compliance
