import Compliance.Proofs.Binary64.Rounding

/-!
# Rounding keeps order

Rounding a ratio to 53 bits and putting it at its scale gives a number of units,
were there magnitudes of any size; `round?` gives the magnitude with that number,
or none from the power of two above all magnitudes on.  That number grows with the
ratio, so the order of integers is never turned around by their nearest binary64
numbers, although different integers beyond `2 ^ 53` may have the same one.

## Main definitions

* `Magnitude.roundedUnits num den` — what a ratio is rounded to, in units.
* `Binary64.rank_ofInt_mono` — the nearest numbers of integers are ordered as these.
* `Binary64.rank_ofInt` — an integer up to `2 ^ 53` is its own nearest number.
* `Binary64.isFinite_ofDecimal` — which decimals are rounded to finite numbers.
-/

namespace Compliance

namespace Magnitude

/-! ## Whole numbers next to a ratio -/

theorem div_le_roundHalfEven (num den : Nat) : num / den ≤ roundHalfEven num den := by
  simp only [roundHalfEven]
  split
  · exact Nat.le_refl _
  · split
    · exact Nat.le_succ _
    · split <;> omega

theorem roundHalfEven_le_succ (num den : Nat) : roundHalfEven num den ≤ num / den + 1 := by
  simp only [roundHalfEven]
  split
  · exact Nat.le_succ _
  · split
    · exact Nat.le_refl _
    · split <;> omega

theorem roundHalfEven_of_lt {num den : Nat} (h : 2 * (num % den) < den) :
    roundHalfEven num den = num / den := if_pos h

theorem roundHalfEven_of_gt {num den : Nat} (h : den < 2 * (num % den)) :
    roundHalfEven num den = num / den + 1 := by
  simp only [roundHalfEven, if_neg (Nat.lt_asymm h), if_pos h]

theorem roundHalfEven_of_dvd {num den : Nat} (positive : 0 < den) (h : den ∣ num) :
    roundHalfEven num den = num / den := by
  refine roundHalfEven_of_lt ?_
  rw [Nat.mod_eq_zero_of_dvd h]
  exact positive

theorem roundHalfEven_mono {num num' : Nat} (den : Nat) (h : num ≤ num') :
    roundHalfEven num den ≤ roundHalfEven num' den := by
  have next := roundHalfEven_le_succ num den
  have quotient' := div_le_roundHalfEven num' den
  rcases Nat.lt_or_eq_of_le (Nat.div_le_div_right (c := den) h) with less | same
  · omega
  · -- between the same two numbers the remainders decide
    by_cases low : 2 * (num % den) < den
    · rw [roundHalfEven_of_lt low, same]
      exact quotient'
    · rcases Nat.lt_or_eq_of_le h with less | rfl
      · have whole := Nat.div_add_mod num den
        have whole' := Nat.div_add_mod num' den
        rw [same] at whole next
        rw [roundHalfEven_of_gt (show den < 2 * (num' % den) by omega)]
        exact next
      · exact Nat.le_refl _

/-- Exactly from the middle on a ratio is next to a number above an odd one. -/
theorem lt_roundHalfEven_iff {num den n : Nat} (odd : n % 2 = 1) (positive : 0 < den) :
    n < roundHalfEven num den ↔ (2 * n + 1) * den ≤ 2 * num := by
  have whole := Nat.div_add_mod num den
  have rest := Nat.mod_lt num positive
  have middle : (2 * n + 1) * den = 2 * (den * n) + den := by
    rw [Nat.succ_mul, Nat.mul_assoc, Nat.mul_comm n]
  have quotient := div_le_roundHalfEven num den
  have next := roundHalfEven_le_succ num den
  rw [middle]
  rcases Nat.lt_trichotomy (num / den) n with less | same | more
  · have : den * (num / den + 1) ≤ den * n := Nat.mul_le_mul_left _ less
    rw [Nat.mul_succ] at this
    omega
  · rw [same] at whole
    by_cases low : 2 * (num % den) < den
    · rw [roundHalfEven_of_lt low]
      omega
    · have up : roundHalfEven num den = num / den + 1 := by
        simp only [roundHalfEven, if_neg low, same, odd]
        simp
      omega
  · have : den * (n + 1) ≤ den * (num / den) := Nat.mul_le_mul_left _ more
    rw [Nat.mul_succ] at this
    omega

/-! ## Scales and significands -/

/-- The scale at which a ratio has 53 bits before the point, or the least one. -/
def scaleFor (num den : Nat) : Nat := (num / den).log2 - 52

/-- The whole number next to a ratio at its scale. -/
def significandFor (num den : Nat) : Nat := roundHalfEven num (den <<< scaleFor num den)

/-- What a ratio is rounded to, in units, were there magnitudes of any size. -/
def roundedUnits (num den : Nat) : Nat := significandFor num den <<< scaleFor num den

/-- At its scale a ratio has at most 53 bits before the point, and no fewer unless the scale is the
least. -/
theorem scaleFor_bounds (num den : Nat) : num / den < 2 ^ (53 + scaleFor num den) ∧
    (scaleFor num den = 0 ∨ 2 ^ (52 + scaleFor num den) ≤ num / den) := by
  have above : num / den < 2 ^ ((num / den).log2 + 1) := Nat.lt_log2_self
  have wide : 2 ^ ((num / den).log2 + 1) ≤ 2 ^ (53 + scaleFor num den) :=
    Nat.pow_le_pow_right (by decide) (by rw [scaleFor]; omega)
  refine ⟨Nat.lt_of_lt_of_le above wide, ?_⟩
  by_cases least : scaleFor num den = 0
  · exact Or.inl least
  · have nonzero : num / den ≠ 0 := by
      intro zero
      rw [scaleFor, zero, Nat.log2_zero] at least
      exact least rfl
    have same : 52 + scaleFor num den = (num / den).log2 := by
      rw [scaleFor] at least ⊢
      omega
    rw [same]
    exact Or.inr (Nat.log2_self_le nonzero)

/-- A significand has at most 53 bits or is `2 ^ 53`, and has no fewer unless the scale is the
least. -/
theorem significandFor_bounds (num den : Nat) : significandFor num den ≤ 2 ^ 53 ∧
    (scaleFor num den = 0 ∨ 2 ^ 52 ≤ significandFor num den) := by
  obtain ⟨high, low⟩ := scaleFor_bounds num den
  have quotient : num / (den <<< scaleFor num den) = num / den / 2 ^ scaleFor num den := by
    rw [Nat.shiftLeft_eq, Nat.div_div_eq_div_mul]
  have powered := Nat.two_pow_pos (scaleFor num den)
  rw [Nat.pow_add] at high
  have below : num / den / 2 ^ scaleFor num den < 2 ^ 53 := by
    rw [Nat.div_lt_iff_lt_mul powered]
    exact high
  refine ⟨?_, low.imp_right fun low => ?_⟩
  · have next := roundHalfEven_le_succ num (den <<< scaleFor num den)
    rw [quotient] at next
    exact Nat.le_trans next below
  · have next := div_le_roundHalfEven num (den <<< scaleFor num den)
    rw [quotient] at next
    refine Nat.le_trans ?_ next
    rw [Nat.le_div_iff_mul_le powered, ← Nat.pow_add]
    exact low

/-- Rounded units have as many bits as the scale says, unless the scale is the least. -/
theorem roundedUnits_bounds (num den : Nat) :
    roundedUnits num den ≤ 2 ^ (53 + scaleFor num den) ∧
      (scaleFor num den = 0 ∨ 2 ^ (52 + scaleFor num den) ≤ roundedUnits num den) := by
  obtain ⟨few, many⟩ := significandFor_bounds num den
  rw [roundedUnits, Nat.shiftLeft_eq, Nat.pow_add, Nat.pow_add]
  exact ⟨Nat.mul_le_mul_right _ few, many.imp_right (Nat.mul_le_mul_right _)⟩

/-- **What ratios are rounded to grows with them.** -/
theorem roundedUnits_mono {num num' : Nat} (den : Nat) (h : num ≤ num') :
    roundedUnits num den ≤ roundedUnits num' den := by
  have ratios : num / den ≤ num' / den := Nat.div_le_div_right h
  rcases Nat.lt_trichotomy (scaleFor num den) (scaleFor num' den) with less | same | more
  · calc roundedUnits num den
      _ ≤ 2 ^ (53 + scaleFor num den) := (roundedUnits_bounds num den).1
      _ ≤ 2 ^ (52 + scaleFor num' den) := Nat.pow_le_pow_right (by decide) (by omega)
      _ ≤ roundedUnits num' den := (roundedUnits_bounds num' den).2.resolve_left (by omega)
  · simp only [roundedUnits, significandFor, Nat.shiftLeft_eq, same]
    exact Nat.mul_le_mul_right _ (roundHalfEven_mono _ h)
  · -- the larger ratio would have fewer bits
    obtain ⟨-, low⟩ := scaleFor_bounds num den
    obtain ⟨high', -⟩ := scaleFor_bounds num' den
    have wide : 2 ^ (53 + scaleFor num' den) ≤ 2 ^ (52 + scaleFor num den) :=
      Nat.pow_le_pow_right (by decide) (by omega)
    have large := low.resolve_left (by omega)
    omega

/-- A whole number of at most 53 bits, or `2 ^ 53`, keeps its value in finer units. -/
theorem roundedUnits_of_le (k : Nat) {n : Nat} (h : n ≤ 2 ^ 53) :
    roundedUnits (n * 2 ^ k) 1 = n * 2 ^ k := by
  obtain ⟨-, low⟩ := scaleFor_bounds (n * 2 ^ k) 1
  rw [Nat.div_one] at low
  have exact' : 1 <<< scaleFor (n * 2 ^ k) 1 ∣ n * 2 ^ k := by
    rw [Nat.one_shiftLeft]
    rcases Nat.lt_or_ge k (scaleFor (n * 2 ^ k) 1) with less | fine
    · -- only `2 ^ 53` has so many bits
      have many := low.resolve_left (by omega)
      have wide : 2 ^ (53 + k) ≤ 2 ^ (52 + scaleFor (n * 2 ^ k) 1) :=
        Nat.pow_le_pow_right (by decide) (by omega)
      have full : n = 2 ^ 53 := by
        refine Nat.le_antisymm h (Nat.le_of_mul_le_mul_right ?_ (Nat.two_pow_pos k))
        rw [← Nat.pow_add]
        exact Nat.le_trans wide many
      rw [full, ← Nat.pow_add] at many ⊢
      have := (Nat.pow_le_pow_iff_right (by decide)).mp many
      exact Nat.pow_dvd_pow 2 (by omega)
    · exact Nat.dvd_trans (Nat.pow_dvd_pow 2 fine) (Nat.dvd_mul_left ..)
  rw [roundedUnits, significandFor, roundHalfEven_of_dvd _ exact', Nat.one_shiftLeft,
    Nat.shiftLeft_eq]
  · rw [Nat.one_shiftLeft] at exact'
    exact Nat.div_mul_cancel exact'
  · rw [Nat.one_shiftLeft]
    exact Nat.two_pow_pos _

/-! ## Magnitudes -/

/-- Where a rounded ratio stands, in units: from the power of two above all magnitudes on, there. -/
def place : Option Magnitude → Nat
  | some x => x.units
  | none => unitsAbove

theorem unitsAbove_eq (bits scale : Nat) (h : bits + scale = 2098) :
    unitsAbove = 2 ^ bits * 2 ^ scale := by
  rw [unitsAbove, Nat.one_shiftLeft, ← Nat.pow_add, h]

/-- All magnitudes lie below the power of two above them. -/
theorem units_lt (x : Magnitude) : x.units < unitsAbove := by
  obtain ⟨few, scale, -⟩ := x.canonical
  obtain ⟨more, hm⟩ := Nat.exists_eq_add_of_le scale
  rw [Nat.one_shiftLeft] at few
  rw [units, Nat.shiftLeft_eq, unitsAbove_eq 53 (x.scale + more) (by omega)]
  calc x.significand * 2 ^ x.scale
    _ < 2 ^ 53 * 2 ^ x.scale := Nat.mul_lt_mul_of_pos_right few (Nat.two_pow_pos _)
    _ ≤ 2 ^ 53 * 2 ^ (x.scale + more) :=
      Nat.mul_le_mul_left _ (Nat.pow_le_pow_right (by decide) (Nat.le_add_right ..))

private theorem place_ofParts? {significand scale : Nat} (few : significand < 2 ^ 53)
    (many : scale = 0 ∨ 2 ^ 52 ≤ significand) :
    place (ofParts? significand scale) = min unitsAbove (significand <<< scale) := by
  rw [ofParts?]
  split
  · next canonical =>
    exact (Nat.min_eq_right (Nat.le_of_lt (units_lt ⟨significand, scale, canonical⟩))).symm
  · next other =>
    have large : 2046 ≤ scale := by
      refine Nat.lt_of_not_le fun small => other ⟨?_, small, ?_⟩
      · rw [Nat.one_shiftLeft]
        exact few
      · rw [Nat.one_shiftLeft]
        exact many
    obtain ⟨more, rfl⟩ := Nat.exists_eq_add_of_le large
    have top : unitsAbove * 2 ^ more = 2 ^ 52 * 2 ^ (2046 + more) := by
      rw [unitsAbove_eq 52 2046 rfl, Nat.mul_assoc, Nat.pow_add]
    refine (Nat.min_eq_left ?_).symm
    calc unitsAbove
      _ ≤ unitsAbove * 2 ^ more := Nat.le_mul_of_pos_right _ (Nat.two_pow_pos more)
      _ = 2 ^ 52 * 2 ^ (2046 + more) := top
      _ ≤ significand * 2 ^ (2046 + more) :=
        Nat.mul_le_mul_right _ (many.resolve_left (by omega))
      _ = significand <<< (2046 + more) := (Nat.shiftLeft_eq ..).symm

/-- **A ratio is rounded to the magnitude with its rounded units**, if that is one. -/
theorem place_round? (num den : Nat) :
    place (round? num den) = min unitsAbove (roundedUnits num den) := by
  obtain ⟨few, many⟩ := significandFor_bounds num den
  have parts : round? num den =
      if significandFor num den = 1 <<< 53 then ofParts? (1 <<< 52) (scaleFor num den + 1)
      else ofParts? (significandFor num den) (scaleFor num den) := rfl
  rw [parts, roundedUnits, Nat.one_shiftLeft, Nat.one_shiftLeft]
  split
  · next full =>
    have halved : 2 ^ 52 <<< (scaleFor num den + 1) = 2 ^ 53 <<< scaleFor num den := by
      rw [Nat.shiftLeft_eq, Nat.shiftLeft_eq, ← Nat.pow_add, ← Nat.pow_add]
      congr 1
      omega
    rw [place_ofParts? (by decide) (Or.inr (Nat.le_refl _)), full, halved]
  · next other => exact place_ofParts? (Nat.lt_of_le_of_ne few other) many

/-- A larger ratio is rounded to no smaller magnitude. -/
theorem place_round?_mono {num num' : Nat} (den : Nat) (h : num ≤ num') :
    place (round? num den) ≤ place (round? num' den) := by
  rw [place_round?, place_round?]
  have := roundedUnits_mono den h
  omega

/-- At the scale `k + 1` the middle below `2 ^ 53` decides whether a significand has 53 bits. -/
private theorem significandFor_lt_iff {num den k : Nat} (positive : 0 < den)
    (same : scaleFor num den = k + 1) :
    significandFor num den < 2 ^ 53 ↔ num < (2 ^ 54 - 1) * (den * 2 ^ k) := by
  have twice : den <<< (k + 1) = 2 * (den * 2 ^ k) := by
    rw [Nat.shiftLeft_eq, Nat.pow_succ, ← Nat.mul_assoc, Nat.mul_comm]
  have shifted : 0 < 2 * (den * 2 ^ k) :=
    Nat.mul_pos (by decide) (Nat.mul_pos positive (Nat.two_pow_pos k))
  have middle := @lt_roundHalfEven_iff num (2 * (den * 2 ^ k)) (2 ^ 53 - 1) (by decide) shifted
  rw [significandFor, same, twice]
  omega

/-- **The rounded units of a ratio stay below a power of two** exactly if the ratio is below the
middle between that and the number with 53 bits before it. -/
private theorem roundedUnits_lt_iff (num k : Nat) {den : Nat} (positive : 0 < den) :
    roundedUnits num den < 2 ^ 53 * 2 ^ (k + 1) ↔ num < (2 ^ 54 - 1) * (den * 2 ^ k) := by
  obtain ⟨high, low⟩ := scaleFor_bounds num den
  obtain ⟨few, many⟩ := roundedUnits_bounds num den
  have wide : 0 < den * 2 ^ k := Nat.mul_pos positive (Nat.two_pow_pos k)
  have regroup (n : Nat) : 2 ^ (n + k) * den = 2 ^ n * (den * 2 ^ k) := by
    rw [Nat.pow_add, Nat.mul_assoc, Nat.mul_comm (2 ^ k)]
  rw [Nat.div_lt_iff_lt_mul positive] at high
  rw [← Nat.pow_add]
  rcases Nat.lt_trichotomy (scaleFor num den) (k + 1) with less | same | more
  · -- fewer bits on both sides
    have units : roundedUnits num den < 2 ^ (53 + (k + 1)) :=
      Nat.lt_of_le_of_lt few (Nat.pow_lt_pow_right (by decide) (by omega))
    have ratio : num < 2 ^ 53 * (den * 2 ^ k) := by
      rw [← regroup]
      exact Nat.lt_of_lt_of_le high
        (Nat.mul_le_mul_right _ (Nat.pow_le_pow_right (by decide) (by omega)))
    omega
  · rw [roundedUnits, same, Nat.shiftLeft_eq, Nat.pow_add 2 53,
      Nat.mul_lt_mul_right (Nat.two_pow_pos (k + 1))]
    exact significandFor_lt_iff positive same
  · -- more bits on both sides
    have units : 2 ^ (53 + (k + 1)) ≤ roundedUnits num den :=
      Nat.le_trans (Nat.pow_le_pow_right (by decide) (by omega)) (many.resolve_left (by omega))
    have ratio := low.resolve_left (by omega)
    rw [Nat.le_div_iff_mul_le positive] at ratio
    have beyond : 2 ^ 54 * (den * 2 ^ k) ≤ num := by
      rw [← regroup]
      exact Nat.le_trans
        (Nat.mul_le_mul_right _ (Nat.pow_le_pow_right (by decide) (by omega))) ratio
    omega

/-- A ratio is rounded to no magnitude if its rounded units are beyond all. -/
theorem round?_isSome_iff (num den : Nat) :
    (round? num den).isSome = true ↔ roundedUnits num den < unitsAbove := by
  have stands := place_round? num den
  cases h : round? num den with
  | none =>
    rw [h, place] at stands
    simp only [Option.isSome_none, Bool.false_eq_true, false_iff]
    omega
  | some x =>
    rw [h, place] at stands
    have := x.units_lt
    simp only [Option.isSome_some, true_iff]
    omega

/-- The least whole number that is rounded to no magnitude: the middle between the largest
magnitude and the power of two above. -/
def overflow : Nat := (2 ^ 54 - 1) * 2 ^ 970

theorem unitsInOne_eq {k : Nat} (h : k = 1074) : unitsInOne = 2 ^ k := by
  rw [unitsInOne, ← h, Nat.one_shiftLeft]

theorem unitsInOne_pos : 0 < unitsInOne := by
  obtain ⟨k, hk⟩ : ∃ k, k = 1074 := ⟨_, rfl⟩
  rw [unitsInOne_eq hk]
  exact Nat.two_pow_pos k

/-- **A ratio is rounded to a magnitude exactly below the middle** between the largest magnitude and
the power of two above. -/
theorem ofRatio?_isSome_iff (num : Nat) {den : Nat} (positive : 0 < den) :
    (ofRatio? num den).isSome = true ↔ num < overflow * den := by
  -- the powers stay variables, as their values are large
  obtain ⟨one, hone⟩ : ∃ k, k = 1074 := ⟨_, rfl⟩
  obtain ⟨half, hhalf⟩ : ∃ k, k = 2044 := ⟨_, rfl⟩
  obtain ⟨spare, hspare⟩ : ∃ k, k = 970 := ⟨_, rfl⟩
  have middle : (2 ^ 54 - 1) * (den * 2 ^ half) = overflow * den * unitsInOne := by
    have parts : 2 ^ half = 2 ^ spare * 2 ^ one := by
      rw [← Nat.pow_add]
      congr 1
      omega
    rw [overflow, unitsInOne_eq hone, ← hspare, parts]
    ac_rfl
  rw [ofRatio?, round?_isSome_iff, unitsAbove_eq 53 (half + 1) (by omega),
    roundedUnits_lt_iff _ half positive, middle, Nat.mul_lt_mul_right unitsInOne_pos]

end Magnitude

namespace Binary64

open Magnitude

/-! ## Binary64 numbers -/

theorem rank_signed (negative : Bool) (o : Option Magnitude) :
    (signed negative o).rank = if negative then -(place o : Int) else place o := by
  cases o <;> rfl

theorem isNan_signed (negative : Bool) (o : Option Magnitude) :
    (signed negative o).isNan = false := by
  cases o <;> rfl

theorem isFinite_signed (negative : Bool) (o : Option Magnitude) :
    (signed negative o).isFinite = o.isSome := by
  cases o <;> rfl

theorem rank_ofInt_eq (i : Int) : (ofInt i).rank =
    if i < 0 then -(place (round? (i.natAbs * unitsInOne) 1) : Int)
    else place (round? (i.natAbs * unitsInOne) 1) := by
  rw [ofInt, ofRatio, rank_signed, ofRatio?]
  simp only [decide_eq_true_eq]

/-- **The nearest numbers of integers are ordered as the integers**, if they differ at all. -/
theorem rank_ofInt_mono {i j : Int} (h : i ≤ j) : (ofInt i).rank ≤ (ofInt j).rank := by
  have grows : ∀ {m n : Nat}, m ≤ n →
      place (round? (m * unitsInOne) 1) ≤ place (round? (n * unitsInOne) 1) :=
    fun le => place_round?_mono 1 (Nat.mul_le_mul_right _ le)
  rw [rank_ofInt_eq, rank_ofInt_eq]
  split
  · split
    · have := grows (show j.natAbs ≤ i.natAbs by omega)
      omega
    · omega
  · rw [if_neg (by omega)]
    have := grows (show i.natAbs ≤ j.natAbs by omega)
    omega

/-- An integer of at most 53 bits, or `2 ^ 53`, is its own nearest number. -/
theorem rank_ofInt {i : Int} (h : i.natAbs ≤ 2 ^ 53) : (ofInt i).rank = i * unitsInOne := by
  obtain ⟨one, hone⟩ : ∃ k, k = 1074 := ⟨_, rfl⟩
  obtain ⟨more, hmore⟩ : ∃ k, k = 971 := ⟨_, rfl⟩
  have top : i.natAbs * 2 ^ one ≤ unitsAbove := by
    rw [unitsAbove_eq (53 + more) one (by omega), Nat.pow_add]
    exact Nat.mul_le_mul_right _ (Nat.le_trans h (Nat.le_mul_of_pos_right _ (Nat.two_pow_pos _)))
  have same : place (round? (i.natAbs * 2 ^ one) 1) = i.natAbs * 2 ^ one := by
    rw [place_round?, roundedUnits_of_le one h]
    exact Nat.min_eq_right top
  rw [rank_ofInt_eq, unitsInOne_eq hone, same, Int.natCast_mul]
  split
  · have : (i.natAbs : Int) = -i := by omega
    rw [this, Int.neg_mul, Int.neg_neg]
  · have : (i.natAbs : Int) = i := by omega
    rw [this]

/-- **Different integers with the same nearest number** lie beyond `2 ^ 53`, both of them. -/
theorem natAbs_of_rank_ofInt_eq {i j : Int} (differ : i ≠ j)
    (same : (ofInt i).rank = (ofInt j).rank) : 2 ^ 53 ≤ i.natAbs := by
  refine Nat.le_of_not_lt fun few => differ ?_
  have place := rank_ofInt (Nat.le_of_lt few)
  have one : (0 : Int) < unitsInOne := Int.natCast_pos.mpr unitsInOne_pos
  rcases Int.lt_or_le j (2 ^ 53) with low | high
  · rcases Int.lt_or_le (-2 ^ 53) j with above | under
    · rw [place, rank_ofInt (by omega)] at same
      exact Int.eq_of_mul_eq_mul_right (Int.ne_of_gt one) same
    · have edge := rank_ofInt_mono under
      rw [← same, place, rank_ofInt (by decide)] at edge
      have := Int.le_of_mul_le_mul_right edge one
      omega
  · have edge := rank_ofInt_mono high
    rw [← same, place, rank_ofInt (by decide)] at edge
    have := Int.le_of_mul_le_mul_right edge one
    omega

/-- **A decimal is read as a finite number exactly below `overflow`.** -/
theorem isFinite_ofDecimal (negative : Bool) (digits : Nat) (exponent : Int) :
    (ofDecimal negative digits exponent).isFinite = true ↔
      digits * 10 ^ exponent.toNat < overflow * 10 ^ (-exponent).toNat := by
  rw [ofDecimal, ofRatio, isFinite_signed]
  exact ofRatio?_isSome_iff _ (Nat.pow_pos (by decide))

end Binary64

end Compliance
