import Compliance.Binary64.Shortest
import Mathlib.Algebra.Group.Nat.Defs

/-!
# Rounding and the shortest decimal

The basin of a magnitude is what its name says: every ratio in it rounds to the
magnitude.  A search for the shortest decimal always ends inside the basin, since
the finest of its grids is finer than any basin is wide, so the decimal it finds
rounds to the magnitude it was found for.

## Main definitions

* `Magnitude.RoundsTo num den n` — `n` is the whole number next to a ratio.
* `Magnitude.round?_eq_some` — a ratio in a basin rounds to the magnitude of the basin.
* `Magnitude.ofDecimal_shortest` — the shortest decimal rounds to its magnitude.
-/

namespace Compliance

namespace Magnitude

/-! ## Whole numbers next to a ratio -/

/-- No whole number is nearer to `num / den` than `n`, and none other as near unless `n` is even. -/
structure RoundsTo (num den n : Nat) : Prop where
  low : 2 * (n * den) ≤ 2 * num + den
  high : 2 * num ≤ 2 * (n * den) + den
  tie : n % 2 = 1 → 2 * (n * den) ≠ 2 * num + den ∧ 2 * num ≠ 2 * (n * den) + den

theorem RoundsTo.roundHalfEven_eq {num den n : Nat} (hd : 0 < den) (h : RoundsTo num den n) :
    roundHalfEven num den = n := by
  obtain ⟨low, high, tie⟩ := h
  have hr : num % den < den := Nat.mod_lt _ hd
  have hq : num / den * den + num % den = num := Nat.div_add_mod' num den
  simp only [roundHalfEven]
  generalize num / den = q at hq ⊢
  generalize num % den = r at hq hr ⊢
  -- the number is the quotient or the next one
  have lower : q ≤ n := by
    refine Nat.le_of_not_lt fun hlt => ?_
    have : (n + 1) * den ≤ q * den := Nat.mul_le_mul_right den (by omega)
    rw [Nat.succ_mul] at this
    omega
  have upper : n ≤ q + 1 := by
    refine Nat.le_of_not_lt fun hlt => ?_
    have : (q + 2) * den ≤ n * den := Nat.mul_le_mul_right den (by omega)
    rw [Nat.add_mul] at this
    omega
  obtain rfl | rfl : n = q ∨ n = q + 1 := by omega
  · split
    · rfl
    · split
      · omega
      · split <;> omega
  · rw [Nat.succ_mul q] at low high tie
    split
    · omega
    · split
      · rfl
      · split <;> omega

/-! ## Basins -/

/-- How far below a magnitude its basin begins, in quarters of the distance to the next one. -/
def reach (x : Magnitude) : Nat := if x.significand = 2 ^ 52 ∧ x.scale ≠ 0 then 1 else 2

/-- What it is for a ratio to lie in the basin of a magnitude. -/
theorem near_of_holds {x : Magnitude} {num den : Nat}
    (h : x.basin.holds den (4 * num) = true) :
    4 * (x.significand * (den * 2 ^ x.scale)) ≤ 4 * num + x.reach * (den * 2 ^ x.scale) ∧
      2 * num ≤ 2 * (x.significand * (den * 2 ^ x.scale)) + den * 2 ^ x.scale ∧
      (x.significand % 2 = 1 →
        4 * (x.significand * (den * 2 ^ x.scale)) ≠ 4 * num + x.reach * (den * 2 ^ x.scale) ∧
        2 * num ≠ 2 * (x.significand * (den * 2 ^ x.scale)) + den * 2 ^ x.scale) := by
  have centre : x.units * den = x.significand * (den * 2 ^ x.scale) := by
    rw [units, Nat.shiftLeft_eq, Nat.mul_assoc, Nat.mul_comm (2 ^ x.scale)]
  have low : x.basin.low * den =
      4 * (x.significand * (den * 2 ^ x.scale)) - x.reach * (den * 2 ^ x.scale) := by
    rw [← centre, ← Nat.mul_assoc 4, Nat.mul_comm den, ← Nat.mul_assoc x.reach, ← Nat.sub_mul]
    simp only [basin, reach, Nat.shiftLeft_eq, Nat.one_mul]
  have high : x.basin.high * den =
      4 * (x.significand * (den * 2 ^ x.scale)) + 2 * (den * 2 ^ x.scale) := by
    rw [← centre, ← Nat.mul_assoc 4, Nat.mul_comm den, ← Nat.mul_assoc 2, ← Nat.add_mul]
    simp only [basin, Nat.shiftLeft_eq]
  simp only [Basin.holds, low, high] at h
  split at h
  · next closed =>
    have even : x.significand % 2 = 0 := by simpa [basin] using closed
    simp only [Bool.and_eq_true, decide_eq_true_eq] at h
    omega
  · simp only [Bool.and_eq_true, decide_eq_true_eq] at h
    omega

theorem ofParts?_self (x : Magnitude) : ofParts? x.significand x.scale = some x :=
  dif_pos x.canonical

/-- The scale of a ratio that is less than `2 ^ 53` at that scale, and not less than `2 ^ 52` unless
the scale is the least. -/
private theorem scale_eq {num den k : Nat} (hd : 0 < den) (high : num < 2 ^ 53 * (den * 2 ^ k))
    (low : k = 0 ∨ 2 ^ 52 * (den * 2 ^ k) ≤ num) : (num / den).log2 - 52 = k := by
  have below : num / den < 2 ^ (53 + k) := by
    rw [Nat.div_lt_iff_lt_mul hd, Nat.pow_add, Nat.mul_assoc, Nat.mul_comm (2 ^ k)]
    exact high
  have upper : (num / den).log2 < 53 + k := by
    by_cases zero : num / den = 0
    · rw [zero, Nat.log2_zero]
      omega
    · exact (Nat.log2_lt zero).mpr below
  rcases low with rfl | low
  · omega
  · have above : 2 ^ (52 + k) ≤ num / den := by
      rw [Nat.le_div_iff_mul_le hd, Nat.pow_add, Nat.mul_assoc, Nat.mul_comm (2 ^ k)]
      exact low
    have nonzero : num / den ≠ 0 := by
      have := Nat.two_pow_pos (52 + k)
      omega
    have lower : 52 + k ≤ (num / den).log2 := (Nat.le_log2 nonzero).mpr above
    omega

/-- At the scale of a magnitude a ratio in its basin rounds to its significand. -/
private theorem roundsTo_of_holds {x : Magnitude} {num den : Nat}
    (h : x.basin.holds den (4 * num) = true) : RoundsTo num (den * 2 ^ x.scale) x.significand := by
  obtain ⟨low, high, tie⟩ := near_of_holds h
  have far : x.reach ≤ 2 := by
    rw [reach]
    split <;> omega
  have : x.reach * (den * 2 ^ x.scale) ≤ 2 * (den * 2 ^ x.scale) := Nat.mul_le_mul_right _ far
  refine ⟨by omega, high, ?_⟩
  intro odd
  obtain ⟨lower, upper⟩ := tie odd
  exact ⟨by omega, upper⟩

/-- Only the basin of a power of two reaches below that power. -/
private theorem significand_of_short {x : Magnitude} {num den : Nat} (positive : x.scale ≠ 0)
    (h : x.basin.holds den (4 * num) = true) (short : num < 2 ^ 52 * (den * 2 ^ x.scale)) :
    x.significand = 2 ^ 52 := by
  have normal := x.canonical.2.2
  rw [show 1 <<< 52 = 2 ^ 52 from rfl] at normal
  refine Nat.le_antisymm (Nat.le_of_not_lt fun more => ?_) (normal.resolve_left positive)
  obtain ⟨low, -, -⟩ := near_of_holds h
  have : (2 ^ 52 + 1) * (den * 2 ^ x.scale) ≤ x.significand * (den * 2 ^ x.scale) :=
    Nat.mul_le_mul_right _ more
  have far : x.reach = 2 := if_neg fun h => absurd h.1 (Nat.ne_of_gt more)
  rw [far] at low
  omega

/-- **A ratio in a basin rounds to the magnitude of the basin.** -/
theorem round?_eq_some {x : Magnitude} {num den : Nat} (hd : 0 < den)
    (h : x.basin.holds den (4 * num) = true) : round? num den = some x := by
  have powered : 0 < den * 2 ^ x.scale := Nat.mul_pos hd (Nat.two_pow_pos _)
  have small := x.canonical.1
  rw [show 1 <<< 53 = 2 ^ 53 from rfl] at small
  obtain ⟨low, high, -⟩ := near_of_holds h
  by_cases place : x.scale = 0 ∨ 2 ^ 52 * (den * 2 ^ x.scale) ≤ num
  · -- the ratio has the scale of the magnitude
    have rounded : roundHalfEven num (den <<< x.scale) = x.significand := by
      rw [Nat.shiftLeft_eq]
      exact (roundsTo_of_holds h).roundHalfEven_eq powered
    have below : num < 2 ^ 53 * (den * 2 ^ x.scale) := by
      have : (x.significand + 1) * (den * 2 ^ x.scale) ≤ 2 ^ 53 * (den * 2 ^ x.scale) :=
        Nat.mul_le_mul_right _ small
      rw [Nat.succ_mul] at this
      omega
    simp only [round?, scale_eq hd below place, rounded]
    rw [if_neg (Nat.ne_of_lt x.canonical.1), ofParts?_self]
  · -- the ratio lies just below a power of two and is rounded up to it
    obtain ⟨positive, short⟩ := not_or.mp place
    have power := significand_of_short positive h (Nat.lt_of_not_le short)
    have close : x.reach = 1 := if_pos ⟨power, positive⟩
    obtain ⟨k, hk⟩ := Nat.exists_eq_succ_of_ne_zero positive
    have halved : den * 2 ^ x.scale = 2 * (den * 2 ^ k) := by
      rw [hk, Nat.pow_succ, Nat.mul_comm (2 ^ k), Nat.mul_left_comm]
    rw [power, close, halved] at low
    rw [halved] at short
    have near : RoundsTo num (den * 2 ^ k) (2 ^ 53) := ⟨by omega, by omega, by omega⟩
    have rounded : roundHalfEven num (den <<< k) = 1 <<< 53 := by
      rw [Nat.shiftLeft_eq]
      exact near.roundHalfEven_eq (Nat.mul_pos hd (Nat.two_pow_pos _))
    have scale : (num / den).log2 - 52 = k := scale_eq hd (by omega) (Or.inr (by omega))
    simp only [round?, scale, rounded, if_true]
    rw [show 1 <<< 52 = x.significand from power.symm, ← Nat.succ_eq_add_one, ← hk, ofParts?_self]

/-! ## The shortest decimal -/

theorem Basin.holds_of_gridPoint? {b : Basin} {tie : Tie} {exponent : Int} {digits : Nat}
    (h : b.gridPoint? tie exponent = some digits) :
    b.holds (Nat.pow 10 (-exponent).toNat)
      (digits * (Nat.pow 10 exponent.toNat * (4 * unitsInOne))) = true := by
  simp only [gridPoint?] at h
  split at h
  · next below above =>
    obtain rfl := Option.some.inj h
    split
    · exact below
    · split
      · exact above
      · split
        · exact below
        · exact above
  · next below _ =>
    obtain rfl := Option.some.inj h
    exact below
  · next _ above =>
    obtain rfl := Option.some.inj h
    exact above
  · cases h

/-- A search ends on a grid with a point in the interval, if the finest grid has one. -/
theorem Basin.search_finds {b : Basin} {tie : Tie} (finest : b.gridPoint? tie (-324) ≠ none)
    {count : Nat} (positive : 0 < count) : ∃ digits exponent,
      b.search tie count = ⟨digits, exponent⟩ ∧ b.gridPoint? tie exponent = some digits := by
  induction count with
  | zero => exact absurd positive (Nat.lt_irrefl 0)
  | succ count ih =>
    rw [search]
    cases found : b.gridPoint? tie ((count : Int) - 324) with
    | some digits => exact ⟨digits, _, rfl, found⟩
    | none =>
      refine ih (Nat.pos_of_ne_zero fun zero => finest ?_)
      rw [← found, zero]
      rfl

/-- The last grid point up to the centre is in the interval, if that reaches further down than one
step of the grid. -/
private theorem Basin.holds_below {b : Basin} {factor step : Nat} (low : b.low + 2 ≤ b.centre)
    (high : b.centre < b.high) (positive : 0 < step) (fine : step < 2 * factor) :
    b.holds factor (b.centre * factor / step * step) = true := by
  have near := Nat.div_add_mod' (b.centre * factor) step
  have rest := Nat.mod_lt (b.centre * factor) positive
  have lower : (b.low + 2) * factor ≤ b.centre * factor := Nat.mul_le_mul_right factor low
  have upper : b.centre * factor < b.high * factor := Nat.mul_lt_mul_of_pos_right high (by omega)
  rw [Nat.add_mul] at lower
  rw [Basin.holds]
  split
  · simp only [Bool.and_eq_true, decide_eq_true_eq]
    omega
  · simp only [Bool.and_eq_true, decide_eq_true_eq]
    omega

private theorem Basin.gridPoint?_ne_none {b : Basin} {tie : Tie} {exponent : Int}
    (h : b.holds (Nat.pow 10 (-exponent).toNat)
      (b.centre * Nat.pow 10 (-exponent).toNat / (Nat.pow 10 exponent.toNat * (4 * unitsInOne)) *
        (Nat.pow 10 exponent.toNat * (4 * unitsInOne))) = true) :
    b.gridPoint? tie exponent ≠ none := by
  rw [gridPoint?]
  simp only [h]
  split
  · simp
  · simp
  · simp
  · next below _ => cases below

/-- The interval of a magnitude reaches two quarters of a unit below it at least. -/
private theorem basin_reaches {x : Magnitude} (h : x.significand ≠ 0) :
    x.basin.low + 2 ≤ x.basin.centre ∧ x.basin.centre < x.basin.high := by
  have one : 2 ^ x.scale ≤ x.significand * 2 ^ x.scale :=
    Nat.le_mul_of_pos_left _ (Nat.pos_of_ne_zero h)
  have wide := Nat.two_pow_pos x.scale
  simp only [basin, units, Nat.shiftLeft_eq]
  split
  · next low =>
    have even : 2 ^ 1 ≤ 2 ^ x.scale :=
      Nat.pow_le_pow_right (by decide) (Nat.pos_of_ne_zero low.2)
    omega
  · omega

theorem gridPoint?_finest (x : Magnitude) (tie : Tie) (h : x.significand ≠ 0) :
    x.basin.gridPoint? tie (-324) ≠ none := by
  have fine : 4 * unitsInOne < 2 * Nat.pow 10 324 := by decide +kernel
  have step : Nat.pow 10 (Int.toNat (-324)) * (4 * unitsInOne) = 4 * unitsInOne := Nat.one_mul _
  have places : Nat.pow 10 (Int.toNat (- -324)) = Nat.pow 10 324 := by congr 1
  have positive : 0 < 4 * unitsInOne := by decide +kernel
  obtain ⟨low, high⟩ := basin_reaches h
  apply Basin.gridPoint?_ne_none
  rw [step, places]
  exact Basin.holds_below low high positive fine

/-- The shortest decimal of a magnitude lies on a grid, in the basin. -/
theorem holds_shortest (x : Magnitude) (tie : Tie) (h : x.significand ≠ 0) :
    x.basin.holds (Nat.pow 10 (-(x.shortest tie).exponent).toNat)
      ((x.shortest tie).digits *
        (Nat.pow 10 (x.shortest tie).exponent.toNat * (4 * unitsInOne))) = true := by
  obtain ⟨digits, exponent, found, point⟩ := Basin.search_finds (x.gridPoint?_finest tie h)
    (show 0 < 634 by decide)
  rw [shortest, if_neg h, found]
  exact Basin.holds_of_gridPoint? point

/-- A decimal in the basin of a magnitude rounds to it. -/
theorem ofDecimal_of_holds (negative : Bool) {x : Magnitude} {digits : Nat} {exponent : Int}
    (h : x.basin.holds (Nat.pow 10 (-exponent).toNat)
      (digits * (Nat.pow 10 exponent.toNat * (4 * unitsInOne))) = true) :
    Binary64.ofDecimal negative digits exponent = .finite negative x := by
  have point : digits * (Nat.pow 10 exponent.toNat * (4 * unitsInOne)) =
      4 * (digits * Nat.pow 10 exponent.toNat * unitsInOne) := by
    rw [← Nat.mul_assoc digits, Nat.mul_left_comm]
  rw [point] at h
  have positive : 0 < Nat.pow 10 (-exponent).toNat := Nat.pow_pos (by decide)
  rw [Binary64.ofDecimal, Binary64.ofRatio, ofRatio?, round?_eq_some positive h, Binary64.signed]

/-- **The shortest decimal rounds to its magnitude.** -/
theorem ofDecimal_shortest (negative : Bool) (x : Magnitude) (tie : Tie) (h : x.significand ≠ 0) :
    Binary64.ofDecimal negative (x.shortest tie).digits (x.shortest tie).exponent =
      .finite negative x :=
  ofDecimal_of_holds negative (x.holds_shortest tie h)

end Magnitude

end Compliance
