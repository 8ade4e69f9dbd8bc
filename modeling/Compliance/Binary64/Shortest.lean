import Compliance.Binary64

/-!
# The shortest decimal of a magnitude

The decimal with the fewest digits among those that lie nearer to a magnitude
than to any other, and of several with that many digits the one nearest to it.
The search goes down the powers of ten and takes the first on whose grid a point
falls into the interval of reals that round to the magnitude; only the two
neighbours of the magnitude on a grid can.

## Main definitions

* `Decimal` — digits and a power of ten.
* `Magnitude.shortest tie x` — the shortest decimal of `x`.
-/

namespace Compliance

/-- The number `digits * 10 ^ exponent`. -/
structure Decimal where
  digits : Nat
  exponent : Int
deriving DecidableEq, Repr, Inhabited

/-- Which of two equally near decimals is taken. -/
inductive Tie where
  /-- The larger one. -/
  | up
  /-- The one whose last digit is even. -/
  | even
deriving DecidableEq, Repr

namespace Magnitude

/-- The reals that round to `x`, in quarters of a unit: from `low` to `high`, ends included iff
`closed`.  Below a power of two the neighbours are twice as dense, so the interval is shorter
there. -/
structure Basin where
  low : Nat
  centre : Nat
  high : Nat
  closed : Bool

/-- The interval of reals that round to `x`.  An even significand wins its ties. -/
def basin (x : Magnitude) : Basin where
  low := 4 * x.units - (if x.significand = 1 <<< 52 ∧ x.scale ≠ 0 then 1 else 2) <<< x.scale
  centre := 4 * x.units
  high := 4 * x.units + 2 <<< x.scale
  closed := x.significand % 2 = 0

/-- Whether a point lies in the interval, both ends and point multiplied by `factor`. -/
def Basin.holds (b : Basin) (factor point : Nat) : Bool :=
  if b.closed then b.low * factor ≤ point && point ≤ b.high * factor
  else b.low * factor < point && point < b.high * factor

/-- The nearest point in the interval on the grid of multiples of `10 ^ exponent`, if one is. -/
def Basin.gridPoint? (b : Basin) (tie : Tie) (exponent : Int) : Option Nat :=
  let factor := Nat.pow 10 (-exponent).toNat
  let step := Nat.pow 10 exponent.toNat * (4 * unitsInOne)
  let centre := b.centre * factor
  let below := centre / step
  let above := below + 1
  match b.holds factor (below * step), b.holds factor (above * step) with
  | true, true =>
    let down := centre - below * step
    let up := above * step - centre
    some <|
      if down < up then below
      else if up < down then above
      else if tie = .even ∧ below % 2 = 0 then below
      else above
  | true, false => some below
  | false, true => some above
  | false, false => none

/-- The first grid point going down from `10 ^ (count - 324)`; `10 ^ (-324)` is finer than the
distance of any two magnitudes. -/
def Basin.search (b : Basin) (tie : Tie) : Nat → Decimal
  | 0 => ⟨0, 0⟩
  | count + 1 =>
    let exponent : Int := count - 324
    match b.gridPoint? tie exponent with
    | some digits => ⟨digits, exponent⟩
    | none => b.search tie count

/-- The shortest decimal that rounds to `x`; of the shortest the nearest. -/
def shortest (tie : Tie) (x : Magnitude) : Decimal :=
  if x.significand = 0 then ⟨0, 0⟩ else x.basin.search tie 634

end Magnitude

end Compliance
