/-!
# Binary floating point numbers of 64 bits

The numbers of the standard's binary64 format as exact data: a finite one is a
significand below `2 ^ 53` times a power of two, in the one way that makes the
significand as large as the format allows.  Every finite number is a whole
multiple of the least positive one, `2 ^ (-1074)`, called a *unit* here, so that
values are compared and rounded with natural numbers alone.

## Main definitions

* `Magnitude` — a finite number without its sign.
* `Magnitude.round? num den` — the magnitude nearest to `num / den` units, a tie
  going to the even significand, or nothing beyond the largest one.
* `Binary64` — a signed finite number, an infinity, or no number.
* `Binary64.compare?` — the order of the values; nothing compares with no number.
-/

namespace Compliance

/-- The one significand and scale of a value: the significand has 53 bits unless the scale is
the least. -/
def Canonical (significand scale : Nat) : Prop :=
  significand < 1 <<< 53 ∧ scale ≤ 2045 ∧ (scale = 0 ∨ 1 <<< 52 ≤ significand)

instance (significand scale : Nat) : Decidable (Canonical significand scale) :=
  inferInstanceAs (Decidable (_ ∧ _ ∧ _))

/-- A finite number without its sign: `significand * 2 ^ scale` units. -/
structure Magnitude where
  significand : Nat
  scale : Nat
  canonical : Canonical significand scale
deriving DecidableEq

namespace Magnitude

def units (x : Magnitude) : Nat := x.significand <<< x.scale

def zero : Magnitude := ⟨0, 0, by decide⟩

instance : Inhabited Magnitude := ⟨zero⟩

/-! ## Rounding -/

/-- The whole number nearest to `num / den`; a tie goes to the even neighbour. -/
def roundHalfEven (num den : Nat) : Nat :=
  let quotient := num / den
  let twice := 2 * (num % den)
  if twice < den then quotient
  else if den < twice then quotient + 1
  else if quotient % 2 = 0 then quotient
  else quotient + 1

/-- A magnitude from its parts, where they are canonical. -/
def ofParts? (significand scale : Nat) : Option Magnitude :=
  if h : Canonical significand scale then some ⟨significand, scale, h⟩ else none

/-- The magnitude nearest to `num / den` units.  The scale leaves 53 bits before the point; a
significand that rounds up to `2 ^ 53` is halved.  Beyond the largest magnitude there is none. -/
def round? (num den : Nat) : Option Magnitude :=
  let scale := (num / den).log2 - 52
  let significand := roundHalfEven num (den <<< scale)
  if significand = 1 <<< 53 then ofParts? (1 <<< 52) (scale + 1) else ofParts? significand scale

/-- The number of units in one. -/
def unitsInOne : Nat := 1 <<< 1074

/-- The magnitude nearest to the quotient of two natural numbers. -/
def ofRatio? (num den : Nat) : Option Magnitude := round? (num * unitsInOne) den

/-- The rounded product of two magnitudes. -/
def mul? (x y : Magnitude) : Option Magnitude := round? (x.units * y.units) unitsInOne

/-- The rounded quotient of two magnitudes. -/
def div? (x y : Magnitude) : Option Magnitude := round? (x.units * unitsInOne) y.units

/-- The units of the power of two above all magnitudes. -/
def unitsAbove : Nat := 1 <<< 2098

def isWhole (x : Magnitude) : Bool := x.units % unitsInOne = 0

/-- The value without its fraction. -/
def floor (x : Magnitude) : Nat := x.units / unitsInOne

end Magnitude

/-- A binary64 number. -/
inductive Binary64 where
  /-- No number: the answer where none makes sense. -/
  | nan
  /-- An infinity. -/
  | infinite (negative : Bool)
  /-- A finite number; zero has two signs. -/
  | finite (negative : Bool) (magnitude : Magnitude)
deriving DecidableEq, Inhabited

namespace Binary64

/-- A magnitude with a sign; an infinity, where rounding found no magnitude. -/
def signed (negative : Bool) : Option Magnitude → Binary64
  | some magnitude => .finite negative magnitude
  | none => .infinite negative

/-- The number of the given sign nearest to a quotient, an infinity beyond the largest. -/
def ofRatio (negative : Bool) (num den : Nat) : Binary64 :=
  signed negative (Magnitude.ofRatio? num den)

/-- The number nearest to an integer. -/
def ofInt (i : Int) : Binary64 := ofRatio (decide (i < 0)) i.natAbs 1

/-- The number nearest to `digits * 10 ^ exponent`. -/
def ofDecimal (negative : Bool) (digits : Nat) (exponent : Int) : Binary64 :=
  ofRatio negative (digits * Nat.pow 10 exponent.toNat) (Nat.pow 10 (-exponent).toNat)

/-! ## Order -/

/-- Where a number stands in the order of values, in units.  An infinity stands where the next
larger magnitude would; no number has no place, and gets that of zero. -/
def rank : Binary64 → Int
  | .nan => 0
  | .infinite negative => if negative then -Magnitude.unitsAbove else Magnitude.unitsAbove
  | .finite negative magnitude => if negative then -magnitude.units else magnitude.units

/-- Whether this is no number. -/
def isNan : Binary64 → Bool
  | .nan => true
  | _ => false

/-- Whether this is neither infinite nor no number. -/
def isFinite : Binary64 → Bool
  | .finite _ _ => true
  | _ => false

/-- The order of two values: the zeros are equal, and no number has no order. -/
def compare? (x y : Binary64) : Option Ordering :=
  if x.isNan || y.isNan then none else some (compare x.rank y.rank)

/-- Equality of values, which no number has not even with itself. -/
def sameValue (x y : Binary64) : Bool := x.compare? y == some .eq

end Binary64

end Compliance
