/-!
The shortest decimal of a binary number. A positive binary number `m * 2^q` stands for every real
that rounds to it; among the decimals in that interval the one with the coarsest grid is chosen,
and on that grid the one nearest the number itself.

All tests are made on natural numbers: both sides of a comparison are brought to one scale.
-/

namespace ScriptEngine.Decimal

/-- The decimal `digits * 10^exponent`. -/
structure Digits where
  digits : Nat
  exponent : Int
  deriving DecidableEq, Repr, Inhabited

/-- The reals that round to `value`, in units of `2^exponent`: from `lower` to `upper`, the ends
included when `closed`. -/
structure Interval where
  lower : Nat
  value : Nat
  upper : Nat
  exponent : Int
  closed : Bool
  deriving DecidableEq, Repr

namespace Interval

/-- The interval of the number `significand * 2^exponent`. Below a power of two the neighbours are
twice as close, so there the lower end is a quarter of a unit away and not a half; ends round to
the number exactly when its significand is even. -/
def ofBinary (significand : Nat) (exponent : Int) (powerOfTwo : Bool) : Interval where
  lower := 4 * significand - (if powerOfTwo then 1 else 2)
  value := 4 * significand
  upper := 4 * significand + 2
  exponent := exponent - 2
  closed := significand % 2 == 0

/-- The factor that brings a number of units to the common scale of the grid `10^k`. -/
def unitScale (i : Interval) (k : Int) : Nat :=
  Nat.pow 2 i.exponent.toNat * Nat.pow 10 (-k).toNat

/-- The length of a step of the grid `10^k` on the common scale. -/
def stepScale (i : Interval) (k : Int) : Nat :=
  Nat.pow 2 (-i.exponent).toNat * Nat.pow 10 k.toNat

/-- Whether the grid point `c * 10^k` lies in the interval. -/
def holds (i : Interval) (k : Int) (c : Nat) : Bool :=
  let point := c * i.stepScale k
  let lower := i.lower * i.unitScale k
  let upper := i.upper * i.unitScale k
  if i.closed then lower ≤ point && point ≤ upper else lower < point && point < upper

/-- The grid point of `10^k` to write: of the two neighbours of the number those in the interval,
and if both are, the nearer, the upper one when they are equally near. -/
def pick? (i : Interval) (k : Int) : Option Nat :=
  let scaled := i.value * i.unitScale k
  let step := i.stepScale k
  let below := scaled / step
  match i.holds k below, i.holds k (below + 1) with
  | true, true => some (if 2 * (scaled % step) < step then below else below + 1)
  | true, false => some below
  | false, true => some (below + 1)
  | false, false => none

/-- The first hit on the grids `10^k`, `10^(k-1)`, ... -/
def search (i : Interval) : Nat → Int → Option Digits
  | 0, _ => none
  | n + 1, k => match i.pick? k with
    | some c => some ⟨c, k⟩
    | none => search i n (k - 1)

/-- A power of ten at or above the number, at most three above it. -/
def startExponent (i : Interval) : Int :=
  ((i.value.log2 : Int) + 1 + i.exponent) * 1233 / 4096 + 1

/-- The shortest decimal. Seventeen digits tell any two doubles apart, so the search ends within
twenty-four grids of its start. -/
def shortest (i : Interval) : Digits :=
  (i.search 24 i.startExponent).getD ⟨0, 0⟩

end Interval

end ScriptEngine.Decimal
