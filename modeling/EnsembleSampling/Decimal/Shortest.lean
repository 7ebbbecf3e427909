import EnsembleSampling.Decimal.Rounded
set_option autoImplicit false

/-!
# The fewest digits that read back

Every decimal in the rounding interval of a double reads back as that double.
`shortest` takes the decimal of fewest digits in the interval, of those the
nearest to the double, and of two equally near the one with an even last digit.

On the grid of decimals with `n` digits, if any point lies in the interval then
one of the double's two neighbours on the grid does; so it is enough to look at
these two, for `n` from 1 upwards.
-/

namespace EnsembleSampling.Decimal

/-- The reals that round to the double with significand `m` and exponent `e`,
in units of a quarter of `2^e`: both ends belong to the interval exactly when
`m` is even. -/
structure RoundingInterval where
  low : Nat
  value : Nat
  high : Nat
  closed : Bool
  /-- Exponent of the unit. -/
  unit : Int
  deriving DecidableEq, Repr, Inhabited

/-- The rounding interval of a positive double.  The gap below a power of two
is half the gap above it, unless the double is among the smallest. -/
def roundingInterval (m : Nat) (e : Int) : RoundingInterval where
  low := if m = pow2 52 ∧ -1074 < e then 4 * m - 1 else 4 * m - 2
  value := 4 * m
  high := 4 * m + 2
  closed := m % 2 == 0
  unit := e - 2

/-- A point `c * 10^k` beside the interval: the point and the unit of the
interval as natural multiples of one common unit. -/
def RoundingInterval.common (i : RoundingInterval) (k : Int) : Nat × Nat :=
  (pow10 k.toNat * pow2 (-i.unit).toNat, pow2 i.unit.toNat * pow10 (-k).toNat)

/-- Whether `c * 10^k` lies in the interval. -/
def RoundingInterval.contains (i : RoundingInterval) (c : Nat) (k : Int) : Bool :=
  let (p, u) := i.common k
  if i.closed then decide (i.low * u ≤ c * p ∧ c * p ≤ i.high * u)
  else decide (i.low * u < c * p ∧ c * p < i.high * u)

/-- The neighbour of the double on the grid of multiples of `10^k` that reads
back as the double, if one does. -/
def RoundingInterval.onGrid? (i : RoundingInterval) (k : Int) : Option Nat :=
  let (p, u) := i.common k
  let below := i.value * u / p
  let rest := i.value * u % p
  match i.contains below k, i.contains (below + 1) k with
  | true, true =>
    if 2 * rest < p then some below
    else if p < 2 * rest then some (below + 1)
    else some (below + below % 2)
  | true, false => some below
  | false, true => some (below + 1)
  | false, false => none

/-- The first of the grids with `n`, `n + 1`, … digits that has a point which
reads back; `fuel` grids are tried. -/
def RoundingInterval.search (i : RoundingInterval) (top : Int) : Nat → Nat → Scaled
  | 0, n => ⟨i.value, top - n⟩
  | fuel + 1, n =>
    let k := top - ((n : Int) - 1)
    match i.onGrid? k with
    | some c => ⟨c, k⟩
    | none => i.search top fuel (n + 1)

/-- Drop the zeros at the end of a coefficient; `fuel` bounds their number. -/
def Scaled.trim (s : Scaled) : Nat → Scaled
  | 0 => s
  | fuel + 1 =>
    if s.coefficient % 10 = 0 ∧ s.coefficient ≠ 0 then
      Scaled.trim ⟨s.coefficient / 10, s.exponent + 1⟩ fuel
    else s

/-- The shortest decimal that reads back as the positive double with
significand `m` and exponent `e`.  Seventeen digits always suffice. -/
def shortest (m : Nat) (e : Int) : Scaled :=
  let i := roundingInterval m e
  let (n, d) := Binary64.ratio m e
  (i.search (exponent n d) 17 1).trim 20

end EnsembleSampling.Decimal
