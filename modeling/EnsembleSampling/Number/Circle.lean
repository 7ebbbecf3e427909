import EnsembleSampling.Number.Power
set_option autoImplicit false

/-!
# Points on the unit circle

Complex quantities by their two parts, and the points of the unit circle that cut it
into equal parts (`CircleFunctions.turn`).

For doubles a point is the product of a coarse and a fine one, each found from an angle
of at most an eighth of a turn.  Points a quarter of a turn apart therefore differ in
nothing but the order and the signs of their parts, and a part that is zero is exactly
zero.
-/

namespace EnsembleSampling

/-- A complex quantity by its two parts. -/
structure Cartesian (α : Type) where
  re : α
  im : α
  deriving Inhabited

namespace Cartesian

variable {α : Type}

/-- A real quantity. -/
def ofReal [Zero α] (x : α) : Cartesian α := ⟨x, 0⟩

/-- The complex conjugate. -/
def conj [Neg α] (z : Cartesian α) : Cartesian α := ⟨z.re, -z.im⟩

instance [Add α] : Add (Cartesian α) := ⟨fun z w => ⟨z.re + w.re, z.im + w.im⟩⟩

instance [Sub α] : Sub (Cartesian α) := ⟨fun z w => ⟨z.re - w.re, z.im - w.im⟩⟩

instance [Add α] [Sub α] [Mul α] : Mul (Cartesian α) :=
  ⟨fun z w => ⟨z.re * w.re - z.im * w.im, z.re * w.im + z.im * w.re⟩⟩

end Cartesian

/-- Points on the unit circle. -/
class CircleFunctions (α : Type) where
  /-- The point after `k` of `n` equal parts of a full turn from `1`, through `i`. -/
  turn : Nat → Nat → Cartesian α
  /-- The square root of one half, either part of the point after an eighth of a turn. -/
  rootHalf : α

namespace Circle

/-- The point after `part` of `8 * n` equal parts of a turn, if that is at most a quarter. -/
def quarterPoint (part n : Nat) : Cartesian Float :=
  let unit := 0.25 * 3.141592653589793 / Float.ofNat n
  if part < n then
    let angle := Float.ofNat part * unit
    ⟨Float.cos angle, Float.sin angle⟩
  else
    let angle := Float.ofNat (2 * n - part) * unit
    ⟨Float.sin angle, Float.cos angle⟩

/-- The point after `part` of `8 * n` equal parts of a turn, if that is at most a half. -/
def halfPoint (part n : Nat) : Cartesian Float :=
  if part < 2 * n then quarterPoint part n
  else
    let z := quarterPoint (part - 2 * n) n
    ⟨-z.im, z.re⟩

/-- The point after `k` of `n` equal parts of a turn, of which it is at most a half. -/
def point (k n : Nat) : Cartesian Float := if k = 0 then ⟨1.0, 0.0⟩ else halfPoint (8 * k) n

/-- How many of the lower bits of a place belong to the fine point, if a turn has `n`
parts. -/
def fineBits (n : Nat) : Nat := ((n + 2) / 2 - 1).log2 / 2 + 1

/-- The point after `k` of `n` equal parts of a turn, of which it is at most a half, from
a fine and a coarse one. -/
def halfTurn (k n : Nat) : Cartesian Float :=
  let fine := pow2 (fineBits n)
  let z := point (k % fine) n
  let w := point (k / fine * fine) n
  ⟨z.re * w.re - z.im * w.im, z.re * w.im + z.im * w.re⟩

/-- The point after `k` of `n` equal parts of a turn. -/
def turn (k n : Nat) : Cartesian Float := if 2 * k ≤ n then halfTurn k n else (halfTurn (n - k) n).conj

end Circle

instance : CircleFunctions Float where
  turn := Circle.turn
  rootHalf := 0.7071067811865476

end EnsembleSampling
