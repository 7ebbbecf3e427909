import EnsembleSampling.Number.Power
set_option autoImplicit false

/-!
# Doubles as exact numbers

A double is a signed multiple of a power of two, an infinity, or no number at
all.  `content` reads this off the bits, `ofRatio` goes back: it returns the
double nearest to a quotient of natural numbers, a tie going to the even
significand and a quotient beyond the largest double to infinity.

Between the two, integers and doubles are compared without converting either
(`compareInt`), because converting a large integer would round it first.
-/

namespace EnsembleSampling.Binary64

/-- What a double stands for. -/
inductive Content where
  /-- `(-1)^negative * significand * 2^exponent`. -/
  | finite (negative : Bool) (significand : Nat) (exponent : Int)
  /-- One of the two infinities. -/
  | infinite (negative : Bool)
  /-- Not a number. -/
  | undefined
  deriving DecidableEq, Repr, Inhabited

/-- The content of a word of 64 bits. -/
def contentOfBits (bits : Nat) : Content :=
  let negative : Bool := bits / pow2 63 % 2 == 1
  let biased : Nat := bits / pow2 52 % pow2 11
  let fraction : Nat := bits % pow2 52
  if biased = 2047 then
    if fraction = 0 then .infinite negative else .undefined
  else if biased = 0 then .finite negative fraction (-1074)
  else .finite negative (pow2 52 + fraction) ((biased : Int) - 1075)

/-- The content of a double. -/
def content (x : Float) : Content := contentOfBits x.toBits.toNat

/-- The sign of a content; zeros have one too. -/
def Content.isNegative : Content → Bool
  | .finite s _ _ => s
  | .infinite s => s
  | .undefined => false

/-! ## Quotients of natural numbers -/

/-- The quotient `num / den` rounded to the nearest natural number, a half
going to the even neighbour. -/
def roundDiv (num den : Nat) : Nat :=
  let q := num / den
  let r := 2 * (num % den)
  if r < den then q
  else if den < r then q + 1
  else q + q % 2

/-- `num * 2^shift / den` as a quotient of natural numbers. -/
def scaleTwo (num den : Nat) (shift : Int) : Nat × Nat :=
  if 0 ≤ shift then (num * pow2 shift.toNat, den) else (num, den * pow2 (-shift).toNat)

/-- Bits of the double with significand `m` (at most `2^53`) and exponent `e`
(at least `-1074`). -/
def packMagnitude (m : Nat) (e : Int) : Nat :=
  let (m, e) := if m = pow2 53 then (pow2 52, e + 1) else (m, e)
  if m < pow2 52 then m
  else if 971 < e then 2047 * pow2 52
  else (e + 1075).toNat * pow2 52 + (m - pow2 52)

/-- Bits of the double nearest to `num / den`, for a positive `den`. -/
def ratioBits (num den : Nat) : Nat :=
  if num = 0 then 0
  else
    let guess : Int := (num.log2 : Int) - (den.log2 : Int) - 53
    let (n, d) := scaleTwo num den (-guess)
    let e := if pow2 53 ≤ n / d then guess + 1 else guess
    let e := max e (-1074)
    let (n, d) := scaleTwo num den (-e)
    packMagnitude (roundDiv n d) e

/-- The double nearest to `num / den`, with a sign. -/
def ofRatio (negative : Bool) (num den : Nat) : Float :=
  let bits := ratioBits num den
  Float.ofBits (UInt64.ofNat (if negative then pow2 63 + bits else bits))

/-- The double nearest to an integer, unless the integer is too large for one. -/
def ofInt? (n : Int) : Option Float :=
  let x := ofRatio (n < 0) n.natAbs 1
  if x.isInf then none else some x

/-- The double nearest to `a / b` for a nonzero `b`, unless the quotient is too
large for one.  A zero is negative when exactly one operand is. -/
def quotient? (a b : Int) : Option Float :=
  let x := ofRatio ((decide (a < 0)).xor (decide (b < 0))) a.natAbs b.natAbs
  if x.isInf then none else some x

/-! ## Integers beside doubles -/

/-- The exact order of an integer and a double; a double that is no number has
no place in it. -/
def compareInt (n : Int) (x : Float) : Option Ordering :=
  match content x with
  | .undefined => none
  | .infinite negative => some (if negative then .gt else .lt)
  | .finite negative m e =>
    let m : Int := if negative then -(m : Int) else m
    if 0 ≤ e then some (compare n (m * pow2 e.toNat))
    else some (compare (n * pow2 (-e).toNat) m)

/-- The least integer that is at least a finite double. -/
def ceil? (x : Float) : Option Int :=
  match content x with
  | .finite negative m e =>
    let m : Int := if negative then -(m : Int) else m
    if 0 ≤ e then some (m * pow2 e.toNat)
    else some (-((-m).fdiv (pow2 (-e).toNat)))
  | _ => none

/-- The magnitude of a finite double as a quotient of natural numbers. -/
def ratio (m : Nat) (e : Int) : Nat × Nat := scaleTwo m 1 e

end EnsembleSampling.Binary64
