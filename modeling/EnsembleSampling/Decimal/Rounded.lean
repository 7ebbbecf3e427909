import EnsembleSampling.Number.Binary64
set_option autoImplicit false

/-!
# Decimal digits of a quotient

Two ways to write a quotient of natural numbers with a fixed number of digits:
so many places after the point (`fixed`), or so many significant digits with a
power of ten (`significant`).  Both round to the nearest, a half to the even
digit, from the exact quotient.
-/

namespace EnsembleSampling.Decimal

/-- The decimal digits of a natural number, most significant first. -/
def digits (n : Nat) : List Char := Nat.toDigits 10 n

/-- The digits of `n`, filled up with zeros on the left to `width` of them. -/
def paddedDigits (width n : Nat) : List Char :=
  let ds := digits n
  List.replicate (width - ds.length) '0' ++ ds

/-- The exponent `e` with `10^e ≤ num / den < 10^(e+1)`, for positive `num` and
`den`. -/
def exponent (num den : Nat) : Int :=
  if den ≤ num then ((digits (num / den)).length : Int) - 1
  else
    let k := (digits (den / num)).length
    if den = num * pow10 (k - 1) then -((k : Int) - 1) else -(k : Int)

/-- `num * 10^shift / den` as a quotient of natural numbers. -/
def scaleTen (num den : Nat) (shift : Int) : Nat × Nat :=
  if 0 ≤ shift then (num * pow10 shift.toNat, den) else (num, den * pow10 (-shift).toNat)

/-- A decimal magnitude `coefficient * 10^exponent`. -/
structure Scaled where
  coefficient : Nat
  exponent : Int
  deriving DecidableEq, Repr, Inhabited

/-- `num / den` rounded to `count` significant digits, for positive `num`,
`den` and `count`; the coefficient has exactly `count` digits. -/
def significant (count num den : Nat) : Scaled :=
  let e := exponent num den
  let (n, d) := scaleTen num den ((count : Int) - 1 - e)
  let c := Binary64.roundDiv n d
  if c = pow10 count then ⟨pow10 (count - 1), e + 1 - (count - 1)⟩
  else ⟨c, e - (count - 1)⟩

/-- `num / den` with `places` digits after the point. -/
def fixed (places num den : Nat) : List Char :=
  let c := Binary64.roundDiv (num * pow10 places) den
  if places = 0 then digits c
  else digits (c / pow10 places) ++ '.' :: paddedDigits places (c % pow10 places)

/-- An exponent of ten with its sign and at least two digits. -/
def exponentText (e : Int) : List Char :=
  (if e < 0 then '-' else '+') :: paddedDigits 2 e.natAbs

/-- Digits with a point after the first, then the power of ten. -/
def scientificText (ds : List Char) (e : Int) : List Char :=
  match ds with
  | [] => []
  | [d] => d :: 'e' :: exponentText e
  | d :: rest => d :: '.' :: rest ++ 'e' :: exponentText e

end EnsembleSampling.Decimal
