set_option autoImplicit false

/-!
# Functions of a real quantity

The algorithms of this library are written over any type with arithmetic, an
order, and the functions collected in `Elementary`; they run on doubles and can
be reasoned about over the real numbers, or over any other model of exact or
rounded arithmetic.
-/

namespace EnsembleSampling

/-- The functions of a real quantity that the library needs. -/
class Elementary (α : Type) where
  sqrt : α → α
  exp : α → α
  log : α → α
  /-- Inverse of the hyperbolic tangent. -/
  atanh : α → α
  /-- Inverse of the logistic function: `log (x / (1 - x))`. -/
  logit : α → α
  /-- Neither infinite nor undefined. -/
  isFinite : α → Bool

instance instNatCastFloat : NatCast Float := ⟨Float.ofNat⟩

instance instZeroFloat : Zero Float := ⟨0.0⟩

instance instOneFloat : One Float := ⟨1.0⟩

/-- The inverse of the logistic function on doubles.  Near one half the quotient
`x / (1 - x)` is close to one and its logarithm would lose digits; there the
equal expression `2 * atanh (2 * (x - 1/2))` is used. -/
def logitReal (x : Float) : Float :=
  if x < 0.3 || 0.65 < x then Float.log (x / (1.0 - x)) else 2.0 * Float.atanh (2.0 * (x - 0.5))

instance : Elementary Float where
  sqrt := Float.sqrt
  exp := Float.exp
  log := Float.log
  atanh := Float.atanh
  logit := logitReal
  isFinite := Float.isFinite

section

variable {α : Type}

/-- The magnitude of a quantity. -/
def magnitude [Zero α] [Neg α] [LT α] [DecidableLT α] (x : α) : α := if x < 0 then -x else x

/-- The larger of two quantities; an operand that is no number wins. -/
def larger [LE α] [DecidableLE α] (x y : α) : α :=
  if y ≤ x then x else if x ≤ x then y else x

/-- The largest of a list of quantities, at least `x`; if one of them is no
number, then neither is the result. -/
def largest [LE α] [DecidableLE α] (x : α) (xs : List α) : α := xs.foldl larger x

end

end EnsembleSampling
