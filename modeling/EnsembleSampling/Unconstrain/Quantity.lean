import EnsembleSampling.Argument.Arithmetic
import EnsembleSampling.Number.Elementary
set_option autoImplicit false

/-!
# Scalar arguments of a transform

The scalar transforms compare, subtract, divide and take functions of what the
caller hands over.  `Quantity A R` says how that is done for arguments of type `A`
with results in `R`; any step may fail, because a caller may hand over what has
no order or no arithmetic.  Arguments in general are one instance.
-/

namespace EnsembleSampling

/-- Scalar arguments `A` and the functions of them with values in `R`. -/
class Quantity (A : Type) (R : outParam Type) where
  ofInt : Int → A
  atMost : A → A → Except Fault Bool
  lessThan : A → A → Except Fault Bool
  sub : A → A → Except Fault A
  div : A → A → Except Fault A
  /-- The value itself. -/
  value : A → Except Fault R
  log : A → Except Fault R
  logit : A → Except Fault R
  atanh : A → Except Fault R
  /-- The integer that an argument is, unless it is none. -/
  integer? : A → Option Int

/-- The integer that an argument is; a truth value is none. -/
def Argument.integer? : Argument → Option Int
  | .integer n | .word n => some n
  | _ => none

instance : Quantity Argument Float where
  ofInt := .integer
  atMost := Argument.atMost
  lessThan := Argument.lessThan
  sub := Argument.sub
  div := Argument.div
  value := Argument.toReal
  log a := a.functionOperand.map Float.log
  logit a := a.functionOperand.map logitReal
  atanh a := a.functionOperand.map Float.atanh
  integer? := Argument.integer?

end EnsembleSampling
