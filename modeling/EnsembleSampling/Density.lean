import EnsembleSampling.Argument.Arithmetic
set_option autoImplicit false

/-!
# Log-densities

A small catalogue of log-densities.  Each is a function of the coordinates of a
position and of the number of evaluations before it; only a scripted density makes
use of the latter, and the others give the same value for the same position every
time.

A log-density is described by arguments, which need not be numbers, and so is its value:
`Density.value` finds it, and `Density.real` takes it as a double.
-/

namespace EnsembleSampling

/-- A log-density. -/
inductive Density where
  /-- Minus half the squared length. -/
  | gaussian
  /-- A constant and a multiple of each coordinate. -/
  | linear (constant : Argument) (coefficients : List Argument)
  /-- The same value everywhere. -/
  | uniform (value : Argument)
  /-- Zero where the first coordinate is an integer, undefined elsewhere. -/
  | lattice
  /-- Zero in a box with equal sides, another value outside. -/
  | box (lo hi outside : Argument)
  /-- The value at the first of a list of points, another value off the list. -/
  | table (points : List (Argument × Argument)) (otherwise : Argument)
  /-- Values in the order of the evaluations, over and over; nothing for a failure. -/
  | scripted (values : List (Option Argument))
  deriving Inhabited

namespace Density

/-- Whether a double is an integer. -/
def isInteger (x : Float) : Bool := x.isFinite && x.floor == x

/-- Whether every coordinate lies between two limits.  The first that does not ends the
search. -/
def allBetween (lo hi : Argument) : List Float → Except Fault Bool
  | [] => .ok true
  | v :: vs => do
    if ← lo.atMost (.real v) then
      if ← (Argument.real v).atMost hi then allBetween lo hi vs else pure false
    else pure false

/-- A sum with further multiples of coordinates.  These are doubles, by which nothing is
repeated. -/
def addMultiples (total : Argument) : List (Argument × Float) → Except Fault Argument
  | [] => .ok total
  | (c, v) :: rest => do
    addMultiples (← total.add (← c.mulNumbers (.real v))) rest

/-- The value of a scripted density after so many evaluations. -/
def scriptedValue (values : List (Option Argument)) (evaluations : Nat) :
    Except Fault Argument :=
  if values.isEmpty then .error .divisionByZero
  else
    match values[evaluations % values.length]? with
    | some (some a) => .ok a
    | _ => .error .densityFailed

/-- The value at the first of some points that is equal to a position. -/
def valueAmong (x : Argument) (otherwise : Argument) :
    List (Argument × Argument) → Except Fault Argument
  | [] => .ok otherwise
  | (p, a) :: rest => do if ← p.equal x then pure a else valueAmong x otherwise rest

/-- The value at a position after so many evaluations. -/
def value (d : Density) (evaluations : Nat) (x : List Float) : Except Fault Argument :=
  match d with
  | .gaussian => .ok (.real (-0.5 * x.foldl (fun t v => t + v * v) 0.0))
  | .linear constant coefficients => addMultiples constant (coefficients.zip x)
  | .uniform a => .ok a
  | .lattice =>
    match x with
    | [] => .error .outOfRange
    | v :: _ => .ok (.real (if isInteger v then 0.0 else 0.0 / 0.0))
  | .box lo hi outside =>
    (allBetween lo hi x).map fun inside => if inside then .real 0.0 else outside
  | .table points otherwise => valueAmong (.ofRow x) otherwise points
  | .scripted values => scriptedValue values evaluations

/-- The value at a position as a double. -/
def real (d : Density) (evaluations : Nat) (x : List Float) : Except Fault Float := do
  (← d.value evaluations x).toReal

end Density

end EnsembleSampling
