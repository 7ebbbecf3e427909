import EnsembleSampling.Ensemble.Walker
import EnsembleSampling.Ensemble.Host
import EnsembleSampling.Tensor.Layout
set_option autoImplicit false

/-!
# Scattered starts

Walkers are scattered around a point by one uniform for every coordinate of every
walker, walker by walker: a coordinate is moved by the spread times the uniform
less one half, so by at most half the spread.

Without a number of walkers there are twice as many as coordinates, and no fewer
than can move.
-/

namespace EnsembleSampling

/-- Twice the number of coordinates, but enough walkers to move. -/
def defaultWalkers (dims : Nat) : Nat := max (2 * dims) minWalkers

section

variable {σ ε α : Type} [One α] [Add α] [Sub α] [Mul α] [Div α] [NatCast α]

/-- A coordinate moved by a uniform; the spread is looked at only then. -/
def scatterCoordinate (uniform spread : Draw σ ε α) (p : α) : Draw σ ε α := do
  let u ← uniform
  let s ← spread
  pure (p + s * (u - 1 / ((2 : Nat) : α)))

/-- Coordinates moved by a uniform each, in order. -/
def scatterPoint (uniform spread : Draw σ ε α) : List α → Draw σ ε (List α)
  | [] => pure []
  | p :: ps => do
    let x ← scatterCoordinate uniform spread p
    let xs ← scatterPoint uniform spread ps
    pure (x :: xs)

/-- So many positions around a point, one after the other. -/
def scatter (uniform spread : Draw σ ε α) (point : List α) (walkers : Nat) :
    Draw σ ε (List (List α)) :=
  Draw.times walkers (scatterPoint uniform spread point)

end

/-! ## From arguments -/

/-- The number of walkers that an argument stands for, with so many coordinates. -/
def walkerCount (dims : Nat) : Argument → Except Fault Nat
  | .absent => .ok (defaultWalkers dims)
  | a => do
    if ← a.lessThan (.integer minWalkers) then throw (.rejected (.degenerate a))
    let n ← a.index
    pure n.toNat

/-- Positions scattered around a point, as a table.  There must be memory for it. -/
def scatterTable {σ α : Type} [One α] [Add α] [Sub α] [Mul α] [Div α] [NatCast α]
    (memory : Memory) (uniform spread : Draw σ Fault α) (point : List α) (walkers : Argument) :
    Draw σ Fault (Tensor α) := do
  let dims := point.length
  let n ← Draw.ofExcept (walkerCount dims walkers)
  Draw.ofExcept (Layout.checkStored memory [n, dims])
  let rows ← scatter uniform spread point n
  pure (.ofRows dims rows)

/-- The same from arguments.  The point must be a vector or a single value. -/
def scatterOf {σ : Type} (memory : Memory) (uniform : Draw σ Fault Float)
    (point walkers spread : Argument) : Draw σ Fault (Tensor Float) := do
  let point := (← Draw.ofExcept (Tensor.ofArgument point)).atLeastVector
  if point.rank ≠ 1 then throw (.rejected (.input .startNotVector))
  scatterTable memory uniform (Draw.ofExcept spread.operand) point.entries walkers

/-! ## Small facts -/

theorem minWalkers_le_defaultWalkers (dims : Nat) : minWalkers ≤ defaultWalkers dims :=
  Nat.le_max_right ..

end EnsembleSampling
