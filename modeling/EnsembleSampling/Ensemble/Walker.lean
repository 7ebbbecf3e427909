import EnsembleSampling.Ensemble.LogScale
import EnsembleSampling.Ensemble.Position
import EnsembleSampling.Tensor
set_option autoImplicit false

/-!
# Walkers and ensembles

A walker has a position, the log-density there, and the probability with which its
last proposal was accepted.  An ensemble is a list of walkers in a space of some
dimension; each walker has one of each, so the three never differ in number.

`Ensemble.ofPositions` checks what a caller hands over: a table of at least three
positions of at least one coordinate.
-/

namespace EnsembleSampling

/-- A walker after a sweep. -/
structure Walker (V β : Type) where
  position : V
  logProb : β
  acceptProb : β
  deriving Inhabited

/-- The fewest walkers that can move: each needs two others. -/
def minWalkers : Nat := 3

/-- The walkers of an ensemble. -/
structure Ensemble (V β : Type) where
  dims : Nat
  walkers : List (Walker V β)
  deriving Inhabited

namespace Ensemble

variable {V β : Type}

/-- Number of walkers. -/
def size (e : Ensemble V β) : Nat := e.walkers.length

/-- Number of walkers and of dimensions. -/
def shape (e : Ensemble V β) : List Nat := [e.size, e.dims]

/-- Positions in the order of the walkers. -/
def positions (e : Ensemble V β) : List V := e.walkers.map (·.position)

/-- Log-densities in the order of the walkers. -/
def logProbs (e : Ensemble V β) : List β := e.walkers.map (·.logProb)

/-- Acceptance probabilities in the order of the walkers. -/
def acceptProbs (e : Ensemble V β) : List β := e.walkers.map (·.acceptProb)

/-- An ensemble at given positions of which nothing else is known. -/
def start [LogScale β] (dims : Nat) (xs : List V) : Ensemble V β :=
  ⟨dims, xs.map fun x => ⟨x, LogScale.undefined, 0⟩⟩

/-- A buffer of the same shape, at the origin. -/
def emptyLike {α : Type} [LinearOps α V] [LogScale β] (e : Ensemble V β) : Ensemble V β :=
  start e.dims (e.positions.map LinearOps.origin)

/-- A short description. -/
def description (e : Ensemble V β) : String :=
  "EnsembleState(n_walkers=" ++ toString e.size ++ ", n_dims=" ++ toString e.dims ++ ")"

theorem size_start [LogScale β] (dims : Nat) (xs : List V) :
    (start dims xs : Ensemble V β).size = xs.length := by
  simp [start, size]

theorem positions_start [LogScale β] (dims : Nat) (xs : List V) :
    (start dims xs : Ensemble V β).positions = xs := by
  simp [start, positions, Function.comp_def]

theorem shape_emptyLike {α : Type} [LinearOps α V] [LogScale β] (e : Ensemble V β) :
    (e.emptyLike).shape = e.shape := by
  simp [emptyLike, shape, start, size, positions]

end Ensemble

/-! ## Tables of positions -/

/-- The positions of a table that must have at least three rows and one column. -/
def positionsOf {α : Type} (t : Tensor α) : Except Rejection (Nat × List (Point α)) :=
  match t.shape with
  | [n, d] =>
    if d = 0 then .error (.input (.positionsShape t.shape))
    else if n < minWalkers then .error (.degenerate (.integer n))
    else .ok (d, t.slabs.map Point.mk)
  | s => .error (.input (.positionsShape s))

namespace Ensemble

variable {α β : Type}

/-- The ensemble at a table of positions. -/
def ofPositions [LogScale β] (t : Tensor α) :
    Except Rejection (Ensemble (Point α) β) :=
  (positionsOf t).map fun (d, xs) => start d xs

/-- The ensemble with given positions, log-densities and acceptance
probabilities, where absent log-densities are undefined and absent probabilities
zero. -/
def ofArrays [LogScale β] (positions : Tensor α)
    (logProb acceptProb : Option (Tensor β)) : Except Rejection (Ensemble (Point α) β) := do
  let (d, xs) ← positionsOf positions
  let expected := [xs.length]
  let logProb := logProb.getD (.constant expected LogScale.undefined)
  let acceptProb := acceptProb.getD (.constant expected 0)
  if logProb.shape = expected ∧ acceptProb.shape = expected then
    pure ⟨d, List.zipWith (fun x (l, a) => ⟨x, l, a⟩) xs
      (logProb.entries.zip acceptProb.entries)⟩
  else throw (.input .entriesPerWalker)

/-- The ensemble with given arguments.  The positions are read and checked before the
other two are read, and these before they are checked; an argument that is no
value is absent. -/
def ofArguments (positions : Argument) (logProb acceptProb : Argument) :
    Except Fault (Ensemble (Point Float) Float) := do
  let positions ← Tensor.ofArgument positions
  let _ ← (positionsOf positions).mapError Fault.rejected
  let logProb ← optionalArray logProb
  let acceptProb ← optionalArray acceptProb
  (ofArrays positions logProb acceptProb).mapError .rejected
where
  /-- An array, or nothing. -/
  optionalArray : Argument → Except Fault (Option (Tensor Float))
    | .absent => .ok none
    | a => (Tensor.ofArgument a).map some

/-- Positions as a table. -/
def positionTable (e : Ensemble (Point α) β) : Tensor α :=
  .ofRows e.dims (e.positions.map (·.coords))

end Ensemble

end EnsembleSampling
