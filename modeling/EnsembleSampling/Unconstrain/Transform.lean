import EnsembleSampling.Unconstrain.Bound
import EnsembleSampling.Unconstrain.Factor
import EnsembleSampling.Unconstrain.Quantity
import EnsembleSampling.Number.Summation
import EnsembleSampling.Tensor
set_option autoImplicit false

/-!
# From constrained to unconstrained values

Each transform checks the precondition of its constraint, in a fixed order, and
then maps the value to the unconstrained scale.  Values on the boundary of a
constraint are legal and map to infinities.  The checks are written so that what
is no number never passes one.

Here a transform returns its whole output or a refusal; how the output is written is
the writer's business.
-/

namespace EnsembleSampling.Unconstrain

/-- Why a value is not written. -/
inductive Refusal (A R : Type) where
  /-- The value breaks a precondition. -/
  | breach (b : Breach A R)
  /-- The value has the wrong shape. -/
  | shape (cause : InputCause)
  /-- The matrix has no factors. -/
  | obstacle (o : Factor.Obstacle R) (rows : List (List R))
  /-- A step of the calculation failed. -/
  | fault (f : Fault)
  deriving Inhabited

variable {A R : Type}

/-- The outcome of a step of the calculation. -/
def step {β : Type} (x : Except Fault β) : Except (Refusal A R) β := x.mapError .fault

/-- Turn a value down unless a condition holds. -/
def require (b : Bool) (t : Transform) (value : Offender A R) (bound : Bound A R) :
    Except (Refusal A R) Unit :=
  if b then .ok () else .error (.breach ⟨t, value, bound⟩)

/-! ## Scalars -/

section

variable [Quantity A R]

/-- Turn a scalar down unless it is at least `limit`. -/
def requireAtLeast (t : Transform) (limit y : A) : Except (Refusal A R) Unit := do
  require (← step (Quantity.atMost limit y)) t (.scalar y) (.atLeast limit)

/-- Turn a scalar down unless it is at most `limit`. -/
def requireAtMost (t : Transform) (limit y : A) : Except (Refusal A R) Unit := do
  require (← step (Quantity.atMost y limit)) t (.scalar y) (.atMost limit)

/-- An integer is written as it is. -/
def integer (n : A) : Except (Refusal A R) Int :=
  match Quantity.integer? n with
  | some i => .ok i
  | none => .error (.breach ⟨.integer, .scalar n, .integral⟩)

/-- An unconstrained scalar is written as it is. -/
def unbounded (y : A) : Except (Refusal A R) R := step (Quantity.value y)

/-- A positive scalar is written as its logarithm. -/
def positive (y : A) : Except (Refusal A R) R := do
  requireAtLeast .positive (Quantity.ofInt 0) y
  step (Quantity.log y)

/-- A scalar with a lower bound is written as the logarithm of its distance. -/
def lowerBounded (lb y : A) : Except (Refusal A R) R := do
  requireAtLeast .lowerBounded lb y
  step (Quantity.sub y lb >>= Quantity.log)

/-- A scalar with an upper bound is written as the logarithm of its distance. -/
def upperBounded (ub y : A) : Except (Refusal A R) R := do
  requireAtMost .upperBounded ub y
  step (Quantity.sub ub y >>= Quantity.log)

/-- A scalar between two bounds is written as the logit of its relative place. -/
def doublyBounded (lb ub y : A) : Except (Refusal A R) R := do
  require (← step (Quantity.lessThan lb ub)) .doublyBounded (.limits lb ub) .ordered
  requireAtLeast .doublyBounded lb y
  requireAtMost .doublyBounded ub y
  step do
    let part ← Quantity.sub y lb
    let whole ← Quantity.sub ub lb
    Quantity.logit (← Quantity.div part whole)

/-- A correlation is written as its inverse hyperbolic tangent. -/
def correlation (y : A) : Except (Refusal A R) R := do
  requireAtLeast .correlation (Quantity.ofInt (-1)) y
  requireAtMost .correlation (Quantity.ofInt 1) y
  step (Quantity.atanh y)

/-- A probability is written as its logit. -/
def probability (y : A) : Except (Refusal A R) R := do
  requireAtLeast .probability (Quantity.ofInt 0) y
  requireAtMost .probability (Quantity.ofInt 1) y
  step (Quantity.logit y)

end

/-! ## Vectors -/

section

variable [Zero R] [One R] [Add R] [Sub R] [Neg R] [Div R] [NatCast R] [LE R] [DecidableLE R]
  [LT R] [DecidableLT R] [Elementary R]

/-- The tolerance of the checks: ten to the minus eighth. -/
def tolerance : R := 1 / ((100000000 : Nat) : R)

/-- The entries of an array that must be a vector. -/
def vectorOf (t : Transform) (y : Tensor R) : Except (Refusal A R) (List R) :=
  if y.rank = 1 then .ok y.entries else .error (.shape (.notVector t.name y.shape))

/-- Differences of neighbours. -/
def increments (ys : List R) : List R := List.zipWith (· - ·) (ys.drop 1) ys

/-- Turn a vector down at its first decrease.  `index` is the place of `y`, and
`previous` the entry before it. -/
def requireIncreasing (index : Nat) (previous : R) : List R → Except (Refusal A R) Unit
  | [] => .ok ()
  | y :: ys => do
    require (decide (0 ≤ y - previous)) .positiveOrdered (.entry y)
      (.entryIncreasing index previous)
    requireIncreasing (index + 1) y ys

/-- The entries of an array that must be a positive, non-decreasing vector. -/
def increasingOf (y : Tensor R) : Except (Refusal A R) (List R) := do
  match ← vectorOf .positiveOrdered y with
  | [] => pure []
  | first :: rest =>
    require (decide (0 ≤ first)) .positiveOrdered (.entry first) (.entryNonnegative 0)
    requireIncreasing 1 first rest
    pure (first :: rest)

/-- Logarithms of the first entry and of the increments. -/
def logIncrements : List R → List R
  | [] => []
  | first :: rest => (first :: increments (first :: rest)).map Elementary.log

/-- A positive, non-decreasing vector is written as the logarithms of its first
entry and of its increments. -/
def positiveOrdered (y : Tensor R) : Except (Refusal A R) (List R) :=
  (increasingOf y).map logIncrements

/-- Turn a vector down at its first negative entry, counting from `index`. -/
def requireNonnegative (t : Transform) (index : Nat) : List R → Except (Refusal A R) Unit
  | [] => .ok ()
  | y :: ys => do
    require (decide (0 ≤ y)) t (.entry y) (.entryNonnegative index)
    requireNonnegative t (index + 1) ys

/-- Logarithms of all entries but the last against the last. -/
def logRatios (ys : List R) : List R :=
  let logs := ys.map Elementary.log
  match logs.getLast? with
  | none => []
  | some last => logs.dropLast.map (· - last)

/-- A simplex is written as the logarithms of its entries against the last. -/
def simplex (y : Tensor R) : Except (Refusal A R) (List R) := do
  let ys ← vectorOf .simplex y
  if ys.isEmpty then throw (.shape .emptySimplex)
  let total := blockSum ys
  require (decide (magnitude (1 - total) < tolerance)) .simplex (.entry total) .unitSum
  requireNonnegative .simplex 0 ys
  pure (logRatios ys)

end

/-! ## Matrices -/

section

variable [Zero R] [One R] [Add R] [Sub R] [Neg R] [Mul R] [Div R] [NatCast R] [LE R]
  [DecidableLE R] [LT R] [DecidableLT R] [Elementary R]

/-- The rows of an array that must be a square matrix with at least one row. -/
def squareOf (t : Transform) (y : Tensor R) : Except (Refusal A R) (List (List R)) :=
  match y.shape with
  | [n, m] =>
    if n = m ∧ n ≠ 0 then .ok y.slabs else .error (.shape (.notSquare t.name y.shape))
  | s => .error (.shape (.notSquare t.name s))

/-- Rows and columns exchanged, for `columns` columns. -/
def transpose (columns : Nat) (rows : List (List R)) : List (List R) :=
  (List.range columns).map fun j => rows.filterMap (·[j]?)

/-- The largest difference between an entry and the one across the diagonal. -/
def asymmetry (rows : List (List R)) : R :=
  largest 0 ((List.zipWith (List.zipWith fun x y => magnitude (x - y)) rows
    (transpose rows.length rows)).flatten)

/-- The largest entry, at least one, that the tolerance of symmetry scales with. -/
def symmetryScale (rows : List (List R)) : R :=
  let top := largest 0 (rows.flatten.map magnitude)
  if 1 < top then top else 1

/-- Turn a matrix down unless it is symmetric up to the tolerance. -/
def requireSymmetric (t : Transform) (rows : List (List R)) : Except (Refusal A R) Unit :=
  require (decide (asymmetry rows ≤ tolerance * symmetryScale rows)) t
    (.entry (asymmetry rows)) .symmetric

/-- The factors of a matrix, or the obstacle to them. -/
def factorsOf (rows : List (List R)) : Except (Refusal A R) (Factor.Factors R) :=
  match Factor.ofCovariance rows with
  | .ok f => .ok f
  | .error o => .error (.obstacle o rows)

/-- Turn a matrix down at the first diagonal entry whose root is not one.
`scales` are the roots, `entries` the diagonal from `index` on. -/
def requireUnitDiagonal (index : Nat) : List R → List R → Except (Refusal A R) Unit
  | scale :: scales, y :: entries => do
    require (decide (magnitude (scale - 1) < tolerance)) .correlationMatrix (.entry y)
      (.unitDiagonal index)
    requireUnitDiagonal (index + 1) scales entries
  | _, _ => .ok ()

/-- A correlation matrix is written as its canonical partial correlations. -/
def correlationMatrix (y : Tensor R) : Except (Refusal A R) (List R) := do
  let rows ← squareOf .correlationMatrix y
  requireSymmetric .correlationMatrix rows
  let f ← factorsOf rows
  requireUnitDiagonal 0 (f.logScales.map Elementary.exp) (Factor.diagonal rows)
  pure f.partials

/-- The factors of an array that must be a covariance matrix. -/
def covarianceFactors (y : Tensor R) : Except (Refusal A R) (Factor.Factors R) := do
  let rows ← squareOf .covarianceMatrix y
  requireSymmetric .covarianceMatrix rows
  factorsOf rows

/-- A covariance matrix is written as its canonical partial correlations and then
the logarithms of its scales. -/
def covarianceMatrix (y : Tensor R) : Except (Refusal A R) (List R) :=
  (covarianceFactors y).map fun f => f.partials ++ f.logScales

end

end EnsembleSampling.Unconstrain
