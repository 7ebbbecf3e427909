import EnsembleSampling.Fault
set_option autoImplicit false

/-!
# Constraints and what breaks them

Each transform has a name, a precondition made of bounds, and values that a bound
can turn down.  They are data here, over a type `A` of scalar arguments and a
type `R` of array entries; `Breach.violation` writes them out.
-/

namespace EnsembleSampling

/-- The transforms, one for each kind of constrained variable. -/
inductive Transform where
  | integer
  | unbounded
  | positive
  | lowerBounded
  | upperBounded
  | doublyBounded
  | correlation
  | probability
  | positiveOrdered
  | simplex
  | correlationMatrix
  | covarianceMatrix
  deriving DecidableEq, Repr, Inhabited

namespace Transform

/-- All transforms. -/
def all : List Transform :=
  [.integer, .unbounded, .positive, .lowerBounded, .upperBounded, .doublyBounded,
   .correlation, .probability, .positiveOrdered, .simplex, .correlationMatrix,
   .covarianceMatrix]

/-- The name a transform goes by. -/
def name : Transform → String
  | .integer => "integer"
  | .unbounded => "scalar_unconstrain"
  | .positive => "scalar_pos_unconstrain"
  | .lowerBounded => "scalar_lb_unconstrain"
  | .upperBounded => "scalar_ub_unconstrain"
  | .doublyBounded => "scalar_lub_unconstrain"
  | .correlation => "corr_unconstrain"
  | .probability => "prob_unconstrain"
  | .positiveOrdered => "pos_ordered_unconstrain"
  | .simplex => "simplex_unconstrain"
  | .correlationMatrix => "corr_matrix_unconstrain"
  | .covarianceMatrix => "cov_matrix_unconstrain"

/-- The transform with a given name. -/
def ofName? (s : String) : Option Transform := all.find? fun t => t.name == s

end Transform

/-- A bound of a precondition. -/
inductive Bound (A R : Type) where
  | integral
  | atLeast (limit : A)
  | atMost (limit : A)
  /-- The lower limit is below the upper one. -/
  | ordered
  /-- Entry `index` of a vector is not negative. -/
  | entryNonnegative (index : Nat)
  /-- Entry `index` of a vector is at least the one before it. -/
  | entryIncreasing (index : Nat) (previous : R)
  | unitSum
  | symmetric
  | unitDiagonal (index : Nat)
  deriving Inhabited

/-- A value that a bound turns down. -/
inductive Offender (A R : Type) where
  | scalar (a : A)
  | limits (lower upper : A)
  | entry (r : R)
  deriving Inhabited

/-- A broken precondition. -/
structure Breach (A R : Type) where
  transform : Transform
  value : Offender A R
  bound : Bound A R
  deriving Inhabited

/-- The tolerance of the checks that sums, symmetry and diagonals are subject to. -/
def toleranceText : String := Report.exact 1e-8

/-- Wording of a bound. -/
def Bound.text : Bound Argument Float → String
  | .integral => "integral value"
  | .atLeast a => "y >= " ++ a.plain
  | .atMost a => "y <= " ++ a.plain
  | .ordered => "lb < ub"
  | .entryNonnegative k => "y[" ++ toString k ++ "] >= 0"
  | .entryIncreasing k r =>
    "y[" ++ toString k ++ "] >= y[" ++ toString (k - 1) ++ "] = " ++ Report.exact r
  | .unitSum => "|1 - sum(y)| < " ++ toleranceText
  | .symmetric => "symmetric matrix"
  | .unitDiagonal k => "y[" ++ toString k ++ ", " ++ toString k ++ "] == 1"

/-- The offending value as an argument. -/
def Offender.argument : Offender Argument Float → Argument
  | .scalar a => a
  | .limits a b => .tuple [a, b]
  | .entry r => .entry r

/-- A broken precondition written out. -/
def Breach.violation (b : Breach Argument Float) : Violation where
  transform := .text b.transform.name
  value := b.value.argument
  bound := .text b.bound.text

end EnsembleSampling
