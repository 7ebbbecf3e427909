import EnsembleSampling.Ensemble.Host
import EnsembleSampling.Unconstrain.Transform
set_option autoImplicit false

/-!
# The writer

A writer keeps two buffers, of real values and of integers.  Each call appends
the unconstrained values of one variable.  The representation is positional: a
reader takes the values in the order in which they were written, so each call
fixes how many values it writes.

A call writes step by step (`Call.write`), and nothing that it has written is taken
back.  `Call.output` is what it writes in the end.
-/

namespace EnsembleSampling.Unconstrain

/-- A call of a transform, with scalar arguments in `A` and arrays over `R`. -/
inductive Call (A R : Type) where
  | integer (n : A)
  | unbounded (y : A)
  | positive (y : A)
  | lowerBounded (lb y : A)
  | upperBounded (ub y : A)
  | doublyBounded (lb ub y : A)
  | correlation (y : A)
  | probability (y : A)
  | positiveOrdered (y : Tensor R)
  | simplex (y : Tensor R)
  | correlationMatrix (y : Tensor R)
  | covarianceMatrix (y : Tensor R)
  deriving Inhabited

/-- What a call appends. -/
structure Output (R : Type) where
  reals : List R
  integers : List Int
  deriving Inhabited

namespace Output

variable {R : Type}

/-- One real value. -/
def real (r : R) : Output R := ⟨[r], []⟩

/-- Real values only. -/
def ofReals (rs : List R) : Output R := ⟨rs, []⟩

/-- One integer. -/
def ofInteger (n : Int) : Output R := ⟨[], [n]⟩

/-- Nothing. -/
def none : Output R := ⟨[], []⟩

end Output

variable {A R : Type} [Zero R] [One R] [Add R] [Sub R] [Neg R] [Mul R] [Div R] [NatCast R]
  [LE R] [DecidableLE R] [LT R] [DecidableLT R] [Elementary R] [Quantity A R]

/-- What a call appends, or why it is refused. -/
def Call.output : Call A R → Except (Refusal A R) (Output R)
  | .integer n => (Unconstrain.integer n).map .ofInteger
  | .unbounded y => (Unconstrain.unbounded y).map .real
  | .positive y => (Unconstrain.positive y).map .real
  | .lowerBounded lb y => (Unconstrain.lowerBounded lb y).map .real
  | .upperBounded ub y => (Unconstrain.upperBounded ub y).map .real
  | .doublyBounded lb ub y => (Unconstrain.doublyBounded lb ub y).map .real
  | .correlation y => (Unconstrain.correlation y).map .real
  | .probability y => (Unconstrain.probability y).map .real
  | .positiveOrdered y => (Unconstrain.positiveOrdered y).map .ofReals
  | .simplex y => (Unconstrain.simplex y).map .ofReals
  | .correlationMatrix y => (Unconstrain.correlationMatrix y).map .ofReals
  | .covarianceMatrix y => (Unconstrain.covarianceMatrix y).map .ofReals

/-- The two buffers. -/
structure Writer (R : Type) where
  reals : List R
  integers : List Int
  deriving Inhabited

/-! ## Calls at work -/

/-- A call at work on the buffers.  It may be refused at any point, and what it has
appended by then stays. -/
abbrev Writing (A R : Type) : Type → Type := Draw (Writer R) (Refusal A R)

namespace Writing

variable {A R : Type}

/-- Append a real value. -/
def append (r : R) : Writing A R Unit := .change fun w => { w with reals := w.reals ++ [r] }

/-- Append real values one by one. -/
def extend : List R → Writing A R Unit
  | [] => pure ()
  | r :: rs => do
    append r
    extend rs

/-- Append an integer. -/
def appendInteger (n : Int) : Writing A R Unit :=
  .change fun w => { w with integers := w.integers ++ [n] }

/-- Append a value if there is one. -/
def appendResult (x : Except (Refusal A R) R) : Writing A R Unit := do
  append (← .ofExcept x)

/-- Append values one by one if there are any. -/
def extendResult (x : Except (Refusal A R) (List R)) : Writing A R Unit := do
  extend (← .ofExcept x)

/-- Append the partial correlations of a matrix, then the logarithms of its scales. -/
def extendFactors (f : Factor.Factors R) : Writing A R Unit := do
  extend f.partials
  extend f.logScales

/-- Append the logarithm of the first entry of an ordered vector, then those of its
increments. -/
def extendIncreasing [Sub R] [Elementary R] : List R → Writing A R Unit
  | [] => pure ()
  | first :: rest => do
    append (Elementary.log first)
    extend ((increments (first :: rest)).map Elementary.log)

end Writing

/-- A call step by step. -/
def Call.write : Call A R → Writing A R Unit
  | .integer n => do Writing.appendInteger (← .ofExcept (Unconstrain.integer n))
  | .unbounded y => .appendResult (Unconstrain.unbounded y)
  | .positive y => .appendResult (Unconstrain.positive y)
  | .lowerBounded lb y => .appendResult (Unconstrain.lowerBounded lb y)
  | .upperBounded ub y => .appendResult (Unconstrain.upperBounded ub y)
  | .doublyBounded lb ub y => .appendResult (Unconstrain.doublyBounded lb ub y)
  | .correlation y => .appendResult (Unconstrain.correlation y)
  | .probability y => .appendResult (Unconstrain.probability y)
  | .positiveOrdered y => do Writing.extendIncreasing (← .ofExcept (increasingOf y))
  | .simplex y => .extendResult (Unconstrain.simplex y)
  | .correlationMatrix y => .extendResult (Unconstrain.correlationMatrix y)
  | .covarianceMatrix y => do Writing.extendFactors (← .ofExcept (covarianceFactors y))

namespace Writer

/-- The buffers with an output at their ends. -/
def append (w : Writer R) (o : Output R) : Writer R :=
  ⟨w.reals ++ o.reals, w.integers ++ o.integers⟩

/-- What later buffers hold beyond these. -/
def since (w later : Writer R) : Output R :=
  ⟨later.reals.drop w.reals.length, later.integers.drop w.integers.length⟩

/-- The outcome of a call, and the writer after it. -/
def call (w : Writer R) (c : Call A R) : Except (Refusal A R) Unit × Writer R :=
  c.write.outcome w

/-- The outcomes of calls in a row, and the writer after them. -/
def run (w : Writer R) : List (Call A R) → List (Except (Refusal A R) Unit) × Writer R
  | [] => ([], w)
  | c :: cs =>
    let (outcome, w) := w.call c
    let (outcomes, w) := w.run cs
    (outcome :: outcomes, w)

/-- A short description: how much the buffers hold. -/
def description (w : Writer R) : String :=
  "UnconstrainWriter(n_reals=" ++ toString w.reals.length ++ ", n_integers="
    ++ toString w.integers.length ++ ")"

end Writer

/-! ## Calls by name -/

/-- The call of a transform with positional arguments; arrays are read here. -/
def Call.ofArguments (t : Transform) (args : List Argument) :
    Except Fault (Call Argument Float) :=
  match t, args with
  | .integer, [n] => .ok (.integer n)
  | .unbounded, [y] => .ok (.unbounded y)
  | .positive, [y] => .ok (.positive y)
  | .lowerBounded, [lb, y] => .ok (.lowerBounded lb y)
  | .upperBounded, [ub, y] => .ok (.upperBounded ub y)
  | .doublyBounded, [lb, ub, y] => .ok (.doublyBounded lb ub y)
  | .correlation, [y] => .ok (.correlation y)
  | .probability, [y] => .ok (.probability y)
  | .positiveOrdered, [y] => (Tensor.ofArgument y).map .positiveOrdered
  | .simplex, [y] => (Tensor.ofArgument y).map .simplex
  | .correlationMatrix, [y] => (Tensor.ofArgument y).map .correlationMatrix
  | .covarianceMatrix, [y] => (Tensor.ofArgument y).map .covarianceMatrix
  | _, _ => .error .unsupported

/-- The name under which a matrix without factors is reported. -/
def factoringName : String := "factor_cov_matrix"

/-- What is turned down for an obstacle: the variances, or else the whole matrix. -/
def offenderOfObstacle (rows : List (List Float)) : Factor.Obstacle Float → Argument
  | .variances vs => .ofRow vs
  | _ => .ofRows rows

/-- An obstacle to factoring a matrix, as a fault: the bound that it breaks, if there is one. -/
def faultOfObstacle (rows : List (List Float)) (o : Factor.Obstacle Float) : Fault :=
  match o.bound? with
  | some bound =>
    .rejected (.factorization
      ⟨.text factoringName, offenderOfObstacle rows o, .text bound⟩)
  | none => .malformed

/-- A refusal as a fault. -/
def Refusal.toFault : Refusal Argument Float → Fault
  | .breach b => .rejected (.constraint b.violation)
  | .shape cause => .rejected (.input cause)
  | .obstacle o rows => faultOfObstacle rows o
  | .fault f => f

/-- The call with a given name and positional arguments. -/
def Call.ofName (name : String) (args : List Argument) : Except Fault (Call Argument Float) :=
  match Transform.ofName? name with
  | some t => Call.ofArguments t args
  | none => .error .noSuchOperation

/-- The outcome of a call by name, and the writer after it. -/
def Writer.perform (w : Writer Float) (name : String) (args : List Argument) :
    Except Fault Unit × Writer Float :=
  match Call.ofName name args with
  | .error f => (.error f, w)
  | .ok c =>
    let (r, w) := w.call c
    (r.mapError Refusal.toFault, w)

/-- The outcomes of calls by name in a row, each with what the call appended, and the
writer after them. -/
def Writer.performAll (w : Writer Float) :
    List (String × List Argument) → List (Except Fault Unit × Output Float) × Writer Float
  | [] => ([], w)
  | (name, args) :: calls =>
    let (r, after) := w.perform name args
    let (outcomes, last) := after.performAll calls
    ((r, w.since after) :: outcomes, last)

/-! ## Factoring on its own -/

/-- The factors of an array that must be a square matrix with at least one row. -/
def factorCovariance (sigma : Tensor Float) : Except Fault (Factor.Factors Float) :=
  match sigma.shape with
  | [n, m] =>
    if n = m ∧ n ≠ 0 then
      (Factor.ofCovariance sigma.slabs).mapError (faultOfObstacle sigma.slabs)
    else .error (.rejected (.input (.covarianceNotSquare sigma.shape)))
  | s => .error (.rejected (.input (.covarianceNotSquare s)))

/-- The canonical partial correlations of an upper factor given as an array.  They fill an array of
their own, which is created first.  With fewer than two rows there are none; two rows may have
further axes of length one behind the columns. -/
def factorUpper {α : Type} [Zero α] [One α] [Add α] [Sub α] [Mul α] [Div α] [Elementary α]
    (upper : Tensor α) : Except Fault (List α) :=
  match upper.shape with
  | [] => .error .outOfRange
  | k :: rest =>
    if k ≤ 1 then .ok []
    else
      match rest with
      | [] => .error .outOfRange
      | m :: further =>
        if m = k ∧ (further = [] ∨ (k = 2 ∧ further.all (· == 1))) then
          let cells := List.replicate (k * (k - 1) / 2) 0
          match Factor.fillUpper (fun _ z => z) upper.slabs cells with
          | some f => .ok (f.cells.map Elementary.atanh)
          | none => .error .malformed
        else .error .malformed

end EnsembleSampling.Unconstrain
