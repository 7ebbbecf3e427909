import EnsembleSampling.Argument
set_option autoImplicit false

/-!
# Faults

Two kinds of failure.  A `Rejection` is an answer of the library itself: it has
looked at its input, found a rule broken, and says which.  A `Fault` is either a
rejection or something that went wrong below the library's own rules: an
operation that the kind of value does not have, an index out of range, a random
source or a density that failed.

The causes are data.  Their wording stands in `InputCause.message` and
`Rejection.message` and nowhere else.
-/

namespace EnsembleSampling

/-- A value that breaks the rule of its transform, and the rule. -/
structure Violation where
  transform : Argument
  value : Argument
  bound : Argument
  deriving Inhabited

/-- Wording of a violation. -/
def Violation.message (v : Violation) : String :=
  v.transform.plain ++ ": value " ++ v.value.shown ++ " violates bound " ++ v.bound.plain

/-- Why an input was turned down. -/
inductive InputCause where
  /-- A cause in the caller's own words. -/
  | stated (message : Argument)
  /-- Nothing is said. -/
  | unstated
  | positionsShape (found : List Nat)
  | entriesPerWalker
  | startNotVector
  | bufferShape (found expected : List Nat)
  | bufferEntriesPerWalker
  | chainShape (found : List Nat)
  | chainEntries
  | chainMismatch
  | sweepCountNegative
  | stepCountNotPositive
  | notVector (transform : String) (found : List Nat)
  | notSquare (transform : String) (found : List Nat)
  | covarianceNotSquare (found : List Nat)
  | emptySimplex
  | sequenceNotVector
  | trajectoryShape (found : List Nat)
  deriving Inhabited

/-- Wording of a shape. -/
def shapeText (shape : List Nat) : String := (Argument.ofShape shape).shown

/-- Wording of a cause. -/
def InputCause.message : InputCause → String
  | .stated m => m.plain
  | .unstated => "Invalid or missing input parameters"
  | .positionsShape s =>
    "Walker positions must have shape (n_walkers, n_dims), got " ++ shapeText s ++ "."
  | .entriesPerWalker => "log_prob and accept_prob must have one entry per walker."
  | .startNotVector => "initial_params must be a vector."
  | .bufferShape found expected =>
    "new_states has shape " ++ shapeText found ++ ", expected " ++ shapeText expected ++ "."
  | .bufferEntriesPerWalker => "logp and accept_prob must have one entry per walker."
  | .chainShape s =>
    "positions must have shape (n_steps, n_walkers, n_dims), got " ++ shapeText s ++ "."
  | .chainEntries => "log_prob and accept_prob must have shape (n_steps, n_walkers)."
  | .chainMismatch => "Ensemble state does not match the chain dimensions."
  | .sweepCountNegative => "n_steps must be a non-negative integer."
  | .stepCountNotPositive => "n_steps must be a positive integer."
  | .notVector t s => t ++ ": expected a vector, got shape " ++ shapeText s ++ "."
  | .notSquare t s =>
    t ++ ": expected a non-empty square matrix, got shape " ++ shapeText s ++ "."
  | .covarianceNotSquare s =>
    "Expected a non-empty square matrix, got shape " ++ shapeText s ++ "."
  | .emptySimplex => "simplex_unconstrain: simplex must have at least one entry."
  | .sequenceNotVector => "invalid dimensions for 1D autocorrelation function"
  | .trajectoryShape s =>
    "chain must have shape (n_steps, n_walkers, n_dims), got " ++ shapeText s ++ "."

/-- An answer of the library that turns its input down. -/
inductive Rejection where
  /-- A failure of no particular kind, with what the caller gave along. -/
  | general (args : List Argument)
  | input (cause : InputCause)
  | constraint (v : Violation)
  /-- A matrix without a factoring. -/
  | factorization (v : Violation)
  /-- Fewer than three walkers. -/
  | degenerate (found : Argument)
  deriving Inhabited

namespace Rejection

/-- Wording of a rejection. -/
def message : Rejection → String
  | .general [] => ""
  | .general [a] => a.plain
  | .general args => (Argument.tuple args).shown
  | .input cause => cause.message
  | .constraint v => v.message
  | .factorization v => v.message
  | .degenerate n => "Walk move ensemble needs at least 3 walkers, got " ++ n.plain ++ "."

/-- The kinds of rejection, from the particular to the general. -/
inductive Kind where
  | factorization
  | constraint
  | degenerate
  | input
  | general
  deriving DecidableEq, Repr, Inhabited

/-- The kind of a rejection. -/
def kind : Rejection → Kind
  | .general _ => .general
  | .input _ => .input
  | .constraint _ => .constraint
  | .factorization _ => .factorization
  | .degenerate _ => .degenerate

/-- A kind and the kinds that it is a case of, from the particular to the general. -/
def Kind.lineage : Kind → List Kind
  | .factorization => [.factorization, .constraint, .input, .general]
  | .constraint => [.constraint, .input, .general]
  | .degenerate => [.degenerate, .input, .general]
  | .input => [.input, .general]
  | .general => [.general]

/-- What a rejection tells apart from its wording, by name. -/
def details : Rejection → List (String × Argument)
  | .constraint v | .factorization v =>
    [("transform", v.transform), ("value", v.value), ("bound", v.bound)]
  | .degenerate n => [("n_walkers", n)]
  | _ => []

/-- The rejection of a given kind with given particulars, if their number fits. -/
def build? : Kind → List Argument → Option Rejection
  | .general, args => some (.general args)
  | .input, [] => some (.input .unstated)
  | .input, [m] => some (.input (.stated m))
  | .constraint, [t, v, b] => some (.constraint ⟨t, v, b⟩)
  | .factorization, [t, v, b] => some (.factorization ⟨t, v, b⟩)
  | .degenerate, [n] => some (.degenerate n)
  | _, _ => none

end Rejection

/-- What can go wrong. -/
inductive Fault where
  | rejected (r : Rejection)
  /-- The kind of value has no such operation. -/
  | unsupported
  /-- The kind of value is right and the value is not. -/
  | malformed
  /-- A dimension that is not a positive integer. -/
  | dimension
  | outOfRange
  /-- An integer or a quotient too large for a double, or a count too large for a machine
  word. -/
  | tooLarge
  /-- There is no memory for what is asked for. -/
  | outOfMemory
  | divisionByZero
  /-- Too few walkers for the reference run. -/
  | tooFewWalkers
  /-- The sampler has no such operation. -/
  | noSuchOperation
  /-- A random script has no further draw. -/
  | scriptExhausted
  /-- The density failed. -/
  | densityFailed
  /-- A rejection loop did not end within its limit. -/
  | stalled
  deriving Inhabited

/-- Wording of the faults that have one of their own. -/
def Fault.message? : Fault → Option String
  | .rejected r => some r.message
  | .dimension => some "n_dims must be a positive integer."
  | _ => none

end EnsembleSampling
