import EnsembleSampling.Autocorrelation.Checked
import EnsembleSampling.Chain.Basic
set_option autoImplicit false

/-!
# Summaries of a chain

A summary describes the walkers' positions after the first sweeps have been
discarded: their mean and standard deviation in every dimension, over every so many
sweeps; their mean acceptance probability; and how many sweeps apart they are
independent, which is estimated from every sweep.

Nothing can be said of the autocorrelation when no sweep is left; the other results
have a value even then.
-/

namespace EnsembleSampling

section

variable {α : Type} [Zero α] [Add α] [Div α] [NatCast α]

/-- Mean of every column of rows with `dims` entries; that of no rows is the mean of
nothing in every column. -/
def columnMeans (dims : Nat) (rows : List (List α)) : List α :=
  if rows.isEmpty then List.replicate dims (mean []) else meanRows rows

/-- Standard deviation of every column of rows with `dims` entries. -/
def columnDeviations [Sub α] [Mul α] [Elementary α] (dims : Nat) (rows : List (List α)) :
    List α :=
  let center := columnMeans dims rows
  let squares := rows.map fun row => List.zipWith (fun x m => (x - m) * (x - m)) row center
  (columnMeans dims squares).map Elementary.sqrt

end

/-- A description of the retained part of a chain. -/
structure Summary (α : Type) where
  mean : List α
  deviation : List α
  acceptance : α
  times : List α
  deriving Inhabited

namespace Chain

/-- The mean acceptance probability from a given sweep on; zero if there is none. -/
def meanAcceptance {V β : Type} [Zero β] [Add β] [Div β] [NatCast β] (c : Chain V β)
    (discard : Option Int) : β :=
  let retained := (c.acceptProbs (.startingAt discard)).flatten
  if retained.isEmpty then 0 else mean retained

section

variable {α β : Type}

/-- The shape of the positions from a given sweep on, of which there must be at least
one. -/
def requireSweeps (c : Chain (Point α) β) (discard : Option Int) : Except Rejection Unit :=
  let rows := c.positions (.startingAt discard)
  if rows.isEmpty then .error (.input (.trajectoryShape [rows.length, c.size, c.dims]))
  else .ok ()

variable [Zero α] [One α] [Neg α] [Add α] [Sub α] [Mul α] [Div α] [NatCast α] [LE α]
  [DecidableLE α] [LT α] [DecidableLT α] [CircleFunctions α]

/-- The autocorrelation time of every dimension from a given sweep on, with a window
factor. -/
def autocorrelationTimes (factor : α) (c : Chain (Point α) β) (discard : Option Int) :
    Except Rejection (List α) := do
  c.requireSweeps discard
  let steps := (c.positions (.startingAt discard)).map (·.map Point.coords)
  pure ((Autocorrelation.integratedTimes? factor c.size c.dims steps).getD [])

/-- The window factor of a summary. -/
def summaryFactor : α := ((5 : Nat) : α)

/-- A summary of every so many sweeps from a given one on. -/
def summary [Elementary α] (c : Chain (Point α) α) (slice : Slice) :
    Except Rejection (Summary α) := do
  let samples := (c.positions slice).flatMap (·.map Point.coords)
  let times ← c.autocorrelationTimes summaryFactor slice.start
  pure {
    mean := columnMeans c.dims samples
    deviation := columnDeviations c.dims samples
    acceptance := c.meanAcceptance slice.start
    times }

end

/-! ## Small facts -/

theorem requireSweeps_eq_ok_iff {α β : Type} (c : Chain (Point α) β) (discard : Option Int) :
    c.requireSweeps discard = .ok () ↔ c.positions (.startingAt discard) ≠ [] := by
  unfold requireSweeps
  cases c.positions (.startingAt discard) <;> simp

end Chain

end EnsembleSampling
