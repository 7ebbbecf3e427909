import EnsembleSampling.Chain.Summary
import EnsembleSampling.Tensor.Layout
set_option autoImplicit false

/-!
# Calls on a chain

The operations on a chain as callers ask for them, with arguments of any kind, and
their answers: a count, a text, a table, or a summary.

A caller may give the number of dimensions as a truth value.  It counts as one and is
shown as it was given, but no table can be laid out by it; `Chain.Opened` keeps it
beside the chain.  Nor can a table be laid out whose axes cannot be addressed, even
while there are no sweeps to fill it.  Averages over the sweeps are stored, for which the
machine must have memory whether there are sweeps or not.
-/

namespace EnsembleSampling.Chain

/-- A chain of points on doubles. -/
abbrev OfPoints : Type := Chain (Point Float) Float

/-- A chain with the number of dimensions as the caller gave it. -/
structure Opened where
  chain : OfPoints
  dims : Argument
  deriving Inhabited

namespace Opened

/-- A chain that was made from tables or by a run. -/
def ofChain (c : OfPoints) : Opened := ⟨c, .integer c.dims⟩

/-- The number of walkers that an argument stands for. -/
def walkersOf : Argument → Except Fault Nat
  | .integer n =>
    if n < minWalkers then .error (.rejected (.degenerate (.integer n))) else .ok n.toNat
  | a => .error (.rejected (.degenerate a))

/-- The number of dimensions that an argument stands for. -/
def dimsOf : Argument → Except Fault Nat
  | .integer d => if d ≤ 0 then .error .dimension else .ok d.toNat
  | .flag true => .ok 1
  | _ => .error .dimension

/-- A chain without sweeps of given numbers of walkers and dimensions. -/
def ofCounts (walkers dims : Argument) : Except Fault Opened := do
  let n ← walkersOf walkers
  let d ← dimsOf dims
  pure ⟨← Chain.start n d, dims⟩

/-- Positions can be laid out by sweep, walker and dimension only if the number of
dimensions was given as an integer, and only if the axes can be addressed. -/
def requireLayout (o : Opened) : Except Fault Unit := do
  let walkers ← Layout.lengthOf (.integer o.chain.size)
  let dims ← Layout.lengthOf o.dims
  Layout.check [o.chain.length, walkers.toNat, dims.toNat]

/-- Log-densities can be laid out by sweep and walker only if the axes can be addressed. -/
def requireWalkerLayout (o : Opened) : Except Fault Unit := do
  let walkers ← Layout.lengthOf (.integer o.chain.size)
  Layout.check [o.chain.length, walkers.toNat]

/-- The mean acceptance probability of every walker over all sweeps, for which there must
be memory. -/
def acceptanceFractions (memory : Memory) (o : Opened) : Except Fault (List Float) := do
  Layout.checkStored memory [o.chain.size]
  pure o.chain.acceptanceFractions

/-- A short description. -/
def description (o : Opened) : String :=
  "WalkMoveChain(n_walkers=" ++ toString o.chain.size ++ ", n_dims=" ++ o.dims.plain
    ++ ", n_steps=" ++ toString o.chain.length ++ ")"

end Opened

/-- An operation on a chain. -/
inductive Call where
  /-- Record an ensemble. -/
  | record (positions logProb acceptProb : Argument)
  | positions (discard thin flat : Argument)
  | logProbs (discard thin flat : Argument)
  | acceptanceFractions
  | length
  | description
  | meanAcceptance (discard : Argument)
  | autocorrelationTimes (discard factor : Argument)
  | summary (discard thin : Argument)
  deriving Inhabited

/-- What an operation on a chain answers. -/
inductive Answer where
  | count (n : Nat)
  | text (s : String)
  | value (x : Float)
  | values (xs : List Float)
  | table (t : Tensor Float)
  | summary (s : Summary Float)
  deriving Inhabited

/-- A table with its first two axes merged if an argument counts as true. -/
def mergedIf (flat : Argument) (t : Tensor Float) : Tensor Float :=
  if flat.isTrue then t.merged else t

namespace Opened

/-- The answer of an operation that leaves the chain as it is.  There must be memory for
the means and deviations of a summary, even while there are no sweeps. -/
def answer (memory : Memory) (o : Opened) : Call → Except Fault Answer
  | .record .. => .ok (.count o.chain.length)
  | .positions discard thin flat => do
    o.requireLayout
    let s ← Slice.ofArguments discard thin
    pure (.table (mergedIf flat (o.chain.positionTable s)))
  | .logProbs discard thin flat => do
    o.requireWalkerLayout
    let s ← Slice.ofArguments discard thin
    pure (.table (mergedIf flat (o.chain.logProbTable s)))
  | .acceptanceFractions => (o.acceptanceFractions memory).map .values
  | .length => .ok (.count o.chain.length)
  | .description => .ok (.text o.description)
  | .meanAcceptance discard => do
    let first ← Slice.placeOf discard
    pure (.value (o.chain.meanAcceptance first))
  | .autocorrelationTimes discard factor => do
    o.requireLayout
    let first ← Slice.placeOf discard
    (o.chain.requireSweeps first).mapError Fault.rejected
    let steps := (o.chain.positions (.startingAt first)).map (·.map Point.coords)
    let times ← Autocorrelation.integratedTimesOf factor o.chain.size o.chain.dims steps
    pure (.values times)
  | .summary discard thin => do
    o.requireLayout
    let s ← Slice.ofArguments discard thin
    Layout.checkStored memory [o.chain.dims]
    let summary ← (o.chain.summary s).mapError Fault.rejected
    pure (.summary summary)

/-- The chain with one more ensemble, given by its parts. -/
def record (o : Opened) (positions logProb acceptProb : Argument) : Except Fault OfPoints := do
  let e ← Ensemble.ofArguments positions logProb acceptProb
  (o.chain.record e).mapError Fault.rejected

/-- The answer of an operation, and the chain after it; an operation that fails leaves
the chain as it was. -/
def perform (memory : Memory) (o : Opened) : Call → Except Fault Answer × Opened
  | .record positions logProb acceptProb =>
    match o.record positions logProb acceptProb with
    | .ok c => (.ok (.count c.length), { o with chain := c })
    | .error f => (.error f, o)
  | call => (o.answer memory call, o)

theorem perform_eq_of_error {memory : Memory} {o o' : Opened} {call : Call} {f : Fault}
    (h : o.perform memory call = (.error f, o')) : o' = o := by
  unfold perform at h
  split at h
  · split at h
    · exact absurd h (by simp)
    · injection h with _ h; exact h.symm
  · injection h with _ h; exact h.symm

end Opened

end EnsembleSampling.Chain
