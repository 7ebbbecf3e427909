import EnsembleSampling.Chain.Slice
import EnsembleSampling.Ensemble.Walker
set_option autoImplicit false

/-!
# Chains

A chain is what was recorded of a run: the ensemble after every sweep.  All of its
sweeps have the same number of walkers, at least three, in the same number of
dimensions, at least one; `Chain.record` turns down an ensemble of another shape.

Positions and log-densities are read off the same recorded walkers, so that a row of
one belongs to the same row of the other.
-/

namespace EnsembleSampling

/-- The ensembles recorded after each sweep. -/
structure Chain (V β : Type) where
  size : Nat
  dims : Nat
  /-- The ensembles, the latest first. -/
  recorded : List (Ensemble V β)
  deriving Inhabited

namespace Chain

variable {V β : Type}

/-- A chain without sweeps, of so many walkers in so many dimensions. -/
def start (size dims : Nat) : Except Fault (Chain V β) :=
  if size < minWalkers then .error (.rejected (.degenerate (.integer size)))
  else if dims = 0 then .error .dimension
  else .ok ⟨size, dims, []⟩

/-- The ensembles in the order of the sweeps. -/
def sweeps (c : Chain V β) : List (Ensemble V β) := c.recorded.reverse

/-- Number of recorded sweeps. -/
def length (c : Chain V β) : Nat := c.recorded.length

/-- The chain with one more sweep. -/
def record (c : Chain V β) (e : Ensemble V β) : Except Rejection (Chain V β) :=
  if e.size = c.size ∧ e.dims = c.dims then .ok { c with recorded := e :: c.recorded }
  else .error (.input .chainMismatch)

/-- The sweeps that a slice selects. -/
def retained (c : Chain V β) (s : Slice) : List (Ensemble V β) := s.select c.sweeps

/-- The positions of all walkers in the sweeps that a slice selects. -/
def positions (c : Chain V β) (s : Slice) : List (List V) :=
  (c.retained s).map Ensemble.positions

/-- The log-densities of all walkers in the sweeps that a slice selects. -/
def logProbs (c : Chain V β) (s : Slice) : List (List β) :=
  (c.retained s).map Ensemble.logProbs

/-- The acceptance probabilities of all walkers in the sweeps that a slice selects. -/
def acceptProbs (c : Chain V β) (s : Slice) : List (List β) :=
  (c.retained s).map Ensemble.acceptProbs

/-- Mean acceptance probability of every walker over all sweeps. -/
def acceptanceFractions [Zero β] [Add β] [Div β] [NatCast β] (c : Chain V β) : List β :=
  if c.sweeps.isEmpty then List.replicate c.size 0
  else meanRows (c.sweeps.map Ensemble.acceptProbs)

/-! ## Tables -/

section

variable {α : Type}

/-- Positions in a table by sweep, walker and coordinate. -/
def positionTable (c : Chain (Point α) β) (s : Slice) : Tensor α :=
  let rows := c.positions s
  ⟨[rows.length, c.size, c.dims], rows.flatMap fun row => row.flatMap Point.coords⟩

/-- Log-densities in a table by sweep and walker. -/
def logProbTable (c : Chain V β) (s : Slice) : Tensor β :=
  let rows := c.logProbs s
  ⟨[rows.length, c.size], rows.flatten⟩

/-- Acceptance probabilities in a table by sweep and walker. -/
def acceptProbTable (c : Chain V β) (s : Slice) : Tensor β :=
  let rows := c.acceptProbs s
  ⟨[rows.length, c.size], rows.flatten⟩

end

end Chain

/-- A table in which the first two axes are one. -/
def Tensor.merged {α : Type} (t : Tensor α) : Tensor α :=
  match t.shape with
  | n :: m :: rest => ⟨n * m :: rest, t.entries⟩
  | _ => t

namespace Chain

/-! ## From tables -/

/-- One sweep from its rows of positions, log-densities and acceptance
probabilities. -/
def sweepOfRows {α : Type} (dims : Nat) (xs : List (List α)) (ls as : List α) :
    Ensemble (Point α) α :=
  ⟨dims, List.zipWith (fun x (l, a) => ⟨⟨x⟩, l, a⟩) xs (ls.zip as)⟩

/-- The chain recorded in tables by sweep and walker, and for the positions by
coordinate too. -/
def ofTables {α : Type} (positions logProb acceptProb : Tensor α) :
    Except Fault (Chain (Point α) α) :=
  match positions.shape with
  | [steps, size, dims] =>
    if logProb.shape = [steps, size] ∧ acceptProb.shape = [steps, size] then do
      let c : Chain (Point α) α ← start size dims
      let sweeps := List.zipWith (fun (xs : Tensor α) (ls, as) =>
        sweepOfRows dims xs.slabs ls as) positions.subs (logProb.slabs.zip acceptProb.slabs)
      pure { c with recorded := sweeps.reverse }
    else .error (.rejected (.input .chainEntries))
  | s => .error (.rejected (.input (.chainShape s)))

/-- The chain recorded in three arguments.  The positions are read and their axes
counted before the other two are read. -/
def ofArguments (positions logProb acceptProb : Argument) :
    Except Fault (Chain (Point Float) Float) := do
  let positions ← Tensor.ofArgument positions
  if positions.rank ≠ 3 then throw (.rejected (.input (.chainShape positions.shape)))
  let logProb ← Tensor.ofArgument logProb
  let acceptProb ← Tensor.ofArgument acceptProb
  ofTables positions logProb acceptProb

/-! ## Small facts -/

section

variable {V β : Type} {c c' : Chain V β} {e : Ensemble V β}

/-- An ensemble of the right shape is recorded. -/
theorem record_of_fits (hs : e.size = c.size) (hd : e.dims = c.dims) :
    c.record e = .ok { c with recorded := e :: c.recorded } := by
  simp [record, hs, hd]

theorem length_sweeps (c : Chain V β) : c.sweeps.length = c.length := by
  simp [sweeps, length]

end

end Chain

end EnsembleSampling
