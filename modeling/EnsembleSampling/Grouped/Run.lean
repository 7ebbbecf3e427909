import EnsembleSampling.Chain.Reconstruction
import EnsembleSampling.Grouped.Batch
import EnsembleSampling.Grouped.Proposal
import EnsembleSampling.Random.Twister.Seed
import EnsembleSampling.Tensor.Layout
set_option autoImplicit false

/-!
# Runs in groups

The walkers are dealt out into groups, in a random order unless the caller wants none.
Each group in turn is proposed places by companions from the other groups, and the
log-densities there are asked for in one go.  Then a uniform is drawn for every member:
it is moved if the log-density has grown by more than the logarithm of the uniform.

A run records where the walkers are after every step.  It stores details as well, if the
log-densities at the start come with any, and fails if they are not as many as there are
walkers.
-/

namespace EnsembleSampling.Grouped

/-! ## Arguments -/

/-- The number of steps that an argument stands for. -/
def stepCount : Argument → Except Fault Nat
  | .integer n =>
    if n ≤ 0 then .error (.rejected (.input .stepCountNotPositive)) else .ok n.toNat
  | .flag true => .ok 1
  | _ => .error (.rejected (.input .stepCountNotPositive))

/-- The number of groups that an argument stands for. -/
def groupCount : Argument → Except Fault Int
  | .real x | .entry x => truncated x
  | .text s => (Numeral.toInt? .ten s).elim (.error .malformed) .ok
  | a => a.index

/-- The options of a run: a number of groups, a number of companions, whether the walkers
are dealt out in a random order, and whether there is an option besides them, which no
run has. -/
structure Options where
  groups : Argument
  companions : Argument
  shuffled : Argument
  surplus : Bool
  deriving Inhabited

/-- Two groups dealt out in a random order, each moved by all walkers of the other. -/
def Options.default : Options := ⟨.integer 2, .absent, .flag true, false⟩

/-- How a run deals out its walkers: into how many groups, how many companions each is
given, and whether in a random order. -/
structure Plan where
  groups : Int
  companions : Argument
  shuffled : Bool
  deriving Inhabited

/-- The plan that options ask for. -/
def Plan.ofOptions (o : Options) : Except Fault Plan := do
  if o.surplus then throw .unsupported
  let groups ← groupCount o.groups
  pure ⟨groups, o.companions, o.shuffled.isTrue⟩

/-! ## Walkers and what they are moved by -/

/-- A walker: its coordinates, and the log-density there. -/
structure Member where
  coords : List Float
  logProb : Float
  deriving Inhabited

/-- Walkers, and the details that go along with them. -/
structure Flock where
  members : List Member
  details : Option Details
  deriving Inhabited

/-- What a run asks for draws and log-densities. -/
structure Supply where
  twister : Random.Twister
  density : Density
  evaluations : Nat
  deriving Inhabited

namespace Supply

/-- A draw. -/
def draw {γ : Type} (x : Draw Random.Twister Fault γ) : Draw Supply Fault γ :=
  .ofOutcome fun s =>
    let (r, twister) := x.outcome s.twister
    (r, { s with twister })

/-- The value of the log-density at a place. -/
def valueAt (x : List Float) : Draw Supply Fault Argument :=
  .ofOutcome fun s =>
    (s.density.value s.evaluations x, { s with evaluations := s.evaluations + 1 })

/-- The log-densities at some places, all of which must be finite. -/
def batchAt (places : List (List Float)) : Draw Supply Fault Batch := do
  if !places.all (·.all Float.isFinite) then throw .malformed
  let values ← places.mapM valueAt
  Draw.ofExcept (Batch.ofValues values)

end Supply

/-! ## Groups -/

/-- The rows with a given label. -/
def labelled {β : Type} (group : Nat) (rows : List (Nat × β)) : List β :=
  (rows.filter (·.1 == group)).map (·.2)

example : labelled 1 [(2, "a"), (1, "b"), (0, "c")] = ["b"] := by decide

/-- The rows with any other label, in the order of their labels. -/
def labelledElse {β : Type} (group : Nat) (rows : List (Nat × β)) : List β :=
  ((rows.filter (·.1 != group)).mergeSort fun a b => decide (a.1 ≤ b.1)).map (·.2)

/-- The walkers after a group has been given new ones: those of the group that are marked
are replaced, in order. -/
def replaceMarked {β : Type} (group : Nat) : List (Nat × β) → List (β × Bool) → List β
  | [], _ => []
  | (label, old) :: rest, news =>
    if label = group then
      match news with
      | (new, mark) :: news => (if mark then new else old) :: replaceMarked group rest news
      | [] => old :: replaceMarked group rest []
    else old :: replaceMarked group rest news

example : replaceMarked 0 [(0, 'a'), (1, 'b'), (0, 'c')] [('d', false), ('e', true)]
    = ['a', 'b', 'e'] := by decide

/-- Whether a walker is moved to where the log-density is another, by a uniform. -/
def isMoved (before after u : Float) : Bool := decide (Float.log u < 0.0 + after - before)

/-- The flock after a group has been given a batch of log-densities at new places.  Where
there are no details at the start, none may come later. -/
def update (group : Nat) (labels : List Nat) (f : Flock) (places : List (List Float))
    (batch : Batch) (marks : List Bool) : Except Fault Flock := do
  match batch.details, f.details with
  | none, _ => pure ()
  | some _, none => throw .malformed
  | some new, some old => Details.checkUpdate f.members.length old new marks
  let news := List.zipWith Member.mk places batch.values
  pure { f with members := replaceMarked group (labels.zip f.members) (news.zip marks) }

/-- The move of one group. -/
def moveGroup (plan : Plan) (dims : Nat) (labels : List Nat) (f : Flock) (group : Nat) :
    Draw Supply Fault Flock := do
  if plan.groups = 1 then throw .malformed
  let rows := labels.zip f.members
  let own := labelled group rows
  if own.isEmpty then return f
  let others := ((labelledElse group rows).map Member.coords).toArray
  let places ← own.mapM fun m => Supply.draw (propose dims plan.companions others m.coords)
  let batch ← Supply.batchAt places
  let marks ← (own.zip batch.values).mapM fun (m, l) => do
    let u ← Supply.draw Random.Twister.fraction
    pure (isMoved m.logProb l u)
  Draw.ofExcept (update group labels f places batch marks)

/-- The labels of so many walkers that are dealt out in turn. -/
def dealt (groups walkers : Nat) : List Nat := (List.range walkers).map (· % groups)

example : dealt 2 3 = [0, 1, 0] := by decide

/-- The walkers are dealt out anew, and every group is moved. -/
def moveAll (plan : Plan) (dims : Nat) (f : Flock) : Draw Supply Fault Flock := do
  if !Argument.fitsWord plan.groups then throw .tooLarge
  let groups := plan.groups.toNat
  let labels := dealt groups f.members.length
  let labels ← if plan.shuffled then Supply.draw (Random.Twister.shuffled labels) else pure labels
  (List.range groups).foldlM (moveGroup plan dims labels) f

/-- One step.  A uniform is drawn for the choice among the kinds of move, of which there
is one. -/
def step (plan : Plan) (dims : Nat) (f : Flock) : Draw Supply Fault Flock := do
  let _ ← Supply.draw Random.Twister.fraction
  let f ← moveAll plan dims f
  if let some details := f.details then
    Draw.ofExcept (details.checkCount f.members.length)
  pure f

/-- So many steps; the walkers after each go in front of those before. -/
def steps (plan : Plan) (dims : Nat) :
    (count : Nat) → Flock → List (List Member) → Draw Supply Fault (List (List Member))
  | 0, _, before => pure before
  | count + 1, f, before => do
    let f ← step plan dims f
    steps plan dims count f (f.members :: before)

/-! ## Runs -/

/-- The chain of the walkers after every step. -/
def chainOf (dims : Nat) (start : List (List Float)) (record : List (List Member)) :
    Except Fault (Chain (Point Float) Float) :=
  let shape := [record.length, start.length]
  let positions := (record.map fun ms => (ms.map Member.coords).flatten).flatten
  let logProbs := (record.map fun ms => ms.map Member.logProb).flatten
  Chain.reconstruct ⟨shape ++ [dims], positions⟩ ⟨shape, logProbs⟩ (.ofRows dims start)

/-- A run of so many steps from given positions.  There must be memory for the positions
after all steps. -/
def run (memory : Memory) (plan : Plan) (dims count : Nat) (start : List (List Float)) :
    Draw Supply Fault (Chain (Point Float) Float) := do
  if !areIndependent dims start then throw .malformed
  let batch ← Supply.batchAt start
  Draw.ofExcept (Layout.checkStored memory [count, start.length, dims])
  if let some details := batch.details then Draw.ofExcept details.checkStored
  if start.length < 2 * dims then throw .tooFewWalkers
  let flock : Flock := ⟨List.zipWith Member.mk start batch.values, batch.details⟩
  let record ← steps plan dims count flock []
  Draw.ofExcept (chainOf dims start record.reverse)

/-- A run from arguments.  The number of steps is checked first, then the positions,
the options, and the seed. -/
def runOf (memory : Memory) (density : Density) (positions count seed : Argument)
    (options : Options) : Except Fault (Chain (Point Float) Float) := do
  let count ← stepCount count
  let positions ← Tensor.ofArgument positions
  let (dims, xs) ← (positionsOf positions).mapError Fault.rejected
  let plan ← Plan.ofOptions options
  let twister ← Random.Twister.ofSeed seed
  ((run memory plan dims count (xs.map Point.coords)).outcome ⟨twister, density, 0⟩).1

end EnsembleSampling.Grouped
