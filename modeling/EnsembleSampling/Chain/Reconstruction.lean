import EnsembleSampling.Chain.Basic
set_option autoImplicit false

/-!
# Chains from recorded positions

Another sampler's record may hold positions and log-densities and no acceptance
probabilities.  They are reconstructed from the moves: a walker that is not where it
was before counts as accepted with probability one, and a walker that is where it was
with probability zero.  Before the first step the walkers are at their start.

A caller may give the start in values that are no doubles.  Integers too large for a
machine word are compared with doubles as they are, and no value equals none of them;
where all values are read as texts, no position ever equals one before it.
-/

namespace EnsembleSampling

section

variable {α : Type} [BEq α]

/-- Whether two positions differ in a coordinate. -/
def hasMoved (before after : List α) : Bool := (before.zip after).any fun (a, b) => a != b

variable [Zero α] [One α]

/-- One for a walker that has moved, else zero. -/
def acceptanceMark (before after : List α) : α := if hasMoved before after then 1 else 0

/-- A mark for every walker after every step, given where it was before the first. -/
def acceptanceMarks (before : List (List α)) : List (List (List α)) → List (List α)
  | [] => []
  | after :: rest => List.zipWith acceptanceMark before after :: acceptanceMarks after rest

namespace Chain

/-- What must hold of the shape of the starting positions: it is that of the positions
after a step. -/
def checkStart (positions initial : List Nat) : Except Fault Unit :=
  match positions with
  | [] => .error .outOfRange
  | _ :: rest => if initial ≠ rest ∨ rest.length < 2 then .error .malformed else .ok ()

/-- The chain with given positions and log-densities and with a mark for every walker
after every step. -/
def ofMarks (positions logProb : Tensor α) (marks : List (List α)) :
    Except Fault (Chain (Point α) α) :=
  ofTables positions logProb ⟨positions.shape.take 2, marks.flatten⟩

/-- The chain with given positions and log-densities whose walkers started at given
positions.  The starting positions must have the shape of those after a step. -/
def reconstruct (positions logProb initial : Tensor α) : Except Fault (Chain (Point α) α) := do
  checkStart positions.shape initial.shape
  ofMarks positions logProb
    (acceptanceMarks initial.slabs (positions.subs.map Tensor.slabs))

end Chain

/-! ## From arguments -/

/-- A mark for a walker that started at a position given by arguments: one if a
coordinate is no longer equal to that of the start, else zero. -/
def startingMark (before : List Argument) (after : List α) (equal : Argument → α → Bool) : α :=
  if (before.zip after).any fun (a, x) => !equal a x then 1 else 0

/-- Marks after every step, given where the walkers were before the first in arguments. -/
def marksFromStart (equal : Argument → α → Bool) (before : List (List Argument)) :
    List (List (List α)) → List (List α)
  | [] => []
  | after :: rest =>
    List.zipWith (fun a x => startingMark a x equal) before after
      :: acceptanceMarks after rest

/-- A one for every walker after every step. -/
def marksEverywhere (steps : List (List (List α))) : List (List α) :=
  steps.map fun after => after.map fun _ => 1

namespace Chain

/-- The marks of walkers with given positions and a start given by arguments. -/
def marksOf (initial : Tensor Argument) (positions : Tensor Float) :
    Except Fault (List (List Float)) :=
  let steps := positions.subs.map Tensor.slabs
  if initial.entries.any Argument.keepsMembers then
    .ok (marksFromStart (fun a x => a.equalNumbers (.real x)) initial.slabs steps)
  else if initial.entries.any Argument.isText then .ok (marksEverywhere steps)
  else do
    let entries ← initial.entries.mapM Argument.toReal
    pure (acceptanceMarks (Tensor.slabs ⟨initial.shape, entries⟩) steps)

/-- The chain reconstructed from three arguments, read in order.  The start takes one
axis more than it has, for the steps. -/
def reconstructOf (positions logProb initial : Argument) :
    Except Fault (Chain (Point Float) Float) := do
  let positions ← Tensor.ofArgument positions
  let logProb ← Tensor.ofArgument logProb
  let initial ← Tensor.ofNested initial
  if initial.rank = maxRank then throw .outOfRange
  checkStart positions.shape initial.shape
  ofMarks positions logProb (← marksOf initial positions)

end Chain

/-! ## Small facts -/

theorem length_acceptanceMarks (before : List (List α)) (steps : List (List (List α))) :
    (acceptanceMarks before steps).length = steps.length := by
  induction steps generalizing before with
  | nil => rfl
  | cons after rest ih => simp [acceptanceMarks, ih]

/-- A mark is zero or one. -/
theorem acceptanceMark_eq (before after : List α) :
    acceptanceMark before after = 0 ∨ acceptanceMark before after = 1 := by
  unfold acceptanceMark
  split
  · exact .inr rfl
  · exact .inl rfl

end

end EnsembleSampling
