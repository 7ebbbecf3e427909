import EnsembleSampling.Grouped.Independence
import EnsembleSampling.Grouped.Subset
import EnsembleSampling.Random.Twister
set_option autoImplicit false

/-!
# Proposals by covariance

A walker is proposed a place around its own: normal deviates along the principal axes of
the covariance of its companions, each as long as the deviation along its axis.  The
companions are the first of a random order of the walkers to choose from.

Where the companions do not differ in a direction, the proposal does not leave the
walker's own place in it.
-/

namespace EnsembleSampling.Grouped

section

variable {α : Type} [Zero α] [One α] [Neg α] [Add α] [Sub α] [Mul α] [Div α] [NatCast α]
  [LE α] [DecidableLE α] [LT α] [DecidableLT α] [Elementary α]

/-- The covariance of the coordinates of several positions, by columns. -/
def covariance (dims : Nat) (rows : List (List α)) : List (List α) :=
  let centered := centeredColumns rows dims
  let scale : α := 1 / ((rows.length - 1 : Nat) : α)
  centered.map fun x => centered.map fun y => dot x y * scale

/-- An axis along a column of a table that has been scaled down by `peak`, as long as the
root of the column's length before. -/
def axisAlong (peak : α) (col : List α) : List α :=
  let length := Elementary.sqrt (dot col col)
  if 0 < length then
    let deviation := Elementary.sqrt (peak * length)
    col.map fun x => deviation * (x / length)
  else col.map fun _ => 0

/-- Whether a column is at least as long as another. -/
def isLonger (x y : List α) : Bool := decide (dot y y ≤ dot x x)

/-- The principal axes of a covariance given by columns, the longest first.  Their
deviations, one independent of the other, have that covariance. -/
def principalAxes (cov : List (List α)) : List (List α) :=
  let peak := largest 0 (cov.flatten.map magnitude)
  if 0 < peak then
    let scaled := cov.map fun col => col.map (· / peak)
    ((rotate rounds scaled).mergeSort isLonger).map (axisAlong peak)
  else cov.map fun col => col.map fun _ => 0

/-- A place moved along axes, so many times the length of each. -/
def movedAlong (place : List α) (axes : List (List α)) (times : List α) : List α :=
  let steps := List.zipWith (fun t axis => axis.map (t * ·)) times axes
  let step := steps.foldl (List.zipWith (· + ·)) (place.map fun _ => 0)
  List.zipWith (· + ·) step place

end

/-- Propose a walker at a place a new one, by as many of the others as are asked for. -/
def propose (dims : Nat) (companions : Argument) (others : Array (List Float))
    (place : List Float) : Draw Random.Twister Fault (List Float) := do
  let count ← Draw.ofExcept (chosenCount others.size companions)
  let order ← Random.Twister.shuffled (List.range others.size)
  let chosen := (order.take count).filterMap (others[·]?)
  let cov := covariance dims chosen
  let times ← Draw.times dims Random.Twister.deviate
  if !cov.all (·.all Float.isFinite) then throw .malformed
  pure (movedAlong place (principalAxes cov) times)

end EnsembleSampling.Grouped
