import EnsembleSampling.Number.Power
import EnsembleSampling.Number.Summation
set_option autoImplicit false

/-!
# Independence of positions

Positions span their space if no direction is left out by their differences.  The
coordinates are centred, scaled to unit columns, and the table of them is tested for
its condition number: the quotient of the longest and the shortest of its principal
axes.  Rotations of pairs of columns make the columns orthogonal; their lengths are
then the lengths of the axes.

A table has no more axes than rows, so that with more columns than rows only the longest
columns count.  One with a column that is exactly its mean everywhere has lost a
direction, and one with no more rows than columns has lost one too but for what the
rounding of the means leaves over.
-/

namespace EnsembleSampling.Grouped

variable {α : Type} [Zero α] [One α] [Neg α] [Add α] [Sub α] [Mul α] [Div α] [NatCast α]
  [LE α] [DecidableLE α] [LT α] [DecidableLT α] [Elementary α]

/-- The columns of a table. -/
def columns (dims : Nat) (rows : List (List α)) : List (List α) :=
  (List.range dims).map fun d => rows.filterMap (·[d]?)

/-- The product of two columns. -/
def dot (x y : List α) : α := (List.zipWith (· * ·) x y).foldl (· + ·) 0

/-- A pair of columns rotated so that their product vanishes. -/
def orthogonalPair (x y : List α) : List α × List α :=
  let overlap := dot x y
  if 0 < magnitude overlap then
    let two : α := ((2 : Nat) : α)
    let zeta := (dot y y - dot x x) / (two * overlap)
    let root := magnitude zeta + Elementary.sqrt (1 + zeta * zeta)
    let tangent := if zeta < 0 then -(1 / root) else 1 / root
    let cosine := 1 / Elementary.sqrt (1 + tangent * tangent)
    let sine := cosine * tangent
    (List.zipWith (fun a b => cosine * a - sine * b) x y,
      List.zipWith (fun a b => sine * a + cosine * b) x y)
  else (x, y)

/-- A column rotated against each of the others in turn. -/
def orthogonalAgainst (x : List α) : List (List α) → List α × List (List α)
  | [] => (x, [])
  | y :: ys =>
    let (x, y) := orthogonalPair x y
    let (x, ys) := orthogonalAgainst x ys
    (x, y :: ys)

omit [LE α] [DecidableLE α] in
theorem length_orthogonalAgainst (x : List α) (ys : List (List α)) :
    (orthogonalAgainst x ys).2.length = ys.length := by
  induction ys generalizing x with
  | nil => rfl
  | cons y ys ih => simp [orthogonalAgainst, ih]

/-- Every pair of columns rotated once. -/
def rotateOnce (cols : List (List α)) : List (List α) :=
  match cols with
  | [] => []
  | x :: ys => (orthogonalAgainst x ys).1 :: rotateOnce (orthogonalAgainst x ys).2
termination_by cols.length
decreasing_by
  rw [length_orthogonalAgainst]
  exact Nat.lt_succ_self _

/-- Every pair of columns rotated so many times. -/
def rotate : (rounds : Nat) → List (List α) → List (List α)
  | 0, cols => cols
  | rounds + 1, cols => rotate rounds (rotateOnce cols)

/-- Rounds after which the columns are orthogonal for all purposes. -/
def rounds : Nat := 40

/-- A column less its mean, as one of several. -/
def centeredColumns (rows : List (List α)) (dims : Nat) : List (List α) :=
  let center := meanRows rows
  columns dims (rows.map fun row => List.zipWith (· - ·) row center)

/-- A column scaled first by its largest magnitude and then by its length; nothing for
a column of zeros. -/
def unitColumn? (col : List α) : Option (List α) :=
  let peak := largest 0 (col.map magnitude)
  if 0 < peak then
    let scaled := col.map (· / peak)
    let length := Elementary.sqrt (dot scaled scaled)
    some (scaled.map (· / length))
  else none

/-- The largest condition number of a table of independent positions. -/
def conditionLimit : α := ((pow10 8 : Nat) : α)

/-- Numbers from the largest to the smallest. -/
def descending (xs : List α) : List α := xs.mergeSort fun x y => decide (y ≤ x)

/-- Whether the longest of some columns of `rows` entries is at most so many times as long
as the shortest of those that are axes. -/
def areConditioned (rows : Nat) (cols : List (List α)) : Bool :=
  let lengths := (descending (cols.map fun c => Elementary.sqrt (dot c c))).take rows
  let longest := largest 0 lengths
  lengths.all fun l => decide (0 < l) && decide (longest / l ≤ conditionLimit)

/-- Whether positions with `dims` coordinates are finite and span their space. -/
def areIndependent (dims : Nat) (rows : List (List α)) : Bool :=
  if rows.all (·.all Elementary.isFinite) then
    match (centeredColumns rows dims).mapM unitColumn? with
    | some cols => areConditioned rows.length (rotate rounds cols)
    | none => false
  else false

end EnsembleSampling.Grouped
