import EnsembleSampling.Number.Circle
import EnsembleSampling.Tensor
set_option autoImplicit false

/-!
# The discrete Fourier transform

A transform of length `2^d` is put together from the transforms of the entries at
even and at odd places, each of length `2^(d-1)`; the odd half is turned by the
powers of the root of unity on the way (`transform`).  A turn by a multiple of an eighth
is made without multiplying by a root of unity, so that an infinite part is not
multiplied by a zero.

A long transform is made in passes (`passes`).  A pass writes the sequence as a table
of two, four or eight rows, transforms the columns, turns the entries, and leaves one row
to each of the passes after it.

The roots come from `CircleFunctions`, so that the same definition runs on doubles
and can be reasoned about over the real numbers.
-/

namespace EnsembleSampling

/-- The two directions in which a transform turns. -/
inductive Sense where
  | clockwise
  | counterclockwise
  deriving DecidableEq, Repr, Inhabited

namespace Fourier

variable {α : Type}

/-- Entries at even places. -/
def evens {β : Type} : List β → List β
  | [] => []
  | [x] => [x]
  | x :: _ :: xs => x :: evens xs

/-- Entries at odd places. -/
def odds {β : Type} : List β → List β
  | [] => []
  | [_] => []
  | _ :: y :: xs => y :: odds xs

section

variable [Neg α] [Add α] [Sub α] [Mul α] [CircleFunctions α]

/-- A quarter of a full turn. -/
def quarterTurned : Sense → Cartesian α → Cartesian α
  | .clockwise, z => ⟨z.im, -z.re⟩
  | .counterclockwise, z => ⟨-z.im, z.re⟩

/-- The point after `k` of `n` equal parts of a full turn from `1`. -/
def root : Sense → Nat → Nat → Cartesian α
  | .clockwise, k, n => (CircleFunctions.turn k n).conj
  | .counterclockwise, k, n => CircleFunctions.turn k n

/-- An eighth of a full turn. -/
def eighthTurned : Sense → Cartesian α → Cartesian α
  | .clockwise, z =>
    ⟨CircleFunctions.rootHalf * (z.re + z.im), CircleFunctions.rootHalf * (z.im - z.re)⟩
  | .counterclockwise, z =>
    ⟨CircleFunctions.rootHalf * (z.re - z.im), CircleFunctions.rootHalf * (z.im + z.re)⟩

/-- Three eighths of a full turn. -/
def threeEighthsTurned : Sense → Cartesian α → Cartesian α
  | .clockwise, z =>
    ⟨CircleFunctions.rootHalf * (z.im - z.re), CircleFunctions.rootHalf * (-z.re - z.im)⟩
  | .counterclockwise, z =>
    ⟨CircleFunctions.rootHalf * (-z.re - z.im), CircleFunctions.rootHalf * (z.re - z.im)⟩

/-- A quantity after `k` of `n` equal parts of a full turn. -/
def turned (s : Sense) (k n : Nat) (z : Cartesian α) : Cartesian α :=
  if k = 0 then z
  else if 8 * k = n then eighthTurned s z
  else if 4 * k = n then quarterTurned s z
  else if 8 * k = 3 * n then threeEighthsTurned s z
  else root s k n * z

/-- One entry per place `k` of a transform of length `n`, turned by `k` parts. -/
def twist (s : Sense) (n : Nat) (zs : List (Cartesian α)) : List (Cartesian α) :=
  zs.zipIdx.map fun (z, k) => turned s k n z

/-- The transform of length `2^depth` that turns in a given direction. -/
def transform (s : Sense) : Nat → List (Cartesian α) → List (Cartesian α)
  | 0, zs => zs
  | depth + 1, zs =>
    let even := transform s depth (evens zs)
    let odd := twist s (pow2 (depth + 1)) (transform s depth (odds zs))
    List.zipWith (· + ·) even odd ++ List.zipWith (· - ·) even odd

/-! ## Passes -/

/-- The columns of a table with rows of a given length. -/
def transposed {β : Type} (width : Nat) (rows : List (List β)) : List (List β) :=
  rows.foldr (List.zipWith (· :: ·)) (List.replicate width [])

/-- The entries `k` of a column `i`, turned by `k * i` units, of which a full turn has
`total`.  The first column and the first entry of every column stay as they are. -/
def turnedColumn (s : Sense) (total unit i : Nat) (column : List (Cartesian α)) :
    List (Cartesian α) :=
  column.zipIdx.map fun (z, k) =>
    if i = 0 ∨ k = 0 then z else root s (unit * k * i) total * z

/-- The columns of a table after a pass with `2^depth` rows. -/
def passed (s : Sense) (total unit depth : Nat) (zs : List (Cartesian α)) :
    List (List (Cartesian α)) :=
  let width := zs.length / pow2 depth
  let columns := transposed width (Tensor.pieces width (pow2 depth) zs)
  columns.zipIdx.map fun (column, i) => turnedColumn s total unit i (transform s depth column)

/-- The transform of a part of a sequence of length `total` in passes with `2^d` rows each,
`d` from a list.  Its roots are `unit` parts of a full turn apart. -/
def passes (s : Sense) (total : Nat) :
    (unit : Nat) → (depths : List Nat) → List (Cartesian α) → List (Cartesian α)
  | _, [], zs => zs
  | unit, depth :: depths, zs =>
    let rows := transposed (pow2 depth) (passed s total unit depth zs)
    let parts := rows.map (passes s total (unit * pow2 depth) depths)
    (transposed (zs.length / pow2 depth) parts).flatten

/-- The passes of a transform of length `2^depth`: as many of eight rows as there can be, and
one of two rows in front of them or of four rows behind them. -/
def passDepths (depth : Nat) : List Nat :=
  let eights := List.replicate (depth / 3) 3
  match depth % 3 with
  | 0 => eights
  | 1 => 1 :: eights
  | _ => eights ++ [2]

/-- The transform of length `2^depth` in passes. -/
def passTransform (s : Sense) (depth : Nat) (zs : List (Cartesian α)) : List (Cartesian α) :=
  passes s (pow2 depth) 1 (passDepths depth) zs

/-- The transform with roots that turn clockwise. -/
def forward (depth : Nat) (zs : List (Cartesian α)) : List (Cartesian α) :=
  passTransform .clockwise depth zs

/-- The inverse of `forward`: the roots turn the other way, and every entry is
divided by the length. -/
def backward [Div α] [NatCast α] (depth : Nat) (zs : List (Cartesian α)) :
    List (Cartesian α) :=
  (passTransform .counterclockwise depth zs).map fun z =>
    ⟨z.re / ((pow2 depth : Nat) : α), z.im / ((pow2 depth : Nat) : α)⟩

end

/-! ## Small facts -/

theorem foldr_replicate_three (n k : Nat) :
    (List.replicate n 3).foldr (· + ·) k = 3 * n + k := by
  induction n with
  | zero => simp
  | succ n ih =>
    rw [List.replicate_succ, List.foldr_cons, ih]
    omega

/-- The passes of a transform come to its length. -/
theorem foldr_passDepths (depth : Nat) : (passDepths depth).foldr (· + ·) 0 = depth := by
  have h := Nat.div_add_mod depth 3
  have h3 := Nat.mod_lt depth (by decide : 0 < 3)
  obtain hr | hr | hr : depth % 3 = 0 ∨ depth % 3 = 1 ∨ depth % 3 = 2 := by omega
  all_goals
    simp only [passDepths, hr, List.foldr_append, List.foldr_cons, List.foldr_nil,
      foldr_replicate_three]
    omega

example : transposed 2 [["a", "b"], ["c", "d"], ["e", "f"]] = [["a", "c", "e"], ["b", "d", "f"]] := by
  decide

end Fourier

end EnsembleSampling
