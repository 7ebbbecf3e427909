import EnsembleSampling.Number.Elementary
set_option autoImplicit false

/-!
# Factoring a covariance matrix

A covariance matrix is taken apart into canonical partial correlations, on the
scale of the inverse hyperbolic tangent, and logarithms of scales.  The matrix is
divided by its scales, the upper triangle of the result is factored as `Uᵀ U`
with a positive diagonal by eliminating one variable after the other
(`cholesky`), and each entry of `U` above the diagonal, divided by the length
that its column has left, is a partial correlation (`partials`).

A triangle is a list of rows that begin on the diagonal, so row `i` of a triangle
of size `K` has `K - i` entries.

The factor `U` may also be given on its own, as a square matrix.  Then its partial
correlations fill an array row by row (`fillUpper`).
-/

namespace EnsembleSampling.Factor

variable {α : Type}

/-- Entries on the diagonal of a square matrix. -/
def diagonal (rows : List (List α)) : List α :=
  rows.zipIdx.filterMap fun (row, i) => row[i]?

/-- The part of a square matrix on and above the diagonal. -/
def upperTriangle (rows : List (List α)) : List (List α) :=
  rows.zipIdx.map fun (row, i) => row.drop i

/-! ## Elimination -/

/-- What is left of the rows below a pivot row `u` (without its diagonal entry)
after the products of its entries are subtracted. -/
def eliminate [Sub α] [Mul α] : List α → List (List α) → List (List α)
  | c :: cs, row :: rows =>
    List.zipWith (fun x v => x - c * v) row (c :: cs) :: eliminate cs rows
  | _, _ => []

theorem length_eliminate_le [Sub α] [Mul α] (u : List α) (rows : List (List α)) :
    (eliminate u rows).length ≤ rows.length := by
  induction u generalizing rows with
  | nil => simp [eliminate]
  | cons c cs ih =>
    cases rows with
    | nil => simp [eliminate]
    | cons row rows => simpa [eliminate] using ih rows

/-- The triangle `U` with a positive diagonal whose product `Uᵀ U` has the given
upper triangle; nothing when a pivot is zero or negative. -/
def cholesky [Zero α] [Sub α] [Mul α] [Div α] [LE α] [DecidableLE α] [Elementary α] :
    List (List α) → Option (List (List α))
  | [] => some []
  | [] :: _ => none
  | (pivot :: right) :: below =>
    if pivot ≤ 0 then none
    else
      let root := Elementary.sqrt pivot
      let u := right.map (· / root)
      (cholesky (eliminate u below)).map ((root :: u) :: ·)
termination_by rows => rows.length
decreasing_by
  exact Nat.lt_succ_of_le (length_eliminate_le _ _)

/-! ## Partial correlations -/

/-- Partial correlations of a triangle, row by row.  `used` holds, for the columns
from the diagonal of the first row on, the sum of the squares of the entries
above. -/
def partials [One α] [Add α] [Sub α] [Mul α] [Div α] [Elementary α] :
    List (List α) → List α → List α
  | [], _ => []
  | row :: rows, used =>
    let entries := row.drop 1
    let used := used.drop 1
    List.zipWith (fun u s => u / Elementary.sqrt (1 - s)) entries used
      ++ partials rows (List.zipWith (fun s u => s + u * u) used entries)

/-- The canonical partial correlations of the upper factor of a correlation
matrix, on the scale of the inverse hyperbolic tangent, row by row. -/
def ofUpper [Zero α] [One α] [Add α] [Sub α] [Mul α] [Div α] [Elementary α]
    (triangle : List (List α)) : List α :=
  (partials triangle (List.replicate triangle.length 0)).map Elementary.atanh

/-! ## Filling an array -/

/-- Cells of an array that is filled from the front, and the position of the next cell. -/
structure Filling (γ : Type) where
  position : Nat
  cells : List γ
  deriving Inhabited

/-- The next `n` cells are assigned values, and each takes its own by `put`.  There must be so many
cells, and so many values. -/
def Filling.assign {γ : Type} (put : γ → α → γ) (n : Nat) (values : List α) (f : Filling γ) :
    Option (Filling γ) :=
  if values.length = n ∧ f.position + n ≤ f.cells.length then
    let ahead := f.cells.drop f.position
    some ⟨f.position + n,
      f.cells.take f.position ++ (List.zipWith put ahead values ++ ahead.drop n)⟩
  else none

section

variable [Zero α] [One α] [Add α] [Sub α] [Mul α] [Div α] [Elementary α]

/-- The sum of the squares in each of `n` columns. -/
def columnSquares (n : Nat) (rows : List (List α)) : List α :=
  rows.foldl (List.zipWith fun s u => s + u * u) (List.replicate n 0)

/-- Partial correlations of the row `i` of a square matrix: each entry behind the diagonal is
divided by the root of what the rows above have left of its column. -/
def rowPartials (upper : List (List α)) (i : Nat) : List α :=
  let above := (upper.take i).map (List.drop (i + 1))
  let left := (columnSquares (upper.length - 1 - i) above).map (1 - ·)
  List.zipWith (fun u a => u / Elementary.sqrt a) ((upper.getD i []).drop (i + 1)) left

/-- The cells of an array are filled with the partial correlations of a square matrix, one row after
the other. -/
def fillUpper {γ : Type} (put : γ → α → γ) (upper : List (List α)) (cells : List γ) :
    Option (Filling γ) :=
  (List.range (upper.length - 1)).foldlM
    (fun f i => f.assign put (upper.length - 1 - i) (rowPartials upper i)) ⟨0, cells⟩

end

/-! ## Covariance matrices -/

/-- What a covariance matrix is taken apart into. -/
structure Factors (α : Type) where
  /-- Canonical partial correlations, row by row. -/
  partials : List α
  /-- Logarithms of the standard deviations. -/
  logScales : List α
  deriving Inhabited

/-- Why a matrix has no factors. -/
inductive Obstacle (α : Type) where
  /-- A variance is not positive; all variances are given. -/
  | variances (values : List α)
  /-- A pivot is zero or negative. -/
  | indefinite
  /-- An entry divided by its scales is infinite or undefined. -/
  | unbounded
  deriving Inhabited

/-- Wording of the bound that an obstacle breaks; there is none on entries divided by their
scales. -/
def Obstacle.bound? : Obstacle α → Option String
  | .variances _ => some "variances > 0"
  | .indefinite => some "positive definite"
  | .unbounded => none

/-- A matrix divided by the scales of its rows and columns, with ones on the
diagonal. -/
def standardize [One α] [Mul α] [Div α] (rows : List (List α)) (scales : List α) :
    List (List α) :=
  (rows.zip scales).zipIdx.map fun ((row, s), i) =>
    (row.zip scales).zipIdx.map fun ((x, t), j) => if i = j then 1 else x / (s * t)

/-- The factors of a square matrix.  Entries below the diagonal matter only in
that they must be finite too. -/
def ofCovariance [Zero α] [One α] [Add α] [Sub α] [Mul α] [Div α] [LE α] [DecidableLE α]
    [LT α] [DecidableLT α] [Elementary α] (rows : List (List α)) : Except (Obstacle α) (Factors α) :=
  let variances := diagonal rows
  if variances.all fun v => decide (0 < v) then
    let scales := variances.map Elementary.sqrt
    let correlations := standardize rows scales
    if correlations.all fun row => row.all Elementary.isFinite then
      match cholesky (upperTriangle correlations) with
      | none => .error .indefinite
      | some triangle => .ok ⟨ofUpper triangle, scales.map Elementary.log⟩
    else .error .unbounded
  else .error (.variances variances)

/-! ## Small facts -/

section

variable [Zero α] [Sub α] [Mul α] [Div α] [LE α] [DecidableLE α] [Elementary α]

theorem cholesky_nil : cholesky ([] : List (List α)) = some [] := by
  rw [cholesky]

theorem cholesky_cons (pivot : α) (right : List α) (below : List (List α)) :
    cholesky ((pivot :: right) :: below) =
      if pivot ≤ 0 then none
      else
        (cholesky (eliminate (right.map (· / Elementary.sqrt pivot)) below)).map
          ((Elementary.sqrt pivot :: right.map (· / Elementary.sqrt pivot)) :: ·) := by
  rw [cholesky]

end

section

variable [One α] [Add α] [Sub α] [Mul α] [Div α] [Elementary α]

theorem partials_cons (row : List α) (rows : List (List α)) (used : List α) :
    partials (row :: rows) used =
      List.zipWith (fun u s => u / Elementary.sqrt (1 - s)) (row.drop 1) (used.drop 1)
        ++ partials rows (List.zipWith (fun s u => s + u * u) (used.drop 1) (row.drop 1)) :=
  rfl

end

end EnsembleSampling.Factor
