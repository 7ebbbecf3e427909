import EnsembleSampling.Proofs.Unconstrain.Triangle
import Mathlib.Data.Real.Basic
set_option autoImplicit false

/-!
# Rebuilding a matrix from its factors

A reader has the partial correlations of a correlation matrix row by row.  With what each
column has left it finds the upper factor (`ofPartials`), the product of the factor with itself
is the upper triangle of the matrix (`gram`), and the rest is its mirror image (`reflect`).
With the scales of a covariance matrix it goes on to that (`rescale`).

The last two steps are undone here: a symmetric matrix is the reflection of its upper triangle,
and a matrix that was divided by its scales is itself when it is multiplied by them.
-/

namespace EnsembleSampling.Factor

variable {α : Type}

/-! ## From partial correlations to a matrix -/

section

variable [Zero α] [One α] [Add α] [Sub α] [Mul α] [Elementary α]

/-- The upper factor with given partial correlations, row by row.  `used` is as for
`partials`. -/
def ofPartials : Nat → List α → List α → List (List α)
  | K + 1, s :: used, zs =>
    let row := List.zipWith (fun z s => z * Elementary.sqrt (1 - s)) (zs.take K) used
    (Elementary.sqrt (1 - s) :: row)
      :: ofPartials K (List.zipWith (fun s u => s + u * u) used row) (zs.drop K)
  | _, _, _ => []

/-- Add the products of the entries of a pivot row to the rows below it. -/
def restore : List α → List (List α) → List (List α)
  | c :: cs, row :: rows =>
    List.zipWith (fun x v => x + c * v) row (c :: cs) :: restore cs rows
  | _, _ => []

/-- The upper triangle of the product `Uᵀ U` of a triangle `U`. -/
def gram : List (List α) → List (List α)
  | (root :: u) :: below => (root :: u).map (root * ·) :: restore u (gram below)
  | _ => []

/-- The symmetric matrix with a given upper triangle. -/
def reflect : List (List α) → List (List α)
  | (x :: xs) :: below => (x :: xs) :: List.zipWith (· :: ·) xs (reflect below)
  | _ => []

/-- The correlation matrix of size `K` with given partial correlations, row by row. -/
def correlationOf (K : Nat) (zs : List α) : List (List α) :=
  reflect (gram (ofPartials K (List.replicate K 0) zs))

/-- A matrix multiplied by the scales of its rows and columns. -/
def rescale (rows : List (List α)) (scales : List α) : List (List α) :=
  (rows.zip scales).map fun (row, s) => (row.zip scales).map fun (x, t) => x * (s * t)

end

/-! ## Entries -/

/-- The entry of a matrix in a row and a column. -/
def entry (rows : List (List α)) (i j : Nat) : Option α := rows[i]?.bind (·[j]?)

theorem entry_map_tail (below : List (List α)) (i j : Nat) :
    entry (below.map List.tail) i j = entry below i (j + 1) := by
  simp [entry, Option.bind_map]

theorem getElem?_diagonal {K : Nat} {rows : List (List α)} (hrows : IsSquare K rows) (i : Nat) :
    (diagonal rows)[i]? = entry rows i i := by
  induction K generalizing rows i with
  | zero =>
    obtain rfl := List.length_eq_zero_iff.mp hrows.length
    simp [diagonal, entry]
  | succ K ih =>
    obtain ⟨x, xs, below, rfl, hxs, hbelow⟩ := hrows.succ
    rw [diagonal_cons]
    cases i with
    | zero => rfl
    | succ i =>
      rw [List.getElem?_cons_succ, ih hbelow, entry_map_tail]
      rfl

theorem IsSquare.exists_entry {K : Nat} {rows : List (List α)} (h : IsSquare K rows) {i j : Nat}
    (hi : i < K) (hj : j < K) : ∃ x, entry rows i j = some x := by
  have hrow : i < rows.length := by rw [h.length]; exact hi
  have hcolumn : j < rows[i].length := by rw [h.row _ (List.getElem_mem hrow)]; exact hj
  refine ⟨rows[i][j], ?_⟩
  rw [entry, List.getElem?_eq_getElem hrow, Option.bind_some, List.getElem?_eq_getElem hcolumn]

/-- Square matrices are equal if their entries are. -/
theorem IsSquare.ext {K : Nat} {rows rows' : List (List α)} (h : IsSquare K rows)
    (h' : IsSquare K rows')
    (hentry : ∀ i j, i < K → j < K → entry rows i j = entry rows' i j) : rows = rows' := by
  apply List.ext_getElem (h.length.trans h'.length.symm)
  intro i hi hi'
  have hrow := h.row _ (List.getElem_mem hi)
  have hrow' := h'.row _ (List.getElem_mem hi')
  apply List.ext_getElem (hrow.trans hrow'.symm)
  intro j hj hj'
  have hij := hentry i j (h.length ▸ hi) (hrow ▸ hj)
  rw [entry, entry, List.getElem?_eq_getElem hi, List.getElem?_eq_getElem hi', Option.bind_some,
    Option.bind_some, List.getElem?_eq_getElem hj, List.getElem?_eq_getElem hj'] at hij
  exact Option.some.inj hij

theorem IsSquare.lt_of_entry {K : Nat} {rows : List (List α)} (h : IsSquare K rows) {i j : Nat}
    {x : α} (hx : entry rows i j = some x) : i < K ∧ j < K := by
  obtain ⟨row, hrow, hxrow⟩ := Option.bind_eq_some_iff.mp hx
  obtain ⟨hi, rfl⟩ := List.getElem?_eq_some_iff.mp hrow
  obtain ⟨hj, -⟩ := List.getElem?_eq_some_iff.mp hxrow
  rw [h.row _ (List.getElem_mem hi)] at hj
  exact ⟨h.length ▸ hi, hj⟩

/-! ## Symmetric matrices -/

/-- Each entry is the one across the diagonal. -/
def IsSymmetric (rows : List (List α)) : Prop := ∀ i j, entry rows i j = entry rows j i

/-- The first column of a symmetric matrix is its first row. -/
theorem IsSymmetric.zipWith_cons {x : α} {xs : List α} {below : List (List α)}
    (h : IsSymmetric ((x :: xs) :: below)) (hbelow : ∀ row ∈ below, row ≠ []) :
    List.zipWith (· :: ·) xs (below.map List.tail) = below := by
  apply List.ext_getElem?
  intro i
  have hcolumn : xs[i]? = below[i]?.bind (·[0]?) := h 0 (i + 1)
  rw [List.getElem?_zipWith, hcolumn, List.getElem?_map]
  cases hi : below[i]? with
  | none => rfl
  | some row =>
    cases row with
    | nil => exact absurd rfl (hbelow [] (List.mem_of_getElem? hi))
    | cons a as => rfl

/-- A symmetric matrix is the reflection of its upper triangle. -/
theorem reflect_upperTriangle {K : Nat} {rows : List (List α)} (hrows : IsSquare K rows)
    (h : IsSymmetric rows) : reflect (upperTriangle rows) = rows := by
  induction K generalizing rows with
  | zero =>
    obtain rfl := List.length_eq_zero_iff.mp hrows.length
    rfl
  | succ K ih =>
    obtain ⟨x, xs, below, rfl, hxs, hbelow⟩ := hrows.succ
    have hsmaller : IsSymmetric (below.map List.tail) := by
      intro i j
      rw [entry_map_tail, entry_map_tail]
      exact h (i + 1) (j + 1)
    have hne : ∀ row ∈ below, row ≠ [] := by
      rintro row hrow rfl
      simpa using hrows.row [] (List.mem_cons_of_mem _ hrow)
    rw [upperTriangle_cons, reflect, ih hbelow hsmaller, h.zipWith_cons hne]

/-! ## Scales -/

section

variable [One α] [Mul α] [Div α]

theorem entry_standardize {rows : List (List α)} {scales : List α} {i j : Nat} {x s t : α}
    (hx : entry rows i j = some x) (hs : scales[i]? = some s) (ht : scales[j]? = some t) :
    entry (standardize rows scales) i j = some (if i = j then 1 else x / (s * t)) := by
  obtain ⟨row, hrow, hxrow⟩ := Option.bind_eq_some_iff.mp hx
  simp [entry, standardize, List.zip, List.getElem?_zipWith, hrow, hxrow, hs, ht]

omit [One α] [Div α] in
theorem entry_rescale {rows : List (List α)} {scales : List α} {i j : Nat} {x s t : α}
    (hx : entry rows i j = some x) (hs : scales[i]? = some s) (ht : scales[j]? = some t) :
    entry (rescale rows scales) i j = some (x * (s * t)) := by
  obtain ⟨row, hrow, hxrow⟩ := Option.bind_eq_some_iff.mp hx
  simp [entry, rescale, List.zip, List.getElem?_zipWith, hrow, hxrow, hs, ht]

omit [One α] [Div α] in
theorem isSquare_rescale {K : Nat} {rows : List (List α)} {scales : List α}
    (h : IsSquare K rows) (hscales : scales.length = K) : IsSquare K (rescale rows scales) := by
  refine ⟨?_, ?_⟩
  · simp [rescale, h.length, hscales]
  · intro row hrow
    unfold rescale at hrow
    obtain ⟨⟨r, s⟩, hzip, rfl⟩ := List.mem_map.mp hrow
    simp [h.row r (List.of_mem_zip hzip).1, hscales]

end

/-- A matrix that is divided by its scales and multiplied by them again is the same. -/
theorem rescale_standardize {K : Nat} {rows : List (List ℝ)} {scales : List ℝ}
    (hrows : IsSquare K rows) (hdiagonal : diagonal rows = scales.map fun s => s * s)
    (hscales : ∀ s ∈ scales, s ≠ 0) : rescale (standardize rows scales) scales = rows := by
  have hK : scales.length = K := by
    rw [← length_diagonal hrows, hdiagonal, List.length_map]
  refine (isSquare_rescale (isSquare_standardize hrows hK) hK).ext hrows fun i j hi hj => ?_
  obtain ⟨x, hx⟩ := hrows.exists_entry hi hj
  have hs : scales[i]? = some scales[i] := List.getElem?_eq_getElem (hK.symm ▸ hi)
  have ht : scales[j]? = some scales[j] := List.getElem?_eq_getElem (hK.symm ▸ hj)
  rw [entry_rescale (entry_standardize hx hs ht) hs ht, hx]
  congr 1
  by_cases hij : i = j
  · subst hij
    have hentry := getElem?_diagonal hrows i
    rw [hdiagonal, hx, List.getElem?_map, hs] at hentry
    rw [if_pos rfl, one_mul]
    exact Option.some.inj hentry
  · rw [if_neg hij]
    have hne := hscales _ (List.getElem_mem (hK.symm ▸ hi))
    have hne' := hscales _ (List.getElem_mem (hK.symm ▸ hj))
    exact div_mul_cancel₀ x (mul_ne_zero hne hne')

/-- A matrix whose scales are ones is its own correlation matrix. -/
theorem standardize_ones {K : Nat} {rows : List (List ℝ)} (hrows : IsSquare K rows)
    (hdiagonal : ∀ d ∈ diagonal rows, d = 1) :
    standardize rows (List.replicate K 1) = rows := by
  have hK := List.length_replicate (n := K) (a := (1 : ℝ))
  refine (isSquare_standardize hrows hK).ext hrows fun i j hi hj => ?_
  obtain ⟨x, hx⟩ := hrows.exists_entry hi hj
  have hs : (List.replicate K (1 : ℝ))[i]? = some 1 := by simp [hi]
  have ht : (List.replicate K (1 : ℝ))[j]? = some 1 := by simp [hj]
  rw [entry_standardize hx hs ht, hx]
  congr 1
  by_cases hij : i = j
  · subst hij
    rw [if_pos rfl]
    have hmem : x ∈ diagonal rows := by
      refine List.mem_of_getElem? (i := i) ?_
      rw [getElem?_diagonal hrows, hx]
    exact (hdiagonal x hmem).symm
  · rw [if_neg hij, one_mul, div_one]

/-- A correlation matrix has ones on its diagonal. -/
theorem diagonal_standardize [One α] [Mul α] [Div α] {K : Nat} {rows : List (List α)}
    {scales : List α} (hrows : IsSquare K rows) (hK : scales.length = K) :
    ∀ d ∈ diagonal (standardize rows scales), d = 1 := by
  intro d hd
  obtain ⟨i, hi⟩ := List.getElem?_of_mem hd
  have hlt : i < K := by
    rw [← length_diagonal (isSquare_standardize hrows hK)]
    exact (List.getElem?_eq_some_iff.mp hi).1
  obtain ⟨x, hx⟩ := hrows.exists_entry hlt hlt
  have hs : scales[i]? = some scales[i] := List.getElem?_eq_getElem (hK.symm ▸ hlt)
  rw [getElem?_diagonal (isSquare_standardize hrows hK), entry_standardize hx hs hs,
    if_pos rfl] at hi
  exact (Option.some.inj hi).symm

/-- The correlation matrix of a symmetric matrix is symmetric. -/
theorem isSymmetric_standardize {K : Nat} {rows : List (List ℝ)} {scales : List ℝ}
    (hrows : IsSquare K rows) (hK : scales.length = K) (h : IsSymmetric rows) :
    IsSymmetric (standardize rows scales) := by
  have hhalf : ∀ i j x, entry (standardize rows scales) i j = some x →
      entry (standardize rows scales) j i = some x := by
    intro i j x hx
    obtain ⟨hi, hj⟩ := (isSquare_standardize hrows hK).lt_of_entry hx
    obtain ⟨y, hy⟩ := hrows.exists_entry hi hj
    have hy' : entry rows j i = some y := (h j i).trans hy
    have hs : scales[i]? = some scales[i] := List.getElem?_eq_getElem (hK.symm ▸ hi)
    have ht : scales[j]? = some scales[j] := List.getElem?_eq_getElem (hK.symm ▸ hj)
    rw [entry_standardize hy hs ht] at hx
    rw [entry_standardize hy' ht hs, ← hx, mul_comm scales[j] scales[i]]
    simp only [eq_comm (a := i) (b := j)]
  intro i j
  apply Option.ext
  intro x
  exact ⟨hhalf i j x, hhalf j i x⟩

end EnsembleSampling.Factor
