import EnsembleSampling.Proofs.Unconstrain.Room
import Mathlib.Algebra.BigOperators.Fin
import Mathlib.Data.Matrix.Mul
set_option autoImplicit false

/-!
# Triangles column by column

A triangle is worked on row by row.  Here it is seen as an upper triangular matrix `U` with
entries `upperEntry`, and the two views are tied to each other: the product of a triangle with
itself is `Uᵀ U` (`upperEntry_gram`), and the partial correlation at the place of `(i, j)` is the
entry there over the root of what column `j` has left above it (`HasRoom.getElem?_partials`).

A reader that knows the partial correlations by their places can therefore build the factor
column by column (`columnEntry`), and comes to the same matrix (`HasRoom.columnEntry_eq`).
-/

namespace EnsembleSampling.Factor

/-! ## Entries -/

/-- The entry of the upper triangular matrix with a given triangle. -/
def upperEntry (rows : List (List ℝ)) (i j : Nat) : ℝ :=
  if i ≤ j then (entry rows i (j - i)).getD 0 else 0

theorem upperEntry_of_lt {rows : List (List ℝ)} {i j : Nat} (h : j < i) :
    upperEntry rows i j = 0 := if_neg (Nat.not_le.mpr h)

theorem upperEntry_zero (row : List ℝ) (rows : List (List ℝ)) (j : Nat) :
    upperEntry (row :: rows) 0 j = (row[j]?).getD 0 := by
  simp [upperEntry, entry]

theorem upperEntry_succ (row : List ℝ) (rows : List (List ℝ)) (i j : Nat) :
    upperEntry (row :: rows) (i + 1) (j + 1) = upperEntry rows i j := by
  simp [upperEntry, entry]

/-- A triangle is determined by its entries. -/
theorem IsTriangle.ext {rows rows' : List (List ℝ)} (hrows : IsTriangle rows)
    (hrows' : IsTriangle rows') (hlength : rows.length = rows'.length)
    (h : ∀ i j, i ≤ j → j < rows.length → upperEntry rows i j = upperEntry rows' i j) :
    rows = rows' := by
  induction rows generalizing rows' with
  | nil => exact (List.length_eq_zero_iff.mp hlength.symm).symm
  | cons row rows ih =>
    obtain ⟨row', rows', rfl⟩ := List.exists_cons_of_length_eq_add_one hlength.symm
    have hrest : rows = rows' := ih hrows.2 hrows'.2 (Nat.succ.inj hlength) fun i j hij hj => by
      simpa only [upperEntry_succ] using h (i + 1) (j + 1) (by omega) (Nat.succ_lt_succ hj)
    have hfirst : row = row' := by
      have hrowlength : row.length = row'.length := by rw [hrows.1, hrows'.1, Nat.succ.inj hlength]
      apply List.ext_getElem hrowlength
      intro j hj hj'
      have hentry := h 0 j (Nat.zero_le j) (by rw [List.length_cons, ← hrows.1]; exact hj)
      simpa [upperEntry_zero, hj, hj'] using hentry
    rw [hfirst, hrest]

theorem upperEntry_upperTriangle {K : Nat} {rows : List (List ℝ)} (hrows : IsSquare K rows)
    {i j : Nat} (hij : i ≤ j) : upperEntry (upperTriangle rows) i j = (entry rows i j).getD 0 := by
  induction K generalizing rows i j with
  | zero =>
    obtain rfl := List.length_eq_zero_iff.mp hrows.length
    simp [upperEntry, upperTriangle, entry]
  | succ K ih =>
    obtain ⟨x, xs, below, rfl, -, hbelow⟩ := hrows.succ
    rw [upperTriangle_cons]
    cases i with
    | zero =>
      rw [upperEntry_zero]
      rfl
    | succ i =>
      obtain ⟨j, rfl⟩ : ∃ k, j = k + 1 := Nat.exists_eq_succ_of_ne_zero (by omega)
      rw [upperEntry_succ, ih hbelow (Nat.le_of_succ_le_succ hij), entry_map_tail]
      rfl

/-! ## Products -/

theorem upperEntry_restore {u : List ℝ} {rows : List (List ℝ)} (hu : u.length = rows.length)
    (hrows : IsTriangle rows) {i j : Nat} (hij : i ≤ j) (hj : j < rows.length) :
    upperEntry (restore u rows) i j =
      upperEntry rows i j + (u[i]?).getD 0 * (u[j]?).getD 0 := by
  induction u generalizing rows i j with
  | nil => simp [← hu] at hj
  | cons c cs ih =>
    obtain ⟨row, rows, rfl⟩ := List.exists_cons_of_length_eq_add_one hu.symm
    rw [restore]
    cases i with
    | zero =>
      have hrow : j < row.length := by rw [hrows.1]; exact hj
      have hcolumn : j < (c :: cs).length := by rw [hu]; exact hj
      rw [upperEntry_zero, upperEntry_zero, List.getElem?_zipWith,
        List.getElem?_eq_getElem hrow, List.getElem?_eq_getElem hcolumn]
      rfl
    | succ i =>
      obtain ⟨j, rfl⟩ : ∃ k, j = k + 1 := Nat.exists_eq_succ_of_ne_zero (by omega)
      rw [upperEntry_succ, upperEntry_succ, ih (Nat.succ.inj hu) hrows.2
        (Nat.le_of_succ_le_succ hij) (Nat.lt_of_succ_lt_succ hj)]
      rfl

theorem length_restore {u : List ℝ} {rows : List (List ℝ)} (hu : u.length = rows.length) :
    (restore u rows).length = rows.length := by
  induction u generalizing rows with
  | nil =>
    obtain rfl := List.length_eq_zero_iff.mp hu.symm
    rfl
  | cons c cs ih =>
    obtain ⟨row, rows, rfl⟩ := List.exists_cons_of_length_eq_add_one hu.symm
    exact congrArg (· + 1) (ih (Nat.succ.inj hu))

theorem isTriangle_restore {u : List ℝ} {rows : List (List ℝ)} (hu : u.length = rows.length)
    (hrows : IsTriangle rows) : IsTriangle (restore u rows) := by
  induction u generalizing rows with
  | nil =>
    obtain rfl := List.length_eq_zero_iff.mp hu.symm
    exact trivial
  | cons c cs ih =>
    obtain ⟨row, rows, rfl⟩ := List.exists_cons_of_length_eq_add_one hu.symm
    have hcs : cs.length = rows.length := Nat.succ.inj hu
    refine ⟨?_, ih hcs hrows.2⟩
    rw [List.length_zipWith, length_restore hcs, hrows.1, List.length_cons, hcs, Nat.min_self]

/-- The product of a triangle with itself is a triangle of the same size. -/
theorem isTriangle_gram {rows : List (List ℝ)} (hrows : IsTriangle rows) :
    (gram rows).length = rows.length ∧ IsTriangle (gram rows) := by
  induction rows with
  | nil => exact ⟨rfl, trivial⟩
  | cons row rows ih =>
    obtain ⟨root, u, rfl, hu, hrows⟩ := hrows.cons
    obtain ⟨hlength, hgram⟩ := ih hrows
    have hu' : u.length = (gram rows).length := hu.trans hlength.symm
    refine ⟨?_, ?_, isTriangle_restore hu' hgram⟩
    · rw [gram, List.length_cons, List.length_cons, length_restore hu', hlength]
    · rw [List.length_map, List.length_cons, length_restore hu', hu']

/-- The product of a triangle with itself has the entries of `Uᵀ U`. -/
theorem upperEntry_gram {rows : List (List ℝ)} (hrows : IsTriangle rows) {i j : Nat}
    (hij : i ≤ j) (hj : j < rows.length) :
    upperEntry (gram rows) i j =
      ∑ k ∈ Finset.range (i + 1), upperEntry rows k i * upperEntry rows k j := by
  induction rows generalizing i j with
  | nil => simp at hj
  | cons row rows ih =>
    obtain ⟨root, u, rfl, hu, hrows⟩ := hrows.cons
    obtain ⟨hlength, hgram⟩ := isTriangle_gram hrows
    rw [gram]
    cases i with
    | zero =>
      have hrow : j < (root :: u).length := by rw [List.length_cons, hu]; exact hj
      rw [Finset.sum_range_one, upperEntry_zero, upperEntry_zero,
        upperEntry_zero, List.getElem?_map, List.getElem?_eq_getElem hrow]
      rfl
    | succ i =>
      obtain ⟨j, rfl⟩ : ∃ k, j = k + 1 := Nat.exists_eq_succ_of_ne_zero (by omega)
      have hj : j < rows.length := Nat.lt_of_succ_lt_succ hj
      rw [upperEntry_succ, upperEntry_restore (hu.trans hlength.symm) hgram (by omega)
        (hlength ▸ hj), ih hrows (by omega) hj, Finset.sum_range_succ' _ (i + 1)]
      simp only [upperEntry_succ, upperEntry_zero, List.getElem?_cons_succ]

/-- The upper triangular matrix with a given triangle. -/
def upperMatrix (K : Nat) (rows : List (List ℝ)) : Matrix (Fin K) (Fin K) ℝ :=
  Matrix.of fun i j => upperEntry rows i j

open Matrix in
theorem transpose_mul_upperMatrix {K : Nat} {rows : List (List ℝ)} (hrows : IsTriangle rows)
    (hK : rows.length = K) {i j : Fin K} (hij : i ≤ j) :
    ((upperMatrix K rows)ᵀ * upperMatrix K rows) i j = upperEntry (gram rows) i j := by
  have hle : i.val ≤ j.val := hij
  rw [upperEntry_gram hrows hle (by omega), Matrix.mul_apply]
  change ∑ k : Fin K, upperEntry rows k i * upperEntry rows k j = _
  rw [Fin.sum_univ_eq_sum_range fun k => upperEntry rows k i * upperEntry rows k j]
  refine (Finset.sum_subset ?_ fun k _ hk => ?_).symm
  · exact Finset.range_subset_range.mpr (by omega)
  · -- below row `i` the column `i` is empty
    rw [upperEntry_of_lt (by simpa using hk), zero_mul]

/-! ## Places -/

/-- The place of the pair `(i, j)` when the pairs with `i < j < K` are enumerated row by row. -/
def place (K i j : Nat) : Nat := i * K - i * (i + 1) / 2 + (j - i - 1)

theorem place_zero (K j : Nat) : place K 0 (j + 1) = j := by
  simp [place]

theorem half_succ (i : Nat) : (i + 1) * (i + 2) / 2 = i * (i + 1) / 2 + (i + 1) := by
  rw [show (i + 1) * (i + 2) = i * (i + 1) + (i + 1) * 2 by ring,
    Nat.add_mul_div_right _ _ Nat.two_pos]

theorem half_le {K i : Nat} (hi : i < K) : i * (i + 1) / 2 ≤ i * K :=
  (Nat.div_le_self _ _).trans (Nat.mul_le_mul_left i hi)

theorem place_succ {K i j : Nat} (hij : i < j) (hj : j < K) :
    place (K + 1) (i + 1) (j + 1) = K + place K i j := by
  have hle := half_le (hij.trans hj)
  have hproduct : (i + 1) * (K + 1) = i * K + K + (i + 1) := by ring
  simp only [place]
  rw [half_succ, hproduct]
  omega

example : (place 4 0 1, place 4 0 3, place 4 1 2, place 4 2 3) = (0, 2, 3, 5) := by decide

/-! ## What the columns have left -/

/-- What column `j` has left above row `i`: one less the squares of its entries there, where
`used` are squares already taken. -/
def remaining (used : List ℝ) (rows : List (List ℝ)) (i j : Nat) : ℝ :=
  1 - ((used[j]?).getD 0 + ∑ k ∈ Finset.range i, upperEntry rows k j ^ 2)

theorem remaining_succ {s : ℝ} {used u : List ℝ} {rows : List (List ℝ)} {root : ℝ}
    (hu : u.length = used.length) (i : Nat) {j : Nat} (hj : j < used.length) :
    remaining (s :: used) ((root :: u) :: rows) (i + 1) (j + 1) =
      remaining (List.zipWith (fun s u => s + u * u) used u) rows i j := by
  have hju : j < u.length := hu.symm ▸ hj
  rw [remaining, remaining, Finset.sum_range_succ']
  simp only [upperEntry_succ, upperEntry_zero, List.getElem?_cons_succ, List.getElem?_zipWith,
    List.getElem?_eq_getElem hj, List.getElem?_eq_getElem hju, Option.getD_some]
  ring

/-- What a column has left of all its length. -/
theorem remaining_replicate {K : Nat} (triangle : List (List ℝ)) (i : Nat) {j : Nat} (hj : j < K) :
    remaining (List.replicate K 0) triangle i j =
      1 - ∑ k ∈ Finset.range i, upperEntry triangle k j ^ 2 := by
  simp [remaining, hj]

/-- The partial correlation at the place of `(i, j)` is the entry there over the root of what
column `j` has left above it. -/
theorem getElem?_partials {used : List ℝ} {rows : List (List ℝ)}
    (hlength : rows.length = used.length) (hrows : IsTriangle rows) {i j : Nat} (hij : i < j)
    (hj : j < used.length) :
    (partials rows used)[place used.length i j]? =
      some (upperEntry rows i j / √(remaining used rows i j)) := by
  induction rows generalizing used i j with
  | nil =>
    rw [List.length_nil] at hlength
    omega
  | cons row rows ih =>
    obtain ⟨root, u, rfl, hu, hrows⟩ := hrows.cons
    obtain ⟨s, used, rfl⟩ := List.exists_cons_of_length_eq_add_one hlength.symm
    obtain ⟨j, rfl⟩ : ∃ k, j = k + 1 := Nat.exists_eq_succ_of_ne_zero (by omega)
    have hused : rows.length = used.length := Nat.succ.inj hlength
    have length : u.length = used.length := hu.trans hused
    have hbelow : (List.zipWith (fun s u => s + u * u) used u).length = used.length := by
      rw [List.length_zipWith, length, Nat.min_self]
    have hj : j < used.length := Nat.lt_of_succ_lt_succ hj
    have hju : j < u.length := length.symm ▸ hj
    have hfirst : (List.zipWith (fun u s => u / Elementary.sqrt (1 - s)) u used).length =
        used.length := by rw [List.length_zipWith, length, Nat.min_self]
    rw [partials_cons, List.drop_one, List.drop_one, List.tail_cons, List.tail_cons,
      List.length_cons]
    cases i with
    | zero =>
      rw [place_zero, List.getElem?_append_left (by rw [hfirst]; exact hj),
        List.getElem?_zipWith, List.getElem?_eq_getElem hj, List.getElem?_eq_getElem hju]
      simp only [upperEntry_zero, remaining, List.getElem?_cons_succ, List.getElem?_eq_getElem hj,
        List.getElem?_eq_getElem hju, Finset.range_zero, Finset.sum_empty, add_zero,
        Option.getD_some]
      rfl
    | succ i =>
      have hrest := ih (hused.trans hbelow.symm) hrows (Nat.lt_of_succ_lt_succ hij)
        (hbelow.symm ▸ hj)
      rw [hbelow] at hrest
      rw [place_succ (by omega) hj, List.getElem?_append_right (by rw [hfirst]; omega), hfirst,
        Nat.add_sub_cancel_left, hrest, upperEntry_succ, remaining_succ length i hj]

namespace HasRoom

variable {used : List ℝ} {rows : List (List ℝ)}

theorem isTriangle (h : HasRoom used rows) : rows.length = used.length ∧ IsTriangle rows := by
  induction h with
  | nil => exact ⟨rfl, trivial⟩
  | @cons s used u rest room length below ih =>
    rw [List.length_zipWith, length, Nat.min_self] at ih
    exact ⟨congrArg (· + 1) ih.1, by rw [List.length_cons, length, ih.1], ih.2⟩

/-- Down to the diagonal every column has something left. -/
theorem remaining_pos (h : HasRoom used rows) {i j : Nat} (hij : i ≤ j) (hj : j < used.length) :
    0 < remaining used rows i j := by
  induction h generalizing i j with
  | nil => simp at hj
  | @cons s used u rest room length below ih =>
    cases i with
    | zero =>
      have hlt := (HasRoom.cons room length below).lt_one _ (List.getElem_mem hj)
      simpa [remaining, List.getElem?_eq_getElem hj] using hlt
    | succ i =>
      obtain ⟨j, rfl⟩ : ∃ k, j = k + 1 := Nat.exists_eq_succ_of_ne_zero (by omega)
      have hj : j < used.length := Nat.lt_of_succ_lt_succ hj
      rw [remaining_succ length i hj]
      exact ih (by omega) (by rwa [List.length_zipWith, length, Nat.min_self])

/-- The entry of a column on the diagonal is the root of all that it has left. -/
theorem upperEntry_self (h : HasRoom used rows) {j : Nat} (hj : j < used.length) :
    upperEntry rows j j = √(remaining used rows j j) := by
  induction h generalizing j with
  | nil => simp at hj
  | @cons s used u rest room length below ih =>
    cases j with
    | zero => simp [upperEntry_zero, remaining]
    | succ j =>
      have hj : j < used.length := Nat.lt_of_succ_lt_succ hj
      rw [remaining_succ length j hj, upperEntry_succ]
      exact ih (by rwa [List.length_zipWith, length, Nat.min_self])

theorem getElem?_partials (h : HasRoom used rows) {i j : Nat} (hij : i < j)
    (hj : j < used.length) :
    (partials rows used)[place used.length i j]? =
      some (upperEntry rows i j / √(remaining used rows i j)) :=
  Factor.getElem?_partials h.isTriangle.1 h.isTriangle.2 hij hj

end HasRoom

/-! ## Building the factor -/

/-- The entry in row `i` of column `j` of the upper factor with partial correlations `z`: the
partial correlation, or one on the diagonal, times the root of what the column has left. -/
noncomputable def columnEntry (z : Nat → Nat → ℝ) (j i : Nat) : ℝ :=
  (if i < j then z i j else if i = j then 1 else 0) *
    √(1 - ∑ k : Fin i, columnEntry z j k.val ^ 2)
termination_by i
decreasing_by exact k.isLt

/-- Of the partial correlations of a factor that has room, the columns are those of the factor. -/
theorem HasRoom.columnEntry_eq {K : Nat} {rows : List (List ℝ)}
    (h : HasRoom (List.replicate K 0) rows) {z : Nat → Nat → ℝ}
    (hz : ∀ i j, i < j → j < K →
      (partials rows (List.replicate K 0))[place K i j]? = some (z i j))
    {i j : Nat} (hj : j < K) : columnEntry z j i = upperEntry rows i j := by
  have hjused : j < (List.replicate K (0 : ℝ)).length := by rwa [List.length_replicate]
  induction i using Nat.strong_induction_on with
  | _ i ih =>
    have hsum : ∑ k : Fin i, columnEntry z j k.val ^ 2 =
        ∑ k ∈ Finset.range i, upperEntry rows k j ^ 2 := by
      rw [Finset.sum_range]
      exact Finset.sum_congr rfl fun k _ => by rw [ih k.val k.isLt]
    rw [columnEntry, hsum, ← remaining_replicate rows i hj]
    rcases Nat.lt_trichotomy i j with hij | rfl | hij
    · have hpartial := h.getElem?_partials hij hjused
      have hroot : √(remaining (List.replicate K 0) rows i j) ≠ 0 :=
        (Real.sqrt_pos.mpr (h.remaining_pos hij.le hjused)).ne'
      rw [List.length_replicate, hz i j hij hj, Option.some.injEq] at hpartial
      rw [if_pos hij, hpartial, div_mul_cancel₀ _ hroot]
    · rw [if_neg (Nat.lt_irrefl i), if_pos rfl, one_mul, h.upperEntry_self hjused]
    · rw [if_neg (by omega), if_neg (by omega), zero_mul, upperEntry_of_lt hij]

end EnsembleSampling.Factor
