import EnsembleSampling.Proofs.Scale.Arithmetic
import EnsembleSampling.Proofs.Unconstrain.Rebuilding
import EnsembleSampling.Unconstrain.Transform
set_option autoImplicit false

/-!
# The check of symmetry

A matrix passes as symmetric if the largest difference across its diagonal, the asymmetry, is at
most the tolerance times its largest entry.  The differences are those of the entries at the places
`(i, j)` and `(j, i)` (`mem_differences_iff`), on any scale.  Among real numbers the check comes to
the same as on the exact scale (`asymmetry_map_real`, `symmetryScale_map_real`), and a symmetric
matrix passes it (`asymmetry_le_of_isSymmetric`).
-/

namespace EnsembleSampling

open Extended (real)
open Factor (entry IsSquare IsSymmetric)

/-! ## Entries across the diagonal -/

namespace Factor

variable {α β γ : Type}

theorem mem_flatten_iff_entry {rows : List (List α)} {x : α} :
    x ∈ rows.flatten ↔ ∃ i j, entry rows i j = some x := by
  rw [List.mem_flatten]
  simp only [entry, Option.bind_eq_some_iff, List.mem_iff_getElem?]
  constructor
  · rintro ⟨row, ⟨i, hrow⟩, j, hx⟩
    exact ⟨i, j, row, hrow, hx⟩
  · rintro ⟨i, j, row, hrow, hx⟩
    exact ⟨row, ⟨i, hrow⟩, j, hx⟩

theorem entry_zipWith (f : α → β → γ) (as : List (List α)) (bs : List (List β)) (i j : Nat) :
    entry (List.zipWith (List.zipWith f) as bs) i j =
      (entry as i j).bind fun a => (entry bs i j).map (f a) := by
  simp only [entry, List.getElem?_zipWith]
  cases as[i]? with
  | none => rfl
  | some a =>
    cases bs[i]? with
    | none => cases h : a[j]? <;> simp [h]
    | some b => cases ha : a[j]? <;> cases hb : b[j]? <;> simp [List.getElem?_zipWith, ha, hb]

theorem getElem?_column {rows : List (List α)} {i : Nat} (h : ∀ row ∈ rows, i < row.length)
    (j : Nat) : (rows.filterMap (·[i]?))[j]? = rows[j]?.bind (·[i]?) := by
  induction rows generalizing j with
  | nil => rfl
  | cons row rows ih =>
    rw [List.forall_mem_cons] at h
    rw [List.filterMap_cons, List.getElem?_eq_getElem h.1]
    cases j with
    | zero => simp [h.1]
    | succ j => exact ih h.2 j

theorem entry_transpose {K : Nat} {rows : List (List α)} (hrows : IsSquare K rows) (i j : Nat) :
    entry (Unconstrain.transpose K rows) i j = entry rows j i := by
  by_cases hi : i < K
  · have hcolumn := getElem?_column (fun row hrow => by rw [hrows.row row hrow]; exact hi) j
    simp [entry, Unconstrain.transpose, hi, hcolumn]
  · cases hji : entry rows j i with
    | none => simp [entry, Unconstrain.transpose, hi]
    | some x => exact absurd (hrows.lt_of_entry hji).2 hi

end Factor

namespace Unconstrain

section

variable {α : Type} [Zero α] [Sub α] [Neg α] [LT α] [DecidableLT α]

/-- The differences that the asymmetry is the largest of. -/
theorem mem_differences_iff {K : Nat} {rows : List (List α)} (hrows : IsSquare K rows) {d : α} :
    d ∈ (List.zipWith (List.zipWith fun x y => magnitude (x - y)) rows
        (transpose rows.length rows)).flatten ↔
      ∃ i j x y, entry rows i j = some x ∧ entry rows j i = some y ∧ magnitude (x - y) = d := by
  simp only [Factor.mem_flatten_iff_entry, Factor.entry_zipWith, hrows.length,
    Factor.entry_transpose hrows, Option.bind_eq_some_iff, Option.map_eq_some_iff]
  constructor
  · rintro ⟨i, j, x, hx, y, hy, hd⟩
    exact ⟨i, j, x, y, hx, hy, hd⟩
  · rintro ⟨i, j, x, y, hx, hy, hd⟩
    exact ⟨i, j, x, hx, y, hy, hd⟩

end

/-! ## Magnitudes and maxima -/

theorem magnitude_eq_abs (x : ℝ) : magnitude x = |x| := by
  rw [magnitude]
  split
  · rename_i h
    exact (abs_of_neg h).symm
  · rename_i h
    exact (abs_of_nonneg (not_lt.mp h)).symm

theorem magnitude_real (x : ℝ) : magnitude (real x) = real (magnitude x) := by
  rw [magnitude, magnitude, ← Extended.real_zero]
  simp only [Extended.real_lt_real]
  split
  · exact Extended.neg_real x
  · rfl

theorem larger_real (x y : ℝ) : larger (real x) (real y) = real (larger x y) := by
  simp only [larger, Extended.real_le_real]
  split
  · rfl
  · simp only [le_refl, if_true]

theorem largest_map_real (x : ℝ) (xs : List ℝ) :
    largest (real x) (xs.map real) = real (largest x xs) := by
  rw [largest, largest]
  induction xs generalizing x with
  | nil => rfl
  | cons y xs ih => rw [List.map_cons, List.foldl_cons, larger_real, ih, List.foldl_cons]

theorem largest_of_forall_eq {α : Type} [LE α] [DecidableLE α] {x : α} {xs : List α}
    (h : ∀ y ∈ xs, y = x) : largest x xs = x := by
  rw [largest]
  induction xs with
  | nil => rfl
  | cons y xs ih =>
    rw [List.forall_mem_cons] at h
    have hlarger : larger x y = x := by
      rw [h.1, larger]
      simp only [ite_self]
    rw [List.foldl_cons, hlarger, ih h.2]

/-! ## The check on real numbers -/

theorem transpose_map {α β : Type} (f : α → β) (n : Nat) (rows : List (List α)) :
    transpose n (rows.map (List.map f)) = (transpose n rows).map (List.map f) := by
  rw [transpose, transpose, List.map_map]
  refine List.map_congr_left fun j _ => ?_
  rw [List.filterMap_map, Function.comp_apply, List.map_filterMap]
  refine List.filterMap_congr fun row _ => ?_
  rw [Function.comp_apply, List.getElem?_map]

theorem asymmetry_map_real (rows : List (List ℝ)) :
    asymmetry (rows.map (List.map real)) = real (asymmetry rows) := by
  have hdifferences : ∀ xs ys : List ℝ,
      List.zipWith (fun x y => magnitude (x - y)) (xs.map real) (ys.map real) =
        (List.zipWith (fun x y => magnitude (x - y)) xs ys).map real := by
    intro xs ys
    simp only [List.zipWith_map, List.map_zipWith, Extended.real_sub_real, magnitude_real]
  rw [asymmetry, asymmetry, List.length_map, transpose_map, List.zipWith_map]
  simp only [hdifferences]
  rw [← List.map_zipWith, ← List.map_flatten, ← Extended.real_zero, largest_map_real]

theorem symmetryScale_map_real (rows : List (List ℝ)) :
    symmetryScale (rows.map (List.map real)) = real (symmetryScale rows) := by
  have hmagnitudes : (rows.map (List.map real)).flatten.map magnitude =
      (rows.flatten.map magnitude).map real := by
    rw [← List.map_flatten, List.map_map, List.map_map]
    exact List.map_congr_left fun x _ => magnitude_real x
  rw [symmetryScale, symmetryScale, hmagnitudes, ← Extended.real_zero, largest_map_real,
    ← Extended.real_one]
  simp only [Extended.real_lt_real]
  split <;> rfl

theorem one_le_symmetryScale (rows : List (List ℝ)) : 1 ≤ symmetryScale rows := by
  rw [symmetryScale]
  split
  · rename_i h
    exact h.le
  · exact le_rfl

/-- A symmetric matrix passes the check. -/
theorem asymmetry_le_of_isSymmetric {K : Nat} {rows : List (List ℝ)} (hrows : IsSquare K rows)
    (h : IsSymmetric rows) : asymmetry rows ≤ tolerance * symmetryScale rows := by
  have hzero : asymmetry rows = 0 := by
    refine largest_of_forall_eq fun d hd => ?_
    obtain ⟨i, j, x, y, hx, hy, rfl⟩ := (mem_differences_iff hrows).mp hd
    rw [h i j, hy] at hx
    rw [Option.some.inj hx, sub_self, magnitude_eq_abs, abs_zero]
  have htolerance : (0 : ℝ) ≤ tolerance := by norm_num [tolerance]
  rw [hzero]
  exact mul_nonneg htolerance (zero_le_one.trans (one_le_symmetryScale rows))

end Unconstrain

end EnsembleSampling
