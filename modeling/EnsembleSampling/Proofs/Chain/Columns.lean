import EnsembleSampling.Chain.Summary
import EnsembleSampling.Proofs.Autocorrelation.Rescaled
import EnsembleSampling.Proofs.Scale.Arithmetic
set_option autoImplicit false

/-!
# The columns of a sample

Over the real numbers the means and the standard deviations of a sample are those of its columns,
one for each dimension (`columnMeans_eq`, `columnDeviations_eq`).  A change of units of a column
is a change of units of its mean, and multiplies its standard deviation by the size of the unit.
-/

namespace EnsembleSampling

open Autocorrelation (deviations deviations_eq deviations_rescaled)

/-- The standard deviation of a list. -/
noncomputable def deviation (xs : List ℝ) : ℝ := √(average ((deviations xs).map fun d => d * d))

theorem deviation_perm {xs ys : List ℝ} (h : xs.Perm ys) : deviation xs = deviation ys := by
  rw [deviation, deviation, deviations_eq, deviations_eq, average_perm h]
  exact congrArg Real.sqrt (average_perm ((h.map _).map _))

/-- The standard deviation of a list in other units. -/
theorem deviation_map_affine (a b : ℝ) (xs : List ℝ) :
    deviation (xs.map fun x => a * x + b) = |a| * deviation xs := by
  have hsquares : ((deviations xs).map (a * ·)).map (fun d => d * d) =
      ((deviations xs).map fun d => d * d).map (a * a * ·) := by
    rw [List.map_map, List.map_map]
    exact List.map_congr_left fun d _ => mul_mul_mul_comm a d a d
  have haverage : ∀ ds : List ℝ, average (ds.map (a * a * ·)) = a * a * average ds := fun ds => by
    rw [average, average, List.sum_map_mul_left, List.length_map, List.map_id', mul_div_assoc]
  rw [deviation, deviation, deviations_rescaled, hsquares, haverage,
    Real.sqrt_mul (mul_self_nonneg a), Real.sqrt_mul_self_eq_abs]

/-! ## Columns -/

variable {n : Nat} {rows : List (List ℝ)} (hrows : rows ≠ [])
  (hlength : ∀ row ∈ rows, row.length = n)

include hrows hlength

theorem columnMeans_eq :
    columnMeans n rows = (List.range n).map fun k => average (column k rows) := by
  rw [columnMeans, if_neg (by simpa using hrows), meanRows_eq hrows hlength]

theorem columnDeviations_eq :
    columnDeviations n rows = (List.range n).map fun k => deviation (column k rows) := by
  have hcenter : (columnMeans n rows).length = n := by
    rw [columnMeans_eq hrows hlength, List.length_map, List.length_range]
  have hne : (rows.map fun row =>
      List.zipWith (fun x m => (x - m) * (x - m)) row (columnMeans n rows)) ≠ [] :=
    fun h => hrows (List.map_eq_nil_iff.mp h)
  have hlengths : ∀ row' ∈ rows.map fun row =>
      List.zipWith (fun x m => (x - m) * (x - m)) row (columnMeans n rows), row'.length = n := by
    refine List.forall_mem_map.mpr fun row hrow => ?_
    rw [List.length_zipWith, hlength row hrow, hcenter, Nat.min_self]
  rw [columnDeviations]
  rw [columnMeans_eq hne hlengths, List.map_map]
  refine List.map_congr_left fun k hk => ?_
  rw [List.mem_range] at hk
  -- the entry of a row beside the mean of its column
  refine congrArg (fun xs => √(average xs)) ?_
  rw [column, List.map_map, deviations_eq, column, List.map_map, List.map_map]
  refine List.map_congr_left fun row hrow => ?_
  have hrow' : k < row.length := hlength row hrow ▸ hk
  simp [columnMeans_eq hrows hlength, hrow', hk, column]

end EnsembleSampling
