import EnsembleSampling.Proofs.Position.Exact
import Mathlib.Algebra.BigOperators.Ring.List
import Mathlib.Tactic.FieldSimp
import Mathlib.Tactic.Ring
set_option autoImplicit false

/-!
# Averages in exact arithmetic

In whatever order it is summed, the mean of a list is its `average`, which does not depend on the
order of the list and follows a change of units.  The means of the columns of a table are the
averages of its columns (`meanRows_eq`).
-/

namespace EnsembleSampling

variable {α : Type} [Field α]

/-- The sum of a list divided by its length. -/
def average (xs : List α) : α := xs.sum / (xs.length : α)

theorem mean_eq_average (xs : List α) : mean xs = average xs := by
  rw [mean, blockSum_eq_sum, average]

theorem average_perm {xs ys : List α} (h : xs.Perm ys) : average xs = average ys := by
  rw [average, average, h.sum_eq, h.length_eq]

theorem sum_map_affine_list (a b : α) (xs : List α) :
    (xs.map fun x => a * x + b).sum = a * xs.sum + xs.length * b := by
  induction xs with
  | nil => simp
  | cons x xs ih =>
    rw [List.map_cons, List.sum_cons, ih, List.sum_cons, List.length_cons, Nat.cast_succ]
    ring

/-- The average of a list in other units. -/
theorem average_map_affine [CharZero α] (a b : α) {xs : List α} (hxs : xs ≠ []) :
    average (xs.map fun x => a * x + b) = a * average xs + b := by
  have hlength : (xs.length : α) ≠ 0 :=
    Nat.cast_ne_zero.mpr fun h => hxs (List.length_eq_zero_iff.mp h)
  rw [average, average, sum_map_affine_list, List.length_map]
  field_simp

/-! ## Columns -/

/-- The entries of the rows of a table at one place. -/
def column (k : Nat) (rows : List (List α)) : List α := rows.map fun row => row.getD k 0

theorem column_ne_nil {rows : List (List α)} (hrows : rows ≠ []) (k : Nat) :
    column k rows ≠ [] :=
  fun h => hrows (List.map_eq_nil_iff.mp h)

theorem column_perm {rows rows' : List (List α)} (h : rows.Perm rows') (k : Nat) :
    (column k rows).Perm (column k rows') :=
  h.map _

/-- The means of the columns of a table of so many columns. -/
theorem meanRows_eq {n : Nat} {rows : List (List α)} (hrows : rows ≠ [])
    (hlength : ∀ row ∈ rows, row.length = n) :
    meanRows rows = (List.range n).map fun k => average (column k rows) := by
  obtain ⟨vs, rfl⟩ : ∃ vs : List (Fin n → α), rows = vs.map List.ofFn := by
    refine ⟨rows.map fun row => Point.toVector n ⟨row⟩, ?_⟩
    rw [List.map_map]
    refine (List.map_id rows).symm.trans (List.map_congr_left fun row hrow => ?_)
    exact (congrArg Point.coords (Point.ofVector_toVector (p := ⟨row⟩) (hlength row hrow))).symm
  have hvs : vs ≠ [] := fun h => hrows (by rw [h, List.map_nil])
  rw [meanRows, Point.sumRows_eq hvs, List.map_ofFn]
  refine List.ext_getElem (by simp) fun k hk _ => ?_
  have hk' : k < n := by simpa using hk
  simp [average, column, hk', Pi.list_sum_apply, Function.comp_def]

end EnsembleSampling
