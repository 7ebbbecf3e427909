import EnsembleSampling.Proofs.Autocorrelation.Window
import Mathlib.Algebra.Order.BigOperators.Group.List
import Mathlib.Algebra.Order.BigOperators.Ring.Finset
set_option autoImplicit false

/-!
# How large a correlation can be

Twice a product is at most the two squares together, so that no lag sum is larger than the one at
lag zero (`abs_lagSum_le`).  Normalised, the correlations of a sequence lie between `-1` and `1`,
and so do their averages over walkers.  The time summed up to a lag changes by twice such an
average from one lag to the next (`timeUpTo_succ`), and is therefore not further from one than
twice the lag (`abs_timeUpTo_sub_one_le`).
-/

namespace EnsembleSampling

/-- An average lies between the same bounds as what is averaged. -/
theorem average_mem_bounds {xs : List ℝ} {a b : ℝ} (hne : xs ≠ [])
    (h : ∀ x ∈ xs, a ≤ x ∧ x ≤ b) : a ≤ average xs ∧ average xs ≤ b := by
  have hlength : (0 : ℝ) < xs.length := Nat.cast_pos.mpr (List.length_pos_iff.mpr hne)
  have hlower := List.card_nsmul_le_sum xs a fun x hx => (h x hx).1
  have hupper := List.sum_le_card_nsmul xs b fun x hx => (h x hx).2
  rw [nsmul_eq_mul] at hlower hupper
  exact ⟨(le_div_iff₀' hlength).mpr hlower, (div_le_iff₀' hlength).mpr hupper⟩

namespace Autocorrelation

/-! ## One sequence -/

/-- The squares of some entries of a list are at most the lag sum at lag zero. -/
theorem sum_squares_le (ds : List ℝ) {n : Nat} (f : Nat → Nat)
    (hf : Set.InjOn f (Finset.range n)) (hlt : ∀ i < n, f i < ds.length) :
    ∑ i ∈ Finset.range n, valueAt ds (f i) * valueAt ds (f i) ≤ lagSum ds 0 := by
  have himage : (Finset.range n).image f ⊆ Finset.range ds.length := by
    intro j hj
    obtain ⟨i, hi, rfl⟩ := Finset.mem_image.mp hj
    exact Finset.mem_range.mpr (hlt i (Finset.mem_range.mp hi))
  calc ∑ i ∈ Finset.range n, valueAt ds (f i) * valueAt ds (f i)
      = ∑ j ∈ (Finset.range n).image f, valueAt ds j * valueAt ds j :=
        (Finset.sum_image (g := f) (f := fun j => valueAt ds j * valueAt ds j) hf).symm
    _ ≤ ∑ j ∈ Finset.range ds.length, valueAt ds j * valueAt ds j :=
        Finset.sum_le_sum_of_subset_of_nonneg himage fun j _ _ => mul_self_nonneg _
    _ = lagSum ds 0 := rfl

/-- No lag sum is larger than the one at lag zero. -/
theorem abs_lagSum_le (ds : List ℝ) (k : Nat) : |lagSum ds k| ≤ lagSum ds 0 := by
  have hfront := sum_squares_le ds (n := ds.length - k) id (Set.injOn_id _) fun i hi => by
    rw [id_eq]
    omega
  have hback := sum_squares_le ds (n := ds.length - k) (· + k)
    (add_left_injective k).injOn fun i hi => by omega
  have hproducts : ∀ a b : ℝ, 2 * |a * b| ≤ a * a + b * b := by
    intro a b
    have hsquares := two_mul_le_add_sq |a| |b|
    rwa [mul_assoc, ← abs_mul, sq_abs, sq_abs, sq, sq] at hsquares
  have htwice : 2 * |lagSum ds k| ≤ 2 * lagSum ds 0 := by
    calc 2 * |lagSum ds k|
        ≤ 2 * ∑ i ∈ Finset.range (ds.length - k), |valueAt ds i * valueAt ds (i + k)| :=
          mul_le_mul_of_nonneg_left (Finset.abs_sum_le_sum_abs _ _) zero_le_two
      _ = ∑ i ∈ Finset.range (ds.length - k), 2 * |valueAt ds i * valueAt ds (i + k)| :=
          Finset.mul_sum ..
      _ ≤ ∑ i ∈ Finset.range (ds.length - k),
            (valueAt ds i * valueAt ds i + valueAt ds (i + k) * valueAt ds (i + k)) :=
          Finset.sum_le_sum fun i _ => hproducts _ _
      _ = ∑ i ∈ Finset.range (ds.length - k), valueAt ds i * valueAt ds i +
            ∑ i ∈ Finset.range (ds.length - k), valueAt ds (i + k) * valueAt ds (i + k) :=
          Finset.sum_add_distrib
      _ ≤ lagSum ds 0 + lagSum ds 0 := add_le_add hfront hback
      _ = 2 * lagSum ds 0 := (two_mul _).symm
  exact le_of_mul_le_mul_left htwice two_pos

/-- The correlation of a sequence with itself at lag zero is one. -/
theorem getElem?_correlations_zero {y : List ℝ} (hy : y ≠ []) : (correlations y)[0]? = some 1 := by
  by_cases hstuck : Stuck y
  · rw [correlations_of_stuck hy hstuck]
    rfl
  · have hfirst : lagSum (deviations y) 0 ≠ 0 := mt lagSum_deviations_zero_iff.mp hstuck
    rw [correlations_of_not_stuck hy hstuck, List.getElem?_map,
      List.getElem?_range (List.length_pos_iff.mpr hy), Option.map_some, div_self hfirst]

/-- At every lag it is between `-1` and `1`. -/
theorem correlations_mem_bounds {y : List ℝ} (hy : y ≠ []) :
    ∀ c ∈ correlations y, -1 ≤ c ∧ c ≤ 1 := by
  by_cases hstuck : Stuck y
  · rw [correlations_of_stuck hy hstuck, List.forall_mem_cons]
    refine ⟨by norm_num, fun c hc => ?_⟩
    rw [List.eq_of_mem_replicate hc]
    norm_num
  · have hfirst : lagSum (deviations y) 0 ≠ 0 := mt lagSum_deviations_zero_iff.mp hstuck
    have hpos : 0 < lagSum (deviations y) 0 :=
      ((abs_nonneg _).trans (abs_lagSum_le (deviations y) 0)).lt_of_ne' hfirst
    rw [correlations_of_not_stuck hy hstuck, List.forall_mem_map]
    intro k _
    have hle := abs_lagSum_le (deviations y) k
    rw [← abs_le, abs_div, abs_of_pos hpos]
    exact (div_le_one hpos).mpr hle

/-! ## All walkers -/

/-- The correlations of the walkers at a lag, averaged. -/
noncomputable def averagedCorrelation (ys : List (List ℝ)) (k : Nat) : ℝ :=
  average (column k (ys.map correlations))

/-- The time summed up to a lag. -/
noncomputable def timeUpTo (ys : List (List ℝ)) (k : Nat) : ℝ :=
  ((2 : Nat) : ℝ) * ∑ i ∈ Finset.range (k + 1), averagedCorrelation ys i - 1

section

variable {ys : List (List ℝ)} (hys : ys ≠ []) (hne : ∀ y ∈ ys, y ≠ [])

include hys hne

theorem averagedCorrelation_zero : averagedCorrelation ys 0 = 1 := by
  have hone : ∀ x ∈ column 0 (ys.map correlations), 1 ≤ x ∧ x ≤ 1 := by
    simp only [column, List.map_map, List.forall_mem_map]
    intro y hy
    have hfirst := getElem?_correlations_zero (hne y hy)
    simp [List.getD_eq_getElem?_getD, hfirst]
  have hcolumn : column 0 (ys.map correlations) ≠ [] :=
    column_ne_nil (mt List.map_eq_nil_iff.mp hys) 0
  obtain ⟨hlower, hupper⟩ := average_mem_bounds hcolumn hone
  exact le_antisymm hupper hlower

theorem averagedCorrelation_mem_bounds (k : Nat) :
    -1 ≤ averagedCorrelation ys k ∧ averagedCorrelation ys k ≤ 1 := by
  refine average_mem_bounds (column_ne_nil (mt List.map_eq_nil_iff.mp hys) k) ?_
  simp only [column, List.map_map, List.forall_mem_map]
  intro y hy
  rw [Function.comp_apply, List.getD_eq_getElem?_getD]
  -- beyond the last lag there is a zero
  cases hk : (correlations y)[k]? with
  | none => norm_num
  | some c => exact correlations_mem_bounds (hne y hy) c (List.mem_of_getElem? hk)

theorem timeUpTo_zero : timeUpTo ys 0 = 1 := by
  rw [timeUpTo, Finset.sum_range_one, averagedCorrelation_zero hys hne]
  norm_num

omit hys hne in
theorem timeUpTo_succ (k : Nat) :
    timeUpTo ys (k + 1) = timeUpTo ys k + 2 * averagedCorrelation ys (k + 1) := by
  rw [timeUpTo, Finset.sum_range_succ, timeUpTo]
  ring

theorem abs_timeUpTo_sub_one_le (k : Nat) : |timeUpTo ys k - 1| ≤ 2 * k := by
  induction k with
  | zero => rw [timeUpTo_zero hys hne, sub_self, abs_zero, Nat.cast_zero, mul_zero]
  | succ k ih =>
    have hstep := abs_le.mpr (averagedCorrelation_mem_bounds hys hne (k + 1))
    calc |timeUpTo ys (k + 1) - 1|
        = |(timeUpTo ys k - 1) + 2 * averagedCorrelation ys (k + 1)| := by
          rw [timeUpTo_succ]
          ring_nf
      _ ≤ |timeUpTo ys k - 1| + |2 * averagedCorrelation ys (k + 1)| := abs_add_le _ _
      _ ≤ 2 * k + 2 * 1 := by
          rw [abs_mul, abs_two]
          exact add_le_add ih (mul_le_mul_of_nonneg_left hstep zero_le_two)
      _ = 2 * (k + 1 : Nat) := by
          push_cast
          ring

end

theorem cumulativeTimes_map_range (n : Nat) (f : Nat → ℝ) :
    cumulativeTimes ((List.range n).map f) =
      (List.range n).map fun k => ((2 : Nat) : ℝ) * ∑ i ∈ Finset.range (k + 1), f i - 1 := by
  have hlength : ((List.range n).map f).length = n := by simp
  refine List.ext_getElem? fun k => ?_
  rcases Nat.lt_or_ge k n with hk | hk
  · have htake : ((List.range n).map f).take (k + 1) = (List.range (k + 1)).map f := by
      rw [← List.map_take, List.take_range, Nat.min_eq_left hk]
    have hsum : ((List.range (k + 1)).map f).sum = ∑ i ∈ Finset.range (k + 1), f i := rfl
    rw [cumulativeTimes, List.getElem?_map, getElem?_runningSums _ (by rwa [hlength]), htake, hsum,
      List.getElem?_map, List.getElem?_range hk, Option.map_some, Option.map_some]
  · rw [List.getElem?_eq_none (by rwa [length_cumulativeTimes, hlength]),
      List.getElem?_eq_none (by simpa using hk)]

/-- The times that the window is searched in are the times summed up to every lag. -/
theorem walkerTimes?_eq_timeUpTo {n : Nat} (hn : n ≠ 0) {ys : List (List ℝ)}
    (hlength : ∀ y ∈ ys, y.length = n) (hys : ys ≠ []) :
    walkerTimes? ys = some ((List.range n).map (timeUpTo ys)) := by
  rw [walkerTimes?_eq hn hlength hys, cumulativeTimes_map_range]
  rfl

theorem ne_nil_of_length_eq {n : Nat} (hn : n ≠ 0) {ys : List (List ℝ)}
    (hlength : ∀ y ∈ ys, y.length = n) : ∀ y ∈ ys, y ≠ [] :=
  fun y hy h => hn (by rw [← hlength y hy, h, List.length_nil])

/-- **The autocorrelation is a correlation.**  A sequence that is not empty, constant or not, has
as many normalised autocorrelations as entries; the first is one, and all are between `-1` and `1`.
The times that are summed up from those of walkers with `n` steps each are as many as the steps,
and at lag `k` not further from one than `2 * k`. -/
theorem correlations_in_bounds :
    (∀ xs : List ℝ, xs ≠ [] → ∃ cs, autocorrelation? xs = some cs ∧ cs.length = xs.length ∧
      cs[0]? = some 1 ∧ ∀ c ∈ cs, -1 ≤ c ∧ c ≤ 1) ∧
    ∀ n : Nat, n ≠ 0 → ∀ ys : List (List ℝ), ys ≠ [] → (∀ y ∈ ys, y.length = n) →
      ∃ taus, walkerTimes? ys = some taus ∧ taus.length = n ∧
        ∀ (k : Nat) (tau : ℝ), taus[k]? = some tau → 1 - 2 * k ≤ tau ∧ tau ≤ 1 + 2 * k := by
  refine ⟨fun xs hxs => ?_, fun n hn ys hys hlength => ?_⟩
  · obtain ⟨hsome, hentries⟩ := autocorrelation?_eq_some hxs
    exact ⟨correlations xs, hsome, hentries, getElem?_correlations_zero hxs,
      correlations_mem_bounds hxs⟩
  · refine ⟨_, walkerTimes?_eq_timeUpTo hn hlength hys, by simp, fun k tau htau => ?_⟩
    obtain ⟨hk, rfl⟩ := List.getElem?_eq_some_iff.mp htau
    have hne := ne_nil_of_length_eq hn hlength
    rw [List.getElem_map, List.getElem_range]
    obtain ⟨hlower, hupper⟩ := abs_le.mp (abs_timeUpTo_sub_one_le hys hne k)
    exact ⟨by linarith, by linarith⟩

/-- A sequence that alternates, and a walker that does beside one that is stuck. -/
theorem correlations_in_bounds_alternating :
    (∃ cs, autocorrelation? [0, 1, 0, (1 : ℝ)] = some cs ∧ cs.length = 4 ∧ cs[0]? = some 1 ∧
      ∀ c ∈ cs, -1 ≤ c ∧ c ≤ 1) ∧
    ∃ taus, walkerTimes? [[0, 1, 0, 1], [2, 2, 2, (2 : ℝ)]] = some taus ∧ taus.length = 4 ∧
      ∀ (k : Nat) (tau : ℝ), taus[k]? = some tau → 1 - 2 * k ≤ tau ∧ tau ≤ 1 + 2 * k := by
  obtain ⟨hsequence, hwalkers⟩ := correlations_in_bounds
  exact ⟨hsequence _ (List.cons_ne_nil _ _),
    hwalkers 4 four_ne_zero _ (List.cons_ne_nil _ _) (by simp)⟩

end Autocorrelation

end EnsembleSampling
