import EnsembleSampling.Proofs.Autocorrelation.Rescaled
import Mathlib.Algebra.BigOperators.Field
import Mathlib.Algebra.BigOperators.Intervals
import Mathlib.Order.Bounds.Basic
set_option autoImplicit false

/-!
# The window of an ensemble that moves

The deviations of a sequence from its mean cancel, and so the products of all pairs of them do:
the lag sums make up half of the one at lag zero (`two_mul_sum_lagSum`).  Normalised, the
correlations of a sequence sum to a half, unless it is constant and they sum to one
(`sum_correlations`).  The time summed up to the last lag is therefore the share of the walkers
that are stuck, which is small, and the search for a window has an end
(`exists_window_of_stuckShare_le`).
-/

namespace EnsembleSampling

/-! ## Running sums -/

section

variable {α : Type} [Field α]

theorem getElem?_runningSums_go (s : α) (xs : List α) {k : Nat} (hk : k < xs.length) :
    (runningSums.go s xs)[k]? = some (s + (xs.take (k + 1)).sum) := by
  induction xs generalizing s k with
  | nil => exact absurd hk (Nat.not_lt_zero k)
  | cons x xs ih =>
    cases k with
    | zero => simp [runningSums.go]
    | succ k =>
      rw [runningSums.go, List.getElem?_cons_succ, ih (s + x) (Nat.lt_of_succ_lt_succ hk),
        List.take_succ_cons, List.sum_cons, add_assoc]

/-- The running sum at a place is the sum of the entries up to it. -/
theorem getElem?_runningSums (xs : List α) {k : Nat} (hk : k < xs.length) :
    (runningSums xs)[k]? = some (xs.take (k + 1)).sum := by
  cases xs with
  | nil => exact absurd hk (Nat.not_lt_zero k)
  | cons x xs =>
    rw [runningSums]
    cases k with
    | zero => simp
    | succ k =>
      rw [List.getElem?_cons_succ, getElem?_runningSums_go x xs (Nat.lt_of_succ_lt_succ hk),
        List.take_succ_cons, List.sum_cons]

/-- The averages of the columns of a table sum to the average of the sums of its rows. -/
theorem sum_average_column {n : Nat} {rows : List (List α)} (hrows : ∀ row ∈ rows, row.length = n) :
    ((List.range n).map fun k => average (column k rows)).sum = average (rows.map List.sum) := by
  have hcolumns : ((List.range n).map fun k => (column k rows).sum).sum =
      (rows.map List.sum).sum := by
    induction rows with
    | nil => simp [column]
    | cons row rows ih =>
      obtain ⟨hrow, hrest⟩ := List.forall_mem_cons.mp hrows
      have hsum : ((List.range n).map fun k => row.getD k 0).sum = row.sum := by
        refine congrArg List.sum (List.ext_getElem (by simpa using hrow.symm) fun k _ hk => ?_)
        simp [hk]
      calc ((List.range n).map fun k => (column k (row :: rows)).sum).sum
          = ((List.range n).map fun k => row.getD k 0 + (column k rows).sum).sum := by
            simp only [column, List.map_cons, List.sum_cons]
        _ = row.sum + ((List.range n).map fun k => (column k rows).sum).sum := by
            rw [List.sum_map_add, hsum]
        _ = ((row :: rows).map List.sum).sum := by rw [ih hrest, List.map_cons, List.sum_cons]
  simp only [average, column, List.length_map, div_eq_mul_inv, List.sum_map_mul_right]
  exact congrArg (· * (rows.length : α)⁻¹) hcolumns

end

namespace Autocorrelation

/-! ## Lag sums of a centred sequence -/

theorem sum_valueAt (ds : List ℝ) : ∑ i ∈ Finset.range ds.length, valueAt ds i = ds.sum := by
  rw [Finset.sum_range, ← Fin.sum_univ_getElem ds]
  exact Finset.sum_congr rfl fun i _ => by simp [valueAt]

theorem sum_deviations (xs : List ℝ) : (deviations xs).sum = 0 := by
  rcases eq_or_ne xs [] with rfl | hxs
  · rfl
  · have hlength : (xs.length : ℝ) ≠ 0 :=
      Nat.cast_ne_zero.mpr fun h => hxs (List.length_eq_zero_iff.mp h)
    have hsum := sum_map_affine_list 1 (-(xs.sum / xs.length)) xs
    simp only [one_mul, ← sub_eq_add_neg] at hsum
    rw [deviations, hsum, mul_neg, mul_div_cancel₀ _ hlength, add_neg_cancel]

/-- The products of all pairs of places, each pair once and every place with itself, are half the
square of the sum and half the sum of the squares. -/
theorem two_mul_sum_pairs (n : Nat) (f : Nat → ℝ) :
    2 * ∑ m ∈ Finset.range n, ∑ k ∈ Finset.range (m + 1), f k * f m =
      (∑ k ∈ Finset.range n, f k) ^ 2 + ∑ k ∈ Finset.range n, f k * f k := by
  induction n with
  | zero => simp
  | succ n ih =>
    rw [Finset.sum_range_succ, mul_add, ih, ← Finset.sum_mul, Finset.sum_range_succ f n,
      Finset.sum_range_succ (fun k => f k * f k) n]
    ring

/-- The lag sums together, taken twice, are the square of the sum and the sum at lag zero. -/
theorem two_mul_sum_lagSum (ds : List ℝ) :
    2 * ∑ k ∈ Finset.range ds.length, lagSum ds k = ds.sum ^ 2 + lagSum ds 0 := by
  have hpairs : ∑ k ∈ Finset.range ds.length, lagSum ds k =
      ∑ m ∈ Finset.range ds.length, ∑ k ∈ Finset.range (m + 1), valueAt ds k * valueAt ds m := by
    -- the pairs by their lag, and by the place of the later entry
    calc ∑ k ∈ Finset.range ds.length, lagSum ds k
        = ∑ m ∈ Finset.range ds.length, ∑ k ∈ Finset.range (m + 1),
            valueAt ds (m - k) * valueAt ds (m - k + k) :=
          (Finset.sum_range_diag_flip ds.length
            fun k i => valueAt ds i * valueAt ds (i + k)).symm
      _ = ∑ m ∈ Finset.range ds.length, ∑ k ∈ Finset.range (m + 1),
            valueAt ds (m - k) * valueAt ds m := by
          refine Finset.sum_congr rfl fun m _ => Finset.sum_congr rfl fun k hk => ?_
          rw [Nat.sub_add_cancel (Nat.le_of_lt_succ (Finset.mem_range.mp hk))]
      _ = ∑ m ∈ Finset.range ds.length, ∑ k ∈ Finset.range (m + 1),
            valueAt ds k * valueAt ds m :=
          Finset.sum_congr rfl fun m _ => Finset.sum_flip fun k => valueAt ds k * valueAt ds m
  rw [hpairs, two_mul_sum_pairs, sum_valueAt]
  rfl

/-! ## Correlations -/

/-- A walker is stuck if its sequence is constant. -/
def Stuck (y : List ℝ) : Prop := ∀ x ∈ y, ∀ x' ∈ y, x = x'

/-- The share of the walkers that are stuck. -/
noncomputable def stuckShare (ys : List (List ℝ)) : ℝ :=
  open scoped Classical in (ys.countP fun y => Stuck y) / ys.length

theorem stuckShare_eq_zero {ys : List (List ℝ)} (h : ∀ y ∈ ys, ¬ Stuck y) : stuckShare ys = 0 := by
  rw [stuckShare, List.countP_eq_zero.mpr (by simpa using h), Nat.cast_zero, zero_div]

theorem correlations_of_stuck {y : List ℝ} (hy : y ≠ []) (hstuck : Stuck y) :
    correlations y = 1 :: List.replicate (y.length - 1) 0 := by
  have hzero : lagSum (deviations y) 0 = 0 := lagSum_deviations_zero_iff.mpr hstuck
  rw [correlations, autocorrelation?, autocovariance_eq,
    normalized?_map_range (mt List.length_eq_zero_iff.mp hy), if_pos (by rw [hzero, zero_div]),
    Option.getD_some]

/-- What the autocovariances are divided by is lost when they are normalised. -/
theorem correlations_of_not_stuck {y : List ℝ} (hy : y ≠ []) (hstuck : ¬ Stuck y) :
    correlations y =
      (List.range y.length).map fun k => lagSum (deviations y) k / lagSum (deviations y) 0 := by
  have hfirst : lagSum (deviations y) 0 ≠ 0 := mt lagSum_deviations_zero_iff.mp hstuck
  have hscale : (4 * nextPowTwo y.length : ℝ) ≠ 0 := by
    obtain ⟨p, hp⟩ := exists_nextPowTwo_eq y.length
    rw [hp]
    positivity
  rw [correlations, autocorrelation?, autocovariance_eq,
    normalized?_map_range (mt List.length_eq_zero_iff.mp hy), if_neg (div_ne_zero hfirst hscale),
    Option.getD_some]
  exact List.map_congr_left fun k _ => div_div_div_cancel_right₀ hscale _ _

/-- The correlations of a sequence sum to a half, and to one if it is constant. -/
theorem sum_correlations {y : List ℝ} (hy : y ≠ []) [Decidable (Stuck y)] :
    (correlations y).sum = if Stuck y then 1 else 1 / 2 := by
  split
  · rename_i hstuck
    simp [correlations_of_stuck hy hstuck]
  · rename_i hstuck
    have hfirst : lagSum (deviations y) 0 ≠ 0 := mt lagSum_deviations_zero_iff.mp hstuck
    have hlength : (deviations y).length = y.length := List.length_map _
    have htotal : 2 * ∑ k ∈ Finset.range y.length, lagSum (deviations y) k =
        lagSum (deviations y) 0 := by
      rw [← hlength, two_mul_sum_lagSum, sum_deviations, zero_pow two_ne_zero, zero_add]
    calc (correlations y).sum
        = ∑ k ∈ Finset.range y.length, lagSum (deviations y) k / lagSum (deviations y) 0 := by
          rw [correlations_of_not_stuck hy hstuck]
          rfl
      _ = (∑ k ∈ Finset.range y.length, lagSum (deviations y) k) / lagSum (deviations y) 0 :=
          (Finset.sum_div ..).symm
      _ = 1 / 2 := by
          rw [div_eq_div_iff hfirst two_ne_zero, mul_comm, htotal, one_mul]

/-- The correlations of a walker sum to a half and another half if it is stuck, and on average to
a half and half the share of those that are. -/
theorem average_sum_correlations {ys : List (List ℝ)} (hys : ys ≠ []) (hne : ∀ y ∈ ys, y ≠ []) :
    average (ys.map fun y => (correlations y).sum) = 1 / 2 * stuckShare ys + 1 / 2 := by
  classical
  have hsum : (ys.map fun y => (correlations y).sum) =
      (ys.map fun y => if Stuck y then (1 : ℝ) else 0).map fun x => 1 / 2 * x + 1 / 2 := by
    rw [List.map_map]
    refine List.map_congr_left fun y hy => ?_
    rw [sum_correlations (hne y hy), Function.comp_apply]
    split <;> norm_num
  have hshare : average (ys.map fun y => if Stuck y then (1 : ℝ) else 0) = stuckShare ys := by
    rw [average, stuckShare, List.length_map, List.sum_map_ite, List.countP_eq_length_filter]
    simp
  rw [hsum, average_map_affine _ _ (by simpa using hys), hshare]

/-! ## The last lag -/

/-- The time summed up to the last lag is the share of the walkers that are stuck. -/
theorem exists_walkerTimes?_last {n : Nat} (hn : n ≠ 0) {ys : List (List ℝ)}
    (hys : ∀ y ∈ ys, y.length = n) (hne : ys ≠ []) :
    ∃ taus, walkerTimes? ys = some taus ∧ taus.length = n ∧
      taus[n - 1]? = some (stuckShare ys) := by
  have hnonempty : ∀ y ∈ ys, y ≠ [] := fun y hy h => hn (by rw [← hys y hy, h, List.length_nil])
  have hrows : ∀ cs ∈ ys.map correlations, cs.length = n :=
    List.forall_mem_map.mpr fun y hy =>
      (autocorrelation?_eq_some (hnonempty y hy)).2.trans (hys y hy)
  refine ⟨_, walkerTimes?_eq hn hys hne, ?_, ?_⟩
  · rw [length_cumulativeTimes, List.length_map, List.length_range]
  · have hlength : ((List.range n).map fun k => average (column k (ys.map correlations))).length =
        n := by rw [List.length_map, List.length_range]
    have hlast : n - 1 < n := Nat.sub_one_lt hn
    have htake : ((List.range n).map fun k => average (column k (ys.map correlations))).take
        (n - 1 + 1) = (List.range n).map fun k => average (column k (ys.map correlations)) :=
      List.take_of_length_le (by rw [hlength]; omega)
    rw [cumulativeTimes, List.getElem?_map, getElem?_runningSums _ (by rwa [hlength]), htake,
      sum_average_column hrows, List.map_map, Option.map_some]
    have haverage := average_sum_correlations hne hnonempty
    simp only [Function.comp_def, haverage, Nat.cast_ofNat]
    congr 1
    ring

/-! ## The search -/

/-- The search for a window stops at a lag that is at least `c` times the time summed up to it. -/
def Stops (c : ℝ) (taus : List ℝ) (i : Nat) : Prop := ∃ tau ∈ taus[i]?, c * tau ≤ i

/-- If it stops anywhere, the window is the first lag where it does. -/
theorem exists_window_eq {c : ℝ} {taus : List ℝ} (h : ∃ i, Stops c taus i) :
    ∃ w : Nat, window c taus = w ∧ IsLeast {i | Stops c taus i} w := by
  obtain ⟨i, tau, htau, hle⟩ := h
  rw [window]
  split
  · rename_i tau' w hfind
    obtain ⟨hstops, k, hk, hfound, hbefore⟩ := List.find?_eq_some_iff_getElem.mp hfind
    simp only [Bool.not_eq_true', decide_eq_false_iff_not, not_lt] at hstops
    rw [List.length_zipIdx] at hk
    rw [List.getElem_zipIdx, Prod.mk.injEq, Nat.zero_add] at hfound
    obtain ⟨rfl, rfl⟩ := hfound
    refine ⟨k, rfl, ⟨taus[k], List.getElem?_eq_getElem hk, hstops⟩, ?_⟩
    rintro l ⟨tau, htau, hle⟩
    by_contra hl
    rw [not_le] at hl
    have hcontinues := hbefore l hl
    obtain ⟨hl', rfl⟩ := List.getElem?_eq_some_iff.mp htau
    simp only [List.getElem_zipIdx, Nat.zero_add, Bool.not_not, decide_eq_true_eq] at hcontinues
    exact absurd hcontinues (not_lt.mpr hle)
  · rename_i hfind
    have hmem : (tau, i) ∈ taus.zipIdx := List.mem_zipIdx_iff_getElem?.mpr htau
    have hcontinues := List.find?_eq_none.mp hfind _ hmem
    simp only [Bool.not_eq_true, Bool.not_eq_false', decide_eq_true_eq] at hcontinues
    exact absurd hcontinues (not_lt.mpr hle)

/-- **The search has an end.**  Of walkers with `n` steps each, the time summed up to the last lag
is the share of them that are stuck.  So if `c` times that share is at most `n - 1`, as it is when
none is stuck, the window is the first lag that is at least `c` times the time summed up to it,
and that time is returned. -/
theorem exists_window_of_stuckShare_le {n : Nat} (hn : n ≠ 0) {ys : List (List ℝ)} (hne : ys ≠ [])
    (hys : ∀ y ∈ ys, y.length = n) :
    ∃ taus, walkerTimes? ys = some taus ∧ taus.length = n ∧
      taus[n - 1]? = some (stuckShare ys) ∧
      ∀ c, c * stuckShare ys ≤ (n - 1 : Nat) ∨ (∀ y ∈ ys, ¬ Stuck y) →
        ∃ (w : Nat) (tau : ℝ), window c taus = w ∧ IsLeast {i | Stops c taus i} w ∧
          taus[w]? = some tau ∧ walkerTime? c ys = some tau ∧ c * tau ≤ w := by
  obtain ⟨taus, htaus, hlength, hlast⟩ := exists_walkerTimes?_last hn hys hne
  refine ⟨taus, htaus, hlength, hlast, fun c hc => ?_⟩
  have hle : c * stuckShare ys ≤ (n - 1 : Nat) := by
    rcases hc with hc | hmoves
    · exact hc
    · rw [stuckShare_eq_zero hmoves, mul_zero]
      exact Nat.cast_nonneg _
  obtain ⟨w, hwindow, hleast⟩ := exists_window_eq ⟨n - 1, _, hlast, hle⟩
  obtain ⟨tau, htau, hstops⟩ := hleast.1
  refine ⟨w, tau, hwindow, hleast, htau, ?_, hstops⟩
  rw [walkerTime?, htaus, Option.bind_some, timeAtWindow?, hwindow, Int.toNat_natCast]
  exact htau

/-- One of two walkers is stuck, and the search ends at the last lag at the latest. -/
theorem exists_window_of_one_stuck :
    ∃ taus, walkerTimes? [[1, 2], [3, 3]] = some taus ∧ taus[1]? = some (1 / 2 : ℝ) ∧
      ∃ (w : Nat) (tau : ℝ), window 2 taus = w ∧ IsLeast {i | Stops 2 taus i} w ∧
        walkerTime? 2 [[1, 2], [3, 3]] = some tau ∧ 2 * tau ≤ w := by
  have hshare : stuckShare [[1, 2], [3, 3]] = 1 / 2 := by
    have hmoves : ¬ Stuck [1, 2] := by norm_num [Stuck]
    have hstuck : Stuck [3, 3] := by simp [Stuck]
    simp [stuckShare, hmoves, hstuck]
  obtain ⟨taus, htaus, -, hlast, hwindow⟩ :=
    exists_window_of_stuckShare_le two_ne_zero (List.cons_ne_nil [1, 2] [[3, 3]]) (by simp)
  obtain ⟨w, tau, hw, hleast, -, htau, hle⟩ := hwindow 2 (.inl (by rw [hshare]; norm_num))
  exact ⟨taus, htaus, hshare ▸ hlast, w, tau, hw, hleast, htau, hle⟩

end Autocorrelation

end EnsembleSampling
