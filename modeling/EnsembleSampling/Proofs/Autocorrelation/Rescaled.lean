import EnsembleSampling.Autocorrelation.Time
import EnsembleSampling.Proofs.Autocorrelation.LagSums
import EnsembleSampling.Proofs.Number.Average
set_option autoImplicit false

/-!
# Autocorrelation in other units

A change of units multiplies the deviations of a sequence from its mean by one factor, and the
lag sums by the square of it, which is lost when they are normalised: the autocorrelation of a
sequence is the same in all units (`autocorrelation?_rescaled`).  The average over the walkers
does not depend on their order, and so neither does the time that is estimated from it
(`walkerTime?_congr`).
-/

namespace EnsembleSampling.Autocorrelation

/-! ## One sequence -/

theorem deviations_eq (xs : List ℝ) : deviations xs = xs.map (· - average xs) := rfl

theorem deviations_rescaled (a b : ℝ) (xs : List ℝ) :
    deviations (xs.map fun x => a * x + b) = (deviations xs).map (a * ·) := by
  rcases eq_or_ne xs [] with rfl | hxs
  · rfl
  · rw [deviations_eq, deviations_eq, average_map_affine a b hxs, List.map_map, List.map_map]
    refine List.map_congr_left fun x _ => ?_
    simp only [Function.comp_apply]
    ring

theorem valueAt_map_mul (a : ℝ) (ds : List ℝ) (i : Nat) :
    valueAt (ds.map (a * ·)) i = a * valueAt ds i := by
  rw [valueAt, valueAt, List.getElem?_map]
  cases ds[i]? <;> simp

theorem lagSum_map_mul (a : ℝ) (ds : List ℝ) (k : Nat) :
    lagSum (ds.map (a * ·)) k = a ^ 2 * lagSum ds k := by
  simp only [lagSum, List.length_map, valueAt_map_mul, Finset.mul_sum]
  refine Finset.sum_congr rfl fun i _ => ?_
  ring

/-- The autocovariances are multiplied by the square of the unit. -/
theorem autocovariance_rescaled (a b : ℝ) (xs : List ℝ) :
    autocovariance (xs.map fun x => a * x + b) = (autocovariance xs).map (a ^ 2 * ·) := by
  rw [autocovariance_eq, autocovariance_eq, deviations_rescaled, List.length_map, List.map_map]
  refine List.map_congr_left fun k _ => ?_
  rw [lagSum_map_mul, mul_div_assoc]
  rfl

/-- A factor is lost when values are normalised. -/
theorem normalized?_map_mul {a : ℝ} (ha : a ≠ 0) (cs : List ℝ) :
    normalized? (cs.map (a * ·)) = normalized? cs := by
  cases cs with
  | nil => rfl
  | cons c cs =>
    rw [List.map_cons, normalized?, normalized?]
    by_cases hc : c = 0
    · have hac : isZero (a * c) = true := isZero_iff.mpr (by rw [hc, mul_zero])
      rw [if_pos hac, if_pos (isZero_iff.mpr hc), List.map_map]
      rfl
    · have hac : ¬ isZero (a * c) = true := mt isZero_iff.mp (mul_ne_zero ha hc)
      rw [if_neg hac, if_neg (mt isZero_iff.mp hc), ← List.map_cons, List.map_map]
      refine congrArg some (List.map_congr_left fun x _ => ?_)
      exact mul_div_mul_left x c ha

/-- The autocorrelation of a sequence is the same in all units. -/
theorem autocorrelation?_rescaled {a : ℝ} (ha : a ≠ 0) (b : ℝ) (xs : List ℝ) :
    autocorrelation? (xs.map fun x => a * x + b) = autocorrelation? xs := by
  rw [autocorrelation?, autocorrelation?, autocovariance_rescaled,
    normalized?_map_mul (pow_ne_zero 2 ha)]

/-! ## All walkers -/

/-- The autocorrelation of a sequence that has one. -/
noncomputable def correlations (xs : List ℝ) : List ℝ := (autocorrelation? xs).getD []

theorem correlations_rescaled {a : ℝ} (ha : a ≠ 0) (b : ℝ) (xs : List ℝ) :
    correlations (xs.map fun x => a * x + b) = correlations xs := by
  rw [correlations, autocorrelation?_rescaled ha, correlations]

/-- A sequence that is not empty has one, with an entry for every lag. -/
theorem autocorrelation?_eq_some {xs : List ℝ} (hxs : xs ≠ []) :
    autocorrelation? xs = some (correlations xs) ∧ (correlations xs).length = xs.length := by
  have hlength : xs.length ≠ 0 := mt List.length_eq_zero_iff.mp hxs
  rw [correlations, autocorrelation?, autocovariance_eq, normalized?_map_range hlength]
  split
  · refine ⟨rfl, ?_⟩
    rw [Option.getD_some, List.length_cons, List.length_replicate]
    omega
  · exact ⟨rfl, by rw [Option.getD_some, List.length_map, List.length_range]⟩

theorem mapM_eq_some_map {β γ : Type} {f : β → Option γ} {g : β → γ} {xs : List β}
    (h : ∀ x ∈ xs, f x = some (g x)) : xs.mapM f = some (xs.map g) := by
  induction xs with
  | nil => rfl
  | cons x xs ih =>
    rw [List.forall_mem_cons] at h
    rw [List.mapM_cons, h.1, ih h.2]
    rfl

/-- The times summed up to every lag come from the correlations averaged over the walkers. -/
theorem walkerTimes?_eq {n : Nat} (hn : n ≠ 0) {ys : List (List ℝ)}
    (hys : ∀ y ∈ ys, y.length = n) (hne : ys ≠ []) :
    walkerTimes? ys = some (cumulativeTimes
      ((List.range n).map fun k => average (column k (ys.map correlations)))) := by
  have hsome : ∀ y ∈ ys, autocorrelation? y = some (correlations y) ∧
      (correlations y).length = y.length := by
    refine fun y hy => autocorrelation?_eq_some fun h => hn ?_
    rw [← hys y hy, h, List.length_nil]
  have hlength : ∀ cs ∈ ys.map correlations, cs.length = n :=
    List.forall_mem_map.mpr fun y hy => (hsome y hy).2.trans (hys y hy)
  have hrows : ys.map correlations ≠ [] := fun h => hne (List.map_eq_nil_iff.mp h)
  have haveraged : averaged (ys.map correlations) = meanRows (ys.map correlations) := by
    rw [averaged, if_neg (by simpa using hne)]
  rw [walkerTimes?, mapM_eq_some_map fun y hy => (hsome y hy).1, Option.map_some, haveraged,
    meanRows_eq hrows hlength]

theorem window_toNat_lt (c : ℝ) {taus : List ℝ} (htaus : taus ≠ []) :
    (window c taus).toNat < taus.length := by
  have hlength : 0 < taus.length := List.length_pos_iff.mpr htaus
  rw [window]
  split
  · rename_i tau i hfind
    have hmem := List.mem_of_find?_eq_some hfind
    have hi := (List.mem_zipIdx_iff_getElem?.mp hmem)
    exact (List.getElem?_eq_some_iff.mp hi).1
  · omega

theorem length_cumulativeTimes (cs : List ℝ) : (cumulativeTimes cs).length = cs.length := by
  rw [cumulativeTimes, List.length_map, length_runningSums]

/-- Sequences that are not empty have a time. -/
theorem exists_walkerTime? (c : ℝ) {n : Nat} (hn : n ≠ 0) {ys : List (List ℝ)}
    (hys : ∀ y ∈ ys, y.length = n) (hne : ys ≠ []) : ∃ t, walkerTime? c ys = some t := by
  rw [walkerTime?, walkerTimes?_eq hn hys hne, Option.bind_some, timeAtWindow?]
  refine ⟨_, List.getElem?_eq_getElem (window_toNat_lt c fun h => hn ?_)⟩
  have hlength := congrArg List.length h
  simpa [length_cumulativeTimes] using hlength

/-- The time depends on the correlations of the walkers alone, and not on their order. -/
theorem walkerTime?_congr (c : ℝ) {n : Nat} (hn : n ≠ 0) {ys zs : List (List ℝ)}
    (hys : ∀ y ∈ ys, y.length = n) (hzs : ∀ z ∈ zs, z.length = n)
    (h : (ys.map correlations).Perm (zs.map correlations)) :
    walkerTime? c ys = walkerTime? c zs := by
  rcases eq_or_ne ys [] with rfl | hne
  · obtain rfl : zs = [] := List.map_eq_nil_iff.mp h.symm.eq_nil
    rfl
  · have hne' : zs ≠ [] := fun hzs => hne (by rw [hzs] at h; exact List.map_eq_nil_iff.mp h.eq_nil)
    rw [walkerTime?, walkerTime?, walkerTimes?_eq hn hys hne, walkerTimes?_eq hn hzs hne']
    simp only [average_perm (column_perm h _)]

end EnsembleSampling.Autocorrelation
