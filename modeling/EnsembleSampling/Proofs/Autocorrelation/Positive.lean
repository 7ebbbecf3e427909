import EnsembleSampling.Proofs.Autocorrelation.Bounds
import EnsembleSampling.Proofs.Autocorrelation.Search
set_option autoImplicit false

/-!
# When a time is positive

The time that the window selects is a sum of correlations, of which some may be negative.  As long
as the search goes on, the time summed up so far is above `k / c` at lag `k`; only in the last step
can it fall below zero, and by no more than twice a correlation (`WindowAt.lower_bound`).  So it is
positive unless the search arrives at a lag where the time summed up is not
(`WindowAt.pos_iff`); walkers that alternate show that this happens
(`integratedTimes?_alternating`).
-/

namespace EnsembleSampling.Autocorrelation

/-! ## The window -/

/-- The search for a window in the times of walkers with `n` steps each ends at lag `w`: before,
it goes on, and there it stops or runs out of lags. -/
structure WindowAt (c : ℝ) (ys : List (List ℝ)) (n w : Nat) : Prop where
  lt : w < n
  continues : ∀ k < w, k < c * timeUpTo ys k
  ends : c * timeUpTo ys w ≤ w ∨ w + 1 = n

theorem stops_timeUpTo_iff {c : ℝ} {ys : List (List ℝ)} {n i : Nat} :
    Stops c ((List.range n).map (timeUpTo ys)) i ↔ i < n ∧ c * timeUpTo ys i ≤ i := by
  rw [Stops, List.getElem?_map]
  by_cases hi : i < n <;> simp [hi]

/-- The time of walkers is the one summed up to the lag where the search ends. -/
theorem exists_windowAt (c : ℝ) {n : Nat} (hn : n ≠ 0) {ys : List (List ℝ)} (hys : ys ≠ [])
    (hlength : ∀ y ∈ ys, y.length = n) :
    ∃ w, WindowAt c ys n w ∧ walkerTime? c ys = some (timeUpTo ys w) := by
  have hne : (List.range n).map (timeUpTo ys) ≠ [] := by simpa using hn
  obtain ⟨w, hwindow, hw, hfirst, hlast⟩ := exists_window c hne
  rw [List.length_map, List.length_range] at hw hlast
  refine ⟨w, ⟨hw, fun k hk => ?_, ?_⟩, ?_⟩
  · by_contra hle
    have hstops := stops_timeUpTo_iff.mpr ⟨hk.trans hw, not_lt.mp hle⟩
    exact absurd ((hfirst ⟨k, hstops⟩).2 hstops) (Nat.not_le.mpr hk)
  · by_cases h : ∃ i, Stops c ((List.range n).map (timeUpTo ys)) i
    · exact .inl (stops_timeUpTo_iff.mp (hfirst h).1).2
    · have hw := hlast h
      exact .inr (by omega)
  · rw [walkerTime?, walkerTimes?_eq_timeUpTo hn hlength hys, Option.bind_some, timeAtWindow?,
      hwindow, Int.toNat_natCast, List.getElem?_map, List.getElem?_range hw]
    rfl

namespace WindowAt

variable {c : ℝ} {ys : List (List ℝ)} {n w : Nat} (hc : 0 < c) (hw : WindowAt c ys n w)

include hc hw

/-- The time is positive unless the search arrives at a lag where what is summed up is not. -/
theorem pos_iff : 0 < timeUpTo ys w ↔
    ¬ ∃ k < n, timeUpTo ys k ≤ 0 ∧ ∀ j < k, j < c * timeUpTo ys j := by
  constructor
  · rintro hpos ⟨k, hk, hnonpos, hbefore⟩
    rcases lt_trichotomy w k with hlt | rfl | hgt
    · -- the search goes on at `w`, and there are lags left
      rcases hw.ends with hstops | hlast
      · exact absurd (hbefore w hlt) hstops.not_gt
      · omega
    · exact absurd hpos hnonpos.not_gt
    · have hgoes := hw.continues k hgt
      have hle : c * timeUpTo ys k ≤ 0 := mul_nonpos_of_nonneg_of_nonpos hc.le hnonpos
      exact absurd (hgoes.trans_le hle) (Nat.cast_nonneg k).not_gt
  · intro h
    by_contra hnonpos
    exact h ⟨w, hw.lt, not_lt.mp hnonpos, hw.continues⟩

/-- One lag before its end the search goes on, so that the time there is large. -/
theorem before_end_lt {k : Nat} (hk : w = k + 1) : k / c < timeUpTo ys k :=
  (div_lt_iff₀' hc).mpr (hw.continues k (by omega))

variable (hys : ys ≠ []) (hne : ∀ y ∈ ys, y ≠ [])

include hys hne

/-- The last correlation takes away no more than two. -/
theorem lower_bound : ((w : ℝ) - 1) / c - 2 < timeUpTo ys w := by
  cases hk : w with
  | zero =>
    have hneg : ((0 : Nat) - 1 : ℝ) / c < 0 := div_neg_of_neg_of_pos (by norm_num) hc
    rw [timeUpTo_zero hys hne]
    linarith
  | succ k =>
    have hbefore := hw.before_end_lt hc hk
    have hlower := (averagedCorrelation_mem_bounds hys hne (k + 1)).1
    rw [timeUpTo_succ, Nat.cast_succ, add_sub_cancel_right]
    linarith

/-- Correlations that are not too negative leave the time positive. -/
theorem pos_of_forall_le (hfirst : 1 < n → -1 / 2 < averagedCorrelation ys 1)
    (hrest : ∀ k < n, 2 ≤ k → -((k : ℝ) - 1) / (2 * c) ≤ averagedCorrelation ys k) :
    0 < timeUpTo ys w := by
  rcases hk : w with _ | _ | k
  · rw [timeUpTo_zero hys hne]
    exact one_pos
  · have hlt := hfirst (by have := hw.lt; omega)
    rw [timeUpTo_succ, timeUpTo_zero hys hne]
    linarith
  · have hbefore := hw.before_end_lt hc hk
    have hlower := hrest (k + 2) (by have := hw.lt; omega) (by omega)
    have hhalf : 2 * (-(((k + 2 : Nat) : ℝ) - 1) / (2 * c)) = -((k + 1 : Nat) / c) := by
      push_cast
      field_simp
      ring
    rw [timeUpTo_succ]
    linarith

end WindowAt

/-! ## All coordinates -/

section

variable {walkers dims d : Nat} {steps : List (List (List ℝ))}

/-- The steps of walkers in so many dimensions. -/
def IsTrajectory (walkers dims : Nat) (steps : List (List (List ℝ))) : Prop :=
  ∀ s ∈ steps, s.length = walkers ∧ ∀ x ∈ s, x.length = dims

theorem length_of_mem_coordinateSeries (hsteps : IsTrajectory walkers dims steps) (hd : d < dims) :
    ∀ y ∈ coordinateSeries walkers d steps, y.length = steps.length := by
  refine List.forall_mem_map.mpr fun i hi => ?_
  rw [List.mem_range] at hi
  refine List.filterMap_length_eq_length.mpr fun s hs => ?_
  obtain ⟨hlength, hrows⟩ := hsteps s hs
  have hi' : i < s.length := hlength ▸ hi
  have hd' : d < s[i].length := (hrows _ (List.getElem_mem hi')).symm ▸ hd
  simp [hi', hd']

theorem coordinateSeries_ne_nil (hwalkers : walkers ≠ 0) :
    coordinateSeries walkers d steps ≠ [] := by
  simpa [coordinateSeries] using hwalkers

end

/-- The averaged correlation of a single walker is its own. -/
theorem averagedCorrelation_singleton {y : List ℝ} {k : Nat} (hk : k < y.length)
    (hstuck : ¬ Stuck y) :
    averagedCorrelation [y] k = lagSum (deviations y) k / lagSum (deviations y) 0 := by
  have hy : y ≠ [] := List.ne_nil_of_length_pos (Nat.zero_lt_of_lt hk)
  simp [averagedCorrelation, column, average, correlations_of_not_stuck hy hstuck, hk]

/-- A walker that alternates: the correlation at lag one is `-3/4`, and there the search ends. -/
theorem integratedTimes?_alternating :
    integratedTimes? 5 1 1 [[[0]], [[1]], [[0]], [[(1 : ℝ)]]] = some [-1 / 2] := by
  have hstuck : ¬ Stuck [0, 1, 0, 1] := fun h => zero_ne_one (h 0 (by simp) 1 (by simp))
  have hdeviations : deviations [0, 1, 0, 1] = [-1 / 2, 1 / 2, -1 / 2, 1 / 2] := by
    norm_num [deviations]
  have hcorrelation : averagedCorrelation [[0, 1, 0, 1]] 1 = -3 / 4 := by
    rw [averagedCorrelation_singleton (by simp) hstuck, hdeviations]
    norm_num [lagSum, valueAt, Finset.sum_range_succ]
  have hzero : timeUpTo [[0, 1, 0, 1]] 0 = 1 := timeUpTo_zero (by simp) (by simp)
  have hone : timeUpTo [[0, 1, 0, 1]] 1 = -1 / 2 := by
    rw [timeUpTo_succ, hzero, hcorrelation]
    norm_num
  have hlength : ∀ y ∈ [[0, 1, 0, (1 : ℝ)]], y.length = 4 := by simp
  obtain ⟨w, hw, htime⟩ := exists_windowAt 5 four_ne_zero (List.cons_ne_nil _ _) hlength
  have hend : w = 1 := by
    rcases Nat.lt_trichotomy w 1 with hlt | rfl | hgt
    · have hends := hw.ends
      rw [Nat.lt_one_iff.mp hlt, hzero] at hends
      norm_num at hends
    · rfl
    · have hcontinues := hw.continues 1 hgt
      rw [hone] at hcontinues
      norm_num at hcontinues
  rw [hend, hone] at htime
  have hseries : coordinateSeries 1 0 [[[0]], [[1]], [[0]], [[(1 : ℝ)]]] = [[0, 1, 0, 1]] := rfl
  have hall : ∀ d ∈ List.range 1,
      walkerTime? 5 (coordinateSeries 1 d [[[0]], [[1]], [[0]], [[(1 : ℝ)]]]) = some (-1 / 2) := by
    intro d hd
    rw [Nat.lt_one_iff.mp (List.mem_range.mp hd), hseries, htime]
  exact mapM_eq_some_map hall

/-- **When a time is positive.**  Let there be walkers with at least one step, and a factor `c` of
at least one.  There is a time for every coordinate; with `ys` the sequences of the coordinate, it
is one of the times summed up, at the lag `w` where the search for a window ends.

It is positive just if the search does not arrive at a lag where the time summed up is zero or
less.  So it is if the averaged correlation is above `-1/2` at lag one and at least
`-(k - 1) / (2 * c)` at every further lag `k`, in particular if it is nowhere negative.  In any
case it is above `(w - 1) / c - 2`. -/
theorem integratedTimes?_pos_iff {c : ℝ} (hc : 1 ≤ c) {walkers dims : Nat}
    {steps : List (List (List ℝ))} (hne : steps ≠ []) (hwalkers : walkers ≠ 0)
    (hsteps : IsTrajectory walkers dims steps) :
    ∃ ts, integratedTimes? c walkers dims steps = some ts ∧ ts.length = dims ∧
      ∀ (d : Nat) (t : ℝ), ts[d]? = some t →
        let ys := coordinateSeries walkers d steps
        walkerTimes? ys = some ((List.range steps.length).map (timeUpTo ys)) ∧
        (∃ w, WindowAt c ys steps.length w ∧ t = timeUpTo ys w ∧ ((w : ℝ) - 1) / c - 2 < t) ∧
        (0 < t ↔ ¬ ∃ k < steps.length, timeUpTo ys k ≤ 0 ∧ ∀ j < k, j < c * timeUpTo ys j) ∧
        ((1 < steps.length → -1 / 2 < averagedCorrelation ys 1) →
          (∀ k < steps.length, 2 ≤ k → -((k : ℝ) - 1) / (2 * c) ≤ averagedCorrelation ys k) →
            0 < t) := by
  have hpos : 0 < c := one_pos.trans_le hc
  have hlength : steps.length ≠ 0 := mt List.length_eq_zero_iff.mp hne
  have hseries : ∀ d < dims, ∃ w, WindowAt c (coordinateSeries walkers d steps) steps.length w ∧
      walkerTime? c (coordinateSeries walkers d steps) =
        some (timeUpTo (coordinateSeries walkers d steps) w) :=
    fun d hd => exists_windowAt c hlength (coordinateSeries_ne_nil hwalkers)
      (length_of_mem_coordinateSeries hsteps hd)
  choose! w hw htime using hseries
  refine ⟨(List.range dims).map fun d => timeUpTo (coordinateSeries walkers d steps) (w d),
    mapM_eq_some_map fun d hd => htime d (List.mem_range.mp hd), by simp, fun d t ht => ?_⟩
  intro ys
  obtain ⟨hd, rfl⟩ := List.getElem?_eq_some_iff.mp ht
  rw [List.length_map, List.length_range] at hd
  rw [List.getElem_map, List.getElem_range]
  have hys : ys ≠ [] := coordinateSeries_ne_nil hwalkers
  have hrows := length_of_mem_coordinateSeries hsteps hd
  have hrows' := ne_nil_of_length_eq hlength hrows
  exact ⟨walkerTimes?_eq_timeUpTo hlength hrows hys,
    ⟨w d, hw d hd, rfl, (hw d hd).lower_bound hpos hys hrows'⟩, (hw d hd).pos_iff hpos,
    (hw d hd).pos_of_forall_le hpos hys hrows'⟩

/-- A walker that moves on by one with every step. -/
theorem integratedTimes?_pos_iff_moving :
    ∃ ts, integratedTimes? 5 1 1 [[[0]], [[1]], [[(2 : ℝ)]]] = some ts ∧ ts.length = 1 ∧
      ∀ (d : Nat) (t : ℝ), ts[d]? = some t →
        let ys := coordinateSeries 1 d [[[0]], [[1]], [[(2 : ℝ)]]]
        walkerTimes? ys = some ((List.range 3).map (timeUpTo ys)) ∧
        (∃ w, WindowAt 5 ys 3 w ∧ t = timeUpTo ys w ∧ ((w : ℝ) - 1) / 5 - 2 < t) ∧
        (0 < t ↔ ¬ ∃ k < 3, timeUpTo ys k ≤ 0 ∧ ∀ j < k, j < 5 * timeUpTo ys j) ∧
        ((1 < 3 → -1 / 2 < averagedCorrelation ys 1) →
          (∀ k : Nat, k < 3 → 2 ≤ k → -((k : ℝ) - 1) / (2 * 5) ≤ averagedCorrelation ys k) → 0 < t) :=
  integratedTimes?_pos_iff (c := 5) (by norm_num) (List.cons_ne_nil _ _) one_ne_zero
    (show IsTrajectory 1 1 [[[0]], [[1]], [[2]]] by simp [IsTrajectory])

end EnsembleSampling.Autocorrelation
