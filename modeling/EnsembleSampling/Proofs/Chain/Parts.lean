import EnsembleSampling.Proofs.Chain.Columns
import EnsembleSampling.Proofs.Chain.Discarded
import EnsembleSampling.Proofs.Sweep.Shape
set_option autoImplicit false

/-!
# The parts of a summary

A chain is regular if all its sweeps have its shape; chains are made that way, and remain so
(`Chain.regular_start`, `Chain.Regular.record`).  The summary of such a chain over the real numbers
is put together from lists of numbers (`Chain.summary_eq`): the columns of the sample, the
acceptance probabilities, and for every dimension the sequences of the walkers, from which the
autocorrelation time of that dimension comes (`Chain.time`).
-/

namespace EnsembleSampling

variable {V α β : Type}

/-! ## Coordinates -/

/-- The coordinate `k` of the walker `w`. -/
def Ensemble.coordinate [Zero α] (e : Ensemble (Point α) β) (w k : Nat) : α :=
  ((e.positions[w]?).bind (·.coords[k]?)).getD 0

theorem Ensemble.Shaped.lookup [Zero α] {n d w k : Nat} {e : Ensemble (Point α) β}
    (he : e.Shaped n d) (hw : w < n) (hk : k < d) :
    (e.positions[w]?).bind (·.coords[k]?) = some (e.coordinate w k) := by
  have hw' : w < e.positions.length := he.positions ▸ hw
  have hk' : k < e.positions[w].coords.length := by
    have hrow := he.rows _ (List.getElem_mem hw')
    rw [Point.dim] at hrow
    omega
  simp [coordinate, hw', hk']

namespace Chain

/-- A chain of enough walkers in some dimension, all of whose sweeps have its shape. -/
structure Regular (c : Chain (Point α) β) : Prop where
  walkers : minWalkers ≤ c.size
  dims : 0 < c.dims
  sweeps : ∀ e ∈ c.sweeps, e.Shaped c.size c.dims

/-- The coordinate `k` of the walker `w` in every sweep from a given one on. -/
def series [Zero α] (c : Chain (Point α) β) (first : Option Int) (w k : Nat) : List α :=
  (c.retained (.startingAt first)).map fun e => e.coordinate w k

/-- The coordinates of all walkers in the sweeps that a slice selects, one row for each. -/
def sample (c : Chain (Point α) β) (s : Slice) : List (List α) :=
  (c.positions s).flatMap fun xs => xs.map Point.coords

/-- A chain without sweeps is of this kind, and stays so while ensembles are recorded whose walkers
have as many coordinates as there are dimensions. -/
theorem regular_start {size dims : Nat} {c : Chain (Point α) β} (hc : start size dims = .ok c) :
    c.Regular := by
  obtain ⟨hsize, hdims⟩ := le_of_start_eq_ok hc
  rw [start_eq_ok hsize hdims] at hc
  obtain rfl : ⟨size, dims, []⟩ = c := Except.ok.inj hc
  exact ⟨hsize, hdims, by simp [sweeps]⟩

namespace Regular

variable {c : Chain (Point α) β} (hc : c.Regular)

include hc

theorem record {c' : Chain (Point α) β} {e : Ensemble (Point α) β}
    (hrows : ∀ x ∈ e.positions, x.dim = e.dims) (hrecord : c.record e = .ok c') : c'.Regular := by
  rw [Chain.record] at hrecord
  split at hrecord
  · rename_i hfits
    obtain rfl : { c with recorded := e :: c.recorded } = c' := Except.ok.inj hrecord
    refine ⟨hc.walkers, hc.dims, fun e' he' => ?_⟩
    rcases List.mem_cons.mp (List.mem_reverse.mp he') with rfl | he'
    · have hshaped := Ensemble.shaped_of_shape (rfl : e'.shape = e'.shape) hrows
      rwa [hfits.1, hfits.2] at hshaped
    · exact hc.sweeps e' (List.mem_reverse.mpr he')
  · cases hrecord

theorem shaped_of_mem_retained {s : Slice} {e : Ensemble (Point α) β} (he : e ∈ c.retained s) :
    e.Shaped c.size c.dims :=
  hc.sweeps e (Slice.mem_of_mem_select he)

theorem coordinateSeries_eq [Zero α] (first : Option Int) {k : Nat} (hk : k < c.dims) :
    Autocorrelation.coordinateSeries c.size k
        ((c.positions (.startingAt first)).map fun xs => xs.map Point.coords) =
      (List.range c.size).map fun w => c.series first w k := by
  refine List.map_congr_left fun w hw => ?_
  rw [List.mem_range] at hw
  rw [positions, List.map_map, List.filterMap_map]
  refine (List.filterMap_congr fun e he => ?_).trans (congrFun List.filterMap_eq_map' _)
  have hlookup := (hc.shaped_of_mem_retained he).lookup hw hk
  simpa [Option.bind_map, Function.comp_def] using hlookup

theorem length_of_mem_sample {s : Slice} : ∀ row ∈ c.sample s, row.length = c.dims := by
  intro row hrow
  obtain ⟨xs, hxs, hrow⟩ := List.mem_flatMap.mp hrow
  obtain ⟨e, he, rfl⟩ := List.mem_map.mp hxs
  obtain ⟨x, hx, rfl⟩ := List.mem_map.mp hrow
  exact (hc.shaped_of_mem_retained he).rows x hx

theorem sample_ne_nil {s : Slice} (hs : c.retained s ≠ []) : c.sample s ≠ [] := by
  obtain ⟨e, rest, hretained⟩ := List.exists_cons_of_ne_nil hs
  have hshaped : e.Shaped c.size c.dims :=
    hc.shaped_of_mem_retained (s := s) (by rw [hretained]; exact List.mem_cons_self)
  have hpositions : e.positions ≠ [] := by
    have hwalkers := hc.walkers
    rw [← hshaped.positions] at hwalkers
    exact List.length_pos_iff.mp (Nat.lt_of_lt_of_le (by decide) hwalkers)
  intro h
  rw [sample, positions, hretained, List.map_cons, List.flatMap_cons] at h
  exact hpositions (List.map_eq_nil_iff.mp (List.append_eq_nil_iff.mp h).1)

end Regular

/-! ## The parts of a summary -/

/-- The autocorrelation time of a dimension from a given sweep on. -/
noncomputable def time (factor : ℝ) (c : Chain (Point ℝ) β) (first : Option Int) (k : Nat) : ℝ :=
  (Autocorrelation.walkerTime? factor
    ((List.range c.size).map fun w => c.series first w k)).getD 0

theorem autocorrelationTimes_eq {c : Chain (Point ℝ) β} (hc : c.Regular) (factor : ℝ)
    {first : Option Int} (hfirst : c.retained (.startingAt first) ≠ []) :
    c.autocorrelationTimes factor first = .ok ((List.range c.dims).map (c.time factor first)) := by
  have hlength : (c.retained (.startingAt first)).length ≠ 0 :=
    mt List.length_eq_zero_iff.mp hfirst
  have hseries : ∀ k, ∀ y ∈ (List.range c.size).map fun w => c.series first w k,
      y.length = (c.retained (.startingAt first)).length :=
    fun k => List.forall_mem_map.mpr fun w _ => List.length_map _
  have hwalkers : ∀ k, ((List.range c.size).map fun w => c.series first w k) ≠ [] := by
    intro k h
    have hsize : c.size = 0 := by simpa using h
    exact absurd (hsize ▸ hc.walkers) (by decide)
  have htimes : Autocorrelation.integratedTimes? factor c.size c.dims
      ((c.positions (.startingAt first)).map fun xs => xs.map Point.coords) =
        some ((List.range c.dims).map (c.time factor first)) := by
    refine Autocorrelation.mapM_eq_some_map fun k hk => ?_
    obtain ⟨t, ht⟩ :=
      Autocorrelation.exists_walkerTime? factor hlength (hseries k) (hwalkers k)
    rw [hc.coordinateSeries_eq first (List.mem_range.mp hk), time, ht, Option.getD_some]
  rw [autocorrelationTimes, requireSweeps_of_ne_nil hfirst]
  simp only [htimes, bind, Except.bind, pure, Except.pure, Option.getD_some]

/-- What a summary is made of. -/
theorem summary_eq {c : Chain (Point ℝ) ℝ} (hc : c.Regular) {s : Slice}
    (hs : c.retained s ≠ []) (hfirst : c.retained (.startingAt s.start) ≠ []) :
    c.summary s = .ok {
      mean := (List.range c.dims).map fun k => average (column k (c.sample s))
      deviation := (List.range c.dims).map fun k => deviation (column k (c.sample s))
      acceptance := c.meanAcceptance s.start
      times := (List.range c.dims).map (c.time summaryFactor s.start) } := by
  have hsample : (c.positions s).flatMap (fun xs => xs.map Point.coords) = c.sample s := rfl
  simp only [summary, autocorrelationTimes_eq hc _ hfirst, hsample,
    columnMeans_eq (hc.sample_ne_nil hs) hc.length_of_mem_sample,
    columnDeviations_eq (hc.sample_ne_nil hs) hc.length_of_mem_sample]
  rfl

/-- A forward slice selects a sweep if there is one from its start on. -/
theorem retained_startingAt_ne_nil {c : Chain V β} {s : Slice} (hstride : 1 ≤ s.stride)
    (hs : c.retained s ≠ []) : c.retained (.startingAt s.start) ≠ [] := by
  rw [retained_startingAt]
  exact fun h => hs ((Slice.select_eq_nil_iff (by omega) s.start c.sweeps).mpr h)

end Chain

end EnsembleSampling
