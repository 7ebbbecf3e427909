import EnsembleSampling.Proofs.Chain.Parts
import EnsembleSampling.Proofs.Sweep.Carried
set_option autoImplicit false

/-!
# Chains in other units, with the walkers in another order

The summary of a chain over the real numbers follows a change of the units of its coordinates,
and does not depend on the order of its walkers (`Chain.summary_reexpressed`).  A chain that is
expressed in another way has the same parts as before, up to their order and the units of their
entries: the columns of the sample (`Chain.column_sample_reexpressed_perm`) and the sequences of
the walkers (`Chain.series_reexpressed`).
-/

namespace EnsembleSampling

variable {α β : Type}

/-! ## Other units, and another order -/

/-- The row of coordinates in other units, which each place has of its own. -/
def rescaledRow (a b : Nat → ℝ) (row : List ℝ) : List ℝ := row.mapIdx fun k x => a k * x + b k

/-- The point in other units. -/
def Point.rescaled (a b : Nat → ℝ) (p : Point ℝ) : Point ℝ := ⟨rescaledRow a b p.coords⟩

/-- The ensemble with its walkers in another order, at their positions in other units. -/
def Ensemble.reexpressed (a b : Nat → ℝ) (order : List Nat) (e : Ensemble (Point ℝ) β) :
    Ensemble (Point ℝ) β :=
  ⟨e.dims, (order.filterMap (e.walkers[·]?)).map (Walker.mapPosition (Point.rescaled a b))⟩

/-- The chain with the walkers in another order in all sweeps, and in other units. -/
def Chain.reexpressed (a b : Nat → ℝ) (order : List Nat) (c : Chain (Point ℝ) β) :
    Chain (Point ℝ) β :=
  { c with recorded := c.recorded.map (Ensemble.reexpressed a b order) }

theorem column_map_rescaledRow (a b : Nat → ℝ) {n k : Nat} (hk : k < n) {rows : List (List ℝ)}
    (hrows : ∀ row ∈ rows, row.length = n) :
    column k (rows.map (rescaledRow a b)) = (column k rows).map fun x => a k * x + b k := by
  rw [column, column, List.map_map, List.map_map]
  refine List.map_congr_left fun row hrow => ?_
  have hrow' : k < row.length := hrows row hrow ▸ hk
  simp [rescaledRow, hrow']

section Order

variable {γ : Type} {order : List Nat} {xs : List γ}

/-- Members of a list that are looked up in another order. -/
theorem filterMap_order_perm (h : order.Perm (List.range xs.length)) :
    (order.filterMap (xs[·]?)).Perm xs := by
  have hperm := h.filterMap (xs[·]?)
  rwa [Slice.filterMap_range_getElem?] at hperm

theorem getElem?_filterMap_order (h : ∀ i ∈ order, i < xs.length) (w : Nat) :
    (order.filterMap (xs[·]?))[w]? = (order[w]?).bind (xs[·]?) := by
  induction order generalizing w with
  | nil => rfl
  | cons i order ih =>
    rw [List.forall_mem_cons] at h
    rw [List.filterMap_cons_some (List.getElem?_eq_getElem h.1)]
    cases w with
    | zero => simp [h.1]
    | succ w => simpa using ih h.2 w

end Order

namespace Ensemble

variable (a b : Nat → ℝ) {order : List Nat} {e : Ensemble (Point ℝ) β} {n d : Nat}

theorem positions_reexpressed : (e.reexpressed a b order).positions =
    (order.filterMap (e.positions[·]?)).map (Point.rescaled a b) := by
  have hlookup : (fun i => e.positions[i]?) = fun i => (e.walkers[i]?).map Walker.position :=
    funext fun i => List.getElem?_map
  rw [positions, reexpressed, hlookup, ← List.map_filterMap, List.map_map, List.map_map]
  rfl

variable (he : e.Shaped n d) (horder : order.Perm (List.range n))

include he horder

theorem coordinate_reexpressed {w k : Nat} (hw : w < n) (hk : k < d) :
    (e.reexpressed a b order).coordinate w k =
      a k * e.coordinate (order.getD w 0) k + b k := by
  have hbelow : ∀ i ∈ order, i < e.positions.length := fun i hi => by
    rw [he.positions]
    exact List.mem_range.mp (horder.mem_iff.mp hi)
  have hlength : w < order.length := by rwa [horder.length_eq, List.length_range]
  have hplace : order[w]? = some (order.getD w 0) := by simp [hlength]
  have hmem : order.getD w 0 < n := he.positions ▸ hbelow _ (List.mem_of_getElem? hplace)
  obtain ⟨p, hp, hx⟩ := Option.bind_eq_some_iff.mp (he.lookup hmem hk)
  rw [coordinate, positions_reexpressed, List.getElem?_map, getElem?_filterMap_order hbelow,
    hplace, Option.bind_some, hp, Option.map_some, Option.bind_some]
  simp [Point.rescaled, rescaledRow, hx]

theorem positions_reexpressed_perm :
    ((e.reexpressed a b order).positions.map Point.coords).Perm
      ((e.positions.map Point.coords).map (rescaledRow a b)) := by
  have hperm : (order.filterMap (e.positions[·]?)).Perm e.positions :=
    filterMap_order_perm (by rwa [he.positions])
  rw [positions_reexpressed, List.map_map, List.map_map]
  exact hperm.map _

theorem acceptProbs_reexpressed_perm :
    (e.reexpressed a b order).acceptProbs.Perm e.acceptProbs := by
  have hwalkers : e.walkers.length = n := by rw [← he.positions, length_positions]; rfl
  have hperm : (order.filterMap (e.walkers[·]?)).Perm e.walkers :=
    filterMap_order_perm (by rwa [hwalkers])
  rw [acceptProbs, reexpressed, List.map_map]
  exact hperm.map _

theorem shaped_reexpressed : (e.reexpressed a b order).Shaped n d := by
  have hpositions := (positions_reexpressed_perm a b he horder).length_eq
  simp only [List.length_map] at hpositions
  have hsize : (e.reexpressed a b order).walkers.length = n := by
    rw [← he.positions, ← hpositions, length_positions]
    rfl
  refine ⟨hpositions.trans he.positions, he.dims, fun x hx => ?_, ?_, ?_⟩
  · rw [positions_reexpressed] at hx
    obtain ⟨y, hy, rfl⟩ := List.mem_map.mp hx
    obtain ⟨i, -, hi⟩ := List.mem_filterMap.mp hy
    rw [← he.rows y (List.mem_of_getElem? hi), Point.dim, Point.dim, Point.rescaled, rescaledRow,
      List.length_mapIdx]
  · rw [logProbs, List.length_map, hsize]
  · rw [acceptProbs, List.length_map, hsize]

end Ensemble

namespace Chain

section

variable (a b : Nat → ℝ) {order : List Nat}

theorem retained_reexpressed (c : Chain (Point ℝ) β) (s : Slice) :
    (c.reexpressed a b order).retained s =
      (c.retained s).map (Ensemble.reexpressed a b order) := by
  rw [retained, retained, ← Slice.select_map, sweeps, sweeps, reexpressed, List.map_reverse]

variable {c : Chain (Point ℝ) β} (hc : c.Regular) (horder : order.Perm (List.range c.size))

include hc horder

theorem regular_reexpressed : (c.reexpressed a b order).Regular := by
  refine ⟨hc.walkers, hc.dims, fun e he => ?_⟩
  rw [sweeps, reexpressed, ← List.map_reverse] at he
  obtain ⟨e, hmem, rfl⟩ := List.mem_map.mp he
  exact Ensemble.shaped_reexpressed a b (hc.sweeps e hmem) horder

theorem sample_reexpressed_perm (s : Slice) :
    ((c.reexpressed a b order).sample s).Perm ((c.sample s).map (rescaledRow a b)) := by
  rw [sample, sample, positions, positions, retained_reexpressed, List.map_map, List.flatMap_map,
    List.flatMap_map, List.map_flatMap]
  exact List.Perm.flatMap_left _ fun e he =>
    Ensemble.positions_reexpressed_perm a b (hc.shaped_of_mem_retained he) horder

theorem column_sample_reexpressed_perm (s : Slice) {k : Nat} (hk : k < c.dims) :
    (column k ((c.reexpressed a b order).sample s)).Perm
      ((column k (c.sample s)).map fun x => a k * x + b k) := by
  rw [← column_map_rescaledRow a b hk hc.length_of_mem_sample]
  exact column_perm (sample_reexpressed_perm a b hc horder s) k

theorem average_reexpressed {s : Slice} (hs : c.retained s ≠ []) {k : Nat} (hk : k < c.dims) :
    average (column k ((c.reexpressed a b order).sample s)) =
      a k * average (column k (c.sample s)) + b k := by
  rw [average_perm (column_sample_reexpressed_perm a b hc horder s hk),
    average_map_affine _ _ (column_ne_nil (hc.sample_ne_nil hs) k)]

theorem deviation_reexpressed (s : Slice) {k : Nat} (hk : k < c.dims) :
    deviation (column k ((c.reexpressed a b order).sample s)) =
      |a k| * deviation (column k (c.sample s)) := by
  rw [deviation_perm (column_sample_reexpressed_perm a b hc horder s hk), deviation_map_affine]

theorem series_reexpressed (first : Option Int) {w k : Nat} (hw : w < c.size) (hk : k < c.dims) :
    (c.reexpressed a b order).series first w k =
      (c.series first (order.getD w 0) k).map fun x => a k * x + b k := by
  rw [series, series, retained_reexpressed, List.map_map, List.map_map]
  exact List.map_congr_left fun e he =>
    Ensemble.coordinate_reexpressed a b (hc.shaped_of_mem_retained he) horder hw hk

/-- The autocorrelation times stay the same. -/
theorem time_reexpressed (factor : ℝ) {first : Option Int}
    (hfirst : c.retained (.startingAt first) ≠ []) {k : Nat} (hk : k < c.dims) (ha : a k ≠ 0) :
    (c.reexpressed a b order).time factor first k = c.time factor first k := by
  have hlength : (c.retained (.startingAt first)).length ≠ 0 :=
    mt List.length_eq_zero_iff.mp hfirst
  have hplaces : (List.range c.size).map (order.getD · 0) = order :=
    List.ext_getElem (by simp [horder.length_eq]) fun i _ hi => by simp [hi]
  have hcorrelations : ((List.range c.size).map fun w =>
      (c.reexpressed a b order).series first w k).map Autocorrelation.correlations =
        order.map fun v => Autocorrelation.correlations (c.series first v k) := by
    rw [← hplaces, List.map_map, List.map_map]
    refine List.map_congr_left fun w hw => ?_
    simp only [Function.comp_apply, hplaces]
    rw [series_reexpressed a b hc horder first (List.mem_range.mp hw) hk,
      Autocorrelation.correlations_rescaled ha]
  refine congrArg (Option.getD · 0) (Autocorrelation.walkerTime?_congr factor hlength ?_ ?_ ?_)
  · refine List.forall_mem_map.mpr fun w _ => ?_
    rw [series, List.length_map, retained_reexpressed, List.length_map]
  · exact List.forall_mem_map.mpr fun w _ => List.length_map _
  · have hsize : (c.reexpressed a b order).size = c.size := rfl
    rw [hsize, hcorrelations, List.map_map]
    exact horder.map _

end

theorem meanAcceptance_reexpressed (a b : Nat → ℝ) {order : List Nat} {c : Chain (Point ℝ) ℝ}
    (hc : c.Regular) (horder : order.Perm (List.range c.size)) (first : Option Int) :
    (c.reexpressed a b order).meanAcceptance first = c.meanAcceptance first := by
  have hperm : ((c.reexpressed a b order).acceptProbs (.startingAt first)).flatten.Perm
      (c.acceptProbs (.startingAt first)).flatten := by
    rw [acceptProbs, acceptProbs, retained_reexpressed, List.map_map, ← List.flatMap_def,
      ← List.flatMap_def]
    exact List.Perm.flatMap_left _ fun e he =>
      Ensemble.acceptProbs_reexpressed_perm a b (hc.shaped_of_mem_retained he) horder
  rw [meanAcceptance, meanAcceptance]
  simp only [mean_eq_average, average_perm hperm, hperm.isEmpty_eq]

/-! ## One dimension -/

/-- The coordinates of one dimension, by sweep and walker, from a given sweep on. -/
def dimension (c : Chain (Point α) β) (first : Option Int) (k : Nat) : List (List (Option α)) :=
  (c.retained (.startingAt first)).map fun e => e.positions.map fun x => x.coords[k]?

theorem series_eq_dimension [Zero α] (c : Chain (Point α) β) (first : Option Int) (w k : Nat) :
    c.series first w k = (c.dimension first k).map fun xs => ((xs[w]?).getD none).getD 0 := by
  rw [series, dimension, List.map_map]
  refine List.map_congr_left fun e _ => ?_
  simp only [Ensemble.coordinate, Function.comp_apply, List.getElem?_map]
  cases e.positions[w]? <;> rfl

/-- The time of a dimension is decided by the coordinates of that dimension. -/
theorem time_congr {c c' : Chain (Point ℝ) β} (hc : c.Regular) (hc' : c'.Regular)
    {first first' : Option Int} {k k' : Nat} (hfirst : c.retained (.startingAt first) ≠ [])
    (h : c.dimension first k = c'.dimension first' k') (factor : ℝ) :
    c.time factor first k = c'.time factor first' k' := by
  have hsize : c.size = c'.size := by
    obtain ⟨e, rest, he⟩ := List.exists_cons_of_ne_nil hfirst
    have hmem : (e.positions.map fun x => x.coords[k]?) ∈ c'.dimension first' k' := by
      rw [← h, dimension, he, List.map_cons]
      exact List.mem_cons_self
    obtain ⟨e', he', hrow⟩ := List.mem_map.mp hmem
    have hshaped : e.Shaped c.size c.dims :=
      hc.shaped_of_mem_retained (he ▸ List.mem_cons_self : e ∈ c.retained (.startingAt first))
    have hlength := congrArg List.length hrow
    rw [List.length_map, List.length_map, (hc'.shaped_of_mem_retained he').positions,
      hshaped.positions] at hlength
    exact hlength.symm
  simp only [time, series_eq_dimension, h, hsize]

/-! ## Summaries -/

theorem mapIdx_map_range {γ δ : Type} (n : Nat) (f : Nat → γ) (g : Nat → γ → δ) :
    ((List.range n).map f).mapIdx g = (List.range n).map fun k => g k (f k) :=
  List.ext_getElem (by simp) fun k _ _ => by simp

/-- **A summary follows the units, and not the order of the walkers.**  Let a forward slice
select at least one sweep of a chain over the real numbers.  Then the chain has a summary, with a
mean, a standard deviation and an autocorrelation time for every dimension.

With the walkers of all sweeps in any other order, and each dimension `k` in units in which `x`
is `a k * x + b k`, where `a k` is not zero, the means are expressed in the new units, the standard
deviations are multiplied by the sizes of the units, and the acceptance and the times stay as they
are.

The time of a dimension is decided by the coordinates of that dimension from the start of the
slice on: any other chain, slice and dimension with the same coordinates has the same time. -/
theorem summary_reexpressed {c : Chain (Point ℝ) ℝ} (hc : c.Regular) {s : Slice}
    (hstride : 1 ≤ s.stride) (hs : c.retained s ≠ []) :
    ∃ r, c.summary s = .ok r ∧ r.mean.length = c.dims ∧ r.deviation.length = c.dims ∧
      r.times.length = c.dims ∧
      (∀ (a b : Nat → ℝ) (order : List Nat), (∀ k < c.dims, a k ≠ 0) →
        order.Perm (List.range c.size) →
        (c.reexpressed a b order).summary s = .ok {
          mean := r.mean.mapIdx fun k m => a k * m + b k
          deviation := r.deviation.mapIdx fun k d => |a k| * d
          acceptance := r.acceptance
          times := r.times }) ∧
      ∀ (c' : Chain (Point ℝ) ℝ) (s' : Slice), c'.Regular → 1 ≤ s'.stride →
        ∀ k k', k < c.dims → k' < c'.dims →
          c.dimension s.start k = c'.dimension s'.start k' →
          ∃ r', c'.summary s' = .ok r' ∧ r.times[k]? = r'.times[k']? := by
  have hfirst := retained_startingAt_ne_nil hstride hs
  refine ⟨_, summary_eq hc hs hfirst, ?_, ?_, ?_, ?_, ?_⟩
  · rw [List.length_map, List.length_range]
  · rw [List.length_map, List.length_range]
  · rw [List.length_map, List.length_range]
  · intro a b order ha horder
    have hne : (c.reexpressed a b order).retained s ≠ [] := by
      rw [retained_reexpressed]
      exact fun h => hs (List.map_eq_nil_iff.mp h)
    have hmean : ∀ k ∈ List.range c.dims, average (column k ((c.reexpressed a b order).sample s)) =
        a k * average (column k (c.sample s)) + b k :=
      fun k hk => average_reexpressed a b hc horder hs (List.mem_range.mp hk)
    have hdeviation : ∀ k ∈ List.range c.dims,
        deviation (column k ((c.reexpressed a b order).sample s)) =
          |a k| * deviation (column k (c.sample s)) :=
      fun k hk => deviation_reexpressed a b hc horder s (List.mem_range.mp hk)
    have htime : ∀ k ∈ List.range c.dims,
        (c.reexpressed a b order).time summaryFactor s.start k = c.time summaryFactor s.start k :=
      fun k hk => time_reexpressed a b hc horder summaryFactor hfirst (List.mem_range.mp hk)
        (ha k (List.mem_range.mp hk))
    have hdims : (c.reexpressed a b order).dims = c.dims := rfl
    rw [summary_eq (regular_reexpressed a b hc horder) hne (retained_startingAt_ne_nil hstride hne),
      hdims, meanAcceptance_reexpressed a b hc horder, List.map_congr_left hmean,
      List.map_congr_left hdeviation, List.map_congr_left htime, mapIdx_map_range,
      mapIdx_map_range]
  · intro c' s' hc' hstride' k k' hk hk' h
    have hfirst' : c'.retained (.startingAt s'.start) ≠ [] := by
      intro hnone
      rw [dimension, dimension, hnone, List.map_nil] at h
      exact hfirst (List.map_eq_nil_iff.mp h)
    have hs' : c'.retained s' ≠ [] := by
      intro hnone
      rw [retained_startingAt] at hfirst'
      exact hfirst' ((Slice.select_eq_nil_iff (by omega) s'.start c'.sweeps).mp hnone)
    refine ⟨_, summary_eq hc' hs' hfirst', ?_⟩
    simp [hk, hk', time_congr hc hc' hfirst h]

/-- Three walkers of the plane, recorded twice. -/
theorem summary_reexpressed_plane :
    let at3 : ℝ → ℝ → ℝ → Ensemble (Point ℝ) ℝ := fun x y z =>
      ⟨2, [⟨⟨[x, 0]⟩, 0, 1⟩, ⟨⟨[y, x]⟩, 0, 1 / 2⟩, ⟨⟨[z, x + y]⟩, 0, 1 / 4⟩]⟩
    let c : Chain (Point ℝ) ℝ := ⟨3, 2, [at3 1 2 4, at3 0 1 2]⟩
    let s : Slice := ⟨some 0, 1⟩
    let a : Nat → ℝ := fun k => if k = 0 then -2 else 3
    let b : Nat → ℝ := fun k => k
    let order := [2, 0, 1]
    c.Regular ∧ 1 ≤ s.stride ∧ c.retained s ≠ [] ∧ (∀ k < c.dims, a k ≠ 0) ∧
      order.Perm (List.range c.size) ∧
      ∃ r, c.summary s = .ok r ∧ r.times.length = 2 ∧
        (c.reexpressed a b order).summary s = .ok {
          mean := r.mean.mapIdx fun k m => a k * m + b k
          deviation := r.deviation.mapIdx fun k d => |a k| * d
          acceptance := r.acceptance
          times := r.times } := by
  intro at3 c s a b order
  have hc : c.Regular := by
    have hshaped : ∀ x y z, (at3 x y z).Shaped 3 2 := fun x y z =>
      ⟨rfl, rfl, by simp [at3, Ensemble.positions, Point.dim], rfl, rfl⟩
    refine ⟨by decide, by decide, fun e he => ?_⟩
    rcases List.mem_cons.mp (List.mem_reverse.mp he) with rfl | he
    · exact hshaped _ _ _
    · rw [List.mem_singleton.mp he]
      exact hshaped _ _ _
  have hstride : 1 ≤ s.stride := by decide
  have hs : c.retained s ≠ [] := by
    change c.retained (.startingAt (some 0)) ≠ []
    rw [retained_startingAt, Slice.skipped_zero, List.drop_zero]
    exact List.cons_ne_nil _ _
  have ha : ∀ k < c.dims, a k ≠ 0 := fun k _ => by
    simp only [a]
    split <;> norm_num
  have horder : order.Perm (List.range c.size) := by decide
  obtain ⟨r, hr, -, -, htimes, hreexpressed, -⟩ := summary_reexpressed hc hstride hs
  exact ⟨hc, hstride, hs, ha, horder, r, hr, htimes, hreexpressed a b order ha horder⟩

end Chain

end EnsembleSampling
