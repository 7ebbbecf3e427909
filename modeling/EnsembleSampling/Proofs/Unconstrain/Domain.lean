import EnsembleSampling.Proofs.Unconstrain.Columns
import EnsembleSampling.Proofs.Unconstrain.Definite
import EnsembleSampling.Proofs.Unconstrain.Embedded
set_option autoImplicit false

/-!
# Factoring stays in its domain

While a matrix is factored nothing is checked but its variances and its pivots: what a column
has left is divided by and has its root taken, and the inverse of the hyperbolic tangent is taken
of the quotient.  For a positive definite matrix each of these is in the domain of its function
(`IsFactorOf.remaining_pos_and_abs_lt_one`).  On the exact scale, where leaving a domain gives an
infinity or no number, the factors are therefore those of real arithmetic
(`IsFactorOf.ofCovariance_map_real_eq`).
-/

namespace EnsembleSampling.Factor

open Extended (real)

/-! ## Above the diagonal -/

namespace IsFactorOf

variable {K : Nat} {rows triangle : List (List ℝ)} (h : IsFactorOf K rows triangle)

include h

/-- The entry at the place of `(i, j)` is read off the factor. -/
theorem getElem?_ofUpper {i j : Nat} (hij : i < j) (hj : j < K) :
    (ofUpper triangle)[place K i j]? = some (Real.artanh (upperEntry triangle i j /
      √(remaining (List.replicate K 0) triangle i j))) := by
  have hpartial := h.room.getElem?_partials hij (by rwa [List.length_replicate])
  rw [List.length_replicate] at hpartial
  rw [ofUpper, h.isTriangle.1, List.getElem?_map, hpartial]
  rfl

/-- Above the diagonal a column has something left, and the entry is less than the root of it. -/
theorem remaining_pos_and_abs_lt_one {i j : Nat} (hij : i < j) (hj : j < K) :
    0 < remaining (List.replicate K 0) triangle i j ∧
      |upperEntry triangle i j / √(remaining (List.replicate K 0) triangle i j)| < 1 := by
  have hjused : j < (List.replicate K (0 : ℝ)).length := by rwa [List.length_replicate]
  refine ⟨h.room.remaining_pos hij.le hjused, ?_⟩
  exact h.room.abs_partials_lt_one _ (List.mem_of_getElem? (h.room.getElem?_partials hij hjused))

end IsFactorOf

/-! ## Factors on the exact scale -/

/-- A matrix with positive variances and finite correlations that have a factor is taken apart. -/
theorem ofCovariance_of_cholesky {α : Type} [Zero α] [One α] [Add α] [Sub α] [Mul α] [Div α]
    [LE α] [DecidableLE α] [LT α] [DecidableLT α] [Elementary α] {rows triangle : List (List α)}
    {scales : List α} (hvariances : ∀ v ∈ diagonal rows, 0 < v)
    (hscales : (diagonal rows).map Elementary.sqrt = scales)
    (hfinite : ∀ row ∈ standardize rows scales, ∀ x ∈ row, Elementary.isFinite x = true)
    (hfactor : cholesky (upperTriangle (standardize rows scales)) = some triangle) :
    ofCovariance rows = .ok ⟨ofUpper triangle, scales.map Elementary.log⟩ := by
  subst hscales
  have hpositive : ((diagonal rows).all fun v => decide (0 < v)) = true := by
    simpa only [List.all_eq_true, decide_eq_true_eq] using hvariances
  have hall : ((standardize rows ((diagonal rows).map Elementary.sqrt)).all fun row =>
      row.all Elementary.isFinite) = true := by
    simpa only [List.all_eq_true] using hfinite
  unfold ofCovariance
  simp only [hpositive, hall, hfactor, if_true]

namespace IsFactorOf

variable {K : Nat} {rows triangle : List (List ℝ)} (h : IsFactorOf K rows triangle)

include h

theorem ofUpper_map_real :
    ofUpper (triangle.map (List.map real)) = (ofUpper triangle).map real := by
  rw [ofUpper, List.length_map, h.isTriangle.1, replicate_zero_real, h.room.partials_map_real, ofUpper,
    h.isTriangle.1, List.map_map, List.map_map]
  refine List.map_congr_left fun z hz => ?_
  obtain ⟨hlower, hupper⟩ := abs_lt.mp (h.room.abs_partials_lt_one z hz)
  exact Extended.atanh_real hlower hupper

/-- On the exact scale the factors are those of real arithmetic. -/
theorem ofCovariance_map_real_eq : ofCovariance (rows.map (List.map real)) =
    .ok ⟨(ofUpper triangle).map real, (((diagonal rows).map Real.sqrt).map Real.log).map real⟩ := by
  have hstandard : standardize (rows.map (List.map real))
        (((diagonal rows).map Real.sqrt).map real) =
      (standardize rows ((diagonal rows).map Real.sqrt)).map (List.map real) :=
    standardize_map_real fun s hs => (h.scales_pos s hs).ne'
  have hlogs : (((diagonal rows).map Real.sqrt).map real).map Elementary.log =
      (((diagonal rows).map Real.sqrt).map Real.log).map real := by
    rw [List.map_map, List.map_map (f := Real.log)]
    refine List.map_congr_left fun s hs => ?_
    exact Extended.log_real (h.scales_pos s hs)
  rw [← h.ofUpper_map_real, ← hlogs]
  refine ofCovariance_of_cholesky ?_ ?_ ?_ ?_
  · rw [diagonal_map]
    exact List.forall_mem_map.mpr fun v hv => Extended.real_lt_real.mpr (h.variances v hv)
  · rw [diagonal_map, List.map_map, List.map_map]
    exact List.map_congr_left fun v hv => Extended.sqrt_real (h.variances v hv).le
  · rw [hstandard]
    simp only [List.forall_mem_map]
    exact fun _ _ x _ => Extended.isFinite_real x
  · rw [hstandard, upperTriangle_map, cholesky_map_real, h.factor, Option.map_some]

end IsFactorOf

/-- **Factoring never leaves the domain of its functions.**  Let the symmetric matrix with the
upper triangle of a square be positive definite.

The variances are positive, the matrix divided by its scales has an upper factor `U`, and for
each entry above the diagonal what its column has left is positive, and the quotient of the entry
and the root of it is between minus one and one.  The partial correlation at the place of the entry
is the inverse hyperbolic tangent of that quotient.

Hence on the exact scale, which has infinities and a value that is no number, all partial
correlations and all logarithms of scales are real numbers. -/
theorem ofCovariance_in_domain {K : Nat} {rows : List (List ℝ)} (hrows : IsSquare K rows)
    (hdefinite : (mirrored K rows).PosDef) :
    ∃ (triangle : List (List ℝ)) (f : Factors ℝ),
      (∀ v ∈ diagonal rows, 0 < v) ∧
      cholesky (upperTriangle (standardize rows ((diagonal rows).map Real.sqrt))) =
        some triangle ∧
      ofCovariance rows = .ok f ∧
      (∀ i j, i < j → j < K →
        let acc := 1 - ∑ k ∈ Finset.range i, upperEntry triangle k j ^ 2
        0 < acc ∧ -1 < upperEntry triangle i j / √acc ∧ upperEntry triangle i j / √acc < 1 ∧
          f.partials[place K i j]? = some (Real.artanh (upperEntry triangle i j / √acc))) ∧
      f.partials.length = K * (K - 1) / 2 ∧ f.logScales.length = K ∧
      ofCovariance (rows.map (List.map real)) =
        .ok ⟨f.partials.map real, f.logScales.map real⟩ := by
  obtain ⟨triangle, h⟩ := exists_isFactorOf hrows hdefinite
  obtain ⟨hpartials, hscales⟩ := length_ofCovariance hrows h.ofCovariance_eq
  refine ⟨triangle, _, h.variances, h.factor, h.ofCovariance_eq, ?_, hpartials, hscales,
    h.ofCovariance_map_real_eq⟩
  intro i j hij hj acc
  have hacc : remaining (List.replicate K 0) triangle i j = acc := remaining_replicate triangle i hj
  obtain ⟨hleft, habs⟩ := h.remaining_pos_and_abs_lt_one hij hj
  have hpartial := h.getElem?_ofUpper hij hj
  rw [hacc] at hleft habs hpartial
  obtain ⟨hlower, hupper⟩ := abs_lt.mp habs
  exact ⟨hleft, hlower, hupper, hpartial⟩

/-- A matrix that is not symmetric: with its upper triangle mirrored it is positive definite. -/
theorem ofCovariance_in_domain_asymmetric :
    let rows : List (List ℝ) := [[4, 1], [0, 1]]
    IsSquare 2 rows ∧ (mirrored 2 rows).PosDef ∧
      ∃ f : Factors ℝ, ofCovariance rows = .ok f ∧ f.partials.length = 1 ∧
        ofCovariance (rows.map (List.map real)) =
          .ok ⟨f.partials.map real, f.logScales.map real⟩ := by
  intro rows
  have hsquare : IsSquare 2 rows := ⟨rfl, by simp [rows]⟩
  have hdefinite : (mirrored 2 rows).PosDef := by
    have hroot : √(4 : ℝ) = 2 := by
      rw [show (4 : ℝ) = 2 ^ 2 by norm_num]
      exact Real.sqrt_sq two_pos.le
    have hfactor : cholesky (upperTriangle rows) = some [[2, 1 / 2], [√(3 / 4)]] := by
      norm_num [rows, upperTriangle, cholesky, eliminate, Elementary.sqrt, hroot]
    exact posDef_of_cholesky hsquare hfactor
  obtain ⟨triangle, f, -, -, hf, -, hlength, -, hreal⟩ := ofCovariance_in_domain hsquare hdefinite
  exact ⟨hsquare, hdefinite, f, hf, hlength, hreal⟩

end EnsembleSampling.Factor
