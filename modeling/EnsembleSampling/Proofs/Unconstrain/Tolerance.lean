import EnsembleSampling.Proofs.Number.Summation
import EnsembleSampling.Proofs.Unconstrain.Conditioning
import EnsembleSampling.Proofs.Unconstrain.Passing
import EnsembleSampling.Proofs.Unconstrain.Reader
import Mathlib.Algebra.Order.Star.Real
set_option autoImplicit false

/-!
# What the tolerances let through

A simplex need not sum to one exactly, nor need a correlation matrix be symmetric with ones on its
diagonal.  What is written of either is that of a neighbour that is exactly so: the vector divided
by its sum (`softmax_logRatios`), the matrix divided by its scales (`IsFactorOf.correlationOf_eq`).
A reader gets the neighbour, and the checks keep it close: the entries of a simplex are at most its
sum, and correlations are at most one (`IsUpperFactor.abs_le_one`), so neither moves by more than
what its divisor is away from one.
-/

namespace EnsembleSampling

open Extended (real)

theorem Extended.blockSum_map_real (xs : List ℝ) : blockSum (xs.map real) = real xs.sum := by
  rw [blockSum_map real_zero fun x y => (real_add_real x y).symm, blockSum_eq_sum]

namespace Factor

/-! ## Correlations -/

/-- Correlations of a matrix with an upper factor are at most one. -/
theorem IsUpperFactor.abs_le_one {K : Nat} {R U : Nat → Nat → ℝ} (h : IsUpperFactor K R U)
    {i j : Nat} (hij : i ≤ j) (hj : j < K) : |R i j| ≤ 1 := by
  have hi : i < K := Nat.lt_of_le_of_lt hij hj
  have hcolumn : ∀ k < K, ∑ l ∈ Finset.range (k + 1), U l k ^ 2 = 1 := by
    intro k hk
    rw [← h.ones k hk, h.product k k le_rfl hk]
    exact Finset.sum_congr rfl fun l _ => pow_two _
  have hpart : ∑ l ∈ Finset.range (i + 1), U l j ^ 2 ≤ 1 := by
    rw [← hcolumn j hj]
    exact Finset.sum_le_sum_of_subset_of_nonneg
      (Finset.range_subset_range.mpr (Nat.succ_le_succ hij)) fun l _ _ => sq_nonneg _
  rw [← sq_le_one_iff_abs_le_one]
  calc R i j ^ 2
      = (∑ l ∈ Finset.range (i + 1), U l i * U l j) ^ 2 := by rw [h.product i j hij hj]
    _ ≤ (∑ l ∈ Finset.range (i + 1), U l i ^ 2) * ∑ l ∈ Finset.range (i + 1), U l j ^ 2 :=
        Finset.sum_mul_sq_le_sq_mul_sq _ _ _
    _ ≤ 1 := by rw [hcolumn i hi, one_mul]; exact hpart

/-! ## Rebuilding from an upper triangle -/

/-- What is rebuilt from the upper triangle of a square is the symmetric matrix with it. -/
theorem reflect_upperTriangle_eq {K : Nat} {rows : List (List ℝ)} (hrows : IsSquare K rows) :
    reflect (upperTriangle rows) = rowsOf (mirrored K rows) := by
  have hsquare := isSquare_rowsOf (mirrored K rows)
  have htriangle : upperTriangle rows = upperTriangle (rowsOf (mirrored K rows)) := by
    refine (isTriangle_upperTriangle hrows).ext (isTriangle_upperTriangle hsquare) ?_ ?_
    · rw [length_upperTriangle, length_upperTriangle, hrows.length, hsquare.length]
    · intro i j hij hj
      rw [length_upperTriangle, hrows.length] at hj
      have hi : i < K := Nat.lt_of_le_of_lt hij hj
      obtain ⟨x, hx⟩ := hrows.exists_entry hi hj
      rw [upperEntry_upperTriangle hrows hij, upperEntry_upperTriangle hsquare hij,
        entry_rowsOf _ ⟨i, hi⟩ ⟨j, hj⟩, mirrored_of_le (i := ⟨i, hi⟩) (j := ⟨j, hj⟩) hij hx, hx]
  rw [htriangle, reflect_upperTriangle hsquare (isSymmetric_rowsOf mirrored_comm)]

namespace IsFactorOf

variable {K : Nat} {rows triangle : List (List ℝ)} (h : IsFactorOf K rows triangle)

include h

/-- Divided by its scales, the symmetric matrix with the upper triangle of a square has the
correlations as its entries. -/
theorem mirrored_standardize_eq :
    mirrored K (standardize rows ((diagonal rows).map Real.sqrt)) =
      Matrix.of fun i j : Fin K => correlation rows i j := by
  have hlength := h.length_scales
  have hscale : ∀ k : Fin K, ((diagonal rows).map Real.sqrt)[k.val] = √(covariance rows k k) :=
    fun k => Option.some.inj ((List.getElem?_eq_getElem _).symm.trans (h.getElem?_scales k.isLt))
  ext i j
  rw [mirrored_standardize h.square hlength (map_sqrt_mul_self h.variances)
    fun s hs => (h.scales_pos s hs).ne', hscale, hscale]
  rfl

/-- A reader rebuilds the correlations of the symmetric matrix with the upper triangle of a
square. -/
theorem correlationOf_eq :
    correlationOf K (((ofUpper triangle).map real).map Extended.tanh) =
      (rowsOf (Matrix.of fun i j : Fin K => correlation rows i j)).map (List.map real) := by
  have hpartials : ((ofUpper triangle).map real).map Extended.tanh =
      (partials triangle (List.replicate K 0)).map real := by
    rw [← h.ofUpper_map_real, ofUpper, List.length_map, h.isTriangle.1, replicate_zero_real,
      h.room.partials_map_real, Unconstrain.map_tanh_atanh h.room.abs_partials_lt_one]
  have hfactor := h.room.ofPartials_map_real
  rw [List.length_replicate] at hfactor
  rw [hpartials, correlationOf, replicate_zero_real, hfactor, gram_map_real, reflect_map, h.gram_eq,
    reflect_upperTriangle_eq h.isSquare_standardize, h.mirrored_standardize_eq]

end IsFactorOf

theorem covariance_rowsOf {K : Nat} (M : Matrix (Fin K) (Fin K) ℝ) {i j : Fin K} (hij : i ≤ j) :
    covariance (rowsOf M) i j = M i j := by
  have hentry := entry_eq_covariance (isSquare_rowsOf M) (Fin.val_le_of_le hij) j.isLt
  rw [entry_rowsOf] at hentry
  exact (Option.some.inj hentry).symm

end Factor

namespace Unconstrain

open Factor (IsFactorOf IsUpperFactor rowsOf ofUpper correlationOf)

/-! ## What is accepted -/

/-- A vector that is accepted sums to one up to the tolerance, and is read back divided by its
sum. -/
theorem softmax_of_simplex_eq_ok {ys : List ℝ} {vs : List Extended}
    (h : (simplex ((Tensor.vector ys).map real) : Except (Refusal Exact Extended) _) = .ok vs)
    (hlast : ∀ last ∈ ys.getLast?, 0 < last) :
    (∀ y ∈ ys, 0 ≤ y) ∧ |1 - ys.sum| < tolerance ∧
      softmax (vs ++ [0]) = (ys.map (· / ys.sum)).map real := by
  have hsum : magnitude (1 - blockSum (ys.map real)) < tolerance :=
    (simplex_eq_ok_iff.mp h).2.2.1
  obtain ⟨-, hnonneg, rest, last, hentries, rfl⟩ := simplex_exact h
  obtain rfl : ys = rest ++ [last] := hentries
  refine ⟨hnonneg, ?_, ?_⟩
  · rwa [Extended.blockSum_map_real, ← Extended.real_one, Extended.real_sub_real, magnitude_real,
      magnitude_eq_abs, tolerance_real, Extended.real_lt_real] at hsum
  · rw [List.getLast?_concat] at hlast
    exact softmax_logRatios (fun x hx => hnonneg x (List.mem_append_left _ hx)) (hlast last rfl)

/-! ## How far it is moved -/

/-- What is at most its divisor moves by less than the divisor is away from one. -/
theorem abs_div_sub_self_lt {e s y : ℝ} (hs : |1 - s| < e) (hy : 0 ≤ y) (hle : y ≤ s)
    (hpos : 0 < s) : |y / s - y| < e := by
  have hmove : y / s - y = y / s * (1 - s) := by field_simp
  calc |y / s - y|
      = |y / s| * |1 - s| := by rw [hmove, abs_mul]
    _ ≤ 1 * |1 - s| := by
        gcongr
        rw [abs_of_nonneg (div_nonneg hy hpos.le)]
        exact div_le_one_of_le₀ hle hpos.le
    _ < e := by rwa [one_mul]

/-- What is at most one moves by less than twice the tolerance and its square when it is multiplied
by two scales. -/
theorem abs_sub_mul_scales_lt {e r s t : ℝ} (hr : |r| ≤ 1) (hs : |s - 1| < e) (ht : |t - 1| < e) :
    |r - r * (s * t)| < 2 * e + e ^ 2 := by
  have hmove : r - r * (s * t) = -(r * ((s - 1) + (t - 1) + (s - 1) * (t - 1))) := by ring
  calc |r - r * (s * t)|
      = |r| * |(s - 1) + (t - 1) + (s - 1) * (t - 1)| := by rw [hmove, abs_neg, abs_mul]
    _ ≤ 1 * |(s - 1) + (t - 1) + (s - 1) * (t - 1)| := by gcongr
    _ ≤ |s - 1| + |t - 1| + |s - 1| * |t - 1| := by
        rw [one_mul, ← abs_mul]
        exact abs_add_three _ _ _
    _ < e + e + e * e := by
        have hproduct : |s - 1| * |t - 1| ≤ e * e :=
          mul_le_mul hs.le ht.le (abs_nonneg _) ((abs_nonneg _).trans hs.le)
        linarith
    _ = 2 * e + e ^ 2 := by ring

/-- **The tolerances let through only what is read back almost unchanged.**

A vector that is accepted as a simplex, with a positive last entry, is read back divided by its
sum, and each entry moves by less than the tolerance, ten to the minus eighth.

A matrix that is accepted as a correlation matrix is read back as the symmetric matrix with ones on
the diagonal and, above it, the entries divided by the roots of the two variances.  On and above
the diagonal each entry moves by less than twice the tolerance and its square. -/
theorem accepted_read_back_within_tolerance :
    (∀ (ys : List ℝ) (o : Output Extended),
      (Call.simplex (A := Exact) ((Tensor.vector ys).map real)).output = .ok o →
      (∀ last ∈ ys.getLast?, 0 < last) →
      softmax (o.reals ++ [0]) = (ys.map (· / ys.sum)).map real ∧
        ∀ y ∈ ys, |y / ys.sum - y| < tolerance) ∧
    ∀ (K : Nat) (y : Matrix (Fin K) (Fin K) ℝ) (o : Output Extended),
      (Call.correlationMatrix (A := Exact) (tableOf y)).output = .ok o →
      ∃ R : Matrix (Fin K) (Fin K) ℝ,
        correlationOf K (o.reals.map Extended.tanh) = (rowsOf R).map (List.map real) ∧
        R.IsSymm ∧ (∀ i, R i i = 1) ∧
        (∀ i j, i < j → R i j = y i j / (√(y i i) * √(y j j))) ∧
        ∀ i j, i ≤ j → |R i j - y i j| < 2 * tolerance + tolerance ^ 2 := by
  refine ⟨fun ys o ho hlast => ?_, fun K y o ho => ?_⟩
  · obtain ⟨vs, hvs, hreals⟩ := ofReals_output_eq_ok ho
    obtain ⟨hnonneg, hsum, hsoftmax⟩ := softmax_of_simplex_eq_ok hvs hlast
    have hpos : 0 < ys.sum := by
      have hupper := (abs_lt.mp hsum).2
      linarith [tolerance_lt_one]
    rw [hreals]
    exact ⟨hsoftmax, fun y hy =>
      abs_div_sub_self_lt hsum (hnonneg y hy) (List.single_le_sum hnonneg y hy) hpos⟩
  · obtain ⟨vs, hvs, hreals⟩ := ofReals_output_eq_ok ho
    obtain ⟨-, -, hscales, triangle, hfactor, rfl⟩ := correlationMatrix_tableOf_eq_ok_iff.mp hvs
    have hupper : IsUpperFactor K (Factor.correlation (rowsOf y)) _ := hfactor.isUpperFactor
    have hformula : ∀ i j : Fin K, i ≤ j →
        Factor.correlation (rowsOf y) i j = y i j / (√(y i i) * √(y j j)) := fun i j hij => by
      rw [Factor.correlation, Factor.covariance_rowsOf y hij, Factor.covariance_rowsOf y le_rfl,
        Factor.covariance_rowsOf y le_rfl]
    refine ⟨Matrix.of fun i j => Factor.correlation (rowsOf y) i j, ?_, ?_, ?_, ?_, ?_⟩
    · rw [hreals, hfactor.correlationOf_eq]
    · exact Matrix.IsSymm.ext fun i j => hupper.symm j i
    · exact fun i => hupper.ones i i.isLt
    · exact fun i j hij => hformula i j hij.le
    · intro i j hij
      have hpos : ∀ k : Fin K, √(y k k) ≠ 0 := fun k hk => by
        have hscale := hscales k
        rw [hk, zero_sub, abs_neg, abs_one] at hscale
        exact hscale.not_gt tolerance_lt_one
      have hentry : y i j = Factor.correlation (rowsOf y) i j * (√(y i i) * √(y j j)) := by
        rw [hformula i j hij, div_mul_cancel₀ _ (mul_ne_zero (hpos i) (hpos j))]
      have hmove := abs_sub_mul_scales_lt (hupper.abs_le_one (Fin.val_le_of_le hij) j.isLt)
        (hscales i) (hscales j)
      rwa [← hentry] at hmove

/-- A vector that does not quite sum to one, and a matrix that is neither symmetric nor has ones on
its diagonal: it is read back as the identity. -/
theorem accepted_read_back_slightly_off :
    let ys : List ℝ := [1 / 2, 1 / 2 + 1 / 10 ^ 9]
    let y : Matrix (Fin 2) (Fin 2) ℝ := !![(1 + 1 / 10 ^ 9) ^ 2, 0; 1 / 10 ^ 9, 1]
    (∃ o : Output Extended,
      (Call.simplex (A := Exact) ((Tensor.vector ys).map real)).output = .ok o ∧
      softmax (o.reals ++ [0]) = (ys.map (· / ys.sum)).map real) ∧
    ∃ o : Output Extended,
      (Call.correlationMatrix (A := Exact) (tableOf y)).output = .ok o ∧
      correlationOf 2 (o.reals.map Extended.tanh) =
        (rowsOf (1 : Matrix (Fin 2) (Fin 2) ℝ)).map (List.map real) := by
  intro ys y
  have hsimplex : (Call.simplex (A := Exact) ((Tensor.vector ys).map real)).output =
      .ok (.ofReals (logRatios (ys.map real))) := by
    have hpass : magnitude (1 - blockSum (ys.map real)) < tolerance := by
      rw [Extended.blockSum_map_real, ← Extended.real_one, Extended.real_sub_real, magnitude_real,
        magnitude_eq_abs, tolerance_eq_real, Extended.real_lt_real]
      norm_num [ys, abs_of_neg]
    have hnonneg : ∀ x ∈ ys.map real, 0 ≤ x := by
      refine List.forall_mem_map.mpr fun x hx => ?_
      rw [← Extended.real_zero, Extended.real_le_real]
      rcases List.mem_pair.mp hx with rfl | rfl <;> norm_num
    exact map_eq_ok_iff.mpr
      ⟨_, simplex_eq_ok_iff.mpr ⟨rfl, List.cons_ne_nil _ _, hpass, hnonneg, rfl⟩, rfl⟩
  have hdefinite : (Factor.mirrored 2 (rowsOf y)).PosDef := by
    have hdiagonal : Factor.mirrored 2 (rowsOf y) =
        Matrix.diagonal ![(1 + 1 / 10 ^ 9) ^ 2, 1] := by
      ext i j
      fin_cases i <;> fin_cases j <;> rfl
    rw [hdiagonal]
    exact Matrix.PosDef.diagonal (Fin.forall_fin_two.mpr ⟨by norm_num, by norm_num⟩)
  obtain ⟨triangle, hfactor⟩ := Factor.exists_isFactorOf (Factor.isSquare_rowsOf y) hdefinite
  have hmatrix : (Call.correlationMatrix (A := Exact) (tableOf y)).output =
      .ok (.ofReals ((ofUpper triangle).map real)) := by
    have hrows : rowsOf y = [[(1 + 1 / 10 ^ 9) ^ 2, 0], [1 / 10 ^ 9, 1]] := by
      simp [rowsOf, y]
    have htranspose : ∀ a b : ℝ, transpose 2 [[a, 0], [b, 1]] = [[a, b], [0, 1]] := fun _ _ => rfl
    have hpass : asymmetry (rowsOf y) ≤ tolerance * symmetryScale (rowsOf y) := by
      rw [hrows, asymmetry, List.length_cons, List.length_singleton, htranspose]
      norm_num [largest, larger, magnitude, symmetryScale, tolerance]
    have hones : ∀ i, |√(y i i) - 1| < tolerance := by
      refine Fin.forall_fin_two.mpr ⟨?_, ?_⟩
      · change |√((1 + 1 / 10 ^ 9) ^ 2) - 1| < tolerance
        rw [Real.sqrt_sq (by norm_num)]
        norm_num [abs_of_pos, tolerance]
      · norm_num [y, tolerance]
    exact map_eq_ok_iff.mpr ⟨_, correlationMatrix_tableOf_eq_ok_iff.mpr
      ⟨two_ne_zero, hpass, hones, triangle, hfactor, rfl⟩, rfl⟩
  obtain ⟨hread, hread'⟩ := accepted_read_back_within_tolerance
  refine ⟨⟨_, hsimplex, (hread ys _ hsimplex ?_).1⟩, _, hmatrix, ?_⟩
  · rintro last ⟨⟩
    norm_num
  · obtain ⟨R, hR, hsymm, hones, hentries, -⟩ := hread' 2 y _ hmatrix
    have hcorner : R 0 1 = 0 := by
      rw [hentries 0 1 Fin.zero_lt_one]
      exact zero_div _
    have hidentity : R = 1 := by
      ext i j
      fin_cases i <;> fin_cases j
      · exact hones 0
      · exact hcorner
      · exact (hsymm.apply 0 1).trans hcorner
      · exact hones 1
    rw [hR, hidentity]

end Unconstrain

end EnsembleSampling
