import EnsembleSampling.Proofs.Unconstrain.Passing
set_option autoImplicit false

/-!
# Matrices in other units

A change of units multiplies a covariance matrix by a diagonal matrix on both sides.  The scales
are multiplied along with it, and are lost when the matrix is divided by them: what is factored is
the same (`standardize_rescaled`), and so are the partial correlations
(`IsFactorOf.rescaled`).  A correlation matrix in other units is therefore written as the
correlation matrix is, with the logarithms of the units after it
(`partials_in_all_units`).
-/

namespace EnsembleSampling

open Extended (real)

namespace Factor

/-! ## Matrices as squares -/

section

variable {K : Nat} {M : Matrix (Fin K) (Fin K) ℝ}

theorem mirrored_rowsOf (h : ∀ i j, M i j = M j i) : mirrored K (rowsOf M) = M := by
  ext i j
  wlog hij : i ≤ j generalizing i j with hsymm
  · rw [mirrored_comm, hsymm j i (le_of_not_ge hij), h]
  · exact mirrored_of_le hij (entry_rowsOf M i j)

theorem comm_of_posDef (h : M.PosDef) (i j : Fin K) : M i j = M j i :=
  (star_trivial (M i j)).symm.trans (h.isHermitian.apply j i)

/-- A positive definite matrix has a factor. -/
theorem exists_isFactorOf_of_posDef (h : M.PosDef) :
    ∃ triangle, IsFactorOf K (rowsOf M) triangle := by
  refine exists_isFactorOf (isSquare_rowsOf M) ?_
  rwa [mirrored_rowsOf (comm_of_posDef h)]

/-! ## Scales in other units -/

variable {d s : Fin K → ℝ}

theorem rescaled_apply (d : Fin K → ℝ) (M : Matrix (Fin K) (Fin K) ℝ) (i j : Fin K) :
    (Matrix.diagonal d * M * Matrix.diagonal d) i j = d i * M i j * d j := by
  rw [Matrix.mul_diagonal, Matrix.diagonal_mul]

/-- The units are lost when the matrix is divided by its scales. -/
theorem standardize_rescaled (hd : ∀ i, d i ≠ 0) :
    standardize (rowsOf (Matrix.diagonal d * M * Matrix.diagonal d))
        (List.ofFn fun i => d i * s i) =
      standardize (rowsOf M) (List.ofFn s) := by
  refine (isSquare_standardize (isSquare_rowsOf _) List.length_ofFn).ext
    (isSquare_standardize (isSquare_rowsOf M) List.length_ofFn) fun i j hi hj => ?_
  have hscale : ∀ (u : Fin K → ℝ) (k : Nat) (hk : k < K), (List.ofFn u)[k]? = some (u ⟨k, hk⟩) :=
    fun u k hk => by rw [List.getElem?_ofFn, dif_pos hk]
  rw [entry_standardize (entry_rowsOf _ ⟨i, hi⟩ ⟨j, hj⟩) (hscale _ i hi) (hscale _ j hj),
    entry_standardize (entry_rowsOf _ ⟨i, hi⟩ ⟨j, hj⟩) (hscale _ i hi) (hscale _ j hj),
    rescaled_apply]
  have hproduct : d ⟨i, hi⟩ * M ⟨i, hi⟩ ⟨j, hj⟩ * d ⟨j, hj⟩ /
      (d ⟨i, hi⟩ * s ⟨i, hi⟩ * (d ⟨j, hj⟩ * s ⟨j, hj⟩)) =
        M ⟨i, hi⟩ ⟨j, hj⟩ / (s ⟨i, hi⟩ * s ⟨j, hj⟩) := by
    have hunits : d ⟨i, hi⟩ * d ⟨j, hj⟩ ≠ 0 := mul_ne_zero (hd _) (hd _)
    rw [← mul_div_mul_left _ (s ⟨i, hi⟩ * s ⟨j, hj⟩) hunits]
    congr 1 <;> ring
  rw [hproduct]

/-- The scales of a matrix. -/
theorem scales_rowsOf (M : Matrix (Fin K) (Fin K) ℝ) :
    (diagonal (rowsOf M)).map Real.sqrt = List.ofFn fun i => √(M i i) := by
  rw [diagonal_rowsOf, List.map_ofFn]
  rfl

/-- The scales are multiplied by the units. -/
theorem scales_rescaled (hd : ∀ i, 0 < d i) :
    (diagonal (rowsOf (Matrix.diagonal d * M * Matrix.diagonal d))).map Real.sqrt =
      List.ofFn fun i => d i * √(M i i) := by
  rw [scales_rowsOf]
  refine congrArg List.ofFn (funext fun i => ?_)
  rw [rescaled_apply, mul_right_comm, Real.sqrt_mul (mul_self_nonneg _),
    Real.sqrt_mul_self (hd i).le]

/-- The logarithms of the units are added to those of the scales. -/
theorem logScales_rescaled (hd : ∀ i, 0 < d i) (hM : ∀ i, 0 < M i i) :
    ((diagonal (rowsOf (Matrix.diagonal d * M * Matrix.diagonal d))).map Real.sqrt).map Real.log =
      List.zipWith (· + ·) (((diagonal (rowsOf M)).map Real.sqrt).map Real.log)
        (List.ofFn fun i => Real.log (d i)) := by
  rw [scales_rescaled hd, scales_rowsOf, List.map_ofFn, List.map_ofFn]
  refine List.ext_getElem (by simp) fun i hi _ => ?_
  have hiK : i < K := by simpa using hi
  have hroot : √(M ⟨i, hiK⟩ ⟨i, hiK⟩) ≠ 0 := (Real.sqrt_pos.mpr (hM _)).ne'
  simp only [List.getElem_ofFn, List.getElem_zipWith, Function.comp_apply]
  rw [Real.log_mul (hd _).ne' hroot, add_comm]

/-- The logarithms of the scales of a correlation matrix in other units are those of the units. -/
theorem logScales_rescaled_of_ones (hd : ∀ i, 0 < d i) (hones : ∀ i, M i i = 1) :
    ((diagonal (rowsOf (Matrix.diagonal d * M * Matrix.diagonal d))).map Real.sqrt).map Real.log =
      List.ofFn fun i => Real.log (d i) := by
  rw [scales_rescaled hd, List.map_ofFn]
  refine congrArg List.ofFn (funext fun i => ?_)
  rw [Function.comp_apply, hones, Real.sqrt_one, mul_one]

/-- In all units the factor is the same. -/
theorem IsFactorOf.rescaled {triangle : List (List ℝ)} (h : IsFactorOf K (rowsOf M) triangle)
    (hd : ∀ i, 0 < d i) :
    IsFactorOf K (rowsOf (Matrix.diagonal d * M * Matrix.diagonal d)) triangle := by
  refine ⟨isSquare_rowsOf _, ?_, ?_⟩
  · have hvariances := h.variances
    rw [diagonal_rowsOf, List.forall_mem_ofFn_iff] at hvariances
    rw [diagonal_rowsOf, List.forall_mem_ofFn_iff]
    intro i
    rw [rescaled_apply]
    exact mul_pos (mul_pos (hd i) (hvariances i)) (hd i)
  · rw [scales_rescaled hd, standardize_rescaled fun i => (hd i).ne', ← scales_rowsOf]
    exact h.factor

end

end Factor

namespace Unconstrain

open Factor (IsFactorOf rowsOf isSquare_rowsOf ofCovariance ofUpper diagonal)

/-! ## The factors and what is written -/

/-- A symmetric matrix passes as such. -/
theorem asymmetry_rowsOf_le {K : Nat} {M : Matrix (Fin K) (Fin K) ℝ} (h : ∀ i j, M i j = M j i) :
    asymmetry (rowsOf M) ≤ tolerance * symmetryScale (rowsOf M) :=
  asymmetry_le_of_isSymmetric (isSquare_rowsOf M) (Factor.isSymmetric_rowsOf h)

/-- A call that has an output appends it. -/
theorem Writer.call_of_output {w : Writer Extended} {c : Call Exact Extended}
    {o : Output Extended} (h : c.output = .ok o) : w.call c = (.ok (), w.append o) := by
  rw [Writer.call, Call.outcome_write, h]
  rfl

section

-- a symmetric matrix with a factor
variable {K : Nat} {M : Matrix (Fin K) (Fin K) ℝ} {triangle : List (List ℝ)}
  (h : IsFactorOf K (rowsOf M) triangle) (hK : K ≠ 0) (hsymm : ∀ i j, M i j = M j i)

include h hK hsymm

theorem output_correlationMatrix (hones : ∀ i, M i i = 1) :
    (Call.correlationMatrix (A := Exact) (tableOf M)).output =
      .ok (.ofReals ((ofUpper triangle).map real)) := by
  have hunit : ∀ i, |√(M i i) - 1| < tolerance := by
    intro i
    rw [hones i, Real.sqrt_one, sub_self, abs_zero]
    exact tolerance_pos
  exact map_eq_ok_iff.mpr ⟨_, correlationMatrix_tableOf_eq_ok_iff.mpr
    ⟨hK, asymmetry_rowsOf_le hsymm, hunit, triangle, h, rfl⟩, rfl⟩

theorem output_covarianceMatrix :
    (Call.covarianceMatrix (A := Exact) (tableOf M)).output =
      .ok (.ofReals ((ofUpper triangle ++
        ((diagonal (rowsOf M)).map Real.sqrt).map Real.log).map real)) :=
  map_eq_ok_iff.mpr ⟨_, covarianceMatrix_tableOf_eq_ok_iff.mpr
    ⟨hK, asymmetry_rowsOf_le hsymm, triangle, h, rfl⟩, rfl⟩

end

/-- **Partial correlations are the same in all units.**  Let `σ` be positive definite, and `d` the
units of its variables.  In these units it has the partial correlations of `σ`, and the logarithms
of the units are added to those of its scales.

So if `σ` is a correlation matrix, a writer appends in these units, as a covariance matrix, what it
appends of `σ` as a correlation matrix, and then the logarithms of the units. -/
theorem partials_in_all_units {K : Nat} {σ : Matrix (Fin K) (Fin K) ℝ} (hσ : σ.PosDef)
    {d : Fin K → ℝ} (hd : ∀ i, 0 < d i) :
    (∃ f, ofCovariance (rowsOf σ) = .ok f ∧ f.logScales.length = K ∧
      ofCovariance (rowsOf (Matrix.diagonal d * σ * Matrix.diagonal d)) =
        .ok ⟨f.partials,
          List.zipWith (· + ·) f.logScales (List.ofFn fun i => Real.log (d i))⟩) ∧
    (K ≠ 0 → (∀ i, σ i i = 1) → ∃ partials : List Extended, ∀ w : Writer Extended,
      w.call (Call.correlationMatrix (A := Exact) (tableOf σ)) =
        (.ok (), w.append (.ofReals partials)) ∧
      w.call (Call.covarianceMatrix (A := Exact)
          (tableOf (Matrix.diagonal d * σ * Matrix.diagonal d))) =
        (.ok (), w.append (.ofReals (partials ++ List.ofFn fun i => real (Real.log (d i)))))) := by
  obtain ⟨triangle, h⟩ := Factor.exists_isFactorOf_of_posDef hσ
  have hrescaled := h.rescaled hd
  refine ⟨⟨_, h.ofCovariance_eq, ?_, ?_⟩, fun hK hones => ?_⟩
  · rw [List.length_map, h.length_scales]
  · rw [hrescaled.ofCovariance_eq, Factor.logScales_rescaled hd fun i => hσ.diag_pos]
  · have hsymm := Factor.comm_of_posDef hσ
    have hsymm' : ∀ i j, (Matrix.diagonal d * σ * Matrix.diagonal d) i j =
        (Matrix.diagonal d * σ * Matrix.diagonal d) j i := by
      intro i j
      rw [Factor.rescaled_apply, Factor.rescaled_apply, hsymm i j]
      ring
    have hcovariance := output_covarianceMatrix hrescaled hK hsymm'
    rw [Factor.logScales_rescaled_of_ones hd hones, List.map_append, List.map_ofFn] at hcovariance
    exact ⟨(ofUpper triangle).map real, fun w =>
      ⟨Writer.call_of_output (output_correlationMatrix h hK hsymm hones),
        Writer.call_of_output hcovariance⟩⟩

/-- Two variables with correlation one half, the first of them in units of two. -/
theorem partials_in_all_units_half :
    let σ : Matrix (Fin 2) (Fin 2) ℝ := !![1, 1 / 2; 1 / 2, 1]
    σ.PosDef ∧ ∃ partials : List Extended, ∀ w : Writer Extended,
      w.call (Call.correlationMatrix (A := Exact) (tableOf σ)) =
        (.ok (), w.append (.ofReals partials)) ∧
      w.call (Call.covarianceMatrix (A := Exact) (tableOf !![4, 1; 1, 1])) =
        (.ok (), w.append (.ofReals (partials ++ [real (Real.log 2), real (Real.log 1)]))) := by
  intro σ
  have hsymm : ∀ i j, σ i j = σ j i := by
    simp [Fin.forall_fin_two, σ]
  have hdefinite : σ.PosDef := by
    have hrows : rowsOf σ = [[1, 1 / 2], [1 / 2, 1]] := by simp [rowsOf, σ]
    have hfactor : Factor.cholesky (Factor.upperTriangle (rowsOf σ)) =
        some [[1, 1 / 2], [√(3 / 4)]] := by
      norm_num [hrows, Factor.upperTriangle, Factor.cholesky, Factor.eliminate, Elementary.sqrt]
    rw [← Factor.mirrored_rowsOf hsymm]
    exact Factor.posDef_of_cholesky (isSquare_rowsOf σ) hfactor
  have hunits : Matrix.diagonal ![2, 1] * σ * Matrix.diagonal ![2, 1] = !![4, 1; 1, 1] := by
    ext i j
    rw [Factor.rescaled_apply]
    fin_cases i <;> fin_cases j <;> norm_num [σ]
  have hpos : ∀ i, (0 : ℝ) < ![2, 1] i := by simp [Fin.forall_fin_two]
  have hones : ∀ i, σ i i = 1 := by simp [Fin.forall_fin_two, σ]
  obtain ⟨partials, hwrites⟩ := (partials_in_all_units hdefinite hpos).2 two_ne_zero hones
  rw [hunits] at hwrites
  exact ⟨hdefinite, partials, hwrites⟩

end Unconstrain

end EnsembleSampling
