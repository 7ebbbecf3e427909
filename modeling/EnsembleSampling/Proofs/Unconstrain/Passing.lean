import EnsembleSampling.Proofs.Unconstrain.Composed
import EnsembleSampling.Proofs.Unconstrain.Domain
import EnsembleSampling.Proofs.Unconstrain.Exact
import EnsembleSampling.Proofs.Unconstrain.Symmetry
set_option autoImplicit false

/-!
# Matrices of real numbers that are accepted

On the exact scale a matrix of real numbers is accepted as a covariance matrix if it is symmetric up
to the tolerance and has a factor, and as a correlation matrix if besides the roots of its diagonal
are one up to the tolerance.  What is written of it is then known in terms of the factor
(`covarianceMatrix_tableOf_eq_ok_iff`, `correlationMatrix_tableOf_eq_ok_iff`).
-/

namespace EnsembleSampling

open Extended (real)

namespace Tensor

/-- The rows that a table was made of. -/
theorem slabs_ofRows {α : Type} {m : Nat} {rows : List (List α)}
    (h : ∀ row ∈ rows, row.length = m) : (ofRows m rows).slabs = rows := by
  refine pieces_flatten (count [m]) rows fun row hrow => ?_
  rw [h row hrow]
  exact (Nat.mul_one m).symm

end Tensor

namespace Factor

/-! ## Rows of a matrix -/

theorem isSymmetric_rowsOf {K : Nat} {M : Matrix (Fin K) (Fin K) ℝ} (h : ∀ i j, M i j = M j i) :
    IsSymmetric (rowsOf M) := by
  have hhalf : ∀ i j x, entry (rowsOf M) i j = some x → entry (rowsOf M) j i = some x := by
    intro i j x hx
    obtain ⟨hi, hj⟩ := (isSquare_rowsOf M).lt_of_entry hx
    rw [entry_rowsOf M ⟨i, hi⟩ ⟨j, hj⟩] at hx
    rw [entry_rowsOf M ⟨j, hj⟩ ⟨i, hi⟩, h, hx]
  intro i j
  apply Option.ext
  intro x
  exact ⟨hhalf i j x, hhalf j i x⟩

theorem diagonal_rowsOf {K : Nat} (M : Matrix (Fin K) (Fin K) ℝ) :
    diagonal (rowsOf M) = List.ofFn fun i => M i i := by
  have hsquare := isSquare_rowsOf M
  apply List.ext_getElem?
  intro i
  rw [getElem?_diagonal hsquare]
  by_cases hi : i < K
  · rw [entry_rowsOf M ⟨i, hi⟩ ⟨i, hi⟩, List.getElem?_ofFn, dif_pos hi]
  · rw [List.getElem?_eq_none (by rw [List.length_ofFn]; exact not_lt.mp hi)]
    cases hx : entry (rowsOf M) i i with
    | none => rfl
    | some x => exact absurd (hsquare.lt_of_entry hx).1 hi

/-! ## Factors on the exact scale -/

/-- A square of real numbers that is taken apart on the exact scale has a factor, from which its
factors are read. -/
theorem exists_isFactorOf_of_map_real {K : Nat} {rows : List (List ℝ)} (hrows : IsSquare K rows)
    {f : Factors Extended} (h : ofCovariance (rows.map (List.map real)) = .ok f) :
    ∃ triangle, IsFactorOf K rows triangle ∧ f = ⟨(ofUpper triangle).map real,
      (((diagonal rows).map Real.sqrt).map Real.log).map real⟩ := by
  obtain ⟨hpos, triangle, hfactor, -⟩ := exists_cholesky_of_map_real h
  have hfactorOf : IsFactorOf K rows triangle := ⟨hrows, hpos, hfactor⟩
  exact ⟨triangle, hfactorOf, Except.ok.inj (h.symm.trans hfactorOf.ofCovariance_map_real_eq)⟩

/-- The scales, as they are written. -/
theorem IsFactorOf.map_exp_logScales {K : Nat} {rows triangle : List (List ℝ)}
    (h : IsFactorOf K rows triangle) :
    ((((diagonal rows).map Real.sqrt).map Real.log).map real).map Elementary.exp =
      ((diagonal rows).map Real.sqrt).map real := by
  rw [List.map_map, List.map_map (f := Real.log)]
  refine List.map_congr_left fun s hs => ?_
  change Elementary.exp (real (Real.log s)) = real s
  rw [Extended.exp_real, Real.exp_log (h.scales_pos s hs)]

end Factor

namespace Unconstrain

open Factor (IsFactorOf rowsOf isSquare_rowsOf ofUpper diagonal)

/-! ## The tolerance -/

theorem tolerance_real : (tolerance : Extended) = real tolerance := by
  rw [tolerance_eq_real]
  norm_num [tolerance]

theorem tolerance_pos : (0 : ℝ) < tolerance := by norm_num [tolerance]

theorem tolerance_lt_one : (tolerance : ℝ) < 1 := by norm_num [tolerance]

/-! ## Tables -/

/-- The table of a matrix of real numbers. -/
def tableOf {K : Nat} (M : Matrix (Fin K) (Fin K) ℝ) : Tensor Extended :=
  (Tensor.ofRows K (rowsOf M)).map real

section

variable {K : Nat} (M : Matrix (Fin K) (Fin K) ℝ)

theorem slabs_tableOf : (tableOf M).slabs = (rowsOf M).map (List.map real) := by
  rw [tableOf, Tensor.slabs_map, Tensor.slabs_ofRows (isSquare_rowsOf M).row]

theorem shape_tableOf_iff {n : Nat} : (tableOf M).shape = [n, n] ↔ K = n := by
  change [(rowsOf M).length, K] = [n, n] ↔ K = n
  rw [(isSquare_rowsOf M).length]
  simp

/-- The check of symmetry comes to the same among real numbers. -/
theorem asymmetry_tableOf_le_iff :
    asymmetry (tableOf M).slabs ≤ tolerance * symmetryScale (tableOf M).slabs ↔
      asymmetry (rowsOf M) ≤ tolerance * symmetryScale (rowsOf M) := by
  rw [slabs_tableOf, asymmetry_map_real, symmetryScale_map_real, tolerance_real,
    Extended.real_mul_real, Extended.real_le_real]

end

/-! ## What is accepted -/

section

variable {K : Nat} {M : Matrix (Fin K) (Fin K) ℝ}

theorem unitDiagonal_iff :
    (∀ s ∈ ((diagonal (rowsOf M)).map Real.sqrt).map real, magnitude (s - 1) < tolerance) ↔
      ∀ i, |√(M i i) - 1| < tolerance := by
  simp only [Factor.diagonal_rowsOf, List.map_ofFn, List.forall_mem_ofFn_iff, Function.comp_apply,
    ← Extended.real_one, Extended.real_sub_real, magnitude_real, magnitude_eq_abs, tolerance_real,
    Extended.real_lt_real]

/-- What both transforms ask of a matrix before they write: that it is symmetric up to the tolerance
and taken apart, that is, that it has a factor. -/
theorem tableOf_taken_apart_iff {f : Factor.Factors Extended} :
    (∃ n, n ≠ 0 ∧ (tableOf M).shape = [n, n] ∧
        asymmetry (tableOf M).slabs ≤ tolerance * symmetryScale (tableOf M).slabs ∧
        Factor.ofCovariance (tableOf M).slabs = .ok f) ↔
      K ≠ 0 ∧ asymmetry (rowsOf M) ≤ tolerance * symmetryScale (rowsOf M) ∧
        ∃ triangle, IsFactorOf K (rowsOf M) triangle ∧ f = ⟨(ofUpper triangle).map real,
          (((diagonal (rowsOf M)).map Real.sqrt).map Real.log).map real⟩ := by
  rw [asymmetry_tableOf_le_iff, slabs_tableOf]
  constructor
  · rintro ⟨n, hn, hshape, hpass, hf⟩
    obtain rfl := (shape_tableOf_iff M).mp hshape
    exact ⟨hn, hpass, Factor.exists_isFactorOf_of_map_real (isSquare_rowsOf M) hf⟩
  · rintro ⟨hK, hpass, triangle, h, rfl⟩
    exact ⟨K, hK, (shape_tableOf_iff M).mpr rfl, hpass, h.ofCovariance_map_real_eq⟩

/-- A matrix is accepted as a correlation matrix if it is symmetric and the roots of its diagonal
are one, both up to the tolerance, and it has a factor.  What is written is read off that. -/
theorem correlationMatrix_tableOf_eq_ok_iff {vs : List Extended} :
    (correlationMatrix (tableOf M) : Except (Refusal Exact Extended) _) = .ok vs ↔
      K ≠ 0 ∧ asymmetry (rowsOf M) ≤ tolerance * symmetryScale (rowsOf M) ∧
        (∀ i, |√(M i i) - 1| < tolerance) ∧
        ∃ triangle, IsFactorOf K (rowsOf M) triangle ∧ vs = (ofUpper triangle).map real := by
  rw [correlationMatrix_eq_ok_iff]
  constructor
  · rintro ⟨n, f, hn, hshape, hpass, hf, hones, rfl⟩
    obtain ⟨hK, hpass, triangle, h, rfl⟩ :=
      tableOf_taken_apart_iff.mp ⟨n, hn, hshape, hpass, hf⟩
    rw [h.map_exp_logScales, unitDiagonal_iff] at hones
    exact ⟨hK, hpass, hones, triangle, h, rfl⟩
  · rintro ⟨hK, hpass, hones, triangle, h, rfl⟩
    obtain ⟨n, hn, hshape, hpass, hf⟩ := tableOf_taken_apart_iff.mpr ⟨hK, hpass, triangle, h, rfl⟩
    refine ⟨n, _, hn, hshape, hpass, hf, ?_, rfl⟩
    rwa [h.map_exp_logScales, unitDiagonal_iff]

/-- A matrix is accepted as a covariance matrix if it is symmetric up to the tolerance and has a
factor.  What is written is read off that, and after it the logarithms of the scales. -/
theorem covarianceMatrix_tableOf_eq_ok_iff {vs : List Extended} :
    (covarianceMatrix (tableOf M) : Except (Refusal Exact Extended) _) = .ok vs ↔
      K ≠ 0 ∧ asymmetry (rowsOf M) ≤ tolerance * symmetryScale (rowsOf M) ∧
        ∃ triangle, IsFactorOf K (rowsOf M) triangle ∧
          vs = (ofUpper triangle ++ ((diagonal (rowsOf M)).map Real.sqrt).map Real.log).map
            real := by
  rw [covarianceMatrix_eq_ok_iff]
  constructor
  · rintro ⟨n, f, hn, hshape, hpass, hf, rfl⟩
    obtain ⟨hK, hpass, triangle, h, rfl⟩ :=
      tableOf_taken_apart_iff.mp ⟨n, hn, hshape, hpass, hf⟩
    exact ⟨hK, hpass, triangle, h, List.map_append.symm⟩
  · rintro ⟨hK, hpass, triangle, h, rfl⟩
    obtain ⟨n, hn, hshape, hpass, hf⟩ := tableOf_taken_apart_iff.mpr ⟨hK, hpass, triangle, h, rfl⟩
    exact ⟨n, _, hn, hshape, hpass, hf, List.map_append⟩

end

end Unconstrain

end EnsembleSampling
