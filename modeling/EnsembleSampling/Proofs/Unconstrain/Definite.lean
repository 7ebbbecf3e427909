import EnsembleSampling.Proofs.Unconstrain.Room
import Mathlib.LinearAlgebra.Matrix.PosDef
set_option autoImplicit false

/-!
# Which matrices have factors

Over the real numbers a matrix has factors just if the symmetric matrix with its upper triangle
is positive definite (`ofCovariance_of_pos_cases`).  Elimination completes a square: the
quadratic form of a triangle is the square of a linear form and the quadratic form of what is
left of the triangle (`quadratic_cons`), so a triangle has a factor just if its form is positive
(`exists_cholesky_iff`).  What is factored is the matrix divided by its scales, whose form takes
the values of that of the matrix itself.
-/

namespace EnsembleSampling.Factor

open Matrix

/-! ## Quadratic forms -/

/-- The sum of the products of the entries of two lists. -/
def product (xs ys : List ℝ) : ℝ := (List.zipWith (· * ·) xs ys).sum

/-- The quadratic form of the symmetric matrix with a given upper triangle: the first variable
with the first row, with what is below the corner, and the form of what is left. -/
def quadratic : List (List ℝ) → List ℝ → ℝ
  | (pivot :: right) :: below, x :: xs =>
    x * (pivot * x + product right xs) + x * product right xs + quadratic below xs
  | _, _ => 0

theorem product_cons (x : ℝ) (xs : List ℝ) (y : ℝ) (ys : List ℝ) :
    product (x :: xs) (y :: ys) = x * y + product xs ys := by
  simp [product]

theorem product_sub_mul {c : ℝ} {row vs xs : List ℝ} (hrow : row.length = vs.length)
    (hxs : xs.length = vs.length) :
    product (List.zipWith (fun x v => x - c * v) row vs) xs =
      product row xs - c * product vs xs := by
  induction vs generalizing row xs with
  | nil =>
    obtain rfl := List.length_eq_zero_iff.mp hrow
    simp [product]
  | cons v vs ih =>
    obtain ⟨r, row, rfl⟩ := List.exists_cons_of_length_eq_add_one hrow
    obtain ⟨x, xs, rfl⟩ := List.exists_cons_of_length_eq_add_one hxs
    rw [List.zipWith_cons_cons, product_cons, product_cons, product_cons,
      ih (Nat.succ.inj hrow) (Nat.succ.inj hxs)]
    ring

theorem product_map_div (r : ℝ) (xs ys : List ℝ) :
    product (xs.map (· / r)) ys = product xs ys / r := by
  induction xs generalizing ys with
  | nil => simp [product]
  | cons x xs ih =>
    cases ys with
    | nil => simp [product]
    | cons y ys =>
      rw [List.map_cons, product_cons, product_cons, ih]
      ring

theorem product_eq_zero {xs ys : List ℝ} (h : ∀ y ∈ ys, y = 0) : product xs ys = 0 := by
  induction xs generalizing ys with
  | nil => rfl
  | cons x xs ih =>
    cases ys with
    | nil => rfl
    | cons y ys =>
      rw [List.forall_mem_cons] at h
      rw [product_cons, h.1, ih h.2, mul_zero, add_zero]

theorem quadratic_eq_zero {rows : List (List ℝ)} {xs : List ℝ} (h : ∀ x ∈ xs, x = 0) :
    quadratic rows xs = 0 := by
  fun_induction quadratic rows xs with
  | case1 pivot right below x xs ih =>
    rw [List.forall_mem_cons] at h
    rw [h.1, ih h.2]
    ring
  | case2 => rfl

/-- Elimination takes the square of a linear form from the quadratic form. -/
theorem quadratic_eliminate {u : List ℝ} {rows : List (List ℝ)} {xs : List ℝ}
    (hu : u.length = rows.length) (hrows : IsTriangle rows) (hxs : xs.length = rows.length) :
    quadratic (eliminate u rows) xs = quadratic rows xs - product u xs ^ 2 := by
  induction u generalizing rows xs with
  | nil =>
    obtain rfl := List.length_eq_zero_iff.mp hu.symm
    simp [eliminate, quadratic, product]
  | cons c cs ih =>
    obtain ⟨row, rows, rfl⟩ := List.exists_cons_of_length_eq_add_one hu.symm
    obtain ⟨x, xs, rfl⟩ := List.exists_cons_of_length_eq_add_one hxs
    obtain ⟨pivot, right, rfl, hright, hrows⟩ := hrows.cons
    have hcs : cs.length = rows.length := Nat.succ.inj hu
    have hxs : xs.length = rows.length := Nat.succ.inj hxs
    rw [eliminate, List.zipWith_cons_cons, quadratic, quadratic, product_cons,
      product_sub_mul (hright.trans hcs.symm) (hxs.trans hcs.symm), ih hcs hrows hxs]
    ring

/-- Over a positive pivot the quadratic form is a square and the form of what is left. -/
theorem quadratic_cons {pivot x : ℝ} {right xs : List ℝ} {below : List (List ℝ)}
    (hpivot : 0 < pivot) (hright : right.length = below.length) (hbelow : IsTriangle below)
    (hxs : xs.length = below.length) :
    quadratic ((pivot :: right) :: below) (x :: xs) =
      (√pivot * x + product (right.map (· / √pivot)) xs) ^ 2 +
        quadratic (eliminate (right.map (· / √pivot)) below) xs := by
  have hroot : √pivot ≠ 0 := (Real.sqrt_pos.mpr hpivot).ne'
  have hsquare : √pivot ^ 2 = pivot := Real.sq_sqrt hpivot.le
  rw [quadratic_eliminate (by rw [List.length_map, hright]) hbelow hxs, product_map_div, quadratic]
  field_simp
  rw [hsquare]
  ring

/-- The quadratic form of a triangle is positive, except where all variables are zero. -/
def IsDefinite (rows : List (List ℝ)) : Prop :=
  ∀ xs : List ℝ, xs.length = rows.length → (∃ x ∈ xs, x ≠ 0) → 0 < quadratic rows xs

/-- A definite triangle begins with a positive pivot. -/
theorem IsDefinite.pivot_pos {pivot : ℝ} {right : List ℝ} {below : List (List ℝ)}
    (h : IsDefinite ((pivot :: right) :: below)) : 0 < pivot := by
  have hzeros : ∀ x ∈ List.replicate below.length (0 : ℝ), x = 0 := fun x hx =>
    List.eq_of_mem_replicate hx
  have hform := h (1 :: List.replicate below.length 0) (by simp) ⟨1, by simp, one_ne_zero⟩
  rw [quadratic, product_eq_zero hzeros, quadratic_eq_zero hzeros] at hform
  linarith

/-- A triangle is definite just if its pivot is positive and what is left of it is definite. -/
theorem isDefinite_cons_iff {pivot : ℝ} {right : List ℝ} {below : List (List ℝ)}
    (hright : right.length = below.length) (hbelow : IsTriangle below) :
    IsDefinite ((pivot :: right) :: below) ↔
      0 < pivot ∧ IsDefinite (eliminate (right.map (· / √pivot)) below) := by
  have hu : (right.map (· / √pivot)).length = below.length := by rw [List.length_map, hright]
  constructor
  · intro h
    have hpivot := h.pivot_pos
    refine ⟨hpivot, fun xs hxs hne => ?_⟩
    rw [length_eliminate hu] at hxs
    -- the first variable is chosen to make the square vanish
    have hroot : √pivot ≠ 0 := (Real.sqrt_pos.mpr hpivot).ne'
    obtain ⟨x, hx⟩ : ∃ x, √pivot * x + product (right.map (· / √pivot)) xs = 0 :=
      ⟨-product (right.map (· / √pivot)) xs / √pivot, by rw [mul_div_cancel₀ _ hroot]; ring⟩
    obtain ⟨y, hy, hyne⟩ := hne
    have hform := h (x :: xs) (by simp [hxs]) ⟨y, List.mem_cons_of_mem x hy, hyne⟩
    rw [quadratic_cons hpivot hright hbelow hxs, hx] at hform
    linarith
  · rintro ⟨hpivot, h⟩ xs hxs hne
    obtain ⟨x, xs, rfl⟩ := List.exists_cons_of_length_eq_add_one hxs
    have hxs : xs.length = below.length := Nat.succ.inj hxs
    rw [quadratic_cons hpivot hright hbelow hxs]
    by_cases hzero : ∃ y ∈ xs, y ≠ 0
    · have hform := h xs (by rw [length_eliminate hu, hxs]) hzero
      positivity
    · -- all other variables are zero, so the first is not
      push Not at hzero
      obtain ⟨y, hy, hyne⟩ := hne
      have hx : x ≠ 0 := by
        rcases List.mem_cons.mp hy with rfl | hmem
        · exact hyne
        · exact absurd (hzero y hmem) hyne
      have hroot : √pivot ≠ 0 := (Real.sqrt_pos.mpr hpivot).ne'
      rw [product_eq_zero hzero, quadratic_eq_zero hzero, add_zero, add_zero]
      positivity

/-- A triangle has a factor just if it is definite. -/
theorem exists_cholesky_iff {K : Nat} {rows : List (List ℝ)} (hK : rows.length = K)
    (hrows : IsTriangle rows) : (∃ factor, cholesky rows = some factor) ↔ IsDefinite rows := by
  induction K generalizing rows with
  | zero =>
    obtain rfl := List.length_eq_zero_iff.mp hK
    refine iff_of_true ⟨[], cholesky_nil⟩ fun xs hxs => ?_
    obtain rfl := List.length_eq_zero_iff.mp hxs
    simp
  | succ K ih =>
    obtain ⟨row, below, rfl⟩ := List.exists_cons_of_length_eq_add_one hK
    obtain ⟨pivot, right, rfl, hright, hbelow⟩ := hrows.cons
    have hu : (right.map (· / √pivot)).length = below.length := by rw [List.length_map, hright]
    rw [isDefinite_cons_iff hright hbelow, ← ih ((length_eliminate hu).trans (Nat.succ.inj hK))
      (isTriangle_eliminate hu hbelow)]
    constructor
    · rintro ⟨factor, h⟩
      obtain ⟨hpivot, rest, hrest, -⟩ := cholesky_cons_eq_some h
      exact ⟨not_le.mp hpivot, rest, hrest⟩
    · rintro ⟨hpivot, rest, hrest⟩
      refine ⟨(√pivot :: right.map (· / √pivot)) :: rest, ?_⟩
      rw [cholesky_cons, if_neg (not_le.mpr hpivot)]
      exact Option.map_eq_some_iff.mpr ⟨rest, hrest, rfl⟩

/-! ## Symmetric matrices -/

/-- The symmetric matrix with the entries of a square on and above its diagonal. -/
def mirrored (K : Nat) (rows : List (List ℝ)) : Matrix (Fin K) (Fin K) ℝ :=
  Matrix.of fun i j => (entry rows (min i.val j.val) (max i.val j.val)).getD 0

theorem mirrored_of_le {K : Nat} {rows : List (List ℝ)} {i j : Fin K} {x : ℝ} (hij : i ≤ j)
    (hx : entry rows i j = some x) : mirrored K rows i j = x := by
  rw [mirrored, Matrix.of_apply, min_eq_left (Fin.val_le_of_le hij),
    max_eq_right (Fin.val_le_of_le hij), hx, Option.getD_some]

theorem mirrored_comm {K : Nat} {rows : List (List ℝ)} (i j : Fin K) :
    mirrored K rows i j = mirrored K rows j i := by
  rw [mirrored, Matrix.of_apply, Matrix.of_apply, min_comm, max_comm]

theorem entry_cons_succ (row : List ℝ) (below : List (List ℝ)) (i j : Nat) :
    entry (row :: below) (i + 1) (j + 1) = entry (below.map List.tail) i j := by
  rw [entry_map_tail]
  rfl

theorem mirrored_succ {K : Nat} (row : List ℝ) (below : List (List ℝ)) (i j : Fin K) :
    mirrored (K + 1) (row :: below) i.succ j.succ = mirrored K (below.map List.tail) i j := by
  simp only [mirrored, Matrix.of_apply, Fin.val_succ, Nat.add_min_add_right,
    Nat.add_max_add_right, entry_cons_succ]

theorem product_ofFn {K : Nat} {xs : List ℝ} (hxs : xs.length = K) (y : Fin K → ℝ) :
    product xs (List.ofFn y) = ∑ j, (xs[j.val]?).getD 0 * y j := by
  subst hxs
  have hzip : List.zipWith (· * ·) xs (List.ofFn y) =
      List.ofFn fun j : Fin xs.length => (xs[j.val]?).getD 0 * y j := by
    apply List.ext_getElem
    · simp
    · intro i h h'
      simp
  rw [product, hzip, List.sum_ofFn]

/-- The quadratic form of a symmetric matrix is that of its upper triangle. -/
theorem dotProduct_mirrored {K : Nat} {rows : List (List ℝ)} (hrows : IsSquare K rows)
    (x : Fin K → ℝ) :
    x ⬝ᵥ (mirrored K rows *ᵥ x) = quadratic (upperTriangle rows) (List.ofFn x) := by
  induction K generalizing rows with
  | zero =>
    obtain rfl := List.length_eq_zero_iff.mp hrows.length
    simp [quadratic, upperTriangle]
  | succ K ih =>
    obtain ⟨r, right, below, rfl, hright, hbelow⟩ := hrows.succ
    have hcorner : mirrored (K + 1) ((r :: right) :: below) 0 0 = r := rfl
    have hrow : ∀ j : Fin K, mirrored (K + 1) ((r :: right) :: below) 0 j.succ =
        (right[j.val]?).getD 0 := fun j => by simp [mirrored, entry]
    have hcolumn : ∀ i : Fin K, mirrored (K + 1) ((r :: right) :: below) i.succ 0 =
        (right[i.val]?).getD 0 := fun i => by simp [mirrored, entry]
    have hform := ih hbelow fun i => x i.succ
    rw [upperTriangle_cons, List.ofFn_succ, quadratic, product_ofFn hright, ← hform]
    simp only [dotProduct, mulVec, Fin.sum_univ_succ, hcorner, hrow, hcolumn, mirrored_succ,
      mul_add, Finset.sum_add_distrib]
    have hcross : ∑ i : Fin K, x i.succ * ((right[i.val]?).getD 0 * x 0) =
        x 0 * ∑ j : Fin K, (right[j.val]?).getD 0 * x j.succ := by
      rw [Finset.mul_sum]
      exact Finset.sum_congr rfl fun i _ => by ring
    rw [hcross]
    ring

theorem posDef_mirrored_iff {K : Nat} {rows : List (List ℝ)} :
    (mirrored K rows).PosDef ↔
      ∀ x : Fin K → ℝ, x ≠ 0 → 0 < x ⬝ᵥ (mirrored K rows *ᵥ x) := by
  have hsymm : (mirrored K rows).IsHermitian := Matrix.ext fun i j => mirrored_comm j i
  rw [Matrix.posDef_iff_dotProduct_mulVec]
  exact ⟨fun h x => h.2 (x := x), fun h => ⟨hsymm, fun {x} => h x⟩⟩

/-- The upper triangle of a square is definite just if the symmetric matrix with it is. -/
theorem isDefinite_upperTriangle_iff {K : Nat} {rows : List (List ℝ)} (hrows : IsSquare K rows) :
    IsDefinite (upperTriangle rows) ↔ (mirrored K rows).PosDef := by
  have hlength : (upperTriangle rows).length = K := by rw [length_upperTriangle, hrows.length]
  have hne : ∀ x : Fin K → ℝ, (∃ y ∈ List.ofFn x, y ≠ 0) ↔ x ≠ 0 := fun x => by
    simp [List.mem_ofFn, Function.ne_iff]
  rw [posDef_mirrored_iff]
  constructor
  · intro h x hx
    rw [dotProduct_mirrored hrows]
    exact h _ (by rw [List.length_ofFn, hlength]) ((hne x).mpr hx)
  · intro h xs hxs hxsne
    obtain rfl : xs.length = K := hxs.trans hlength
    have hform := h xs.get ((hne _).mp (by rwa [List.ofFn_get]))
    rwa [dotProduct_mirrored hrows, List.ofFn_get] at hform

/-! ## Scales -/

/-- The entries of a symmetric matrix that is divided by its scales. -/
theorem mirrored_standardize {K : Nat} {rows : List (List ℝ)} {scales : List ℝ}
    (hrows : IsSquare K rows) (hK : scales.length = K)
    (hdiagonal : diagonal rows = scales.map fun s => s * s) (hscales : ∀ s ∈ scales, s ≠ 0)
    (i j : Fin K) :
    mirrored K (standardize rows scales) i j =
      mirrored K rows i j / (scales[i.val] * scales[j.val]) := by
  wlog hij : i ≤ j generalizing i j with hsymm
  · rw [mirrored_comm, hsymm j i (le_of_not_ge hij), mirrored_comm, mul_comm]
  obtain ⟨x, hx⟩ := hrows.exists_entry i.isLt j.isLt
  have hs : scales[i.val]? = some scales[i.val] := List.getElem?_eq_getElem (by omega)
  have ht : scales[j.val]? = some scales[j.val] := List.getElem?_eq_getElem (by omega)
  rw [mirrored_of_le hij (entry_standardize hx hs ht), mirrored_of_le hij hx]
  by_cases hval : i.val = j.val
  · obtain rfl := Fin.ext hval
    have hne := hscales _ (List.getElem_mem (by omega : i.val < scales.length))
    have hentry := getElem?_diagonal hrows i
    rw [hdiagonal, hx, List.getElem?_map, hs] at hentry
    rw [if_pos rfl, ← Option.some.inj hentry, div_self (mul_ne_zero hne hne)]
  · rw [if_neg hval]

/-- A matrix divided by its scales is positive definite just if the matrix is. -/
theorem posDef_mirrored_standardize_iff {K : Nat} {rows : List (List ℝ)} {scales : List ℝ}
    (hrows : IsSquare K rows) (hK : scales.length = K)
    (hdiagonal : diagonal rows = scales.map fun s => s * s) (hscales : ∀ s ∈ scales, s ≠ 0) :
    (mirrored K (standardize rows scales)).PosDef ↔ (mirrored K rows).PosDef := by
  have hne : ∀ i : Fin K, scales[i.val] ≠ 0 := fun i => hscales _ (List.getElem_mem _)
  let inverse : Matrix (Fin K) (Fin K) ℝ := Matrix.diagonal fun i => (scales[i.val])⁻¹
  have hunit : IsUnit inverse := by
    rw [Matrix.isUnit_iff_isUnit_det, Matrix.det_diagonal, isUnit_iff_ne_zero,
      Finset.prod_ne_zero_iff]
    exact fun i _ => inv_ne_zero (hne i)
  have hcongruent :
      mirrored K (standardize rows scales) = star inverse * mirrored K rows * inverse := by
    ext i j
    rw [mirrored_standardize hrows hK hdiagonal hscales, Matrix.star_eq_conjTranspose,
      Matrix.diagonal_conjTranspose, Matrix.mul_diagonal, Matrix.diagonal_mul, star_trivial]
    field_simp
  rw [hcongruent, Matrix.IsUnit.posDef_star_left_conjugate_iff hunit]

/-! ## Factors -/

/-- Positive numbers are the squares of their roots. -/
theorem map_sqrt_mul_self {vs : List ℝ} (h : ∀ v ∈ vs, 0 < v) :
    vs = (vs.map Real.sqrt).map fun s => s * s := by
  rw [List.map_map]
  refine (List.map_id _).symm.trans (List.map_congr_left fun v hv => ?_)
  exact (Real.mul_self_sqrt (h v hv).le).symm

/-- A matrix without positive variances is turned down for these. -/
theorem ofCovariance_of_nonpos {rows : List (List ℝ)} (h : ∃ v ∈ diagonal rows, v ≤ 0) :
    ofCovariance rows = .error (.variances (diagonal rows)) := by
  have hall : ¬ ((diagonal rows).all fun v => decide (0 < v)) = true := by
    simpa only [List.all_eq_true, decide_eq_true_eq, not_forall, not_lt, exists_prop] using h
  unfold ofCovariance
  exact if_neg hall

/-- A matrix with positive variances is divided by its scales and factored. -/
theorem ofCovariance_of_pos {rows : List (List ℝ)} (h : ∀ v ∈ diagonal rows, 0 < v) :
    ofCovariance rows =
      (cholesky (upperTriangle (standardize rows ((diagonal rows).map Real.sqrt)))).elim
        (.error .indefinite) fun triangle =>
          .ok ⟨ofUpper triangle, ((diagonal rows).map Real.sqrt).map Real.log⟩ := by
  have hall : ((diagonal rows).all fun v => decide (0 < v)) = true := by
    simpa only [List.all_eq_true, decide_eq_true_eq] using h
  have hfinite : ((standardize rows ((diagonal rows).map Elementary.sqrt)).all fun row =>
      row.all Elementary.isFinite) = true := by
    simp only [List.all_eq_true]
    exact fun _ _ _ _ => rfl
  unfold ofCovariance
  simp only [hall, hfinite, if_true]
  cases hfactor : cholesky (upperTriangle (standardize rows ((diagonal rows).map Real.sqrt))) <;>
    rfl

/-- A matrix with positive variances has factors if it is positive definite, and is turned down
as indefinite if it is not. -/
theorem ofCovariance_of_pos_cases {K : Nat} {rows : List (List ℝ)} (hrows : IsSquare K rows)
    (h : ∀ v ∈ diagonal rows, 0 < v) :
    ((mirrored K rows).PosDef ∧ ∃ f, ofCovariance rows = .ok f) ∨
      (¬ (mirrored K rows).PosDef ∧ ofCovariance rows = .error .indefinite) := by
  have hK : ((diagonal rows).map Real.sqrt).length = K := by
    rw [List.length_map, length_diagonal hrows]
  have hscales : ∀ s ∈ (diagonal rows).map Real.sqrt, s ≠ 0 :=
    List.forall_mem_map.mpr fun v hv => (Real.sqrt_pos.mpr (h v hv)).ne'
  have hsquare := isSquare_standardize hrows hK
  rw [← posDef_mirrored_standardize_iff hrows hK (map_sqrt_mul_self h) hscales,
    ← isDefinite_upperTriangle_iff hsquare,
    ← exists_cholesky_iff ((length_upperTriangle _).trans hsquare.length)
      (isTriangle_upperTriangle hsquare), ofCovariance_of_pos h]
  cases cholesky (upperTriangle (standardize rows ((diagonal rows).map Real.sqrt))) with
  | none => exact .inr ⟨by simp, rfl⟩
  | some triangle => exact .inl ⟨⟨triangle, rfl⟩, _, rfl⟩

/-- The variances of a positive definite matrix are positive. -/
theorem diagonal_pos {K : Nat} {rows : List (List ℝ)} (hrows : IsSquare K rows)
    (h : (mirrored K rows).PosDef) : ∀ v ∈ diagonal rows, 0 < v := by
  intro v hv
  obtain ⟨i, hi⟩ := List.getElem?_of_mem hv
  rw [getElem?_diagonal hrows] at hi
  obtain ⟨hiK, -⟩ := hrows.lt_of_entry hi
  have hentry : mirrored K rows ⟨i, hiK⟩ ⟨i, hiK⟩ = v := mirrored_of_le le_rfl hi
  exact hentry ▸ h.diag_pos

/-- The triangle is the upper factor of a square with positive variances, divided by its
scales. -/
structure IsFactorOf (K : Nat) (rows triangle : List (List ℝ)) : Prop where
  square : IsSquare K rows
  variances : ∀ v ∈ diagonal rows, 0 < v
  factor : cholesky (upperTriangle (standardize rows ((diagonal rows).map Real.sqrt))) =
    some triangle

/-- The factors of a square are read off its upper factor. -/
theorem exists_isFactorOf_of_ok {K : Nat} {rows : List (List ℝ)} (hrows : IsSquare K rows)
    {f : Factors ℝ} (hf : ofCovariance rows = .ok f) :
    ∃ triangle, IsFactorOf K rows triangle ∧
      f = ⟨ofUpper triangle, ((diagonal rows).map Real.sqrt).map Real.log⟩ := by
  obtain ⟨hvariances, -, triangle, htriangle, rfl⟩ := ofCovariance_eq_ok hf
  exact ⟨triangle, ⟨hrows, hvariances, htriangle⟩, rfl⟩

/-- A square has a factor if the symmetric matrix with its upper triangle is positive definite. -/
theorem exists_isFactorOf {K : Nat} {rows : List (List ℝ)} (hrows : IsSquare K rows)
    (hdefinite : (mirrored K rows).PosDef) : ∃ triangle, IsFactorOf K rows triangle := by
  rcases ofCovariance_of_pos_cases hrows (diagonal_pos hrows hdefinite) with ⟨-, f, hf⟩ | ⟨hnot, -⟩
  · obtain ⟨triangle, htriangle, -⟩ := exists_isFactorOf_of_ok hrows hf
    exact ⟨triangle, htriangle⟩
  · exact absurd hdefinite hnot

/-- The symmetric matrix with a triangle that has a factor is positive definite. -/
theorem posDef_of_cholesky {K : Nat} {rows triangle : List (List ℝ)} (hrows : IsSquare K rows)
    (hfactor : cholesky (upperTriangle rows) = some triangle) : (mirrored K rows).PosDef := by
  have hlength := (length_upperTriangle rows).trans hrows.length
  rw [← isDefinite_upperTriangle_iff hrows,
    ← exists_cholesky_iff hlength (isTriangle_upperTriangle hrows)]
  exact ⟨triangle, hfactor⟩

namespace IsFactorOf

variable {K : Nat} {rows triangle : List (List ℝ)} (h : IsFactorOf K rows triangle)

include h

theorem length_scales : ((diagonal rows).map Real.sqrt).length = K := by
  rw [List.length_map, length_diagonal h.square]

theorem scales_pos : ∀ s ∈ (diagonal rows).map Real.sqrt, 0 < s :=
  List.forall_mem_map.mpr fun v hv => Real.sqrt_pos.mpr (h.variances v hv)

theorem isSquare_standardize : IsSquare K (standardize rows ((diagonal rows).map Real.sqrt)) :=
  Factor.isSquare_standardize h.square h.length_scales

theorem room : HasRoom (List.replicate K 0) triangle :=
  hasRoom_of_ones h.isSquare_standardize (diagonal_standardize h.square h.length_scales) h.factor

theorem length_upperTriangle_standardize :
    (upperTriangle (standardize rows ((diagonal rows).map Real.sqrt))).length = K :=
  (length_upperTriangle _).trans h.isSquare_standardize.length

theorem isTriangle : triangle.length = K ∧ IsTriangle triangle :=
  isTriangle_of_cholesky h.length_upperTriangle_standardize
    (isTriangle_upperTriangle h.isSquare_standardize) h.factor

theorem ofCovariance_eq : ofCovariance rows =
    .ok ⟨ofUpper triangle, ((diagonal rows).map Real.sqrt).map Real.log⟩ := by
  rw [ofCovariance_of_pos h.variances, h.factor, Option.elim_some]

/-- The product of the factor is the upper triangle of the matrix divided by its scales. -/
theorem gram_eq : gram triangle =
    upperTriangle (standardize rows ((diagonal rows).map Real.sqrt)) :=
  gram_of_cholesky h.length_upperTriangle_standardize
    (isTriangle_upperTriangle h.isSquare_standardize) h.factor

end IsFactorOf

/-- A square matrix of real numbers is turned down, for a bound that is named, just if the form
of the symmetric matrix with its upper triangle is not positive everywhere but at zero.  It is
turned down for its variances if one of them is not positive, and for being indefinite in every
other case.  Otherwise it has factors. -/
theorem ofCovariance_turned_down_iff {K : Nat} {rows : List (List ℝ)} (hrows : IsSquare K rows) :
    ((∃ o bound, ofCovariance rows = .error o ∧ o.bound? = some bound) ↔
      ∃ x : Fin K → ℝ, x ≠ 0 ∧ x ⬝ᵥ (mirrored K rows *ᵥ x) ≤ 0) ∧
    ((∃ o, ofCovariance rows = .error o ∧ o.bound? = some "variances > 0") ↔
      ∃ v ∈ diagonal rows, v ≤ 0) ∧
    ((∃ o, ofCovariance rows = .error o ∧ o.bound? = some "positive definite") ↔
      (∀ v ∈ diagonal rows, 0 < v) ∧
        ∃ x : Fin K → ℝ, x ≠ 0 ∧ x ⬝ᵥ (mirrored K rows *ᵥ x) ≤ 0) ∧
    ((∃ f, ofCovariance rows = .ok f) ↔ (mirrored K rows).PosDef) := by
  have hnot : (∃ x : Fin K → ℝ, x ≠ 0 ∧ x ⬝ᵥ (mirrored K rows *ᵥ x) ≤ 0) ↔
      ¬ (mirrored K rows).PosDef := by
    rw [posDef_mirrored_iff]
    push Not
    rfl
  rw [hnot]
  by_cases hvariances : ∃ v ∈ diagonal rows, v ≤ 0
  · have hdefinite : ¬ (mirrored K rows).PosDef := fun h => by
      obtain ⟨v, hv, hle⟩ := hvariances
      exact (diagonal_pos hrows h v hv).not_ge hle
    have hpos : ¬ ∀ v ∈ diagonal rows, 0 < v := by
      push Not
      exact hvariances
    simp only [ofCovariance_of_nonpos hvariances, hvariances, hdefinite, hpos]
    simp [Obstacle.bound?]
  · have hpos : ∀ v ∈ diagonal rows, 0 < v := by
      push Not at hvariances
      exact hvariances
    rcases ofCovariance_of_pos_cases hrows hpos with ⟨hdefinite, f, hf⟩ | ⟨hdefinite, herror⟩
    · simp only [hf, hvariances, hdefinite]
      simp
    · simp only [herror, hvariances, hdefinite]
      simpa [Obstacle.bound?] using hpos

/-- A matrix with positive variances whose form is negative at `(1, -1)`. -/
theorem ofCovariance_turned_down_iff_indefinite :
    IsSquare 2 [[(1 : ℝ), 2], [0, 1]] ∧
    ∃ o, ofCovariance [[(1 : ℝ), 2], [0, 1]] = .error o ∧
      o.bound? = some "positive definite" := by
  have hsquare : IsSquare 2 [[(1 : ℝ), 2], [0, 1]] := ⟨rfl, by simp⟩
  refine ⟨hsquare, (ofCovariance_turned_down_iff hsquare).2.2.1.mpr ⟨?_, ![1, -1], ?_, ?_⟩⟩
  · simp [diagonal]
  · exact fun h => one_ne_zero (congrFun h 0)
  · rw [dotProduct_mirrored hsquare]
    norm_num [upperTriangle, quadratic, product]

end EnsembleSampling.Factor
