import EnsembleSampling.Proofs.Unconstrain.Columns
import EnsembleSampling.Proofs.Unconstrain.Definite
set_option autoImplicit false

/-!
# Covariance matrices and their factors

The factors of a matrix determine its upper triangle, and every choice of factors is that of a
matrix.  What a reader does with factors is `composed`: it builds the upper factor column by
column from the partial correlations, takes the product of it with itself, and multiplies by the
scales.  The two steps that are undone are `cholesky`, by uniqueness of the factor
(`HasRoom.cholesky_gram`), and `partials`, as each column has room for any partial correlations
between minus one and one (`partials_ofPartials`).
-/

namespace EnsembleSampling.Factor

open Matrix

/-! ## The factor of a product -/

theorem eliminate_restore {u : List ℝ} {rows : List (List ℝ)} (hu : u.length = rows.length)
    (hrows : IsTriangle rows) : eliminate u (restore u rows) = rows := by
  induction u generalizing rows with
  | nil =>
    obtain rfl := List.length_eq_zero_iff.mp hu.symm
    rfl
  | cons c cs ih =>
    obtain ⟨row, rows, rfl⟩ := List.exists_cons_of_length_eq_add_one hu.symm
    have hcs : cs.length = rows.length := Nat.succ.inj hu
    have hrow : row.length = (c :: cs).length := by rw [hrows.1, List.length_cons, hcs]
    have hcancel : List.zipWith (fun x v => x - c * v)
        (List.zipWith (fun x v => x + c * v) row (c :: cs)) (c :: cs) = row :=
      zipWith_cancel hrow fun x v _ => add_sub_cancel_right x (c * v)
    rw [restore, eliminate, hcancel, ih hcs hrows.2]

/-- A triangle whose columns have room is the factor of its product. -/
theorem HasRoom.cholesky_gram {used : List ℝ} {rows : List (List ℝ)} (h : HasRoom used rows) :
    cholesky (gram rows) = some rows := by
  induction h with
  | nil => exact cholesky_nil
  | @cons s used u rest room length below ih =>
    obtain ⟨hrestlength, hrest⟩ := below.isTriangle
    obtain ⟨hgramlength, hgram⟩ := isTriangle_gram hrest
    have hu : u.length = (gram rest).length := by
      rw [hgramlength, hrestlength, List.length_zipWith, length, Nat.min_self]
    have hroot : 0 < √(1 - s) := Real.sqrt_pos.mpr (sub_pos.mpr room)
    have hsqrt : Elementary.sqrt (√(1 - s) * √(1 - s)) = √(1 - s) :=
      Real.sqrt_mul_self hroot.le
    have hquotients : (u.map (√(1 - s) * ·)).map (· / √(1 - s)) = u := by
      rw [List.map_map]
      exact List.map_id'' (fun x => mul_div_cancel_left₀ x hroot.ne') u
    rw [gram, List.map_cons, cholesky_cons, if_neg (not_le.mpr (mul_pos hroot hroot)), hsqrt,
      hquotients, eliminate_restore hu hgram, ih]
    rfl

/-! ## The partial correlations of a factor -/

/-- What a partial correlation takes from a column is less than the column has left. -/
theorem used_add_lt_one {s z : ℝ} (hs : s < 1) (hz : |z| < 1) :
    s + z * √(1 - s) * (z * √(1 - s)) < 1 := by
  have hleft : 0 < 1 - s := sub_pos.mpr hs
  have hsquare : z * z < 1 := by
    rw [← pow_two]
    exact (sq_lt_one_iff_abs_lt_one z).mpr hz
  calc s + z * √(1 - s) * (z * √(1 - s))
      = s + z * z * (1 - s) := by rw [mul_mul_mul_comm, Real.mul_self_sqrt hleft.le]
    _ < s + 1 * (1 - s) := by gcongr
    _ = 1 := by ring

/-- With partial correlations between minus one and one the columns of a factor have room, and
the factor has these partial correlations. -/
theorem partials_ofPartials {K : Nat} {used zs : List ℝ} (hK : used.length = K)
    (hused : ∀ s ∈ used, s < 1) (hlength : zs.length = K * (K - 1) / 2) (hzs : ∀ z ∈ zs, |z| < 1) :
    HasRoom used (ofPartials K used zs) ∧ partials (ofPartials K used zs) used = zs := by
  induction K generalizing used zs with
  | zero =>
    obtain rfl := List.length_eq_zero_iff.mp hK
    obtain rfl := List.length_eq_zero_iff.mp hlength
    exact ⟨.nil, rfl⟩
  | succ K ih =>
    obtain ⟨s, used, rfl⟩ := List.exists_cons_of_length_eq_add_one hK
    rw [List.forall_mem_cons] at hused
    rw [Nat.triangle_succ] at hlength
    have hK : used.length = K := Nat.succ.inj hK
    have htake : (zs.take K).length = used.length := by rw [List.length_take, hK]; omega
    set row := List.zipWith (fun z s => z * √(1 - s)) (zs.take K) used with hrow
    have hrowlength : row.length = used.length := by
      rw [hrow, List.length_zipWith, htake, Nat.min_self]
    set rest := List.zipWith (fun s u => s + u * u) used row with hrest
    have hrestlength : rest.length = K := by
      rw [hrest, List.length_zipWith, hrowlength, Nat.min_self, hK]
    have hroom : ∀ t ∈ rest, t < 1 := by
      intro t ht
      obtain ⟨i, hi, rfl⟩ := List.getElem_of_mem ht
      simp only [hrest, hrow, List.getElem_zipWith, List.getElem_take]
      exact used_add_lt_one (hused.2 _ (List.getElem_mem _)) (hzs _ (List.getElem_mem _))
    have hdrop : (zs.drop K).length = K * (K - 1) / 2 := by rw [List.length_drop]; omega
    obtain ⟨hbelow, hpartials⟩ :=
      ih hrestlength hroom hdrop fun z hz => hzs z (List.mem_of_mem_drop hz)
    have hcancel : List.zipWith (fun u s => u / √(1 - s)) row used = zs.take K :=
      zipWith_cancel htake fun z t ht =>
        mul_div_cancel_right₀ z (Real.sqrt_pos.mpr (sub_pos.mpr (hused.2 t ht))).ne'
    refine ⟨HasRoom.cons hused.1 hrowlength hbelow, ?_⟩
    change List.zipWith (fun u s => u / √(1 - s)) row used ++ partials (ofPartials K rest _) rest =
      zs
    rw [hcancel, hpartials, List.take_append_drop]

/-- The product of a factor has ones on its diagonal. -/
theorem HasRoom.upperEntry_gram_self {K : Nat} {rows : List (List ℝ)}
    (h : HasRoom (List.replicate K 0) rows) {j : Nat} (hj : j < K) :
    upperEntry (gram rows) j j = 1 := by
  have hjused : j < (List.replicate K (0 : ℝ)).length := by rwa [List.length_replicate]
  obtain ⟨hlength, hrows⟩ := h.isTriangle
  rw [upperEntry_gram hrows le_rfl (hlength ▸ hjused), Finset.sum_range_succ,
    h.upperEntry_self hjused, Real.mul_self_sqrt (h.remaining_pos le_rfl hjused).le,
    remaining_replicate rows j hj]
  simp only [pow_two, add_sub_cancel]

/-! ## Putting a matrix together -/

/-- The upper factor that a reader builds from partial correlations on the scale of the inverse
hyperbolic tangent, row by row. -/
noncomputable def upperOf (K : Nat) (partials : List ℝ) : Matrix (Fin K) (Fin K) ℝ :=
  Matrix.of fun i j =>
    columnEntry (fun i j => Real.tanh ((partials[place K i j]?).getD 0)) j.val i.val

/-- The matrix that a reader puts together from factors: the product of the upper factor with
itself, multiplied by the scales on both sides. -/
noncomputable def composed (K : Nat) (f : Factors ℝ) : Matrix (Fin K) (Fin K) ℝ :=
  let scales : Matrix (Fin K) (Fin K) ℝ :=
    Matrix.diagonal fun i => Real.exp ((f.logScales[i.val]?).getD 0)
  scales * ((upperOf K f.partials)ᵀ * upperOf K f.partials) * scales

/-- The rows of a matrix. -/
def rowsOf {K : Nat} (M : Matrix (Fin K) (Fin K) ℝ) : List (List ℝ) :=
  List.ofFn fun i => List.ofFn fun j => M i j

theorem isSquare_rowsOf {K : Nat} (M : Matrix (Fin K) (Fin K) ℝ) : IsSquare K (rowsOf M) := by
  refine ⟨List.length_ofFn, fun row hrow => ?_⟩
  obtain ⟨i, rfl⟩ := List.mem_ofFn.mp hrow
  exact List.length_ofFn

theorem entry_rowsOf {K : Nat} (M : Matrix (Fin K) (Fin K) ℝ) (i j : Fin K) :
    entry (rowsOf M) i j = some (M i j) := by
  simp [entry, rowsOf]

theorem composed_comm {K : Nat} (f : Factors ℝ) (i j : Fin K) :
    composed K f i j = composed K f j i := by
  have hsymm : (composed K f)ᵀ = composed K f := by
    simp only [composed, Matrix.transpose_mul, Matrix.transpose_transpose,
      Matrix.diagonal_transpose, Matrix.mul_assoc]
  exact congrFun (congrFun hsymm j) i

theorem upperOf_eq {K : Nat} {rows : List (List ℝ)} {zs : List ℝ}
    (h : HasRoom (List.replicate K 0) rows)
    (hzs : partials rows (List.replicate K 0) = zs.map Real.tanh) :
    upperOf K zs = upperMatrix K rows := by
  ext i j
  refine h.columnEntry_eq (fun i j hij hj => ?_) j.isLt
  have hpartial := h.getElem?_partials hij (by rwa [List.length_replicate])
  rw [List.length_replicate, hzs, List.getElem?_map] at hpartial
  obtain ⟨z, hz, -⟩ := Option.map_eq_some_iff.mp hpartial
  rw [hzs, List.getElem?_map, hz]
  rfl

section

-- factors that belong to a triangle
variable {K : Nat} {triangle : List (List ℝ)} {f : Factors ℝ}
  (h : HasRoom (List.replicate K 0) triangle)
  (hf : partials triangle (List.replicate K 0) = f.partials.map Real.tanh)
  (hscales : f.logScales.length = K)

include h hf hscales

/-- Of the factors that belong to a triangle, the entries of the matrix are those of the product
of the triangle, multiplied by the scales. -/
theorem composed_of_le {i j : Fin K} (hij : i ≤ j) :
    composed K f i j =
      Real.exp f.logScales[i.val] * upperEntry (gram triangle) i j *
        Real.exp f.logScales[j.val] := by
  obtain ⟨hlength, hshape⟩ := h.isTriangle
  rw [List.length_replicate] at hlength
  simp only [composed, upperOf_eq h hf, Matrix.mul_diagonal, Matrix.diagonal_mul]
  rw [transpose_mul_upperMatrix hshape hlength hij, List.getElem?_eq_getElem (by omega),
    List.getElem?_eq_getElem (by omega), Option.getD_some, Option.getD_some]

/-- The variances are the squares of the scales. -/
theorem diagonal_composed :
    diagonal (rowsOf (composed K f)) = (f.logScales.map Real.exp).map fun s => s * s := by
  have hsquare := isSquare_rowsOf (composed K f)
  apply List.ext_getElem
  · rw [length_diagonal hsquare, List.length_map, List.length_map, hscales]
  · intro i hi hi'
    have hiK : i < K := length_diagonal hsquare ▸ hi
    have hentry := getElem?_diagonal hsquare i
    rw [entry_rowsOf _ ⟨i, hiK⟩ ⟨i, hiK⟩, List.getElem?_eq_getElem hi,
      composed_of_le h hf hscales le_rfl, h.upperEntry_gram_self hiK, mul_one] at hentry
    rw [Option.some.inj hentry, List.getElem_map, List.getElem_map]

/-- Divided by its scales the matrix is the product of the triangle. -/
theorem upperTriangle_standardize_composed :
    upperTriangle (standardize (rowsOf (composed K f)) (f.logScales.map Real.exp)) =
      gram triangle := by
  obtain ⟨hlength, hshape⟩ := h.isTriangle
  rw [List.length_replicate] at hlength
  obtain ⟨hgramlength, hgramshape⟩ := isTriangle_gram hshape
  have hK : (f.logScales.map Real.exp).length = K := by rw [List.length_map, hscales]
  have hsquare := isSquare_standardize (isSquare_rowsOf (composed K f)) hK
  have hupperlength := (length_upperTriangle
    (standardize (rowsOf (composed K f)) (f.logScales.map Real.exp))).trans hsquare.length
  refine (isTriangle_upperTriangle hsquare).ext hgramshape
    (by rw [hupperlength, hgramlength, hlength]) fun i j hij hj => ?_
  rw [hupperlength] at hj
  have hi : i < K := by omega
  have hs : (f.logScales.map Real.exp)[i]? = some (Real.exp f.logScales[i]) := by
    rw [List.getElem?_map, List.getElem?_eq_getElem, Option.map_some]
  have ht : (f.logScales.map Real.exp)[j]? = some (Real.exp f.logScales[j]) := by
    rw [List.getElem?_map, List.getElem?_eq_getElem, Option.map_some]
  rw [upperEntry_upperTriangle hsquare hij,
    entry_standardize (entry_rowsOf (composed K f) ⟨i, hi⟩ ⟨j, hj⟩) hs ht, Option.getD_some]
  by_cases heq : i = j
  · subst heq
    rw [if_pos rfl, h.upperEntry_gram_self hj]
  · have hcomposed := composed_of_le h hf hscales (i := ⟨i, hi⟩) (j := ⟨j, hj⟩) hij
    rw [if_neg heq, hcomposed]
    field_simp

end

/-- The matrix that is put together from the factors of a square is the symmetric one with its
upper triangle. -/
theorem composed_eq_mirrored {K : Nat} {rows : List (List ℝ)} (hrows : IsSquare K rows)
    {f : Factors ℝ} (h : ofCovariance rows = .ok f) : composed K f = mirrored K rows := by
  have hscales := (length_ofCovariance hrows h).2
  obtain ⟨triangle, hfactor, rfl⟩ := exists_isFactorOf_of_ok hrows h
  set roots := (diagonal rows).map Real.sqrt with hroots
  have hK : roots.length = K := hfactor.length_scales
  have hpartials : partials triangle (List.replicate K 0) = (ofUpper triangle).map Real.tanh := by
    rw [ofUpper, hfactor.isTriangle.1, List.map_map]
    refine (List.map_id _).symm.trans (List.map_congr_left fun z hz => ?_)
    exact (Real.tanh_artanh (abs_lt.mp (hfactor.room.abs_partials_lt_one z hz))).symm
  have hexp : ∀ i : Fin K, Real.exp (roots.map Real.log)[i.val] = roots[i.val] := by
    intro i
    rw [List.getElem_map, Real.exp_log (hfactor.scales_pos _ (List.getElem_mem _))]
  ext i j
  wlog hij : i ≤ j generalizing i j with hsymm
  · rw [composed_comm, hsymm j i (le_of_not_ge hij), mirrored_comm]
  have hi : roots[i.val] ≠ 0 := (hfactor.scales_pos _ (List.getElem_mem _)).ne'
  have hj : roots[j.val] ≠ 0 := (hfactor.scales_pos _ (List.getElem_mem _)).ne'
  have hentry : upperEntry (gram triangle) i j = mirrored K (standardize rows roots) i j := by
    rw [hfactor.gram_eq, upperEntry_upperTriangle hfactor.isSquare_standardize hij, mirrored,
      Matrix.of_apply, min_eq_left (Fin.val_le_of_le hij), max_eq_right (Fin.val_le_of_le hij)]
  rw [composed_of_le hfactor.room hpartials hscales hij, hexp, hexp, hentry,
    mirrored_standardize hrows hK (map_sqrt_mul_self hfactor.variances) fun s hs =>
      (hfactor.scales_pos s hs).ne']
  field_simp

/-- The matrix that is put together from factors has these factors. -/
theorem ofCovariance_composed {K : Nat} {f : Factors ℝ}
    (hpartials : f.partials.length = K * (K - 1) / 2) (hscales : f.logScales.length = K) :
    ofCovariance (rowsOf (composed K f)) = .ok f := by
  have hzs : ∀ z ∈ f.partials.map Real.tanh, |z| < 1 :=
    List.forall_mem_map.mpr fun x _ => Real.abs_tanh_lt_one x
  have hzeros : ∀ s ∈ List.replicate K (0 : ℝ), s < 1 := fun s hs => by
    rw [List.eq_of_mem_replicate hs]
    exact one_pos
  obtain ⟨hroom, htanh⟩ := partials_ofPartials List.length_replicate hzeros
    (by rw [List.length_map, hpartials]) hzs
  have hlength := hroom.isTriangle.1
  rw [List.length_replicate] at hlength
  have hdiagonal := diagonal_composed hroom htanh hscales
  have hpos : ∀ v ∈ diagonal (rowsOf (composed K f)), 0 < v := by
    rw [hdiagonal, List.map_map]
    exact List.forall_mem_map.mpr fun x _ => mul_pos (Real.exp_pos x) (Real.exp_pos x)
  have hroots : (diagonal (rowsOf (composed K f))).map Real.sqrt = f.logScales.map Real.exp := by
    rw [hdiagonal, List.map_map]
    refine (List.map_congr_left fun s hs => ?_).trans (List.map_id _)
    obtain ⟨x, -, rfl⟩ := List.mem_map.mp hs
    exact Real.sqrt_mul_self (Real.exp_pos x).le
  have hlogs : (f.logScales.map Real.exp).map Real.log = f.logScales := by
    rw [List.map_map]
    exact List.map_id'' Real.log_exp f.logScales
  have hofUpper : ofUpper (ofPartials K (List.replicate K 0) (f.partials.map Real.tanh)) =
      f.partials := by
    rw [ofUpper, hlength, htanh, List.map_map]
    exact List.map_id'' Real.artanh_tanh f.partials
  rw [ofCovariance_of_pos hpos, hroots, upperTriangle_standardize_composed hroom htanh hscales,
    hroom.cholesky_gram, Option.elim_some, hlogs, hofUpper]

/-- Taking a matrix apart and putting one together are inverse to each other.  From the factors
of a square, which need not be symmetric, comes the symmetric matrix with the upper triangle of
the square; and any partial correlations and scales, as many as there are places for, are the
factors of the matrix that is put together from them. -/
theorem composed_inverse (K : Nat) :
    (∀ (rows : List (List ℝ)) (f : Factors ℝ), IsSquare K rows → ofCovariance rows = .ok f →
      composed K f = mirrored K rows) ∧
    (∀ f : Factors ℝ, f.partials.length = K * (K - 1) / 2 → f.logScales.length = K →
      ofCovariance (rowsOf (composed K f)) = .ok f) :=
  ⟨fun _ _ hrows h => composed_eq_mirrored hrows h,
    fun _ hpartials hscales => ofCovariance_composed hpartials hscales⟩

/-- A matrix with correlation one half on one side of its diagonal and none on the other. -/
theorem composed_inverse_asymmetric :
    let rows : List (List ℝ) := [[4, 1], [0, 1]]
    let f : Factors ℝ := ⟨[Real.artanh (1 / 2)], [Real.log 2, 0]⟩
    IsSquare 2 rows ∧ ofCovariance rows = .ok f ∧ composed 2 f = !![4, 1; 1, 1] ∧
      ofCovariance (rowsOf (composed 2 f)) = .ok f := by
  intro rows f
  have hsquare : IsSquare 2 rows := ⟨rfl, by simp [rows]⟩
  have hroot : √(4 : ℝ) = 2 := by
    rw [show (4 : ℝ) = 2 ^ 2 by norm_num]
    exact Real.sqrt_sq two_pos.le
  have hf : ofCovariance rows = .ok f := by
    have hstandard : upperTriangle (standardize rows [2, 1]) = [[1, 1 / 2], [1]] := by
      norm_num [rows, standardize, upperTriangle]
    have hroots : (diagonal rows).map Real.sqrt = [2, 1] := by
      simp [rows, diagonal, hroot]
    have hpos : ∀ v ∈ diagonal rows, 0 < v := by simp [rows, diagonal]
    have hfactor : cholesky [[(1 : ℝ), 1 / 2], [1]] = some [[1, 1 / 2], [√(3 / 4)]] := by
      norm_num [cholesky, eliminate, Elementary.sqrt]
    rw [ofCovariance_of_pos hpos, hroots, hstandard, hfactor]
    simp [ofUpper, partials, f, Elementary.sqrt, Elementary.atanh]
  have hmirrored : mirrored 2 rows = !![4, 1; 1, 1] := by
    ext i j
    fin_cases i <;> fin_cases j <;> rfl
  exact ⟨hsquare, hf, ((composed_inverse 2).1 rows f hsquare hf).trans hmirrored,
    (composed_inverse 2).2 f rfl rfl⟩

end EnsembleSampling.Factor
