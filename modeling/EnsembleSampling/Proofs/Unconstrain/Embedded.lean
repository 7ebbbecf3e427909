import EnsembleSampling.Proofs.Unconstrain.Columns
set_option autoImplicit false

/-!
# Factoring on the exact scale

A matrix of real numbers is factored on the exact scale as it is over the real numbers
(`ofCovariance_map_real`): wherever a root is taken or a quotient formed, what stands there is
positive.  The partial correlations are between minus one and one, so no infinity and nothing
that is no number comes up, and the correlation matrix can be rebuilt from them.
-/

namespace EnsembleSampling.Factor

open Extended (real)

/-! ## Lists and matrices -/

theorem zipWith_map_real {f : Extended → Extended → Extended} {g : ℝ → ℝ → ℝ} {xs ys : List ℝ}
    (h : ∀ x, ∀ y ∈ ys, f (real x) (real y) = real (g x y)) :
    List.zipWith f (xs.map real) (ys.map real) = (List.zipWith g xs ys).map real := by
  induction xs generalizing ys with
  | nil => rfl
  | cons x xs ih =>
    cases ys with
    | nil => rfl
    | cons y ys =>
      have hrest := ih fun x z hz => h x z (List.mem_cons_of_mem y hz)
      simp only [List.map_cons, List.zipWith_cons_cons, h x y List.mem_cons_self, hrest]

theorem replicate_zero_real (K : Nat) :
    List.replicate K (0 : Extended) = (List.replicate K (0 : ℝ)).map real := by
  rw [List.map_replicate]
  rfl

theorem diagonal_map {α β : Type} (f : α → β) (rows : List (List α)) :
    diagonal (rows.map (List.map f)) = (diagonal rows).map f := by
  unfold diagonal
  rw [List.zipIdx_map, List.filterMap_map, List.map_filterMap]
  congr 1
  funext p
  simp

theorem upperTriangle_map {α β : Type} (f : α → β) (rows : List (List α)) :
    upperTriangle (rows.map (List.map f)) = (upperTriangle rows).map (List.map f) := by
  unfold upperTriangle
  rw [List.zipIdx_map, List.map_map, List.map_map]
  congr 1
  funext p
  simp

theorem reflect_map {α β : Type} (f : α → β) (rows : List (List α)) :
    reflect (rows.map (List.map f)) = (reflect rows).map (List.map f) := by
  induction rows with
  | nil => rfl
  | cons row below ih =>
    cases row with
    | nil => rfl
    | cons x xs =>
      rw [List.map_cons, List.map_cons, reflect, ih, reflect, List.map_cons, List.map_cons,
        List.zipWith_map, List.map_zipWith]
      rfl

theorem standardize_map_real {rows : List (List ℝ)} {scales : List ℝ}
    (h : ∀ s ∈ scales, s ≠ 0) :
    standardize (rows.map (List.map real)) (scales.map real) =
      (standardize rows scales).map (List.map real) := by
  unfold standardize
  rw [List.zip_map, List.zipIdx_map, List.map_map, List.map_map]
  refine List.map_congr_left fun ⟨⟨row, s⟩, i⟩ hrow => ?_
  have hs : s ∈ scales := (List.of_mem_zip (List.fst_mem_of_mem_zipIdx hrow)).2
  simp only [Function.comp, Prod.map]
  rw [List.zip_map, List.zipIdx_map, List.map_map, List.map_map]
  refine List.map_congr_left fun ⟨⟨x, t⟩, j⟩ hx => ?_
  have ht : t ∈ scales := (List.of_mem_zip (List.fst_mem_of_mem_zipIdx hx)).2
  simp only [Function.comp, Prod.map, id]
  split
  · rfl
  · rw [Extended.real_mul_real, Extended.real_div_real x (mul_ne_zero (h s hs) (h t ht))]

theorem rescale_map_real (rows : List (List ℝ)) (scales : List ℝ) :
    rescale (rows.map (List.map real)) (scales.map real) =
      (rescale rows scales).map (List.map real) := by
  simp [rescale, List.zip_map, Function.comp_def]

theorem eliminate_map_real (u : List ℝ) (rows : List (List ℝ)) :
    eliminate (u.map real) (rows.map (List.map real)) =
      (eliminate u rows).map (List.map real) := by
  induction u generalizing rows with
  | nil => rfl
  | cons c cs ih =>
    cases rows with
    | nil => rfl
    | cons row rows =>
      have hrow : List.zipWith (fun x v => x - real c * v) (row.map real) ((c :: cs).map real) =
          (List.zipWith (fun x v => x - c * v) row (c :: cs)).map real :=
        zipWith_map_real fun x v _ => by simp
      simp only [List.map_cons, eliminate, ih] at hrow ⊢
      rw [hrow]

theorem restore_map_real (u : List ℝ) (rows : List (List ℝ)) :
    restore (u.map real) (rows.map (List.map real)) = (restore u rows).map (List.map real) := by
  induction u generalizing rows with
  | nil => rfl
  | cons c cs ih =>
    cases rows with
    | nil => rfl
    | cons row rows =>
      have hrow : List.zipWith (fun x v => x + real c * v) (row.map real) ((c :: cs).map real) =
          (List.zipWith (fun x v => x + c * v) row (c :: cs)).map real :=
        zipWith_map_real fun x v _ => by simp
      simp only [List.map_cons, restore, ih] at hrow ⊢
      rw [hrow]

theorem gram_map_real (rows : List (List ℝ)) :
    gram (rows.map (List.map real)) = (gram rows).map (List.map real) := by
  induction rows with
  | nil => rfl
  | cons row below ih =>
    cases row with
    | nil => rfl
    | cons root u => simp [gram, ih, restore_map_real]

/-! ## The factor -/

theorem cholesky_map_real (rows : List (List ℝ)) :
    cholesky (rows.map (List.map real)) =
      (cholesky rows).map (List.map (List.map real)) := by
  obtain ⟨n, hn⟩ : ∃ n, rows.length ≤ n := ⟨_, le_rfl⟩
  induction n generalizing rows with
  | zero =>
    obtain rfl := List.length_eq_zero_iff.mp (Nat.le_zero.mp hn)
    rw [List.map_nil, cholesky_nil, cholesky_nil]
    rfl
  | succ n ih =>
    match rows, hn with
    | [], _ =>
      rw [List.map_nil, cholesky_nil, cholesky_nil]
      rfl
    | [] :: below, _ =>
      rw [List.map_cons, List.map_nil, cholesky, cholesky]
      rfl
    | (pivot :: right) :: below, hn =>
      rw [List.map_cons, List.map_cons, cholesky_cons, cholesky_cons]
      by_cases hpivot : pivot ≤ 0
      · have hpivot' : real pivot ≤ 0 := Extended.real_le_real.mpr hpivot
        rw [if_pos hpivot, if_pos hpivot']
        rfl
      · have hpivot' : ¬ real pivot ≤ 0 := fun h => hpivot (Extended.real_le_real.mp h)
        have hroot : Elementary.sqrt (real pivot) = real (Elementary.sqrt pivot) :=
          Extended.sqrt_real (not_le.mp hpivot).le
        have hne : Elementary.sqrt pivot ≠ 0 := (Real.sqrt_pos.mpr (not_le.mp hpivot)).ne'
        have hu : (right.map real).map (· / real (Elementary.sqrt pivot)) =
            (right.map (· / Elementary.sqrt pivot)).map real := by
          rw [List.map_map, List.map_map]
          refine List.map_congr_left fun x _ => ?_
          exact Extended.real_div_real x hne
        have hlength := (length_eliminate_le (right.map (· / Elementary.sqrt pivot)) below).trans
          (Nat.le_of_succ_le_succ hn)
        rw [if_neg hpivot, if_neg hpivot', hroot, hu, eliminate_map_real, ih _ hlength,
          Option.map_map, Option.map_map]
        rfl

/-- Below a row the columns have used what they had and the squares of the entries of the row. -/
theorem used_map_real (used u : List ℝ) :
    List.zipWith (fun s u => s + u * u) (used.map real) (u.map real) =
      (List.zipWith (fun s u => s + u * u) used u).map real :=
  zipWith_map_real fun s u _ => by simp

/-- Partial correlations are real numbers as long as every column has something left above the
diagonal. -/
theorem partials_map_real {used : List ℝ} {rows : List (List ℝ)}
    (hlength : rows.length = used.length) (hrows : IsTriangle rows)
    (hpos : ∀ i j, i < j → j < used.length → 0 < remaining used rows i j) :
    partials (rows.map (List.map real)) (used.map real) = (partials rows used).map real := by
  induction rows generalizing used with
  | nil => rfl
  | cons row rows ih =>
    obtain ⟨root, u, rfl, hu, hrows⟩ := hrows.cons
    obtain ⟨s, used, rfl⟩ := List.exists_cons_of_length_eq_add_one hlength.symm
    have hused : rows.length = used.length := Nat.succ.inj hlength
    have length : u.length = used.length := hu.trans hused
    have hbelow : (List.zipWith (fun s u => s + u * u) used u).length = used.length := by
      rw [List.length_zipWith, length, Nat.min_self]
    have hrest := ih (hused.trans hbelow.symm) hrows fun i j hij hj => by
      rw [hbelow] at hj
      have hnext := hpos (i + 1) (j + 1) (Nat.succ_lt_succ hij) (Nat.succ_lt_succ hj)
      rwa [remaining_succ length i hj] at hnext
    have hrow :
        List.zipWith (fun u s => u / Elementary.sqrt (1 - s)) (u.map real) (used.map real) =
          (List.zipWith (fun u s => u / Elementary.sqrt (1 - s)) u used).map real := by
      refine zipWith_map_real fun x t ht => ?_
      obtain ⟨j, hj, rfl⟩ := List.mem_iff_getElem.mp ht
      have hroom : 0 < 1 - used[j] := by
        have hfirst := hpos 0 (j + 1) (Nat.succ_pos j) (Nat.succ_lt_succ hj)
        simpa [remaining, hj] using hfirst
      have hne : Elementary.sqrt (1 - used[j]) ≠ 0 := (Real.sqrt_pos.mpr hroom).ne'
      rw [← Extended.real_one, Extended.real_sub_real, Extended.sqrt_real hroom.le,
        Extended.real_div_real x hne]
    simp only [List.map_cons, partials_cons, List.drop_one, List.tail_cons, List.map_append,
      used_map_real, hrow, hrest]

namespace HasRoom

variable {used : List ℝ} {factor : List (List ℝ)}

theorem partials_map_real (h : HasRoom used factor) :
    partials (factor.map (List.map real)) (used.map real) = (partials factor used).map real :=
  Factor.partials_map_real h.isTriangle.1 h.isTriangle.2 fun _ _ hij hj =>
    h.remaining_pos hij.le hj

/-- The partial correlations of a factor give the factor again. -/
theorem ofPartials_map_real (h : HasRoom used factor) :
    ofPartials used.length (used.map real) ((partials factor used).map real) =
      factor.map (List.map real) := by
  induction h with
  | nil => rfl
  | @cons s used u rest room length below ih =>
    have hlength :
        ((List.zipWith (fun u s => u / Elementary.sqrt (1 - s)) u used).map real).length =
          used.length := by
      rw [List.length_map, List.length_zipWith, length, Nat.min_self]
    have hbelow : (List.zipWith (fun s u => s + u * u) used u).length = used.length := by
      rw [List.length_zipWith, length, Nat.min_self]
    have hroot : Elementary.sqrt (1 - real s) = real (Real.sqrt (1 - s)) := by
      rw [← Extended.real_one, Extended.real_sub_real]
      exact Extended.sqrt_real (sub_pos.mpr room).le
    have hrow : List.zipWith (fun z s => z * Elementary.sqrt (1 - s))
        ((List.zipWith (fun u s => u / Elementary.sqrt (1 - s)) u used).map real)
        (used.map real) = u.map real := by
      have hroom : ∀ t ∈ used, 0 < 1 - t := fun t ht =>
        sub_pos.mpr ((cons room length below).lt_one t (List.mem_cons_of_mem _ ht))
      rw [zipWith_map_real (g := fun z s => z * Elementary.sqrt (1 - s)) fun z t ht => ?_,
        zipWith_cancel length fun x t ht => ?_]
      · exact div_mul_cancel₀ x (Real.sqrt_pos.mpr (hroom t ht)).ne'
      · rw [← Extended.real_one, Extended.real_sub_real, Extended.sqrt_real (hroom t ht).le,
          Extended.real_mul_real]
    rw [hbelow] at ih
    simp only [partials_cons, List.drop_one, List.tail_cons, List.length_cons, List.map_cons,
      List.map_append, ofPartials, List.take_left' hlength, List.drop_left' hlength, hrow, hroot,
      used_map_real, ih]

end HasRoom

/-! ## The factors -/

/-- Partial correlations between minus one and one, one for each entry above the diagonal, and
positive scales that a matrix is taken apart into: the variances are the squares of the scales,
and of a symmetric matrix the correlation matrix is rebuilt from the partial correlations. -/
structure IsFactored (K : Nat) (rows : List (List ℝ)) (zs scales : List ℝ) : Prop where
  length : zs.length = K * (K - 1) / 2
  abs_lt_one : ∀ z ∈ zs, |z| < 1
  pos : ∀ s ∈ scales, 0 < s
  variances : diagonal rows = scales.map fun s => s * s
  rebuilt : IsSymmetric rows →
    correlationOf K (zs.map real) = (standardize rows scales).map (List.map real)

/-- A matrix of real numbers that is taken apart on the exact scale has positive variances, and a
factor over the real numbers. -/
theorem exists_cholesky_of_map_real {rows : List (List ℝ)} {f : Factors Extended}
    (h : ofCovariance (rows.map (List.map real)) = .ok f) :
    (∀ v ∈ diagonal rows, 0 < v) ∧ ∃ triangle,
      cholesky (upperTriangle (standardize rows ((diagonal rows).map Real.sqrt))) =
        some triangle ∧
      f = ⟨ofUpper (triangle.map (List.map real)),
        (((diagonal rows).map Real.sqrt).map real).map Elementary.log⟩ := by
  obtain ⟨hvariances, -, triangle', htriangle, rfl⟩ := ofCovariance_eq_ok h
  rw [diagonal_map] at hvariances htriangle ⊢
  have hpos : ∀ v ∈ diagonal rows, 0 < v := fun v hv =>
    Extended.real_lt_real.mp (hvariances _ (List.mem_map_of_mem hv))
  have hroots : ((diagonal rows).map real).map Elementary.sqrt =
      ((diagonal rows).map Real.sqrt).map real := by
    rw [List.map_map, List.map_map]
    exact List.map_congr_left fun v hv => Extended.sqrt_real (hpos v hv).le
  have hscales : ∀ s ∈ (diagonal rows).map Real.sqrt, s ≠ 0 :=
    List.forall_mem_map.mpr fun v hv => (Real.sqrt_pos.mpr (hpos v hv)).ne'
  rw [hroots, standardize_map_real hscales, upperTriangle_map, cholesky_map_real] at htriangle
  obtain ⟨triangle, hfactor, rfl⟩ := Option.map_eq_some_iff.mp htriangle
  exact ⟨hpos, triangle, hfactor, by rw [hroots]⟩

/-- On the exact scale a matrix of real numbers is taken apart into real numbers. -/
theorem ofCovariance_map_real {K : Nat} {rows : List (List ℝ)} (hrows : IsSquare K rows)
    {f : Factors Extended} (h : ofCovariance (rows.map (List.map real)) = .ok f) :
    ∃ zs scales : List ℝ, IsFactored K rows zs scales ∧
      f.partials = (zs.map real).map Elementary.atanh ∧
      f.logScales = (scales.map real).map Elementary.log := by
  obtain ⟨hpos, triangle, hfactor, rfl⟩ := exists_cholesky_of_map_real h
  set scales := (diagonal rows).map Real.sqrt with hscales
  have hscalespos : ∀ s ∈ scales, 0 < s :=
    List.forall_mem_map.mpr fun v hv => Real.sqrt_pos.mpr (hpos v hv)
  have hK : scales.length = K := by rw [hscales, List.length_map, length_diagonal hrows]
  have hsquare := isSquare_standardize hrows hK
  have hupper := (length_upperTriangle (standardize rows scales)).trans hsquare.length
  obtain ⟨hlength, hshape⟩ :=
    isTriangle_of_cholesky hupper (isTriangle_upperTriangle hsquare) hfactor
  have hroom := hasRoom_of_ones hsquare (diagonal_standardize hrows hK) hfactor
  have hzeros := replicate_zero_real K
  refine ⟨partials triangle (List.replicate K 0), scales,
    ⟨length_partials hlength hshape List.length_replicate, hroom.abs_partials_lt_one, hscalespos,
      ?_, fun hsymmetric => ?_⟩, ?_, ?_⟩
  · rw [hscales, List.map_map]
    refine (List.map_id _).symm.trans (List.map_congr_left fun v hv => ?_)
    exact (Real.mul_self_sqrt (hpos v hv).le).symm
  · have hofPartials := hroom.ofPartials_map_real
    rw [List.length_replicate] at hofPartials
    rw [correlationOf, hzeros, hofPartials, gram_map_real, reflect_map,
      gram_of_cholesky hupper (isTriangle_upperTriangle hsquare) hfactor,
      reflect_upperTriangle hsquare (isSymmetric_standardize hrows hK hsymmetric)]
  · change ofUpper _ = _
    rw [ofUpper, List.length_map, hlength, hzeros, hroom.partials_map_real]
  · rfl

end EnsembleSampling.Factor
