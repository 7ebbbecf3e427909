import EnsembleSampling.Proofs.Unconstrain.Domain
set_option autoImplicit false

/-!
# Partial correlations by conditioning

The partial correlations that a matrix is taken apart into are computed by elimination.  The
classical recursion computes them by conditioning on one variable after the other
(`partialCorrelation`).  The two are tied together by what elimination has left of the correlations
after some rows of the factor (`residual`): divided by the roots of its diagonal this is the
partial correlation given the variables of these rows (`IsUpperFactor.partialCorrelation_eq`), and
at the next row it is the entry of the factor there.
-/

namespace EnsembleSampling.Factor

/-- The correlation of two variables given the first `k`, from the correlations of all of them. -/
noncomputable def partialCorrelation (R : Nat → Nat → ℝ) : Nat → Nat → Nat → ℝ
  | 0, i, j => R i j
  | k + 1, i, j =>
    (partialCorrelation R k i j - partialCorrelation R k i k * partialCorrelation R k j k) /
      √((1 - partialCorrelation R k i k ^ 2) * (1 - partialCorrelation R k j k ^ 2))

/-- The correlations given the first variables depend on those among these and the two. -/
theorem partialCorrelation_congr {R R' : Nat → Nat → ℝ} {T : Nat → Prop}
    (hR : ∀ a b, T a → T b → R a b = R' a b) {k : Nat} (hk : ∀ l < k, T l) {i j : Nat} (hi : T i)
    (hj : T j) : partialCorrelation R k i j = partialCorrelation R' k i j := by
  induction k generalizing i j with
  | zero => exact hR i j hi hj
  | succ k ih =>
    have hbelow : ∀ l < k, T l := fun l hl => hk l (Nat.lt_succ_of_lt hl)
    have hlast : T k := hk k (Nat.lt_succ_self k)
    rw [partialCorrelation, partialCorrelation, ih hbelow hi hj, ih hbelow hi hlast,
      ih hbelow hj hlast]

/-! ## What elimination has left -/

/-- The symmetric matrix `R` has ones on its diagonal, and is `Uᵀ U` for an upper triangular
matrix with a positive diagonal. -/
structure IsUpperFactor (K : Nat) (R U : Nat → Nat → ℝ) : Prop where
  symm : ∀ i j, R i j = R j i
  ones : ∀ i < K, R i i = 1
  product : ∀ i j, i ≤ j → j < K → R i j = ∑ k ∈ Finset.range (i + 1), U k i * U k j
  pos : ∀ i < K, 0 < U i i

/-- What is left of a matrix after the first `k` rows of a factor. -/
def residual (R U : Nat → Nat → ℝ) (k i j : Nat) : ℝ :=
  R i j - ∑ l ∈ Finset.range k, U l i * U l j

/-- Conditioning on one variable, in terms of what is left: of the pair `x`, of the pair with the
variable `s` and `t`, and of the three alone `a`, `b` and `p`. -/
theorem conditioned_eq {a b p x s t : ℝ} (ha : 0 < a) (hb : 0 < b) (hp : 0 < p) :
    (x / √(a * b) - s / √(a * p) * (t / √(b * p))) /
        √((1 - (s / √(a * p)) ^ 2) * (1 - (t / √(b * p)) ^ 2)) =
      (x - s * t / p) / √((a - s * s / p) * (b - t * t / p)) := by
  have hab : 0 < √(a * b) := Real.sqrt_pos.mpr (mul_pos ha hb)
  have hnumerator : x / √(a * b) - s / √(a * p) * (t / √(b * p)) = (x - s * t / p) / √(a * b) := by
    have hroots : √(a * p) * √(b * p) = √(a * b) * p := by
      rw [← Real.sqrt_mul (mul_pos ha hp).le, show a * p * (b * p) = a * b * (p * p) by ring,
        Real.sqrt_mul (mul_pos ha hb).le, Real.sqrt_mul_self hp.le]
    rw [div_mul_div_comm, hroots]
    field_simp
  have hdenominator : √((1 - (s / √(a * p)) ^ 2) * (1 - (t / √(b * p)) ^ 2)) =
      √((a - s * s / p) * (b - t * t / p)) / √(a * b) := by
    rw [← Real.sqrt_div' _ (mul_pos ha hb).le, div_pow, div_pow, Real.sq_sqrt (mul_pos ha hp).le,
      Real.sq_sqrt (mul_pos hb hp).le]
    congr 1
    field_simp
  rw [hnumerator, hdenominator, div_div_div_cancel_right₀ hab.ne']

namespace IsUpperFactor

variable {K : Nat} {R U : Nat → Nat → ℝ} (h : IsUpperFactor K R U)

include h

theorem residual_comm (k i j : Nat) : residual R U k i j = residual R U k j i := by
  rw [residual, residual, h.symm i j]
  congr 1
  exact Finset.sum_congr rfl fun l _ => mul_comm _ _

/-- After the rows above it, a row is left as a multiple of the row of the factor. -/
theorem residual_corner {k j : Nat} (hkj : k ≤ j) (hj : j < K) :
    residual R U k k j = U k k * U k j := by
  rw [residual, h.product k j hkj hj, Finset.sum_range_succ, add_sub_cancel_left]

/-- Down to the diagonal something is left of every variable. -/
theorem residual_self_pos {k i : Nat} (hki : k ≤ i) (hi : i < K) : 0 < residual R U k i i := by
  have habove : ∑ l ∈ Finset.range k, U l i * U l i ≤ ∑ l ∈ Finset.range i, U l i * U l i :=
    Finset.sum_le_sum_of_subset_of_nonneg (Finset.range_subset_range.mpr hki)
      fun l _ _ => mul_self_nonneg (U l i)
  rw [residual, h.product i i le_rfl hi, Finset.sum_range_succ]
  nlinarith [h.pos i hi]

/-- One more row takes from what is left the product of its correlations with the row. -/
theorem residual_succ {k i j : Nat} (hki : k ≤ i) (hi : i < K) (hkj : k ≤ j) (hj : j < K) :
    residual R U (k + 1) i j =
      residual R U k i j - residual R U k i k * residual R U k j k / residual R U k k k := by
  have hk : k < K := Nat.lt_of_le_of_lt hki hi
  have hpivot : U k k ≠ 0 := (h.pos k hk).ne'
  rw [h.residual_comm k i k, h.residual_comm k j k, h.residual_corner hki hi,
    h.residual_corner hkj hj, h.residual_corner le_rfl hk, residual, residual,
    Finset.sum_range_succ]
  field_simp
  ring

/-- What is left of a pair, divided by the roots of what is left of the two, is their correlation
given the variables of the rows that were taken. -/
theorem partialCorrelation_eq {k i j : Nat} (hki : k ≤ i) (hi : i < K) (hkj : k ≤ j) (hj : j < K) :
    partialCorrelation R k i j =
      residual R U k i j / √(residual R U k i i * residual R U k j j) := by
  induction k generalizing i j with
  | zero => simp [partialCorrelation, residual, h.ones i hi, h.ones j hj]
  | succ k ih =>
    have hk : k < K := Nat.lt_of_le_of_lt (Nat.le_of_succ_le hki) hi
    have hki' : k ≤ i := Nat.le_of_succ_le hki
    have hkj' : k ≤ j := Nat.le_of_succ_le hkj
    rw [partialCorrelation, ih hki' hi hkj' hj, ih hki' hi le_rfl hk, ih hkj' hj le_rfl hk,
      conditioned_eq (h.residual_self_pos hki' hi) (h.residual_self_pos hkj' hj)
        (h.residual_self_pos le_rfl hk),
      h.residual_succ hki' hi hkj' hj, h.residual_succ hki' hi hki' hi,
      h.residual_succ hkj' hj hkj' hj]

/-- The correlation of two variables given all before the first is the entry of the factor over the
root of what is left of the second. -/
theorem partialCorrelation_row {i j : Nat} (hij : i ≤ j) (hj : j < K) :
    partialCorrelation R i i j = U i j / √(residual R U i j j) := by
  have hi : i < K := Nat.lt_of_le_of_lt hij hj
  have hpos := h.pos i hi
  rw [h.partialCorrelation_eq le_rfl hi hij hj, h.residual_corner hij hj,
    h.residual_corner le_rfl hi, Real.sqrt_mul (mul_self_nonneg _), Real.sqrt_mul_self hpos.le,
    mul_div_mul_left _ _ hpos.ne']

end IsUpperFactor

/-! ## Correlations of a matrix -/

/-- The entries of the symmetric matrix with the upper triangle of a square. -/
def covariance (rows : List (List ℝ)) (i j : Nat) : ℝ := (entry rows (min i j) (max i j)).getD 0

/-- The correlation of two variables, from their covariance. -/
noncomputable def correlation (rows : List (List ℝ)) (i j : Nat) : ℝ :=
  covariance rows i j / (√(covariance rows i i) * √(covariance rows j j))

theorem covariance_comm (rows : List (List ℝ)) (i j : Nat) :
    covariance rows i j = covariance rows j i := by
  rw [covariance, covariance, min_comm, max_comm]

theorem entry_eq_covariance {K : Nat} {rows : List (List ℝ)} (hrows : IsSquare K rows) {i j : Nat}
    (hij : i ≤ j) (hj : j < K) : entry rows i j = some (covariance rows i j) := by
  obtain ⟨x, hx⟩ := hrows.exists_entry (Nat.lt_of_le_of_lt hij hj) hj
  rw [covariance, min_eq_left hij, max_eq_right hij, hx, Option.getD_some]

namespace IsFactorOf

variable {K : Nat} {rows triangle : List (List ℝ)} (h : IsFactorOf K rows triangle)

include h

theorem variance_pos {i : Nat} (hi : i < K) : 0 < covariance rows i i := by
  refine h.variances _ (List.mem_of_getElem? (i := i) ?_)
  rw [getElem?_diagonal h.square, entry_eq_covariance h.square le_rfl hi]

theorem getElem?_scales {i : Nat} (hi : i < K) :
    ((diagonal rows).map Real.sqrt)[i]? = some √(covariance rows i i) := by
  rw [List.getElem?_map, getElem?_diagonal h.square, entry_eq_covariance h.square le_rfl hi,
    Option.map_some]

/-- The diagonal of the factor is positive. -/
theorem upperEntry_self_pos {i : Nat} (hi : i < K) : 0 < upperEntry triangle i i := by
  have hiused : i < (List.replicate K (0 : ℝ)).length := by rwa [List.length_replicate]
  rw [h.room.upperEntry_self hiused]
  exact Real.sqrt_pos.mpr (h.room.remaining_pos le_rfl hiused)

/-- The factor is that of the correlations. -/
theorem isUpperFactor : IsUpperFactor K (correlation rows) (upperEntry triangle) := by
  have hones : ∀ i < K, correlation rows i i = 1 := by
    intro i hi
    have hpos := h.variance_pos hi
    rw [correlation, Real.mul_self_sqrt hpos.le, div_self hpos.ne']
  refine ⟨fun i j => ?_, hones, fun i j hij hj => ?_, fun i hi => h.upperEntry_self_pos hi⟩
  · rw [correlation, correlation, covariance_comm, mul_comm]
  · have hi : i < K := Nat.lt_of_le_of_lt hij hj
    obtain ⟨hlength, htriangle⟩ := h.isTriangle
    rw [← upperEntry_gram htriangle hij (hlength ▸ hj), h.gram_eq,
      upperEntry_upperTriangle h.isSquare_standardize hij,
      entry_standardize (entry_eq_covariance h.square hij hj) (h.getElem?_scales hi)
        (h.getElem?_scales hj), Option.getD_some]
    split
    · rename_i heq
      subst heq
      exact hones i hi
    · rfl

/-- The entry at the place of `(i, j)`, brought back from its scale, is the correlation given all
variables before `i`. -/
theorem exists_tanh_eq_partialCorrelation {i j : Nat} (hij : i < j) (hj : j < K) :
    ∃ z, (ofUpper triangle)[place K i j]? = some z ∧
      Real.tanh z = partialCorrelation (correlation rows) i i j := by
  obtain ⟨-, habs⟩ := h.remaining_pos_and_abs_lt_one hij hj
  have hresidual : residual (correlation rows) (upperEntry triangle) i j j =
      remaining (List.replicate K 0) triangle i j := by
    rw [residual, h.isUpperFactor.ones j hj, remaining_replicate triangle i hj]
    simp only [pow_two]
  refine ⟨_, h.getElem?_ofUpper hij hj, ?_⟩
  rw [Real.tanh_artanh (abs_lt.mp habs), h.isUpperFactor.partialCorrelation_row hij.le hj,
    hresidual]

end IsFactorOf

/-- Correlations are the same where the entries they are made of are. -/
theorem correlation_congr {rows rows' : List (List ℝ)} {T : Nat → Prop}
    (hentries : ∀ a b, a ≤ b → T a → T b → entry rows a b = entry rows' a b) (a b : Nat) (ha : T a)
    (hb : T b) : correlation rows a b = correlation rows' a b := by
  have hcovariance : ∀ a b, T a → T b → covariance rows a b = covariance rows' a b := by
    intro a b ha hb
    rcases Nat.le_total a b with hab | hba
    · rw [covariance, covariance, min_eq_left hab, max_eq_right hab, hentries a b hab ha hb]
    · rw [covariance, covariance, min_eq_right hba, max_eq_left hba, hentries b a hba hb ha]
  rw [correlation, correlation, hcovariance a b ha hb, hcovariance a a ha ha,
    hcovariance b b hb hb]

/-- **Each partial correlation is one.**  Let the symmetric matrix with the upper triangle of a
square be positive definite.  It has factors, and the one at the place of `(i, j)` is, on the scale
of the inverse hyperbolic tangent, the correlation of `i` and `j` given all variables before `i`,
by the recursion that conditions on one variable after the other.

It depends on the entries among the variables up to `i` and `j` alone: any square with the same
entries there, of any size, has the same partial correlation at its place of `(i, j)`. -/
theorem ofCovariance_partialCorrelation {K : Nat} {rows : List (List ℝ)} (hrows : IsSquare K rows)
    (hdefinite : (mirrored K rows).PosDef) :
    ∃ f, ofCovariance rows = .ok f ∧
      (∀ i j, i < j → j < K → ∃ z, f.partials[place K i j]? = some z ∧
        Real.tanh z = partialCorrelation (correlation rows) i i j) ∧
      ∀ (K' : Nat) (rows' : List (List ℝ)) (f' : Factors ℝ), IsSquare K' rows' →
        ofCovariance rows' = .ok f' → ∀ i j, i < j → j < K → j < K' →
        (∀ a b, a ≤ b → (a ≤ i ∨ a = j) → (b ≤ i ∨ b = j) → entry rows a b = entry rows' a b) →
        f'.partials[place K' i j]? = f.partials[place K i j]? := by
  obtain ⟨triangle, h⟩ := exists_isFactorOf hrows hdefinite
  refine ⟨_, h.ofCovariance_eq, fun i j hij hj => h.exists_tanh_eq_partialCorrelation hij hj, ?_⟩
  intro K' rows' f' hrows' hf' i j hij hj hj' hentries
  obtain ⟨triangle', h', rfl⟩ := exists_isFactorOf_of_ok hrows' hf'
  obtain ⟨z, hz, htanh⟩ := h.exists_tanh_eq_partialCorrelation hij hj
  obtain ⟨z', hz', htanh'⟩ := h'.exists_tanh_eq_partialCorrelation hij hj'
  have hcorrelations : partialCorrelation (correlation rows) i i j =
      partialCorrelation (correlation rows') i i j := by
    refine partialCorrelation_congr (T := fun a => a ≤ i ∨ a = j) ?_ ?_ (.inl le_rfl) (.inr rfl)
    · exact correlation_congr hentries
    · exact fun l hl => .inl hl.le
  have hsame : z' = z := Real.tanh_injective (by rw [htanh', ← hcorrelations, htanh])
  rw [hz, hz', hsame]

/-- Three variables with correlations of one half: given the first, the correlation of the others
is one third. -/
theorem ofCovariance_partialCorrelation_halves :
    let rows : List (List ℝ) := [[1, 1 / 2, 1 / 2], [1 / 2, 1, 1 / 2], [1 / 2, 1 / 2, 1]]
    IsSquare 3 rows ∧ (mirrored 3 rows).PosDef ∧
      ∃ f z, ofCovariance rows = .ok f ∧ f.partials[2]? = some z ∧ Real.tanh z = 1 / 3 := by
  intro rows
  have hsquare : IsSquare 3 rows := ⟨rfl, by simp [rows]⟩
  have hdefinite : (mirrored 3 rows).PosDef := by
    rw [posDef_mirrored_iff]
    intro x hx
    have hform : quadratic (upperTriangle rows) (List.ofFn x) =
        (x 0 ^ 2 + x 1 ^ 2 + x 2 ^ 2 + (x 0 + x 1 + x 2) ^ 2) / 2 := by
      simp [rows, upperTriangle, quadratic, product]
      ring
    rw [dotProduct_mirrored hsquare, hform]
    obtain ⟨i, hi⟩ := Function.ne_iff.mp hx
    have hpos : 0 < x i ^ 2 := sq_pos_of_ne_zero hi
    fin_cases i
    · positivity
    · positivity
    · positivity
  obtain ⟨f, hf, hpartials, -⟩ := ofCovariance_partialCorrelation hsquare hdefinite
  obtain ⟨z, hz, htanh⟩ := hpartials 1 2 (by norm_num) (by norm_num)
  refine ⟨hsquare, hdefinite, f, z, hf, hz, ?_⟩
  have hones : correlation rows 1 2 = 1 / 2 ∧ correlation rows 1 0 = 1 / 2 ∧
      correlation rows 2 0 = 1 / 2 := by
    simp [correlation, covariance, entry, rows]
  obtain ⟨h₁₂, h₁₀, h₂₀⟩ := hones
  rw [htanh]
  simp only [partialCorrelation, h₁₂, h₁₀, h₂₀]
  rw [Real.sqrt_mul_self (by norm_num)]
  norm_num

end EnsembleSampling.Factor
