import EnsembleSampling.Ensemble.Sweep
import EnsembleSampling.Proofs.Number.Summation
import Mathlib.LinearAlgebra.AffineSpace.Combination
import Mathlib.Algebra.BigOperators.Pi
import Mathlib.Data.List.OfFn
set_option autoImplicit false

/-!
# Positions in exact arithmetic

Over a field, a position of `D` coordinates is a vector: `Point.ofVector` and
`Point.toVector` go back and forth, and carry every operation of a sweep to the vector
operation of that name.  On vectors a proposal has a closed form
(`proposal_vector`), from which its algebra is read off: affine maps carry proposals
to proposals (`map_proposal`).
-/

namespace EnsembleSampling

variable {α : Type} [Field α] {D E : Nat}

/-- What a sweep does with vectors. -/
instance vectorOps : LinearOps α (Fin D → α) where
  add := (· + ·)
  sub := (· - ·)
  scale := (· • ·)
  origin _ := 0
  mean xs := (xs.length : α)⁻¹ • xs.sum

/-! ## Proposals of vectors -/

/-- Adding multiples of offsets from a centre in order adds their sum. -/
theorem foldl_offsets_eq (center : Fin D → α) (pairs : List ((Fin D → α) × α))
    (x : Fin D → α) :
    pairs.foldl (fun p (y, z) => LinearOps.add p (LinearOps.scale z (LinearOps.sub y center))) x =
      x + (pairs.map fun (y, z) => z • (y - center)).sum := by
  induction pairs generalizing x with
  | nil => simp
  | cons pair pairs ih =>
    rw [List.foldl_cons, ih, List.map_cons, List.sum_cons, ← add_assoc]
    rfl

/-- A proposal adds to the position, for each companion, its deviate times its offset from
the companions' mean. -/
theorem proposal_vector (x : Fin D → α) (companions : List (Fin D → α)) (deviates : List α) :
    proposal x companions deviates =
      x + ((companions.zip deviates).map fun (y, z) =>
        z • (y - (LinearOps.mean companions : Fin D → α))).sum :=
  foldl_offsets_eq _ _ x

/-- The opposite deviates lead back from a proposal, with the same companions. -/
theorem proposal_neg_vector (x : Fin D → α) (companions : List (Fin D → α))
    (deviates : List α) :
    proposal (proposal x companions deviates) companions (deviates.map Neg.neg) = x := by
  rw [proposal_vector, proposal_vector, List.zip_map_right, List.map_map]
  generalize (LinearOps.mean companions : Fin D → α) = center
  have hneg : ((fun (y, z) => z • (y - center)) ∘ Prod.map id Neg.neg : (Fin D → α) × α → _) =
      Neg.neg ∘ fun (y, z) => z • (y - center) := by
    funext ⟨y, z⟩
    exact neg_smul z (y - center)
  rw [hneg, ← List.map_map, ← List.sum_neg, add_neg_cancel_right]

/-- Companions at the position itself lead nowhere. -/
theorem proposal_const_vector [CharZero α] {x : Fin D → α} {companions : List (Fin D → α)}
    (h : ∀ y ∈ companions, y = x) (deviates : List α) : proposal x companions deviates = x := by
  rcases eq_or_ne companions [] with rfl | hne
  · rfl
  · have hmean : (LinearOps.mean companions : Fin D → α) = x := by
      have hlen : (companions.length : α) ≠ 0 :=
        Nat.cast_ne_zero.mpr fun h => hne (List.length_eq_zero_iff.mp h)
      change (companions.length : α)⁻¹ • companions.sum = x
      rw [List.sum_eq_card_nsmul companions x h, ← Nat.cast_smul_eq_nsmul α, smul_smul,
        inv_mul_cancel₀ hlen, one_smul]
    have hoffsets : ∀ d ∈ (companions.zip deviates).map (fun (y, z) => z • (y - x)), d = 0 := by
      intro d hd
      obtain ⟨⟨y, z⟩, hpair, rfl⟩ := List.mem_map.mp hd
      change z • (y - x) = 0
      rw [h y (List.of_mem_zip hpair).1, sub_self, smul_zero]
    rw [proposal_vector, hmean, List.sum_eq_zero hoffsets, add_zero]

/-! ## Affine maps -/

section Affine

variable (T : (Fin D → α) →ᵃ[α] (Fin E → α))

theorem affine_eq (x : Fin D → α) : T x = T.linear x + T 0 := by
  have h := T.map_vadd 0 x
  simpa using h

theorem affine_sub (x y : Fin D → α) : T x - T y = T.linear (x - y) := by
  rw [affine_eq T x, affine_eq T y, map_sub]
  abel

theorem sum_map_affine (xs : List (Fin D → α)) :
    (xs.map T).sum = T.linear xs.sum + (xs.length : α) • T 0 := by
  induction xs with
  | nil => simp
  | cons x xs ih =>
    rw [List.map_cons, List.sum_cons, ih, affine_eq T x, List.sum_cons, map_add,
      List.length_cons, Nat.cast_succ, add_smul, one_smul]
    abel

/-- An affine map carries the mean of some vectors to the mean of their images.  This is
where the number of vectors must not vanish in the field. -/
theorem map_mean [CharZero α] {xs : List (Fin D → α)} (hxs : xs ≠ []) :
    T (LinearOps.mean xs) = LinearOps.mean (xs.map T) := by
  have hn : (xs.length : α) ≠ 0 := by
    rw [Nat.cast_ne_zero]
    exact fun h => hxs (List.length_eq_zero_iff.mp h)
  have hl : (LinearOps.mean xs : Fin D → α) = (xs.length : α)⁻¹ • xs.sum := rfl
  have hr : (LinearOps.mean (xs.map T) : Fin E → α) =
      ((xs.map T).length : α)⁻¹ • (xs.map T).sum := rfl
  rw [hl, hr, affine_eq, sum_map_affine, List.length_map, smul_add, map_smul, smul_smul,
    inv_mul_cancel₀ hn, one_smul]

/-- An affine map carries a sum of multiples of offsets to that of the images. -/
theorem map_offsets (x center : Fin D → α) (pairs : List ((Fin D → α) × α)) :
    T (x + (pairs.map fun (y, z) => z • (y - center)).sum) =
      T x + ((pairs.map fun (y, z) => (T y, z)).map fun (y, z) => z • (y - T center)).sum := by
  induction pairs generalizing x with
  | nil => simp
  | cons pair pairs ih =>
    obtain ⟨y, z⟩ := pair
    simp only [List.map_cons, List.sum_cons]
    rw [← add_assoc, ih, affine_sub, ← map_smul, affine_eq T (x + z • (y - center)), map_add,
      affine_eq T x]
    abel

/-- Affine maps carry proposals to proposals. -/
theorem map_proposal [CharZero α] (x : Fin D → α) (companions : List (Fin D → α))
    (deviates : List α) :
    T (proposal x companions deviates) = proposal (T x) (companions.map T) deviates := by
  rcases eq_or_ne companions [] with rfl | hne
  · rfl
  · rw [proposal_vector, map_offsets, map_mean T hne, proposal_vector, List.zip_map_left]
    rfl

end Affine

/-! ## Vectors as points -/

namespace Point

/-- The point with given coordinates. -/
def ofVector (v : Fin D → α) : Point α := ⟨List.ofFn v⟩

/-- The first coordinates of a point, so many of them. -/
def toVector (D : Nat) (p : Point α) : Fin D → α := fun i => p.coords.getD i 0

omit [Field α] in
theorem dim_ofVector (v : Fin D → α) : (ofVector v).dim = D := by
  simp [ofVector, dim]

theorem toVector_ofVector (v : Fin D → α) : toVector D (ofVector v) = v := by
  funext i
  simp [toVector, ofVector]

/-- A point of the right dimension is the point of its vector. -/
theorem ofVector_toVector {p : Point α} (hp : p.dim = D) : ofVector (toVector D p) = p := by
  obtain ⟨coords⟩ := p
  subst hp
  refine congrArg Point.mk (List.ext_getElem (by simp [dim]) fun i h₁ h₂ => ?_)
  simp [toVector, h₂]

omit [Field α] in
theorem zipWith_ofVector (f : α → α → α) (v w : Fin D → α) :
    zipWith f (ofVector v) (ofVector w) = ofVector fun i => f (v i) (w i) := by
  refine congrArg Point.mk (List.ext_getElem (by simp [ofVector]) fun i h₁ h₂ => ?_)
  simp [ofVector]

theorem add_ofVector (v w : Fin D → α) :
    LinearOps.add (ofVector v) (ofVector w) = ofVector (v + w) :=
  zipWith_ofVector _ v w

theorem sub_ofVector (v w : Fin D → α) :
    LinearOps.sub (ofVector v) (ofVector w) = ofVector (v - w) :=
  zipWith_ofVector _ v w

theorem scale_ofVector (a : α) (v : Fin D → α) :
    LinearOps.scale a (ofVector v) = ofVector (a • v) := by
  refine congrArg Point.mk ?_
  rw [ofVector, List.map_ofFn]
  rfl

/-- Adding rows from the first one down adds the vectors. -/
theorem foldl_rows_eq (v : Fin D → α) (vs : List (Fin D → α)) :
    (vs.map List.ofFn).foldl (List.zipWith (· + ·)) (List.ofFn v) = List.ofFn (v + vs.sum) := by
  induction vs generalizing v with
  | nil => simp
  | cons w vs ih =>
    have hadd : List.zipWith (· + ·) (List.ofFn v) (List.ofFn w) = List.ofFn (v + w) :=
      congrArg Point.coords (zipWith_ofVector (· + ·) v w)
    rw [List.map_cons, List.foldl_cons, hadd, ih, List.sum_cons, add_assoc]

omit [Field α] in
/-- The rows of a single column, one after the other. -/
theorem flatten_column (vs : List (Fin 1 → α)) : (vs.map List.ofFn).flatten = vs.map (· 0) := by
  induction vs with
  | nil => rfl
  | cons v vs ih => simp [ih]

/-- The sum of rows is the sum of the vectors.  A single column is summed in another order
than several, so it is a case of its own. -/
theorem sumRows_eq {vs : List (Fin D → α)} (hvs : vs ≠ []) :
    sumRows (vs.map List.ofFn) = List.ofFn vs.sum := by
  obtain ⟨v, vs, rfl⟩ := List.exists_cons_of_ne_nil hvs
  rw [List.map_cons, List.sum_cons]
  match D, v, vs with
  | 0, v, vs =>
    have hfold := foldl_rows_eq v vs
    simpa [sumRows, List.ofFn_zero] using hfold
  | 1, v, vs =>
    have hcol := flatten_column vs
    simp [sumRows, hcol, blockSum_eq_sum, Pi.list_sum_apply]
  | D + 2, v, vs =>
    have hrow : (List.ofFn v).map (0 + ·) = List.ofFn v := by
      rw [List.map_ofFn]
      exact congrArg List.ofFn (funext fun i => zero_add (v i))
    have hsum : sumRows (List.ofFn v :: vs.map List.ofFn) =
        (vs.map List.ofFn).foldl (List.zipWith (· + ·)) ((List.ofFn v).map (0 + ·)) := by
      rw [List.ofFn_succ, List.ofFn_succ]
      rfl
    rw [hsum, hrow, foldl_rows_eq]

theorem mean_ofVector {vs : List (Fin D → α)} (hvs : vs ≠ []) :
    (LinearOps.mean (vs.map ofVector) : Point α) = ofVector (LinearOps.mean vs) := by
  have hrows : (vs.map ofVector).map coords = vs.map List.ofFn := by
    simp [ofVector, Function.comp_def]
  refine congrArg Point.mk ?_
  rw [hrows, meanRows, sumRows_eq hvs, List.map_ofFn]
  congr 1
  funext i
  simp [LinearOps.mean, div_eq_inv_mul]

/-- Points carry proposals as vectors do. -/
theorem proposal_ofVector (v : Fin D → α) (companions : List (Fin D → α)) (deviates : List α) :
    proposal (ofVector v) (companions.map ofVector) deviates =
      ofVector (proposal v companions deviates) := by
  rcases eq_or_ne companions [] with rfl | hne
  · rfl
  · unfold proposal
    rw [mean_ofVector hne, List.zip_map_left, List.foldl_map]
    simp only
    generalize companions.zip deviates = pairs
    induction pairs generalizing v with
    | nil => rfl
    | cons pair pairs ih =>
      obtain ⟨y, z⟩ := pair
      simp only [List.foldl_cons, Prod.map_apply, id_eq, sub_ofVector, scale_ofVector,
        add_ofVector]
      exact ih _

/-- Points of one dimension are those of vectors. -/
theorem exists_vectors {p : Point α} {ps : List (Point α)} (hp : p.dim = D)
    (hps : ∀ q ∈ ps, q.dim = D) :
    ∃ (v : Fin D → α) (vs : List (Fin D → α)), p = ofVector v ∧ ps = vs.map ofVector := by
  refine ⟨toVector D p, ps.map (toVector D), (ofVector_toVector hp).symm, ?_⟩
  rw [List.map_map]
  refine (List.map_id ps).symm.trans (List.map_congr_left fun q hq => ?_)
  exact (ofVector_toVector (hps q hq)).symm

/-- Among points of one dimension the opposite deviates lead back from a proposal. -/
theorem proposal_neg {p : Point α} {ps : List (Point α)} (hp : p.dim = D)
    (hps : ∀ q ∈ ps, q.dim = D) (deviates : List α) :
    proposal (proposal p ps deviates) ps (deviates.map Neg.neg) = p := by
  obtain ⟨v, vs, rfl, rfl⟩ := exists_vectors hp hps
  rw [proposal_ofVector, proposal_ofVector, proposal_neg_vector]

/-- Companions at the point itself lead nowhere. -/
theorem proposal_const [CharZero α] {p : Point α} {ps : List (Point α)} (hp : p.dim = D)
    (h : ∀ q ∈ ps, q = p) (deviates : List α) : proposal p ps deviates = p := by
  obtain ⟨v, vs, rfl, rfl⟩ := exists_vectors hp fun q hq => (congrArg dim (h q hq)).trans hp
  have hvs : ∀ w ∈ vs, w = v := by
    intro w hw
    have hpoints := h (ofVector w) (List.mem_map_of_mem hw)
    rw [← toVector_ofVector w, hpoints, toVector_ofVector]
  rw [proposal_ofVector, proposal_const_vector hvs]

end Point

end EnsembleSampling
