import EnsembleSampling.Proofs.Law.Move
import EnsembleSampling.Proofs.Position.Exact
set_option autoImplicit false

/-!
# The law of a sweep

A sweep reads the turns of its walkers off a tape; its law is that of the outcome when the
turns are drawn at random.  It is the product of the laws of the single moves, each from the
positions before the sweep (`sweepLaw_eq`).
-/

namespace EnsembleSampling

open scoped ENNReal

deriving instance DecidableEq for Point

variable {N : Nat} {V : Type} [LinearOps ℚ V] [DecidableEq V] {Z : Multiset ℚ}

/-- The law of the positions after a sweep from given positions, with the density of a
finite set and a given uniform for each walker. -/
noncomputable def sweepLaw (hN : minWalkers ≤ N) (hZ : Z ≠ 0) (A : Finset V) (u : Fin N → ℝ)
    (limit dims : Nat) (X : Fin N → V) : PMF (Except (SweepFailure Unit) (List V)) :=
  (jointly ((List.finRange N).map (turnLaw hN hZ))).map fun ts =>
    sweptPositions A (limit + 1) dims X (tapeOf u (List.finRange N) ts)

/-- The law of the position of one walker after a sweep, if the sweep ends. -/
noncomputable def walkerLaw (hN : minWalkers ≤ N) (hZ : Z ≠ 0) (A : Finset V) (u : Fin N → ℝ)
    (limit dims : Nat) (X : Fin N → V) (i : Fin N) : PMF (Option V) :=
  (sweepLaw hN hZ A u limit dims X).map fun r => r.toOption.bind (·[i.val]?)

section

variable {hN : minWalkers ≤ N} {hZ : Z ≠ 0} {A : Finset V} {u : Fin N → ℝ} {X : Fin N → V}

/-- A sweep succeeds, and moves each walker independently of how the others are moved. -/
theorem sweepLaw_eq (hX : ∀ i, X i ∈ A) (hu : ∀ i, 0 < u i ∧ u i < 1) (limit dims : Nat) :
    sweepLaw hN hZ A u limit dims X =
      (jointly ((List.finRange N).map (moveLaw hN hZ A X))).map .ok := by
  have hvalid : ∀ ts ∈ (jointly ((List.finRange N).map (turnLaw hN hZ))).support,
      sweptPositions A (limit + 1) dims X (tapeOf u (List.finRange N) ts) =
        .ok (List.zipWith (Turn.jump A X) (List.finRange N) ts) := by
    intro ts hts
    have hdrawn := List.forall₂_map_left_iff.mp (forall₂_of_mem_support_jointly hts)
    exact sweptPositions_tapeOf hN hX hu limit dims
      (hdrawn.imp fun i t ht => valid_of_mem_support_turnLaw ht)
  rw [sweepLaw, map_congr_of_support hvalid]
  exact (PMF.map_comp _ _ _).symm.trans (congrArg _ (map_zipWith_jointly _ _ _))

/-- Each walker by itself has the law of its move. -/
theorem walkerLaw_eq (hX : ∀ i, X i ∈ A) (hu : ∀ i, 0 < u i ∧ u i < 1) (limit dims : Nat)
    (i : Fin N) : walkerLaw hN hZ A u limit dims X i = (moveLaw hN hZ A X i).map some := by
  have hi : ((List.finRange N).map (moveLaw hN hZ A X))[i.val]? = some (moveLaw hN hZ A X i) := by
    simp
  rw [walkerLaw, sweepLaw_eq hX hu, PMF.map_comp, ← map_getElem?_jointly hi]
  rfl

theorem map_apply_injective {γ δ : Type} {f : γ → δ} (hf : Function.Injective f) (p : PMF γ)
    (a : γ) : p.map f (f a) = p a := by
  rw [map_apply_congr (f := f) (g := id) (d := a) fun b _ => hf.eq_iff, PMF.map_id]

theorem walkerLaw_apply (hX : ∀ i, X i ∈ A) (hu : ∀ i, 0 < u i ∧ u i < 1) (limit dims : Nat)
    (i : Fin N) (y : V) :
    walkerLaw hN hZ A u limit dims X i (some y) = moveLaw hN hZ A X i y := by
  rw [walkerLaw_eq hX hu, map_apply_injective (Option.some_injective V)]

/-- The probability of given positions after a sweep. -/
theorem sweepLaw_apply (hX : ∀ i, X i ∈ A) (hu : ∀ i, 0 < u i ∧ u i < 1) (limit dims : Nat)
    (Y : Fin N → V) :
    sweepLaw hN hZ A u limit dims X (.ok (List.ofFn Y)) = ∏ i, moveLaw hN hZ A X i (Y i) := by
  have hok : Function.Injective (Except.ok : List V → Except (SweepFailure Unit) (List V)) :=
    fun _ _ h => Except.ok.inj h
  rw [sweepLaw_eq hX hu, map_apply_injective hok, List.ofFn_eq_map, jointly_map_apply,
    Fin.prod_univ_def]

end

/-! ## Each walker by itself -/

/-- If over the positions of one walker a sum is always one, then over all ensembles it is
their number without that walker. -/
theorem sum_eq_card_pow {ι : Type} [Fintype ι] [Nonempty ι] (i : Fin N) (F : (Fin N → ι) → ℝ≥0∞)
    (hF : ∀ X, ∑ x, F (Function.update X i x) = 1) :
    ∑ X, F X = (Fintype.card ι : ℝ≥0∞) ^ (N - 1) := by
  classical
  have hupdate (x x₀ : ι) (r : {j // j ≠ i} → ι) : (Equiv.funSplitAt i ι).symm (x, r) =
      Function.update ((Equiv.funSplitAt i ι).symm (x₀, r)) i x := by
    funext j
    rcases eq_or_ne j i with rfl | hj
    · simp
    · simp [hj]
  have hcard : Fintype.card {j // j ≠ i} = N - 1 := by simp
  obtain ⟨x₀⟩ := ‹Nonempty ι›
  calc ∑ X, F X
      = ∑ p, F ((Equiv.funSplitAt i ι).symm p) := ((Equiv.funSplitAt i ι).symm.sum_comp F).symm
    _ = ∑ r, ∑ x, F ((Equiv.funSplitAt i ι).symm (x, r)) := Fintype.sum_prod_type_right _
    _ = ∑ _r : {j // j ≠ i} → ι, 1 := by
        refine Finset.sum_congr rfl fun r _ => ?_
        rw [← hF ((Equiv.funSplitAt i ι).symm (x₀, r))]
        exact Finset.sum_congr rfl fun x _ => congrArg F (hupdate x x₀ r)
    _ = (Fintype.card ι : ℝ≥0∞) ^ (N - 1) := by
        rw [Finset.sum_const, Finset.card_univ, Fintype.card_fun, hcard, nsmul_one, Nat.cast_pow]

theorem undoes_points {A : Finset (Point ℚ)} {D : Nat} (hA : ∀ p ∈ A, p.dim = D) : Undoes A :=
  fun x hx _ hys zs => Point.proposal_neg (hA x hx) (fun y hy => hA y (hys y hy)) zs

/-- **What a sweep leaves invariant.**  The density is uniform on a finite set of points of
one dimension, companions are uniform among the sets of at least two other walkers, normals
are drawn from a multiset that contains each number as often as its opposite, and uniforms
are between zero and one.  Then a sweep from walkers in the set moves them independently;
the move of each, with the others where they were before the sweep, is as likely as its
reverse, and leaves the uniform distribution on the set invariant; so if all ensembles are
equally likely before the sweep, every walker by itself is uniform after it. -/
theorem sweepLaw_reversible_walkerwise {N D : Nat} (hN : minWalkers ≤ N) {A : Finset (Point ℚ)}
    (hA : ∀ p ∈ A, p.dim = D) {Z : Multiset ℚ} (hZ : Z ≠ 0)
    (hsymm : ∀ z, Z.count z = Z.count (-z)) {u : Fin N → ℝ} (hu : ∀ i, 0 < u i ∧ u i < 1)
    (limit : Nat) :
    let sweep (X : Fin N → A) := sweepLaw hN hZ A u limit D fun j => (X j : Point ℚ)
    let walker (X : Fin N → A) := walkerLaw hN hZ A u limit D fun j => (X j : Point ℚ)
    (∀ X Y : Fin N → A, sweep X (.ok (List.ofFn fun j => (Y j : Point ℚ))) =
      ∏ i, walker X i (some (Y i))) ∧
    (∀ (X : Fin N → A) (i : Fin N) (x y : A),
      walker (Function.update X i x) i (some y) = walker (Function.update X i y) i (some x)) ∧
    (∀ (X : Fin N → A) (i : Fin N) (y : A), ∑ x, walker (Function.update X i x) i (some y) = 1) ∧
    ∀ (i : Fin N) (y : A), ∑ X, walker X i (some y) = (A.card : ℝ≥0∞) ^ (N - 1) := by
  intro sweep walker
  have hundo := undoes_points hA
  have hmem (X : Fin N → A) : ∀ j, (X j : Point ℚ) ∈ A := fun j => (X j).property
  have hwalker (X : Fin N → A) (i : Fin N) (y : A) : walker X i (some y) =
      moveLaw hN hZ A (fun j => (X j : Point ℚ)) i y := walkerLaw_apply (hmem X) hu limit D i y
  have hupdate (X : Fin N → A) (i : Fin N) (x : A) :
      (fun j => (Function.update X i x j : Point ℚ)) =
        Function.update (fun j => (X j : Point ℚ)) i x := Function.comp_update _ _ _ _
  have hsum (X : Fin N → A) (i : Fin N) (y : A) :
      ∑ x, walker (Function.update X i x) i (some y) = 1 := by
    simp only [hwalker, hupdate]
    rw [Finset.sum_coe_sort A fun x => moveLaw hN hZ A (Function.update _ i x) i y]
    exact sum_moveLaw hsymm hundo (hmem X) y.property
  refine ⟨fun X Y => ?_, fun X i x y => ?_, hsum, fun i y => ?_⟩
  · simp only [hwalker]
    exact sweepLaw_apply (hmem X) hu limit D _
  · rw [hwalker, hwalker, hupdate, hupdate]
    exact moveLaw_symm hsymm hundo (hmem X) x.property y.property
  · have : Nonempty A := ⟨y⟩
    rw [sum_eq_card_pow i _ fun X => hsum X i y, Fintype.card_coe]

/-! ## Three walkers at two points -/

/-- Two points of the line. -/
def twoPoints : Finset (Point ℚ) := {⟨[0]⟩, ⟨[1]⟩}

/-- Two opposite deviates. -/
def signs : Multiset ℚ := {1, -1}

theorem dim_twoPoints : ∀ p ∈ twoPoints, p.dim = 1 := by
  simp [twoPoints, Point.dim]

theorem signs_ne_zero : signs ≠ 0 := by
  simp [signs]

theorem count_signs (z : ℚ) : signs.count z = signs.count (-z) := by
  have hone : -z = 1 ↔ z = -1 := neg_eq_iff_eq_neg
  simp [signs, Multiset.count_cons, Multiset.count_singleton, hone, add_comm]

/-- Each of three walkers at two points is uniform after a sweep. -/
theorem sweepLaw_reversible_walkerwise_twoPoints :
    (∀ p ∈ twoPoints, p.dim = 1) ∧ (∀ z, signs.count z = signs.count (-z)) ∧
      (∀ _i : Fin 3, (0 : ℝ) < 1 / 2 ∧ (1 / 2 : ℝ) < 1) ∧
      ∑ X : Fin 3 → twoPoints, walkerLaw (by decide) signs_ne_zero twoPoints (fun _ => 1 / 2) 0 1
        (fun j => (X j : Point ℚ)) 0 (some ⟨[1]⟩) = 4 := by
  have hhalf : ∀ _i : Fin 3, (0 : ℝ) < 1 / 2 ∧ (1 / 2 : ℝ) < 1 := fun _ => by norm_num
  obtain ⟨-, -, -, hmarginal⟩ := sweepLaw_reversible_walkerwise (by decide) dim_twoPoints
    signs_ne_zero count_signs hhalf 0
  refine ⟨dim_twoPoints, count_signs, hhalf, ?_⟩
  have hone : (⟨[1]⟩ : Point ℚ) ∈ twoPoints := by simp [twoPoints]
  rw [hmarginal 0 ⟨_, hone⟩]
  have hcard : twoPoints.card = 2 := rfl
  rw [hcard]
  norm_num

/-- Walkers that all stand at one point stay there. -/
theorem moveLaw_const {N : Nat} {hN : minWalkers ≤ N} {Z : Multiset ℚ} {hZ : Z ≠ 0}
    {A : Finset (Point ℚ)} {X : Fin N → Point ℚ} {x : Point ℚ} (hX : ∀ j, X j = x) (i : Fin N) :
    moveLaw hN hZ A X i = PMF.pure x := by
  have hjump (t : Turn N) : t.jump A X i = x := by
    have hcompanions : ∀ y ∈ t.companionList.map X, y = X i := by
      intro y hy
      obtain ⟨j, -, rfl⟩ := List.mem_map.mp hy
      rw [hX j, hX i]
    rw [Turn.jump, Point.proposal_const rfl hcompanions, ite_self, hX i]
  rw [moveLaw, funext hjump]
  exact PMF.map_const _ _

/-- From two walkers at one point and the third at the other, all three can get to that. -/
theorem moveLaw_gather_ne_zero (i : Fin 3) :
    moveLaw (by decide) signs_ne_zero twoPoints ![⟨[0]⟩, ⟨[0]⟩, ⟨[1]⟩] i ⟨[1]⟩ ≠ 0 := by
  have hvalid : Turn.Valid i (Turn.mk (Finset.univ.erase i) [-1, 1]) :=
    ⟨Finset.notMem_erase i _, by simp, by simp⟩
  have hjump : ∀ i : Fin 3, (Turn.mk (Finset.univ.erase i) [-1, 1]).jump twoPoints
      ![⟨[0]⟩, ⟨[0]⟩, ⟨[1]⟩] i = ⟨[1]⟩ := by
    decide +kernel
  rw [← PMF.mem_support_iff]
  refine (PMF.mem_support_map_iff _ _ _).mpr ⟨_, mem_support_turnLaw hvalid ?_, hjump i⟩
  simp [signs]

/-- The ensembles together need not be uniform after a sweep: three walkers at one of two
points are more likely after it than before, because they never part, and others can get
there. -/
theorem sum_sweepLaw_twoPoints_ne_one :
    (∀ p ∈ twoPoints, p.dim = 1) ∧ (∀ z, signs.count z = signs.count (-z)) ∧
      (∀ _i : Fin 3, (0 : ℝ) < 1 / 2 ∧ (1 / 2 : ℝ) < 1) ∧
      ∑ X : Fin 3 → twoPoints, sweepLaw (by decide) signs_ne_zero twoPoints (fun _ => 1 / 2) 0 1
        (fun j => (X j : Point ℚ)) (.ok [⟨[1]⟩, ⟨[1]⟩, ⟨[1]⟩]) ≠ 1 := by
  have hhalf : ∀ _i : Fin 3, (0 : ℝ) < 1 / 2 ∧ (1 / 2 : ℝ) < 1 := fun _ => by norm_num
  refine ⟨dim_twoPoints, count_signs, hhalf, ?_⟩
  have hzero : (⟨[0]⟩ : Point ℚ) ∈ twoPoints := by simp [twoPoints]
  have hone : (⟨[1]⟩ : Point ℚ) ∈ twoPoints := by simp [twoPoints]
  let together : Fin 3 → twoPoints := fun _ => ⟨_, hone⟩
  let apart : Fin 3 → twoPoints := ![⟨_, hzero⟩, ⟨_, hzero⟩, ⟨_, hone⟩]
  have hlaw (X : Fin 3 → twoPoints) :
      sweepLaw (by decide) signs_ne_zero twoPoints (fun _ => 1 / 2) 0 1
        (fun j => (X j : Point ℚ)) (.ok [⟨[1]⟩, ⟨[1]⟩, ⟨[1]⟩]) =
      ∏ i, moveLaw (by decide) signs_ne_zero twoPoints (fun j => (X j : Point ℚ)) i ⟨[1]⟩ :=
    sweepLaw_apply (fun j => (X j).property) hhalf 0 1 fun _ => ⟨[1]⟩
  have htogether : ∏ i, moveLaw (by decide) signs_ne_zero twoPoints
      (fun j => (together j : Point ℚ)) i ⟨[1]⟩ = 1 := by
    refine Finset.prod_eq_one fun i _ => ?_
    rw [moveLaw_const (fun _ => rfl) i]
    exact PMF.pure_apply_self _
  have happart : ∏ i, moveLaw (by decide) signs_ne_zero twoPoints
      (fun j => (apart j : Point ℚ)) i ⟨[1]⟩ ≠ 0 := by
    have hpoints : (fun j => (apart j : Point ℚ)) = ![⟨[0]⟩, ⟨[0]⟩, ⟨[1]⟩] := by
      funext j
      fin_cases j <;> rfl
    rw [hpoints]
    exact Finset.prod_ne_zero_iff.mpr fun i _ => moveLaw_gather_ne_zero i
  have hne : together ≠ apart := by
    intro h
    have hpoint := congrArg (fun X : Fin 3 → twoPoints => (X 0 : Point ℚ).coords) h
    simp [together, apart] at hpoint
  -- Two of the summands are already more than one.
  simp only [hlaw]
  refine ne_of_gt ?_
  calc (1 : ℝ≥0∞)
      < 1 + ∏ i, moveLaw (by decide) signs_ne_zero twoPoints
          (fun j => (apart j : Point ℚ)) i ⟨[1]⟩ := ENNReal.lt_add_right ENNReal.one_ne_top happart
    _ = ∑ X ∈ {together, apart}, ∏ i, moveLaw (by decide) signs_ne_zero twoPoints
          (fun j => (X j : Point ℚ)) i ⟨[1]⟩ := by
        rw [Finset.sum_pair hne, htogether]
    _ ≤ _ := Finset.sum_le_sum_of_subset (Finset.subset_univ _)

end EnsembleSampling
