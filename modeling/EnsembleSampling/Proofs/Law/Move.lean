import EnsembleSampling.Proofs.Law.Jointly
import EnsembleSampling.Proofs.Law.Turn
import Mathlib.Probability.Distributions.Uniform
set_option autoImplicit false

/-!
# The law of one walker's move

A walker's companions are as likely to be any set of at least two of the other walkers, and
its deviates are drawn independently from a multiset of rational numbers.  If that contains
each number as often as its opposite, a move from `x` to `y` is as likely as one from `y`
to `x`, the other walkers being where they are (`moveLaw_symm`); so all moves to a position
of the set together have probability one (`sum_moveLaw`).
-/

namespace EnsembleSampling

open scoped ENNReal

variable {N : Nat} {V : Type}

/-! ## Turns at random -/

/-- The sets of at least two of the walkers other than `i`. -/
def companionSets (i : Fin N) : Finset (Finset (Fin N)) :=
  (Finset.univ.erase i).powerset.filter (2 ≤ ·.card)

theorem mem_companionSets {i : Fin N} {S : Finset (Fin N)} :
    S ∈ companionSets i ↔ i ∉ S ∧ 2 ≤ S.card := by
  rw [companionSets, Finset.mem_filter, Finset.mem_powerset, Finset.subset_erase]
  simp

theorem companionSets_nonempty (hN : minWalkers ≤ N) (i : Fin N) : (companionSets i).Nonempty := by
  refine ⟨Finset.univ.erase i, mem_companionSets.mpr ⟨Finset.notMem_erase i _, ?_⟩⟩
  rw [Finset.card_erase_of_mem (Finset.mem_univ i), Finset.card_univ, Fintype.card_fin]
  exact Nat.le_sub_one_of_lt hN

/-- So many independent draws from a multiset of rational numbers. -/
noncomputable def deviatesLaw {Z : Multiset ℚ} (hZ : Z ≠ 0) (k : Nat) : PMF (List ℚ) :=
  jointly (List.replicate k (PMF.ofMultiset Z hZ))

/-- The law of the turn of the walker `i`. -/
noncomputable def turnLaw (hN : minWalkers ≤ N) {Z : Multiset ℚ} (hZ : Z ≠ 0) (i : Fin N) :
    PMF (Turn N) :=
  (PMF.uniformOfFinset (companionSets i) (companionSets_nonempty hN i)).bind fun S =>
    (deviatesLaw hZ S.card).map (Turn.mk S)

variable {Z : Multiset ℚ}

theorem length_of_mem_support_deviatesLaw {hZ : Z ≠ 0} {k : Nat} {zs : List ℚ}
    (h : zs ∈ (deviatesLaw hZ k).support) : zs.length = k := by
  rw [← (forall₂_of_mem_support_jointly h).length_eq, List.length_replicate]

/-- Whatever is drawn is a turn that the walker can have. -/
theorem valid_of_mem_support_turnLaw {hN : minWalkers ≤ N} {hZ : Z ≠ 0} {i : Fin N} {t : Turn N}
    (h : t ∈ (turnLaw hN hZ i).support) : t.Valid i := by
  rw [turnLaw, PMF.mem_support_bind_iff] at h
  obtain ⟨S, hS, h⟩ := h
  obtain ⟨zs, hzs, rfl⟩ := (PMF.mem_support_map_iff _ _ _).mp h
  obtain ⟨hi, hcard⟩ := mem_companionSets.mp ((PMF.mem_support_uniformOfFinset_iff _ _).mp hS)
  exact ⟨hi, hcard, length_of_mem_support_deviatesLaw hzs⟩

/-- Companions and deviates that can be drawn can be drawn together. -/
theorem mem_support_turnLaw {hN : minWalkers ≤ N} {hZ : Z ≠ 0} {i : Fin N} {t : Turn N}
    (ht : t.Valid i) (hzs : ∀ z ∈ t.deviates, z ∈ Z) : t ∈ (turnLaw hN hZ i).support := by
  obtain ⟨S, zs⟩ := t
  rw [turnLaw, PMF.mem_support_bind_iff]
  refine ⟨S, (PMF.mem_support_uniformOfFinset_iff _ _).mpr
    (mem_companionSets.mpr ⟨ht.notMem, ht.enough⟩), ?_⟩
  refine (PMF.mem_support_map_iff _ _ _).mpr ⟨zs, ?_, rfl⟩
  refine mem_support_jointly (List.forall₂_iff_get.mpr ⟨?_, fun k h₁ h₂ => ?_⟩)
  · rw [List.length_replicate]
    exact ht.deviates.symm
  · rw [List.get_eq_getElem, List.getElem_replicate, PMF.mem_support_ofMultiset_iff]
    convert Multiset.mem_toFinset.mpr (hzs _ (List.get_mem zs ⟨k, h₂⟩))

theorem map_neg_ofMultiset (hZ : Z ≠ 0) (hsymm : ∀ z, Z.count z = Z.count (-z)) :
    (PMF.ofMultiset Z hZ).map Neg.neg = PMF.ofMultiset Z hZ := by
  ext z
  have hneg : (PMF.ofMultiset Z hZ).map Neg.neg z = (PMF.ofMultiset Z hZ).map id (-z) :=
    map_apply_congr fun a _ => neg_eq_iff_eq_neg
  rw [hneg, PMF.map_id, PMF.ofMultiset_apply, PMF.ofMultiset_apply]
  convert congrArg (fun n : Nat => (n : ℝ≥0∞) / Z.card) (hsymm z).symm

/-- Deviates are as likely as their opposites. -/
theorem map_neg_deviatesLaw (hZ : Z ≠ 0) (hsymm : ∀ z, Z.count z = Z.count (-z)) (k : Nat) :
    (deviatesLaw hZ k).map (List.map Neg.neg) = deviatesLaw hZ k := by
  rw [deviatesLaw, map_map_jointly, List.map_replicate, map_neg_ofMultiset hZ hsymm]

/-! ## Moves at random -/

variable [LinearOps ℚ V] [DecidableEq V]

/-- Among the positions of a set, the opposite deviates lead back from a proposal. -/
def Undoes (A : Finset V) : Prop :=
  ∀ x ∈ A, ∀ ys : List V, (∀ y ∈ ys, y ∈ A) → ∀ zs : List ℚ,
    proposal (proposal x ys zs) ys (zs.map Neg.neg) = x

/-- The law of the position of the walker `i` after its move. -/
noncomputable def moveLaw (hN : minWalkers ≤ N) (hZ : Z ≠ 0) (A : Finset V) (X : Fin N → V)
    (i : Fin N) : PMF V :=
  (turnLaw hN hZ i).map (Turn.jump A X i)

section

variable {A : Finset V} {X : Fin N → V} {i : Fin N}

theorem Turn.jump_mem {t : Turn N} (hX : X i ∈ A) : t.jump A X i ∈ A := by
  unfold jump
  split
  · assumption
  · exact hX

/-- A jump to another position of the set is the proposal. -/
theorem Turn.jump_eq_iff {t : Turn N} {y : V} (hy : y ∈ A) (hne : X i ≠ y) :
    t.jump A X i = y ↔ proposal (X i) (t.companionList.map X) t.deviates = y := by
  unfold jump
  constructor
  · intro h
    split at h
    · exact h
    · exact absurd h hne
  · rintro rfl
    exact if_pos hy

/-- The opposite deviates take the walker back. -/
theorem Turn.jump_update_eq_iff (hundo : Undoes A) (hX : ∀ j, X j ∈ A) {S : Finset (Fin N)}
    (hi : i ∉ S) {x y : V} (hx : x ∈ A) (hy : y ∈ A) (hne : x ≠ y) (zs : List ℚ) :
    (Turn.mk S zs).jump A (Function.update X i x) i = y ↔
      (Turn.mk S (zs.map Neg.neg)).jump A (Function.update X i y) i = x := by
  have hcompanions : ∀ y ∈ (Turn.mk S zs).companionList.map X, y ∈ A := by
    intro y hy
    obtain ⟨j, -, rfl⟩ := List.mem_map.mp hy
    exact hX j
  have hne' : Function.update X i x i ≠ y := by rwa [Function.update_self]
  have hne'' : Function.update X i y i ≠ x := by rw [Function.update_self]; exact hne.symm
  rw [jump_eq_iff hy hne', jump_eq_iff hx hne'', map_update_companionList hi,
    map_update_companionList hi, Function.update_self, Function.update_self]
  constructor
  · intro h
    rw [← h]
    exact hundo x hx _ hcompanions zs
  · intro h
    have hback := hundo y hy _ hcompanions (zs.map Neg.neg)
    rw [List.map_map, neg_comp_neg, List.map_id] at hback
    rw [← h]
    exact hback

variable {hN : minWalkers ≤ N} {hZ : Z ≠ 0}

theorem mem_of_mem_support_moveLaw (hX : X i ∈ A) {y : V}
    (h : y ∈ (moveLaw hN hZ A X i).support) : y ∈ A := by
  obtain ⟨t, -, rfl⟩ := (PMF.mem_support_map_iff _ _ _).mp h
  exact Turn.jump_mem hX

/-- With the other walkers where they are, a walker is as likely to move from `x` to `y` as
from `y` to `x`. -/
theorem moveLaw_symm (hsymm : ∀ z, Z.count z = Z.count (-z)) (hundo : Undoes A)
    (hX : ∀ j, X j ∈ A) {x y : V} (hx : x ∈ A) (hy : y ∈ A) :
    moveLaw hN hZ A (Function.update X i x) i y = moveLaw hN hZ A (Function.update X i y) i x := by
  rcases eq_or_ne x y with rfl | hne
  · rfl
  · rw [moveLaw, moveLaw, turnLaw, PMF.map_bind, PMF.map_bind, PMF.bind_apply, PMF.bind_apply]
    refine tsum_congr fun S => ?_
    by_cases hS : S ∈ companionSets i
    -- Given the companions, the way back has the opposite deviates.
    · refine congrArg _ ?_
      rw [PMF.map_comp, PMF.map_comp]
      conv_rhs => rw [← map_neg_deviatesLaw hZ hsymm, PMF.map_comp]
      exact map_apply_congr fun zs _ =>
        Turn.jump_update_eq_iff hundo hX (mem_companionSets.mp hS).1 hx hy hne zs
    · rw [PMF.uniformOfFinset_apply_of_notMem _ hS, zero_mul, zero_mul]

/-- The moves to one position of the set from all of them have probability one together. -/
theorem sum_moveLaw (hsymm : ∀ z, Z.count z = Z.count (-z)) (hundo : Undoes A)
    (hX : ∀ j, X j ∈ A) {y : V} (hy : y ∈ A) :
    ∑ x ∈ A, moveLaw hN hZ A (Function.update X i x) i y = 1 := by
  have hupdate : Function.update X i y i ∈ A := by rwa [Function.update_self]
  calc ∑ x ∈ A, moveLaw hN hZ A (Function.update X i x) i y
      = ∑ x ∈ A, moveLaw hN hZ A (Function.update X i y) i x :=
        Finset.sum_congr rfl fun x hx => moveLaw_symm hsymm hundo hX hx hy
    _ = tsum fun x => moveLaw hN hZ A (Function.update X i y) i x := by
        refine (tsum_eq_sum fun x hx => ?_).symm
        rw [PMF.apply_eq_zero_iff]
        exact fun hsupport => hx (mem_of_mem_support_moveLaw hupdate hsupport)
    _ = 1 := PMF.tsum_coe _

end

end EnsembleSampling
