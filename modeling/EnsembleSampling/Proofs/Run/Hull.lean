import EnsembleSampling.Proofs.Position.Exact
import EnsembleSampling.Proofs.Run.Trajectory
import EnsembleSampling.Proofs.Scale.Double
import EnsembleSampling.Proofs.Sweep.Carried
import EnsembleSampling.Proofs.Tape
import Mathlib.LinearAlgebra.AffineSpace.AffineSubspace.Basic
import Mathlib.LinearAlgebra.Dual.Lemmas
import Mathlib.LinearAlgebra.Matrix.DotProduct
set_option autoImplicit false

/-!
# The hull of the start

In exact arithmetic a run never leaves the affine hull of the positions that it starts from
(`run_stays_in_hull`): walkers that start in a plane are recorded in that plane, and walkers that
start at one point are recorded there.

A hull is described by the linear equations that hold on it (`mem_affineSpan_iff_equations`).
This is the form in which it is carried through a run, since the left side of an equation is an
affine map, and such maps carry proposals to proposals.
-/

namespace EnsembleSampling

open Matrix

variable {σ ε α β : Type} [Field α] {D : Nat}

/-! ## Equations -/

/-- The equations of the form `a ⬝ᵥ x = b` that hold at all points of `S` hold at `v`. -/
def SatisfiesEquationsOf (S : Set (Fin D → α)) (v : Fin D → α) : Prop :=
  ∀ (a : Fin D → α) (b : α), (∀ x ∈ S, a ⬝ᵥ x = b) → a ⬝ᵥ v = b

/-- Every linear form is the product with a vector. -/
theorem exists_dotProduct_eq (f : (Fin D → α) →ₗ[α] α) : ∃ a : Fin D → α, ∀ x, a ⬝ᵥ x = f x := by
  refine ⟨fun i => f fun j => if i = j then 1 else 0, fun x => ?_⟩
  rw [LinearMap.pi_apply_eq_sum_univ, dotProduct]
  exact Finset.sum_congr rfl fun i _ => mul_comm _ _

/-- A point lies in an affine hull exactly if it satisfies all its linear equations. -/
theorem mem_affineSpan_iff_equations {S : Set (Fin D → α)} (hS : S.Nonempty) {v : Fin D → α} :
    v ∈ affineSpan α S ↔ SatisfiesEquationsOf S v := by
  constructor
  · intro hv a b hS
    refine affineSpan_induction hv hS fun r x y z hx hy hz => ?_
    rw [vadd_eq_add, vsub_eq_sub, dotProduct_add, dotProduct_smul, dotProduct_sub, hx, hy, hz,
      sub_self, smul_zero, zero_add]
  · intro hv
    obtain ⟨p, hp⟩ := hS
    by_contra hout
    have hdirection : v - p ∉ vectorSpan α S := fun h => by
      rw [← direction_affineSpan] at h
      have hmem := AffineSubspace.vadd_mem_of_mem_direction h (mem_affineSpan α hp)
      rw [vadd_eq_add, sub_add_cancel] at hmem
      exact hout hmem
    -- a form that vanishes along the hull and not on the way from it to the point
    obtain ⟨f, hf, hzero⟩ :=
      Submodule.exists_dual_map_eq_bot_of_notMem hdirection inferInstance
    obtain ⟨a, ha⟩ := exists_dotProduct_eq f
    have hequation : ∀ x ∈ S, a ⬝ᵥ x = f p := by
      intro x hx
      have hx₀ : f (x - p) ∈ (vectorSpan α S).map f :=
        Submodule.mem_map_of_mem (vsub_mem_vectorSpan α hx hp)
      rw [hzero, Submodule.mem_bot, map_sub, sub_eq_zero] at hx₀
      rw [ha, hx₀]
    have hvp : f v = f p := by rw [← ha, hv a _ hequation]
    exact hf (by rw [map_sub, hvp, sub_self])

/-- The hull of a single point is that point. -/
theorem SatisfiesEquationsOf.eq_of_forall_eq {S : Set (Fin D → α)} {v x : Fin D → α}
    (hv : SatisfiesEquationsOf S v) (hS : ∀ y ∈ S, y = x) : v = x := by
  funext i
  have hi := hv (Pi.single i 1) (x i) fun y hy => by
    rw [single_one_dotProduct, hS y hy]
  rwa [single_one_dotProduct] at hi

/-! ## Proposals -/

variable [CharZero α]

/-- An equation that holds at a walker and at its companions holds at the proposal. -/
theorem dotProduct_proposal {a x : Fin D → α} {b : α} {ys : List (Fin D → α)} (hx : a ⬝ᵥ x = b)
    (hys : ∀ y ∈ ys, a ⬝ᵥ y = b) (zs : List α) : a ⬝ᵥ proposal x ys zs = b := by
  let T : (Fin D → α) →ᵃ[α] (Fin 1 → α) :=
    (LinearMap.pi fun _ => dotProductBilin α α a).toAffineMap
  have hT : ∀ y, a ⬝ᵥ y = b → T y = fun _ => b := fun y hy => funext fun _ => hy
  have hproposal : T (proposal x ys zs) = fun _ => b := by
    rw [map_proposal, hT x hx]
    exact proposal_const_vector (List.forall_mem_map.mpr fun y hy => hT y (hys y hy)) zs
  exact congrFun hproposal 0

/-- Proposals do not lead out of the solutions of the equations of `S`. -/
theorem proposalClosed_equations (S : Set (Fin D → α)) :
    ProposalClosed fun p : Point α => p.dim = D ∧ SatisfiesEquationsOf S (p.toVector D) := by
  rintro p ps zs ⟨hp, heq⟩ hps
  obtain ⟨v, vs, rfl, rfl⟩ := Point.exists_vectors hp fun q hq => (hps q hq).1
  rw [Point.proposal_ofVector]
  refine ⟨Point.dim_ofVector _, fun a b hab => ?_⟩
  rw [Point.toVector_ofVector] at heq ⊢
  refine dotProduct_proposal (heq a b hab) (fun w hw => ?_) zs
  have hw := (hps _ (List.mem_map_of_mem hw)).2 a b hab
  rwa [Point.toVector_ofVector] at hw

/-! ## Runs -/

variable [LogScale β]

/-- **A run never leaves the affine hull of its start.**  Over a field of characteristic zero and
from the points of `xs`, with any host and any number of sweeps, every walker of every recorded
sweep is at a point of the affine hull of `xs`.  This is to say that it satisfies every linear
equation that all points of `xs` satisfy; and if all points of `xs` are one, it is that point. -/
theorem run_stays_in_hull (h : Host σ ε α β (Point α)) (limit sweeps : Nat)
    {xs : List (Fin D → α)} {w w' : σ} {c : Chain (Point α) β}
    (hrun : run h limit sweeps (.start D (xs.map .ofVector)) w = (.ok c, w')) :
    (∀ v, v ∈ affineSpan α {x | x ∈ xs} ↔
      ∀ (a : Fin D → α) (b : α), (∀ x ∈ xs, a ⬝ᵥ x = b) → a ⬝ᵥ v = b) ∧
    ∀ t ∈ c.sweeps, ∀ p ∈ t.positions, ∃ v : Fin D → α, p = .ofVector v ∧
      v ∈ affineSpan α {x | x ∈ xs} ∧
      (∀ (a : Fin D → α) (b : α), (∀ x ∈ xs, a ⬝ᵥ x = b) → a ⬝ᵥ v = b) ∧
      ∀ x, (∀ y ∈ xs, y = x) → v = x := by
  have hstart : {x | x ∈ xs}.Nonempty := by
    have hsize := (le_of_run h limit hrun).1
    rw [Ensemble.size_start, List.length_map] at hsize
    exact List.exists_mem_of_length_pos (Nat.lt_of_lt_of_le (by decide) hsize)
  have hfrom : ∀ p ∈ (Ensemble.start D (xs.map .ofVector) : Ensemble (Point α) β).positions,
      p.dim = D ∧ SatisfiesEquationsOf {x | x ∈ xs} (p.toVector D) := by
    rw [Ensemble.positions_start]
    refine List.forall_mem_map.mpr fun x hx => ⟨Point.dim_ofVector x, fun a b hab => ?_⟩
    rw [Point.toVector_ofVector]
    exact hab x hx
  have hwalkers := always_of_run_from h limit
    (fun _ hcurrent index _ hx =>
      (proposalClosed_equations _).position_plainMove h limit hcurrent index hx)
    (fun _ ha => ha) hfrom hrun
  refine ⟨fun v => mem_affineSpan_iff_equations hstart, fun t ht => ?_⟩
  refine List.forall_mem_map.mpr fun a ha => ?_
  obtain ⟨hdim, hequations⟩ := hwalkers t ht a ha
  exact ⟨a.position.toVector D, (Point.ofVector_toVector hdim).symm,
    (mem_affineSpan_iff_equations hstart).mpr hequations, hequations,
    fun x hx => hequations.eq_of_forall_eq hx⟩

/-- Three walkers on a line of the plane stay on it. -/
theorem run_stays_in_hull_line :
    let h : Host (Tape ℚ (Double fun _ => 1)) Unit ℚ (Double fun _ => 1) (Point ℚ) :=
      Tape.steady (fun _ => (0 : Float)) (0 : Float)
    let xs : List (Fin 2 → ℚ) := [![0, 3], ![1, 2], ![2, 1]]
    ∃ c rest, run h 1 2 (.start 2 (xs.map .ofVector))
        ⟨List.replicate 12 1, [1, 2, -1, 1, 0, 1 / 2, 3, 0, -2, 1, 1, 5], []⟩ = (.ok c, rest) ∧
      c.length = 2 ∧
      ∀ t ∈ c.sweeps, ∀ p ∈ t.positions, ∃ v : Fin 2 → ℚ, p = .ofVector v ∧ v 0 + v 1 = 3 := by
  intro h xs
  have hends : (run h 1 2 (.start 2 (xs.map .ofVector))
      ⟨List.replicate 12 1, [1, 2, -1, 1, 0, 1 / 2, 3, 0, -2, 1, 1, 5], []⟩).1.toOption.any
      (fun c => c.length = 2) = true := by
    decide +kernel
  obtain ⟨c, rest, hrun, hlength⟩ := Draw.exists_ok_of_any hends
  refine ⟨c, rest, hrun, of_decide_eq_true hlength, fun t ht p hp => ?_⟩
  obtain ⟨v, rfl, -, hequations, -⟩ := (run_stays_in_hull h 1 2 hrun).2 t ht p hp
  refine ⟨v, rfl, ?_⟩
  have hline := hequations ![1, 1] 3 (by decide +kernel)
  simpa [dotProduct, Fin.sum_univ_two] using hline

end EnsembleSampling
