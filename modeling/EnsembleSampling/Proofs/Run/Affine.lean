import EnsembleSampling.Proofs.Position.Exact
import EnsembleSampling.Proofs.Recorded
import EnsembleSampling.Proofs.Tape
set_option autoImplicit false

/-!
# Affine invariance

In exact arithmetic a run does not depend on the coordinates in which positions are
given.  `run_affine_image`: for an affine map from one space to another, invertible or
not, the run on a log-density of the target from the images of some positions is the
image of the run on the pulled back log-density from the positions themselves, request
for request.
-/

namespace EnsembleSampling

variable {σ ε α β V W : Type}

/-- The host whose log-density at a position is that of another host at the image. -/
def Host.comap (T : V → W) (g : Host σ ε α β W) : Host σ ε α β V where
  logDensity x := g.logDensity (T x)
  coin := g.coin
  normal := g.normal
  uniform := g.uniform
  noteUndefined := g.noteUndefined

/-- On record, a host and its pulled back host make the same requests for corresponding
positions. -/
theorem Host.carried_comap (T : V → W) (good : V → Prop) (g : Host σ ε α β W) :
    (g.comap T).recorded.Carried T good
      (Prod.map id (List.map (Event.mapPosition T))) g.recorded where
  logDensity _ _ := Draw.recorded_carried T _ fun _ => rfl
  coin := Draw.recorded_carried T _ fun _ => rfl
  normal := Draw.recorded_carried T _ fun _ => rfl
  uniform := Draw.recorded_carried T _ fun _ => rfl
  noteUndefined _ _ := rfl

section

variable [Field α] {D E : Nat}

/-- The image of a point under an affine map of its coordinates. -/
def Point.image (T : (Fin D → α) →ᵃ[α] (Fin E → α)) (p : Point α) : Point α :=
  ofVector (T (toVector D p))

theorem Point.image_ofVector (T : (Fin D → α) →ᵃ[α] (Fin E → α)) (v : Fin D → α) :
    image T (ofVector v) = ofVector (T v) := by
  rw [image, toVector_ofVector]

/-- Among points of one dimension, affine maps carry proposals to proposals. -/
theorem Point.carriesProposals_image [CharZero α] (T : (Fin D → α) →ᵃ[α] (Fin E → α)) :
    CarriesProposals (α := α) (image T) (fun p => p.dim = D) := by
  constructor
  · intro x ys zs hx hys
    obtain ⟨v, vs, rfl, rfl⟩ := exists_vectors hx hys
    rw [proposal_ofVector]
    exact dim_ofVector _
  · intro x ys zs hx hys
    obtain ⟨v, vs, rfl, rfl⟩ := exists_vectors hx hys
    have himage : (vs.map ofVector).map (image T) = (vs.map T).map ofVector := by
      rw [List.map_map, List.map_map]
      exact List.map_congr_left fun w _ => image_ofVector T w
    rw [proposal_ofVector, image_ofVector, image_ofVector, himage, proposal_ofVector, map_proposal]

variable [LogScale β]

/-- **Affine invariance of whole runs.**  The first run is on the log-density `g ∘ T` from
the points of `xs`, the second on `g` from their images, and both are fed by the same
source.  The second is the image of the first: it ends when the first ends and fails when
that fails, with the same failure; its record is that of the first with every position
replaced by its image; it leaves the source in the same state; and its chain differs from
the chain of the first only in the positions, each of which is replaced by its image. -/
theorem run_affine_image [CharZero α] (hD : 0 < D) (hE : 0 < E)
    (T : (Fin D → α) →ᵃ[α] (Fin E → α)) (g : Host σ ε α β (Point α)) (limit sweeps : Nat)
    (xs : List (Fin D → α)) (w : σ) :
    let first := run (g.comap (Point.image T)).recorded limit sweeps
      (.start D (xs.map .ofVector)) (w, [])
    run g.recorded limit sweeps (.start E (xs.map fun x => .ofVector (T x))) (w, []) =
      (first.1.map (Chain.mapPositions (Point.image T) E),
        (first.2.1, first.2.2.map (Event.mapPosition (Point.image T)))) := by
  intro first
  have hgood : ∀ x ∈ (Ensemble.start D (xs.map .ofVector) : Ensemble (Point α) β).positions,
      x.dim = D := by
    rw [Ensemble.positions_start]
    intro x hx
    obtain ⟨v, -, rfl⟩ := List.mem_map.mp hx
    exact Point.dim_ofVector v
  have hstart : (Ensemble.start D (xs.map .ofVector) : Ensemble (Point α) β).mapPositions
      (Point.image T) E = .start E (xs.map fun x => .ofVector (T x)) := by
    simp [Ensemble.mapPositions, Ensemble.start, Walker.mapPosition, Point.image_ofVector]
  have hdims : (Ensemble.start D (xs.map .ofVector) : Ensemble (Point α) β).dims = 0 ↔ E = 0 :=
    ⟨fun h => absurd h (Nat.pos_iff_ne_zero.mp hD), fun h => absurd h (Nat.pos_iff_ne_zero.mp hE)⟩
  have hrun := (g.carried_comap (Point.image T) (fun p => p.dim = D)).run_eq
    (Point.carriesProposals_image T) limit sweeps hgood hdims (w, [])
  rw [hstart] at hrun
  exact hrun

end

/-- Three walkers of the plane and their projections to a line, which is not invertible. -/
theorem run_affine_image_projection :
    0 < 2 ∧ 0 < 1 ∧
      (let T : (Fin 2 → ℚ) →ᵃ[ℚ] (Fin 1 → ℚ) :=
        (LinearMap.funLeft ℚ ℚ fun _ : Fin 1 => (0 : Fin 2)).toAffineMap
      let g : Host (Tape ℚ Float) Unit ℚ Float (Point ℚ) :=
        Tape.host fun p => if p.coords = [1] then 0 else 1
      let xs : List (Fin 2 → ℚ) := [![0, 3], ![1, 2], ![2, 5]]
      let tape : Tape ℚ Float :=
        ⟨List.replicate 6 1, [1, 2, -1, 1, 0, 1 / 2], [0, 0, 0]⟩
      let first := run (g.comap (Point.image T)).recorded 10 1
        (.start 2 (xs.map .ofVector)) (tape, [])
      run g.recorded 10 1 (.start 1 (xs.map fun x => .ofVector (T x))) (tape, []) =
        (first.1.map (Chain.mapPositions (Point.image T) 1),
          (first.2.1, first.2.2.map (Event.mapPosition (Point.image T))))) := by
  have hD : 0 < 2 := by decide
  have hE : 0 < 1 := by decide
  exact ⟨hD, hE, run_affine_image hD hE _ _ 10 1 _ _⟩

end EnsembleSampling
