import EnsembleSampling.Proofs.Sweep.Carried
import EnsembleSampling.Proofs.Table
set_option autoImplicit false

/-!
# The dimension of positions

Positions with the same number of coordinates have a mean and proposals with that number of
coordinates, whatever the arithmetic, so a run never leaves the dimension that it starts in
(`dim_plainMove`).

A table of positions is read as an ensemble that is `Regular`, and a regular ensemble that is
written to a table is read from it again; so is an argument that stands for a table
(`Ensemble.ofArguments_absent`).
-/

namespace EnsembleSampling

variable {σ ε α β : Type}

/-! ## Rows of equal length -/

section

variable [Zero α] [Add α] {D : Nat}

omit [Zero α] in
theorem length_foldl_rows {row : List α} {rows : List (List α)} (hrow : row.length = D)
    (hrows : ∀ r ∈ rows, r.length = D) :
    (rows.foldl (List.zipWith (· + ·)) row).length = D := by
  induction rows generalizing row with
  | nil => exact hrow
  | cons r rows ih =>
    rw [List.forall_mem_cons] at hrows
    refine ih ?_ hrows.2
    rw [List.length_zipWith, hrow, hrows.1, Nat.min_self]

/-- A sum of rows has as many columns as they have. -/
theorem length_sumRows {rows : List (List α)} (hne : rows ≠ [])
    (hrows : ∀ r ∈ rows, r.length = D) : (sumRows rows).length = D := by
  fun_cases sumRows rows with
  | case1 => exact absurd rfl hne
  | case2 x rest => exact hrows [x] (by simp)
  | case3 row rest _ =>
    rw [List.forall_mem_cons] at hrows
    exact length_foldl_rows (by rw [List.length_map, hrows.1]) hrows.2

end

/-! ## Points -/

namespace Point

variable [Zero α] [Add α] [Sub α] [Mul α] [Div α] [NatCast α] {D : Nat}

theorem dim_mean {ps : List (Point α)} (hne : ps ≠ []) (hps : ∀ p ∈ ps, p.dim = D) :
    (LinearOps.mean ps : Point α).dim = D := by
  have hrows : ∀ r ∈ ps.map coords, r.length = D := by
    intro r hr
    obtain ⟨p, hp, rfl⟩ := List.mem_map.mp hr
    exact hps p hp
  have hlength : (sumRows (ps.map coords)).length = D :=
    length_sumRows (by simpa using hne) hrows
  change (meanRows (ps.map coords)).length = D
  rw [meanRows, List.length_map, hlength]

/-- Adding a multiple of an offset to a point leaves its number of coordinates. -/
theorem dim_add_offset {x y center : Point α} (hx : x.dim = D) (hy : y.dim = D)
    (hcenter : center.dim = D) (z : α) :
    (LinearOps.add x (LinearOps.scale z (LinearOps.sub y center))).dim = D := by
  have hsub : (zipWith (· - ·) y center).dim = D :=
    (dim_zipWith (hy.trans hcenter.symm)).trans hcenter
  have hscale : (LinearOps.scale z (LinearOps.sub y center)).dim = D := by
    refine Eq.trans ?_ hsub
    exact List.length_map _
  exact (dim_zipWith (hx.trans hscale.symm)).trans hscale

/-- Among points of one dimension, proposals are of that dimension. -/
theorem dim_proposal {x : Point α} {ys : List (Point α)} (hx : x.dim = D)
    (hys : ∀ y ∈ ys, y.dim = D) (zs : List α) : (proposal x ys zs).dim = D := by
  rcases eq_or_ne ys [] with rfl | hne
  · exact hx
  · have hcenter := dim_mean hne hys
    have hpairs : ∀ pair ∈ ys.zip zs, pair.1.dim = D :=
      fun pair hpair => hys pair.1 (List.of_mem_zip hpair).1
    unfold proposal
    revert hcenter hpairs
    generalize (LinearOps.mean ys : Point α) = center
    generalize ys.zip zs = pairs
    intro hcenter hpairs
    induction pairs generalizing x with
    | nil => exact hx
    | cons pair pairs ih =>
      rw [List.forall_mem_cons] at hpairs
      exact ih (dim_add_offset hx hpairs.1 hcenter pair.2) hpairs.2

end Point

/-! ## Tables -/

namespace Ensemble

/-- An ensemble that a sampler can start from: at least three walkers, in at least one
dimension, each with as many coordinates as there are dimensions. -/
structure Regular (e : Ensemble (Point α) β) : Prop where
  size : minWalkers ≤ e.size
  dims : 0 < e.dims
  dim : ∀ x ∈ e.positions, x.dim = e.dims

variable [LogScale β]

/-- What is read off a table is an ensemble that a sampler can start from, and of which
nothing but the positions is known. -/
theorem regular_of_ofPositions {t : Tensor α} (ht : t.Filled) {e : Ensemble (Point α) β}
    (he : ofPositions t = .ok e) : e.Regular ∧ e = start e.dims e.positions := by
  obtain ⟨shape, entries⟩ := t
  match shape, ht, he with
  | [n, d], ht, he =>
    have hentries : entries.length = n * (d * 1) := ht
    by_cases hd : d = 0
    · simp [ofPositions, positionsOf, hd, Except.map] at he
    by_cases hn : n < minWalkers
    · simp [ofPositions, positionsOf, hd, hn, Except.map] at he
    · have hslabs : (⟨[n, d], entries⟩ : Tensor α).slabs = Tensor.pieces (d * 1) n entries := rfl
      have heq : start d ((Tensor.pieces (d * 1) n entries).map Point.mk) = e := by
        simpa [ofPositions, positionsOf, hd, hn, Except.map, hslabs] using he
      subst heq
      rw [positions_start]
      refine ⟨⟨?_, Nat.pos_of_ne_zero hd, ?_⟩, rfl⟩
      · rw [size_start, List.length_map, Tensor.length_pieces]
        omega
      · rw [positions_start]
        refine List.forall_mem_map.mpr fun piece hpiece => ?_
        have hlength := Tensor.length_of_mem_pieces hentries piece hpiece
        rwa [Nat.mul_one] at hlength
  | [], _, he => simp [ofPositions, positionsOf, Except.map] at he
  | [_], _, he => simp [ofPositions, positionsOf, Except.map] at he
  | _ :: _ :: _ :: _, _, he => simp [ofPositions, positionsOf, Except.map] at he

/-- Positions that are written to a table are read again. -/
theorem ofPositions_positionTable {e : Ensemble (Point α) β} (he : e.Regular) :
    (ofPositions e.positionTable : Except Rejection (Ensemble (Point α) β)) =
      .ok (start e.dims e.positions) := by
  have hsize : ¬ (e.positions.map (·.coords)).length < minWalkers := by
    rw [List.length_map, length_positions]
    exact Nat.not_lt.mpr he.size
  have hrows : ∀ row ∈ e.positions.map (·.coords), row.length = e.dims * 1 := by
    refine List.forall_mem_map.mpr fun x hx => ?_
    rw [Nat.mul_one]
    exact he.dim x hx
  have hslabs : e.positionTable.slabs = e.positions.map (·.coords) :=
    Tensor.pieces_flatten (e.dims * 1) _ hrows
  have hpoints : (e.positions.map (·.coords)).map Point.mk = e.positions := by
    rw [List.map_map]
    exact List.map_id _
  have hdims : e.dims ≠ 0 := Nat.pos_iff_ne_zero.mp he.dims
  have hshape : e.positionTable.shape = [(e.positions.map (·.coords)).length, e.dims] := rfl
  simp only [ofPositions, positionsOf, hshape, hslabs, hpoints, hsize, hdims, if_false]
  rfl

omit [LogScale β] in
/-- Walkers of which nothing is known but where they are. -/
theorem zipWith_replicate_walker (xs : List (Point α)) (l a : β) :
    List.zipWith (fun x (l, a) => (⟨x, l, a⟩ : Walker (Point α) β)) xs
      (List.replicate xs.length (l, a)) = xs.map fun x => ⟨x, l, a⟩ := by
  induction xs with
  | nil => rfl
  | cons x xs ih => exact congrArg (_ :: ·) ih

/-- An ensemble whose log-densities and probabilities are absent is the one at its positions. -/
theorem ofArrays_none (t : Tensor α) :
    (ofArrays t none none : Except Rejection (Ensemble (Point α) β)) = ofPositions t := by
  unfold ofArrays ofPositions
  rcases positionsOf t with r | ⟨d, xs⟩
  · rfl
  · have hcount : Tensor.count [xs.length] = xs.length := Nat.mul_one _
    have hwalkers := zipWith_replicate_walker xs (LogScale.undefined : β) 0
    simpa [start, Except.map, pure, Except.pure, bind, Except.bind, Tensor.constant, hcount]
      using hwalkers

/-- An argument that stands for positions is read as a table, and that as an ensemble. -/
theorem ofArguments_absent (a : Argument) :
    ofArguments a .absent .absent = Tensor.ofArgument a >>= fun t =>
      (ofPositions t : Except Rejection (Ensemble (Point Float) Float)).mapError .rejected := by
  unfold ofArguments
  rcases Tensor.ofArgument a with f | t
  · rfl
  · simp only [bind, Except.bind, ofArguments.optionalArray, ofArrays_none]
    unfold ofPositions
    rcases positionsOf t with r | ⟨d, xs⟩ <;> rfl

end Ensemble

/-! ## Runs -/

variable [Zero α] [Add α] [Sub α] [Mul α] [Div α] [NatCast α] [LogScale β] {D : Nat}
  (h : Host σ ε α β (Point α)) (limit : Nat)

omit [LogScale β] in
/-- Proposals do not lead out of a dimension. -/
theorem Point.proposalClosed_dim (D : Nat) : ProposalClosed fun p : Point α => p.dim = D :=
  fun _ _ zs hx hys => dim_proposal hx hys zs

/-- A move among points of one dimension ends at a point of that dimension. -/
theorem dim_plainMove {current : List (Point α)} (hcurrent : ∀ y ∈ current, y.dim = D)
    (index : Nat) {x : Point α} (hx : x.dim = D) :
    Draw.Always (fun a => a.position.dim = D) (plainMove h limit current index x) :=
  (Point.proposalClosed_dim D).position_plainMove h limit hcurrent index hx

end EnsembleSampling
