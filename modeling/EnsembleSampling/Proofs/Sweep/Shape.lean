import EnsembleSampling.Proofs.Position.Dimension
import EnsembleSampling.Proofs.Sweep.Buffering
set_option autoImplicit false

/-!
# The shape of a sampler

A sampler that starts from an ensemble has two buffers of the shape of that ensemble, whatever
becomes of its sweeps (`Sampler.shaped_afterCalls`).  That the buffers agree in the number of
walkers and of dimensions is `Sampler.Matched`; here it is added that their rows have so many
coordinates, also those of a buffer that a failed sweep left half written.

For the rows there is a property of slots: `Leaves P p` says that `p` does not spoil a slot with
`P`, whether it succeeds or fails.
-/

namespace EnsembleSampling

variable {σ ε α β V : Type}

/-! ## Slots that are written to -/

/-- Whatever its outcome, a request leaves a slot with `P` if it finds one. -/
def Leaves {γ : Type} (P : Walker V β → Prop)
    (p : Draw (Desk σ V β) (SweepFailure ε) γ) : Prop :=
  ∀ w slot, P slot → P (p.outcome (w, slot)).2.2

namespace Leaves

variable {γ δ : Type} {P : Walker V β → Prop}

/-- A request to the host does not touch the slot. -/
theorem consult (x : Draw σ (SweepFailure ε) γ) : Leaves P (consult x) :=
  fun _ _ h => h

theorem write {f : Walker V β → Walker V β} (hf : ∀ slot, P slot → P (f slot)) :
    Leaves P (write f : Draw (Desk σ V β) (SweepFailure ε) Unit) :=
  fun _ slot h => hf slot h

protected theorem bind {x : Draw (Desk σ V β) (SweepFailure ε) γ}
    {f : γ → Draw (Desk σ V β) (SweepFailure ε) δ} (hx : Leaves P x)
    (hf : ∀ a, Leaves P (f a)) : Leaves P (x >>= f) := by
  intro w slot h
  have hslot := hx w slot h
  rcases hw : x.outcome (w, slot) with ⟨e | a, w', slot'⟩
  · rw [Draw.outcome_bind_of_error hw]
    rwa [hw] at hslot
  · rw [Draw.outcome_bind_of_ok hw]
    rw [hw] at hslot
    exact hf a w' slot' hslot

end Leaves

section

variable [LinearOps α V] [LogScale β] {good : V → Prop} (hgood : ProposalClosed good)
  (h : Host σ ε α β V) (limit : Nat)

include hgood

/-- The slot of a walker at a good position is at a good position all along its move. -/
theorem leaves_moveWalker {current : List V} (hcurrent : ∀ y ∈ current, good y) (index : Nat)
    {x : V} (hx : good x) :
    Leaves (fun slot => good slot.position) (moveWalker h limit current index x) := by
  unfold moveWalker
  refine (Leaves.consult _).bind fun old => ?_
  refine (Leaves.consult _).bind fun companions => ?_
  refine (Leaves.consult _).bind fun deviates => ?_
  have hy : good (proposal x (companions.filterMap (current[·]?)) deviates) :=
    hgood x _ deviates hx fun y hy => hcurrent y (mem_of_mem_filterMap_getElem? hy)
  refine (Leaves.write fun _ _ => hy).bind fun _ => ?_
  refine (Leaves.consult _).bind fun new => ?_
  have hend : ∀ m : Move V β, good m.position → good m.proposed →
      Leaves (fun slot => good slot.position)
        (write (fun slot => { slot with acceptProb := m.probability }) >>= fun _ =>
          consult h.uniform.inSweep >>= fun u => write fun _ => m.settle u) := by
    intro m hposition hproposed
    refine Leaves.bind (Leaves.write (f := fun slot => { slot with acceptProb := m.probability })
      fun _ hslot => hslot) fun _ => ?_
    refine (Leaves.consult _).bind fun u => ?_
    exact Leaves.write fun _ _ => Host.Carried.position_settle hposition hproposed
  split
  · exact (Leaves.consult _).bind fun _ => hend _ hx hy
  · exact hend _ hx hy

/-- A sweep over slots at good positions leaves them there, however far it gets. -/
theorem position_moveWalkers {current : List V} (hcurrent : ∀ y ∈ current, good y) :
    ∀ (index : Nat) (xs : List V) (slots : List (Walker V β)) (w : σ), (∀ x ∈ xs, good x) →
      (∀ slot ∈ slots, good slot.position) →
      ∀ slot ∈ (moveWalkers h limit current index xs slots w).2.1, good slot.position := by
  intro index xs
  induction xs generalizing index with
  | nil =>
    intro slots w _ hslots
    simpa [moveWalkers] using hslots
  | cons x xs ih =>
    intro slots w hxs hslots
    cases slots with
    | nil => simp [moveWalkers]
    | cons slot slots =>
      rw [List.forall_mem_cons] at hxs hslots
      have hslot := leaves_moveWalker hgood h limit hcurrent index hxs.1 w slot hslots.1
      rw [moveWalkers]
      rcases hw : (moveWalker h limit current index x).outcome (w, slot) with ⟨e | a, w', slot'⟩
      · rw [hw] at hslot
        exact List.forall_mem_cons.mpr ⟨hslot, hslots.2⟩
      · rw [hw] at hslot
        have hrest := ih (index + 1) slots w' hxs.2 hslots.2
        exact List.forall_mem_cons.mpr ⟨hslot, hrest⟩

end

/-! ## Both buffers -/

namespace Sampler

/-- All positions of a walking sampler are good, those in the buffer too. -/
structure Within (good : V → Prop) (s : Sampler V β) : Prop where
  kernel : s.kernel = .walk
  current : ∀ x ∈ s.current.positions, good x
  next : ∀ x ∈ s.next.positions, good x

variable [LinearOps α V] [LogScale β] {good : V → Prop}

theorem within_start {e : Ensemble V β} (he : ∀ x ∈ e.positions, good x)
    (horigin : ∀ x, good x → good (LinearOps.origin x)) : (start .walk e).Within good := by
  refine ⟨rfl, he, ?_⟩
  change ∀ x ∈ (Ensemble.start e.dims (e.positions.map LinearOps.origin) : Ensemble V β).positions,
    good x
  rw [Ensemble.positions_start]
  exact List.forall_mem_map.mpr fun x hx => horigin x (he x hx)

/-- A call never takes a walker or a slot out of the good positions. -/
theorem within_attempt (hgood : ProposalClosed good) {s : Sampler V β} (hs : s.Within good)
    (c : Call σ ε α β V) : (s.attempt c).Within good := by
  obtain ⟨hkernel, hcurrent, hnext⟩ := hs
  have hslots : ∀ slot ∈ s.next.walkers, good slot.position := by
    simpa [Ensemble.positions] using hnext
  -- the buffer after the sweep, whether or not the sweep came to its end
  have hfilled : ∀ x ∈ (s.kernel.sweepInto c.host c.limit s.current s.next c.state).2.1.positions,
      good x := by
    rw [hkernel, Kernel.sweepInto, EnsembleSampling.sweepInto]
    split
    · exact hnext
    · exact List.forall_mem_map.mpr
        (position_moveWalkers hgood c.host c.limit hcurrent 0 s.current.positions s.next.walkers
          c.state hcurrent hslots)
  rcases hsweep : s.kernel.sweepInto c.host c.limit s.current s.next c.state with ⟨e | _, b, w⟩
  · rw [hsweep] at hfilled
    rw [attempt, transition_of_error hsweep]
    exact ⟨hkernel, hcurrent, hfilled⟩
  · rw [hsweep] at hfilled
    rw [attempt, transition_of_ok hsweep]
    exact ⟨hkernel, hfilled, hcurrent⟩

/-- Nor do calls in a row, each of which may end or fail. -/
theorem within_afterCalls (hgood : ProposalClosed good) (calls : List (Call σ ε α β V))
    {s : Sampler V β} (hs : s.Within good) : (s.afterCalls calls).Within good := by
  induction calls generalizing s with
  | nil => exact hs
  | cons c calls ih => exact ih (within_attempt hgood hs c)

end Sampler

/-! ## Shapes -/

/-- The arrays of an ensemble have the shapes of `n` walkers in `d` dimensions. -/
structure Ensemble.Shaped (n d : Nat) (e : Ensemble (Point α) β) : Prop where
  positions : e.positions.length = n
  dims : e.dims = d
  rows : ∀ x ∈ e.positions, x.dim = d
  logProbs : e.logProbs.length = n
  acceptProbs : e.acceptProbs.length = n

theorem Ensemble.shaped_of_shape {e e' : Ensemble (Point α) β} (hshape : e'.shape = e.shape)
    (hrows : ∀ x ∈ e'.positions, x.dim = e.dims) : e'.Shaped e.size e.dims := by
  obtain ⟨hsize, hdims⟩ := Ensemble.shape_eq_iff.mp hshape
  have hwalkers : e'.walkers.length = e.size := hsize
  exact ⟨by rw [Ensemble.length_positions, hsize], hdims, hrows,
    by rw [Ensemble.logProbs, List.length_map, hwalkers],
    by rw [Ensemble.acceptProbs, List.length_map, hwalkers]⟩

theorem Ensemble.Shaped.shape {n d : Nat} {e : Ensemble (Point α) β} (he : e.Shaped n d) :
    e.shape = [n, d] := by
  rw [Ensemble.shape, ← Ensemble.length_positions, he.positions, he.dims]

variable [Zero α] [Add α] [Sub α] [Mul α] [Div α] [NatCast α] [LogScale β]

/-- After any calls in a row, each of which may have ended or failed, both buffers have the shape
of the ensemble that the sampler was started from. -/
theorem Sampler.shaped_afterCalls {e : Ensemble (Point α) β} (he : e.Regular)
    (calls : List (Call σ ε α β (Point α))) :
    ((start .walk e).afterCalls calls).current.Shaped e.size e.dims ∧
      ((start .walk e).afterCalls calls).next.Shaped e.size e.dims := by
  obtain ⟨hmatched, -, hshape⟩ := afterCalls_invariant calls (matched_start .walk e)
  have horigin : ∀ x : Point α, x.dim = e.dims → (LinearOps.origin x : Point α).dim = e.dims :=
    fun x hx => (List.length_map _).trans hx
  have hwithin := within_afterCalls (Point.proposalClosed_dim e.dims) calls
    (within_start he.dim horigin)
  exact ⟨Ensemble.shaped_of_shape hshape hwithin.current,
    Ensemble.shaped_of_shape (hmatched.trans hshape) hwithin.next⟩

end EnsembleSampling
