import EnsembleSampling.Proofs.Sweep.Plain
set_option autoImplicit false

/-!
# Two buffers

A sampler has two ensembles that change places with every sweep that ends, and a sweep
that fails leaves the one it was writing to half written.  None of this shows: what a
call of `Sampler.transition` does is decided by the plain sweep from the current
positions and by the host at that moment.

The invariant behind it is `Sampler.Matched`: the buffer has the shape of the current
ensemble.  Every sampler starts with it, and every call keeps it, whether it ends or
fails.
-/

namespace EnsembleSampling

variable {σ ε α β V : Type}

namespace Sampler

/-- The buffer has the shape of the current ensemble. -/
def Matched (s : Sampler V β) : Prop := s.next.shape = s.current.shape

/-- A call for a sweep: whom the sampler asks, and the state that the host is in then. -/
structure Call (σ ε α β V : Type) where
  host : Host σ ε α β V
  limit : Nat
  state : σ

/-- A sampler with other log-densities and probabilities beside the current positions, and
anything in the slots of the buffer. -/
def disturbed (s : Sampler V β) (f : Walker V β → β × β) (g : Walker V β → Walker V β) :
    Sampler V β :=
  { s with
    current := { s.current with
      walkers := s.current.walkers.map fun a => ⟨a.position, (f a).1, (f a).2⟩ }
    next := { s.next with walkers := s.next.walkers.map g } }

theorem positions_disturbed (s : Sampler V β) (f : Walker V β → β × β)
    (g : Walker V β → Walker V β) :
    (s.disturbed f g).current.positions = s.current.positions := by
  simp [disturbed, Ensemble.positions]

theorem matched_disturbed {s : Sampler V β} (hs : s.Matched) (f : Walker V β → β × β)
    (g : Walker V β → Walker V β) : (s.disturbed f g).Matched := by
  simpa [Matched, disturbed, Ensemble.shape, Ensemble.size] using hs

section

variable [LinearOps α V] [LogScale β]

/-- What is left of a sampler by a call. -/
def attempt (s : Sampler V β) (c : Call σ ε α β V) : Sampler V β :=
  (s.transition c.host c.limit c.state).2.1

/-- What is left of a sampler by calls in a row, each of which may end or fail. -/
def afterCalls (s : Sampler V β) (calls : List (Call σ ε α β V)) : Sampler V β :=
  calls.foldl attempt s

/-- A sampler starts with a buffer of the right shape. -/
theorem matched_start (k : Kernel) (e : Ensemble V β) : (start k e).Matched :=
  Ensemble.shape_emptyLike e

/-- A call of a sampler whose buffer has the right shape: it ends as the plain sweep from
the current positions does, and if that fails only the buffer differs afterwards. -/
theorem transition_eq {s : Sampler V β} (hs : s.Matched) (h : Host σ ε α β V) (limit : Nat)
    (w : σ) :
    match (s.kernel.plainSweep h limit s.current.positions).outcome w with
    | (.ok ws, w') => s.transition h limit w =
        (.ok (), ⟨s.kernel, ⟨s.current.dims, ws⟩, s.current, s.sweeps + 1⟩, w')
    | (.error e, w') => ∃ spoilt : Ensemble V β, spoilt.shape = s.current.shape ∧
        s.transition h limit w = (.error e, { s with next := spoilt }, w') := by
  have hsweep := s.kernel.sweepInto_eq h limit hs w
  rcases hx : (s.kernel.plainSweep h limit s.current.positions).outcome w with ⟨e | ws, w'⟩
  · rw [hx] at hsweep
    obtain ⟨spoilt, hspoilt, hm⟩ := hsweep
    exact ⟨spoilt, hspoilt, transition_of_error hm⟩
  · rw [hx] at hsweep
    exact transition_of_ok hsweep

/-- A sweep that ends has as many walkers as before. -/
theorem size_of_plainSweep {s : Sampler V β} {h : Host σ ε α β V} {limit : Nat} {w w' : σ}
    {ws : List (Walker V β)}
    (hx : (s.kernel.plainSweep h limit s.current.positions).outcome w = (.ok ws, w')) :
    ws.length = s.current.size := by
  rw [← Ensemble.length_positions]
  exact s.kernel.length_plainSweep h limit s.current.positions w ws w' hx

/-- Every call keeps the buffer in shape, and never changes the kernel, the number of
walkers or the number of dimensions. -/
theorem attempt_invariant {s : Sampler V β} (hs : s.Matched) (c : Call σ ε α β V) :
    (s.attempt c).Matched ∧ (s.attempt c).kernel = s.kernel ∧
      (s.attempt c).current.shape = s.current.shape := by
  have ht := transition_eq hs c.host c.limit c.state
  rcases hx : (s.kernel.plainSweep c.host c.limit s.current.positions).outcome c.state with
    ⟨e | ws, w'⟩
  · rw [hx] at ht
    obtain ⟨spoilt, hspoilt, hm⟩ := ht
    have ha : s.attempt c = { s with next := spoilt } := by rw [attempt, hm]
    rw [ha]
    exact ⟨hspoilt, rfl, rfl⟩
  · rw [hx] at ht
    have ha : s.attempt c = ⟨s.kernel, ⟨s.current.dims, ws⟩, s.current, s.sweeps + 1⟩ := by
      rw [attempt, ht]
    have hshape : (⟨s.current.dims, ws⟩ : Ensemble V β).shape = s.current.shape :=
      Ensemble.shape_eq_iff.mpr ⟨size_of_plainSweep hx, rfl⟩
    rw [ha]
    exact ⟨hshape.symm, rfl, hshape⟩

/-- The invariant over any row of calls. -/
theorem afterCalls_invariant :
    ∀ (calls : List (Call σ ε α β V)) {s : Sampler V β}, s.Matched →
      (s.afterCalls calls).Matched ∧ (s.afterCalls calls).kernel = s.kernel ∧
        (s.afterCalls calls).current.shape = s.current.shape := by
  intro calls
  induction calls with
  | nil => intro s hs; exact ⟨hs, rfl, rfl⟩
  | cons c calls ih =>
    intro s hs
    obtain ⟨hm, hk, hshape⟩ := attempt_invariant hs c
    obtain ⟨hm', hk', hshape'⟩ := ih hm
    exact ⟨hm', hk'.trans hk, hshape'.trans hshape⟩

/-- After any row of calls, each made with any host in any state and each of which may
have failed at any request, the next call refines the plain sweep.

If the plain sweep from the current positions ends in the present state of the host, so
does the call: the walkers that it answers become the current ones, and the sweep is
counted.  If it fails, so does the call, with the same failure and the same state of the
host, and nothing but the buffer has changed.  Hence neither what stands in the buffer
nor the log-densities and probabilities of the current walkers have any influence. -/
theorem transition_refines_plainSweep (k : Kernel) (e : Ensemble V β)
    (calls : List (Call σ ε α β V)) (h : Host σ ε α β V) (limit : Nat) (w : σ) :
    let s := (start k e).afterCalls calls
    (match (k.plainSweep h limit s.current.positions).outcome w with
      | (.ok ws, w') => s.transition h limit w =
          (.ok (), ⟨k, ⟨e.dims, ws⟩, s.current, s.sweeps + 1⟩, w')
      | (.error f, w') => ∃ spoilt : Ensemble V β,
          s.transition h limit w = (.error f, { s with next := spoilt }, w')) ∧
    ∀ (f : Walker V β → β × β) (g : Walker V β → Walker V β),
      match s.transition h limit w with
      | (.ok (), t, w') => ∃ t' : Sampler V β, t'.current = t.current ∧ t'.sweeps = t.sweeps ∧
          (s.disturbed f g).transition h limit w = (.ok (), t', w')
      | (.error x, _, w') => ∃ t' : Sampler V β,
          (s.disturbed f g).transition h limit w = (.error x, t', w') := by
  intro s
  obtain ⟨hs, hk, hshape⟩ := afterCalls_invariant calls (matched_start k e)
  have hdims : s.current.dims = e.dims := (Ensemble.shape_eq_iff.mp hshape).2
  have hkernel : s.kernel = k := hk
  have ht := transition_eq hs h limit w
  rw [show ((start k e).afterCalls calls) = s from rfl, hkernel, hdims] at ht
  refine ⟨?_, fun f g => ?_⟩
  · rcases hx : (k.plainSweep h limit s.current.positions).outcome w with ⟨x | ws, w'⟩
    · rw [hx] at ht
      obtain ⟨spoilt, -, hm⟩ := ht
      refine ⟨spoilt, ?_⟩
      rw [hm, hkernel]
    · rw [hx] at ht
      exact ht
  · have hd := transition_eq (matched_disturbed hs f g) h limit w
    rw [show (s.disturbed f g).kernel = k from hkernel, positions_disturbed] at hd
    rcases hx : (k.plainSweep h limit s.current.positions).outcome w with ⟨x | ws, w'⟩
    · rw [hx] at ht hd
      obtain ⟨spoilt, -, hm⟩ := ht
      obtain ⟨spoilt', -, hm'⟩ := hd
      rw [hm]
      exact ⟨_, hm'⟩
    · rw [hx] at ht hd
      rw [ht]
      refine ⟨_, ?_, ?_, hd⟩
      · exact congrArg (Ensemble.mk · ws) hdims
      · rfl

end

end Sampler

end EnsembleSampling
