import EnsembleSampling.Chain.Basic
import EnsembleSampling.Ensemble.Sampler
set_option autoImplicit false

/-!
# Runs

A run starts a sampler from an ensemble, makes a given number of sweeps, and records
the ensemble after each of them.  The first sweep that fails ends it, and then there
is no chain.
-/

namespace EnsembleSampling

variable {σ ε α β V : Type} [LinearOps α V] [LogScale β]

/-- One sweep that is recorded in a chain. -/
def Sampler.transitionInto (h : Host σ ε α β V) (limit : Nat) (s : Sampler V β)
    (c : Chain V β) (w : σ) : Except (SweepFailure ε) (Sampler V β × Chain V β) × σ :=
  match s.transition h limit w with
  | (.ok (), s, w) =>
    match c.record s.current with
    | .ok c => (.ok (s, c), w)
    | .error r => (.error (.refused (.rejected r)), w)
  | (.error e, _, w) => (.error e, w)

/-- So many further sweeps, each recorded at the end of a chain. -/
def Sampler.extend (h : Host σ ε α β V) (limit : Nat) :
    (sweeps : Nat) → Sampler V β → Chain V β → σ →
      Except (SweepFailure ε) (Sampler V β × Chain V β) × σ
  | 0, s, c, w => (.ok (s, c), w)
  | sweeps + 1, s, c, w =>
    match s.transitionInto h limit c w with
    | (.ok (s, c), w) => Sampler.extend h limit sweeps s c w
    | (.error e, w) => (.error e, w)

/-- A run of so many sweeps from an ensemble. -/
def run (h : Host σ ε α β V) (limit sweeps : Nat) (e : Ensemble V β) (w : σ) :
    Except (SweepFailure ε) (Chain V β) × σ :=
  match Chain.start e.size e.dims with
  | .error f => (.error (.refused f), w)
  | .ok c =>
    match Sampler.extend h limit sweeps (.start .walk e) c w with
    | (.ok (_, c), w) => (.ok c, w)
    | (.error e, w) => (.error e, w)

end EnsembleSampling
