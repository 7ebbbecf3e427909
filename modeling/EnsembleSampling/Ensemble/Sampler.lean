import EnsembleSampling.Ensemble.Sweep
set_option autoImplicit false

/-!
# Samplers

A sampler holds the walkers before a sweep and a buffer for the walkers after it.
When a sweep ends, the two change places and the sweep is counted; when it fails,
the walkers and the count stay as they were, and only the buffer may have changed.

How a sweep moves the walkers is the sampler's kernel: the walk moves each of them
by its companions, the other kernel holds them where they are and only evaluates
the log-density there.
-/

namespace EnsembleSampling

/-- How a sampler moves its walkers. -/
inductive Kernel where
  | walk
  | hold
  deriving DecidableEq, Repr, Inhabited

namespace Kernel

/-- What a sampler with this kernel is called. -/
def name : Kernel → String
  | .walk => "Ensemble Sampler using Walk Move"
  | .hold => "Ensemble Sampler"

/-- The word that descriptions of its samplers begin with. -/
def title : Kernel → String
  | .walk => "WalkMoveEnsemble"
  | .hold => "StayPut"

/-- What there is to report of its tuning parameters. -/
def metric : Kernel → String
  | .walk => "# No free parameters for walk move ensemble sampler\n"
  | .hold => ""

end Kernel

section

variable {σ ε α β V : Type}

/-- Evaluate the log-density of each position in order and write it into its slot. -/
def evaluateWalkers (h : Host σ ε α β V) :
    List V → List (Walker V β) → σ → Except ε Unit × List (Walker V β) × σ
  | x :: xs, slot :: slots, w =>
    match (h.logDensity x).outcome w with
    | (.ok l, w) =>
      let (r, slots, w) := evaluateWalkers h xs slots w
      (r, { slot with logProb := l } :: slots, w)
    | (.error e, w) => (.error e, slot :: slots, w)
  | _, slots, w => (.ok (), slots, w)

/-- A sweep that moves no walker: the positions are written first, then the
log-densities one by one, and at last every walker counts as accepted. -/
def holdInto [One β] (h : Host σ ε α β V) (current buffer : Ensemble V β) (w : σ) :
    Except (SweepFailure ε) Unit × Ensemble V β × σ :=
  let slots := List.zipWith (fun x slot => { slot with position := x }) current.positions
    buffer.walkers
  match evaluateWalkers h current.positions slots w with
  | (.ok (), slots, w) =>
    (.ok (), { buffer with walkers := slots.map fun s => { s with acceptProb := 1 } }, w)
  | (.error e, slots, w) => (.error (.raised e), { buffer with walkers := slots }, w)

/-- A sweep with a given kernel. -/
def Kernel.sweepInto [LinearOps α V] [LogScale β] (k : Kernel) (h : Host σ ε α β V)
    (limit : Nat) (current buffer : Ensemble V β) (w : σ) :
    Except (SweepFailure ε) Unit × Ensemble V β × σ :=
  match k with
  | .walk => EnsembleSampling.sweepInto h limit current buffer w
  | .hold => holdInto h current buffer w

end

/-- The walkers of an ensemble between sweeps. -/
structure Sampler (V β : Type) where
  kernel : Kernel
  current : Ensemble V β
  /-- The buffer that the next sweep writes into. -/
  next : Ensemble V β
  sweeps : Nat
  deriving Inhabited

namespace Sampler

variable {σ ε α β V : Type}

/-- The sampler that starts from an ensemble. -/
def start [LinearOps α V] [LogScale β] (k : Kernel) (e : Ensemble V β) : Sampler V β :=
  ⟨k, e, e.emptyLike, 0⟩

/-- One sweep. -/
def transition [LinearOps α V] [LogScale β] (h : Host σ ε α β V) (limit : Nat)
    (s : Sampler V β) (w : σ) : Except (SweepFailure ε) Unit × Sampler V β × σ :=
  match s.kernel.sweepInto h limit s.current s.next w with
  | (.ok (), filled, w) =>
    (.ok (), { s with current := filled, next := s.current, sweeps := s.sweeps + 1 }, w)
  | (.error e, spoilt, w) => (.error e, { s with next := spoilt }, w)

/-- Mean position of the walkers. -/
def meanPosition [LinearOps α V] (s : Sampler V β) : V := LinearOps.mean s.current.positions

/-- Mean acceptance probability of the walkers. -/
def meanAcceptProb [Zero β] [Add β] [Div β] [NatCast β] (s : Sampler V β) : β :=
  mean s.current.acceptProbs

/-- A short description. -/
def description (s : Sampler V β) : String :=
  s.kernel.title ++ "(n_walkers=" ++ toString s.current.size ++ ", n_dims="
    ++ toString s.current.dims ++ ", n_sweeps=" ++ toString s.sweeps ++ ")"

/-! ## Small facts -/

section

variable [LinearOps α V] [LogScale β] {h : Host σ ε α β V} {limit : Nat} {s : Sampler V β}
  {w : σ}

theorem transition_of_ok {filled : Ensemble V β} {w' : σ}
    (hs : s.kernel.sweepInto h limit s.current s.next w = (.ok (), filled, w')) :
    s.transition h limit w =
      (.ok (), { s with current := filled, next := s.current, sweeps := s.sweeps + 1 }, w') := by
  simp [transition, hs]

theorem transition_of_error {e : SweepFailure ε} {spoilt : Ensemble V β} {w' : σ}
    (hs : s.kernel.sweepInto h limit s.current s.next w = (.error e, spoilt, w')) :
    s.transition h limit w = (.error e, { s with next := spoilt }, w') := by
  simp [transition, hs]

end

end Sampler

end EnsembleSampling
