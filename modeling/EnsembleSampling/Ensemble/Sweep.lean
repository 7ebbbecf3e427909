import EnsembleSampling.Ensemble.Companions
import EnsembleSampling.Ensemble.Walker
set_option autoImplicit false

/-!
# One sweep

A sweep moves every walker once, each from its position before the sweep.  The
proposal for a walker adds to its position, for each companion, a normal multiple
of that companion's offset from the companions' mean; it is accepted with the
probability `acceptance`.

The walkers after the sweep are written into a buffer, one slot after the other and
each slot in steps: the proposal as soon as it is known, then the probability, then
the outcome.  A request that fails in between leaves the slot as far as it was
written and the slots behind it as they were.
-/

namespace EnsembleSampling

/-- The proposal for a walker at `x`: for each companion its deviate times its offset
from the companions' mean is added, in order. -/
def proposal {α V : Type} [LinearOps α V] (x : V) (companions : List V) (deviates : List α) :
    V :=
  let center := LinearOps.mean companions
  (companions.zip deviates).foldl
    (fun p (y, z) => LinearOps.add p (LinearOps.scale z (LinearOps.sub y center))) x

/-- A proposed move of one walker. -/
structure Move (V β : Type) where
  position : V
  logProb : β
  proposed : V
  proposedLogProb : β
  deriving Inhabited

namespace Move

variable {V β : Type} [LogScale β]

/-- The probability of accepting a move. -/
def probability (m : Move V β) : β := acceptance m.logProb m.proposedLogProb

/-- The walker after a move: where it was if the uniform exceeds the probability,
else where it was proposed. -/
def settle (m : Move V β) (u : β) : Walker V β :=
  if m.probability < u then ⟨m.position, m.logProb, m.probability⟩
  else ⟨m.proposed, m.proposedLogProb, m.probability⟩

end Move

section

variable {σ ε α β V : Type}

/-- A log-density of a proposal, where no number counts as infinitely large. -/
def regarded [LogScale β] (l : β) : β :=
  if LogScale.isUndefined l then LogScale.infinity else l

/-- The host together with the slot of the buffer that is being written. -/
abbrev Desk (σ V β : Type) : Type := σ × Walker V β

/-- A request to the host while a slot is being written. -/
def consult {γ : Type} (x : Draw σ (SweepFailure ε) γ) :
    Draw (Desk σ V β) (SweepFailure ε) γ :=
  .ofOutcome fun (w, slot) =>
    let (r, w) := x.outcome w
    (r, (w, slot))

/-- Write the slot. -/
def write (f : Walker V β → Walker V β) : Draw (Desk σ V β) (SweepFailure ε) Unit :=
  .change fun (w, slot) => (w, f slot)

/-- Move the walker with a given index and position, among all positions before the
sweep, and write the outcome into its slot. -/
def moveWalker [LinearOps α V] [LogScale β] (h : Host σ ε α β V) (limit : Nat)
    (current : List V) (index : Nat) (x : V) : Draw (Desk σ V β) (SweepFailure ε) Unit := do
  let old ← consult (h.logDensity x).inSweep
  let companions ← consult (drawCompanions h index (current.length - 1) limit)
  let deviates ← consult (Draw.times companions.length h.normal).inSweep
  let y := proposal x (companions.filterMap (current[·]?)) deviates
  write fun slot => { slot with position := y }
  let new ← consult (h.logDensity y).inSweep
  if LogScale.isUndefined new then consult (.change (h.noteUndefined index))
  let move : Move V β := ⟨x, old, y, regarded new⟩
  write fun slot => { slot with acceptProb := move.probability }
  let u ← consult h.uniform.inSweep
  write fun _ => move.settle u

/-- Move the walkers at the given positions, the first of which has a given index,
and write the outcomes into the slots. -/
def moveWalkers [LinearOps α V] [LogScale β] (h : Host σ ε α β V) (limit : Nat)
    (current : List V) :
    Nat → List V → List (Walker V β) → σ →
      Except (SweepFailure ε) Unit × List (Walker V β) × σ
  | index, x :: xs, slot :: slots, w =>
    match (moveWalker h limit current index x).outcome (w, slot) with
    | (.ok (), (w, slot)) =>
      let (r, slots, w) := moveWalkers h limit current (index + 1) xs slots w
      (r, slot :: slots, w)
    | (.error e, (w, slot)) => (.error e, slot :: slots, w)
  | _, _, slots, w => (.ok (), slots, w)

/-- The lengths that a sweep must find: at least three walkers, and a buffer of the
same shape with one log-density and one probability per walker. -/
def checkBuffers (current buffer : List Nat) (logProb acceptProb : List Nat) :
    Except Rejection Unit :=
  let n := current.headD 0
  if n < minWalkers then .error (.degenerate (.integer n))
  else if buffer ≠ current then .error (.input (.bufferShape buffer current))
  else if logProb ≠ [n] ∨ acceptProb ≠ [n] then .error (.input .bufferEntriesPerWalker)
  else .ok ()

/-- A sweep from the walkers of one ensemble into the buffer of another: the outcome,
the buffer as far as it was written, and the host. -/
def sweepInto [LinearOps α V] [LogScale β] (h : Host σ ε α β V) (limit : Nat)
    (current buffer : Ensemble V β) (w : σ) :
    Except (SweepFailure ε) Unit × Ensemble V β × σ :=
  match checkBuffers current.shape buffer.shape [buffer.size] [buffer.size] with
  | .error r => (.error (.refused (.rejected r)), buffer, w)
  | .ok () =>
    let (r, slots, w) := moveWalkers h limit current.positions 0 current.positions
      buffer.walkers w
    (r, { buffer with walkers := slots }, w)

end

/-! ## Small facts -/

section

variable {V β : Type} [LogScale β]

theorem Move.acceptProb_settle (m : Move V β) (u : β) :
    (m.settle u).acceptProb = m.probability := by
  unfold settle
  split <;> rfl

theorem Move.settle_of_lt {m : Move V β} {u : β} (h : m.probability < u) :
    m.settle u = ⟨m.position, m.logProb, m.probability⟩ := by
  simp [settle, h]

theorem Move.settle_of_not_lt {m : Move V β} {u : β} (h : ¬ m.probability < u) :
    m.settle u = ⟨m.proposed, m.proposedLogProb, m.probability⟩ := by
  simp [settle, h]

end

end EnsembleSampling
