import EnsembleSampling.Fault
set_option autoImplicit false

/-!
# The host of a sampler

A sampler asks its host for everything that is not its own: the log-density of a
position, coins, normal deviates and uniforms.  Every request may change the state
of the host, and may fail; a failed request has changed the state all the same.

A `Draw` is such a request.  `SweepFailure` keeps apart what the library turns down
itself, what the host raised, and a rejection loop that did not end.
-/

namespace EnsembleSampling

/-- A request to a host with states `σ` and failures `ε`. -/
abbrev Draw (σ ε γ : Type) : Type := ExceptT ε (StateM σ) γ

namespace Draw

variable {σ ε γ : Type}

/-- The outcome of a request in a state of the host, and the state after it. -/
def outcome (x : Draw σ ε γ) (w : σ) : Except ε γ × σ := (x.run.run w).run

/-- The request with a given outcome. -/
def ofOutcome (f : σ → Except ε γ × σ) : Draw σ ε γ := ExceptT.mk (StateT.mk fun w => pure (f w))

/-- An outcome that asks for nothing. -/
def ofExcept (r : Except ε γ) : Draw σ ε γ := ofOutcome fun w => (r, w)

/-- Change the state. -/
def change (f : σ → σ) : Draw σ ε Unit := ofOutcome fun w => (.ok (), f w)

/-- The same request repeated, the answers in order. -/
def times (n : Nat) (x : Draw σ ε γ) : Draw σ ε (List γ) :=
  match n with
  | 0 => pure []
  | n + 1 => do
    let a ← x
    let rest ← times n x
    pure (a :: rest)

@[simp] theorem outcome_ofOutcome (f : σ → Except ε γ × σ) (w : σ) :
    (ofOutcome f).outcome w = f w := rfl

@[simp] theorem outcome_ofExcept (r : Except ε γ) (w : σ) :
    (ofExcept r).outcome w = (r, w) := rfl

@[simp] theorem outcome_pure (a : γ) (w : σ) :
    (pure a : Draw σ ε γ).outcome w = (.ok a, w) := rfl

@[simp] theorem outcome_throw (e : ε) (w : σ) :
    (throw e : Draw σ ε γ).outcome w = (.error e, w) := rfl

/-- After a first request that succeeds comes the second, in the state that the
first one left; after one that fails, nothing. -/
theorem outcome_bind {δ : Type} (x : Draw σ ε γ) (f : γ → Draw σ ε δ) (w : σ) :
    (x >>= f).outcome w =
      match x.outcome w with
      | (.ok a, w') => (f a).outcome w'
      | (.error e, w') => (.error e, w') := by
  simp only [outcome, ExceptT.run_bind, StateT.run_bind]
  simp only [Id.run, bind]
  generalize StateT.run (ExceptT.run x) w = r
  obtain ⟨r, w'⟩ := r
  cases r <;> rfl

end Draw

/-- What a sampler asks its host for. -/
structure Host (σ ε α β V : Type) where
  logDensity : V → Draw σ ε β
  /-- A fair coin; any value but zero is heads. -/
  coin : Draw σ ε Int
  /-- A standard normal deviate. -/
  normal : Draw σ ε α
  /-- A uniform in `[0, 1)`. -/
  uniform : Draw σ ε β
  /-- Take note that the log-density of a walker's proposal is no number. -/
  noteUndefined : Nat → σ → σ

/-- Why a sweep does not end. -/
inductive SweepFailure (ε : Type) where
  /-- The library itself turned something down. -/
  | refused (f : Fault)
  /-- The host failed. -/
  | raised (e : ε)
  /-- A search for companions did not end within its limit. -/
  | stalled
  deriving Inhabited

/-- A request as part of a sweep. -/
def Draw.inSweep {σ ε γ : Type} (x : Draw σ ε γ) : Draw σ (SweepFailure ε) γ :=
  .ofOutcome fun w =>
    match x.outcome w with
    | (.ok a, w) => (.ok a, w)
    | (.error e, w) => (.error (.raised e), w)

/-- A failure of a sweep whose host raises faults, as a fault. -/
def SweepFailure.toFault : SweepFailure Fault → Fault
  | .refused f => f
  | .raised f => f
  | .stalled => .stalled

end EnsembleSampling
