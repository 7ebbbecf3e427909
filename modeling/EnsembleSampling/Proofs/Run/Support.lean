import EnsembleSampling.Proofs.Run.Faithful
set_option autoImplicit false

/-!
# The support of a log-density

A move out of the support of a log-density has the probability zero, so every uniform above
zero turns it down, and by induction a run never leaves the support that it starts in
(`run_stays_in_support`).

The uniform zero is the one exception.  It does not exceed the probability zero, and a single
one of them takes a walker out of the support (`run_leaves_support_at_zero`).
-/

namespace EnsembleSampling

variable {σ ε α β V : Type}

/-- A walker in the support, with the log-density of its position for its entry. -/
structure Walker.Supported (S : V → Prop) (f : V → β) (a : Walker V β) : Prop where
  logProb : a.logProb = f a.position
  inside : S a.position

section

variable [LogScale β] {S : V → Prop} {f : V → β}

/-- If moves out of the support have the probability zero, only the uniform zero makes one. -/
theorem Move.supported_settle (hS : ∀ x y, S x → ¬ S y → acceptance (f x) (f y) = 0)
    {m : Move V β} {u : β} (hold : m.logProb = f m.position)
    (hnew : m.proposedLogProb = f m.proposed) (hinside : S m.position) (hu : 0 < u) :
    (m.settle u).Supported S f := by
  by_cases hlt : m.probability < u
  · rw [settle_of_lt hlt]
    exact ⟨hold, hinside⟩
  · rw [settle_of_not_lt hlt]
    refine ⟨hnew, ?_⟩
    by_contra houtside
    have hzero : m.probability = 0 := by
      rw [probability, hold, hnew]
      exact hS _ _ hinside houtside
    rw [hzero] at hlt
    exact hlt hu

variable [LinearOps α V] {h : Host σ ε α β V}

/-- A move from a position in the support leaves a walker in the support. -/
theorem supported_plainMove (hS : ∀ x y, S x → ¬ S y → acceptance (f x) (f y) = 0)
    (hdensity : ∀ x, Draw.Always (fun l => l = f x) (h.logDensity x))
    (hdefined : ∀ x, LogScale.isUndefined (f x) = false)
    (huniform : Draw.Always (fun u => 0 < u) h.uniform) (limit : Nat) (current : List V)
    (index : Nat) {x : V} (hx : S x) :
    Draw.Always (Walker.Supported S f) (plainMove h limit current index x) := by
  unfold plainMove
  refine (hdensity x).inSweep.bind fun old hold => ?_
  refine Draw.Always.bind_any fun companions => ?_
  refine Draw.Always.bind_any fun deviates => ?_
  refine (hdensity _).inSweep.bind fun new hnew => ?_
  refine Draw.Always.bind_any fun _ => ?_
  refine huniform.inSweep.bind fun u hu => ?_
  have hregarded : regarded new = new := by
    apply regarded_of_defined
    rw [hnew]
    exact hdefined _
  apply Draw.Always.pure
  exact Move.supported_settle hS hold (hregarded.trans hnew) hx hu

end

variable [LinearOps α V]

/-- **A chain never leaves the support of its density**, as long as no uniform is zero.  The
log-density is a function `f` of the position whose values are finite or minus infinity, it is
finite where the run starts, and of the exponential nothing is known but that it vanishes at
minus infinity.  Then every walker of every recorded sweep is at a position of finite
log-density, and has it for its entry. -/
theorem run_stays_in_support {exp : Float → Float} (hvanish : exp (-1.0 / 0.0) = 0)
    {f : V → Float} {h : Host σ ε α (Double exp) V}
    (hdensity : ∀ x, Draw.Always (fun l => l = f x) (h.logDensity x))
    (hvalues : ∀ x, (f x).isFinite = true ∨ f x = -1.0 / 0.0)
    (huniform : Draw.Always (fun u => 0 < u ∧ u < 1) h.uniform)
    {limit sweeps : Nat} {e : Ensemble V (Double exp)}
    (hstart : ∀ x ∈ e.positions, (f x).isFinite = true) {w w' : σ} {c : Chain V (Double exp)}
    (hrun : run h limit sweeps e w = (.ok c, w')) :
    ∀ t ∈ c.sweeps, ∀ a ∈ t.walkers,
      let l : Float := a.logProb
      l = f a.position ∧ l.isFinite = true := by
  let S : V → Prop := fun x => (f x).isFinite = true
  let g : V → Double exp := f
  have hS : ∀ x y, S x → ¬ S y → acceptance (g x) (g y) = 0 := by
    intro x y hx hy
    have hy : g y = (-1.0 / 0.0 : Float) := (hvalues y).resolve_left hy
    rw [hy]
    exact Double.acceptance_negInfinity hvanish hx
  have hdefined : ∀ x, LogScale.isUndefined (g x) = false := by
    intro x
    change (f x).isNaN = false
    rcases hvalues x with hx | hx
    · exact double_isNaN_of_isFinite hx
    · rw [hx]
      decide
  have hmove : ∀ current : List V, (∀ y ∈ current, S y) → ∀ index x, S x →
      Draw.Always (Walker.Supported S g) (plainMove h limit current index x) := by
    intro current _ index x hx
    exact supported_plainMove hS hdensity hdefined (huniform.mono fun u hu => hu.1) limit current
      index hx
  intro t ht a ha
  have hsupported := always_of_run_from h limit hmove (fun a ha => ha.inside) hstart hrun t ht a ha
  refine ⟨hsupported.logProb, ?_⟩
  rw [hsupported.logProb]
  exact hsupported.inside

/-! ## Runs at the edge of a support -/

/-- A log-density that is zero on an interval of the line and minus infinity outside it. -/
def onInterval (p : Point Float) : Float :=
  if p.coords.all fun x => 0 ≤ x && x ≤ 2 then 0 else -1.0 / 0.0

theorem onInterval_values (p : Point Float) :
    (onInterval p).isFinite = true ∨ onInterval p = -1.0 / 0.0 := by
  unfold onInterval
  split
  · left
    decide
  · exact .inr rfl

/-- A host with the log-density of the interval, the same uniform every time, and other draws
from a tape. -/
def steadyHost (u : Float) :
    Host (Tape Float (Double signExp)) Unit Float (Double signExp) (Point Float) :=
  Tape.steady onInterval u

theorem logDensity_steadyHost (u : Float) (x : Point Float) :
    Draw.Always (fun l => l = onInterval x) ((steadyHost u).logDensity x) :=
  Tape.logDensity_steady _ _ x

/-- Three walkers in the interval. -/
def insideInterval : Ensemble (Point Float) (Double signExp) :=
  .start 1 [⟨[0]⟩, ⟨[1]⟩, ⟨[2]⟩]

theorem onInterval_insideInterval :
    ∀ x ∈ insideInterval.positions, (onInterval x).isFinite = true := by
  decide +kernel

/-- Draws that propose to the first walker a position outside the interval, and to the others
the positions where they are. -/
def outwardTape : Tape Float (Double signExp) := ⟨List.replicate 6 1, [1, 0, 0, 0, 0, 0], []⟩

/-- The uniform one half turns the proposal down. -/
theorem run_stays_in_support_inward :
    ∃ c rest, run (steadyHost 0.5) 1 1 insideInterval outwardTape = (.ok c, rest) ∧
      ∀ t ∈ c.sweeps, ∀ a ∈ t.walkers,
        let l : Float := a.logProb
        l = onInterval a.position ∧ l.isFinite = true := by
  have hvanish : signExp (-1.0 / 0.0) = 0 := by decide
  have huniform : Draw.Always (fun u : Double signExp => 0 < u ∧ u < 1)
      (steadyHost 0.5).uniform :=
    Tape.uniform_steady _ (show (0 : Float) < 0.5 ∧ (0.5 : Float) < 1 by decide)
  have hends : (run (steadyHost 0.5) 1 1 insideInterval outwardTape).1.toOption.any
      (fun _ => true) = true := by
    decide +kernel
  obtain ⟨c, rest, hrun, -⟩ := Draw.exists_ok_of_any hends
  refine ⟨c, rest, hrun, ?_⟩
  exact run_stays_in_support hvanish (logDensity_steadyHost 0.5) onInterval_values huniform
    onInterval_insideInterval hrun

/-- The uniform zero does not: it lies in `[0, 1)`, all walkers start from finite log-densities,
and the first of them is recorded outside the support. -/
theorem run_leaves_support_at_zero :
    Draw.Always (fun u : Double signExp => 0 ≤ u ∧ u < 1) (steadyHost 0).uniform ∧
      (∀ x, Draw.Always (fun l => l = onInterval x) ((steadyHost 0).logDensity x)) ∧
      (∀ x, (onInterval x).isFinite = true ∨ onInterval x = -1.0 / 0.0) ∧
      (∀ x ∈ insideInterval.positions, (onInterval x).isFinite = true) ∧
      ∃ c rest, run (steadyHost 0) 1 1 insideInterval outwardTape = (.ok c, rest) ∧
        ∃ t ∈ c.sweeps, ∃ a ∈ t.walkers,
          a.position.coords = [-0.5] ∧ onInterval a.position = -1.0 / 0.0 := by
  refine ⟨?_, logDensity_steadyHost 0, onInterval_values, onInterval_insideInterval, ?_⟩
  · exact Tape.uniform_steady _ (show (0 : Float) ≤ 0 ∧ (0 : Float) < 1 by decide)
  · have hleaves : (run (steadyHost 0) 1 1 insideInterval outwardTape).1.toOption.any (fun c =>
        c.sweeps.any fun t => t.walkers.any fun a =>
          a.position.coords = [-0.5] ∧ onInterval a.position = -1.0 / 0.0) = true := by
      decide +kernel
    obtain ⟨c, rest, hrun, htest⟩ := Draw.exists_ok_of_any hleaves
    refine ⟨c, rest, hrun, ?_⟩
    simpa using htest

end EnsembleSampling
