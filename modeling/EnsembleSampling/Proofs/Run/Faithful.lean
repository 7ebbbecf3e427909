import EnsembleSampling.Proofs.Run.Trajectory
import EnsembleSampling.Proofs.Scale.Double
import EnsembleSampling.Proofs.Tape
set_option autoImplicit false

/-!
# Recorded log-densities

A walker is faithful to a log-density if its entry is the log-density of its position, no
number counting as infinitely large, and its acceptance probability is a number from zero
to one.  A single move leaves a faithful walker, wherever it starts from
(`faithful_plainMove`), so every recorded walker is faithful.  `run_records_faithful`
spells out what this says of a chain of doubles.
-/

namespace EnsembleSampling

variable {σ ε α β V : Type} [LogScale β]

/-- A walker whose entries fit its position. -/
structure Walker.Faithful (f : V → β) (a : Walker V β) : Prop where
  logProb : a.logProb = regarded (f a.position)
  acceptProb : IsProbability a.acceptProb

/-- A host whose log-density is a function of the position, and whose uniforms are less
than one.  It may fail to answer. -/
structure Host.Evaluates (f : V → β) (h : Host σ ε α β V) : Prop where
  logDensity : ∀ x, Draw.Always (fun l => l = f x) (h.logDensity x)
  uniform : Draw.Always (fun u => u < 1) h.uniform

variable [LogScale.Lawful β] [LinearOps α V] {f : V → β} {h : Host σ ε α β V}

/-- A move leaves a faithful walker, whether or not it is accepted. -/
theorem faithful_plainMove (hh : h.Evaluates f) (limit : Nat) (current : List V) (index : Nat)
    (x : V) : Draw.Always (Walker.Faithful f) (plainMove h limit current index x) := by
  unfold plainMove
  refine (hh.logDensity x).inSweep.bind fun old hold => ?_
  refine Draw.Always.bind_any fun companions => ?_
  refine Draw.Always.bind_any fun deviates => ?_
  refine (hh.logDensity _).inSweep.bind fun new hnew => ?_
  refine Draw.Always.bind_any fun _ => ?_
  refine hh.uniform.inSweep.bind fun u hu => ?_
  refine Draw.Always.pure ⟨?_, ?_⟩
  · exact Move.logProb_settle hold (congrArg regarded hnew) hu
  · rw [Move.acceptProb_settle]
    exact isProbability_acceptance _ _

omit [LogScale β] [LogScale.Lawful β] in
/-- **Recorded log-densities match recorded positions.**  The log-density is a function `f`
of the position with any doubles for values, the uniforms are from zero to below one, and
of the exponential nothing is known but where it has no number for its value and that it is
not negative.  Then each entry of a recorded sweep is the value of `f` at the position
beside it, or infinity where that is no number; in particular it is a number, and the
acceptance probability is a number from zero to one. -/
theorem run_records_faithful {exp : Float → Float}
    (hnan : ∀ x : Float, x.isNaN = true → (exp x).isNaN = true)
    (hnonneg : ∀ x : Float, x.isNaN = false → 0 ≤ exp x)
    {f : V → Float} {h : Host σ ε α (Double exp) V}
    (hdensity : ∀ x, Draw.Always (fun l => l = f x) (h.logDensity x))
    (huniform : Draw.Always (fun u => 0 ≤ u ∧ u < 1) h.uniform)
    {limit sweeps : Nat} {e : Ensemble V (Double exp)} {w w' : σ} {c : Chain V (Double exp)}
    (hrun : run h limit sweeps e w = (.ok c, w')) :
    ∀ t ∈ c.sweeps, ∀ a ∈ t.walkers,
      let l : Float := a.logProb
      let p : Float := a.acceptProb
      l = (if (f a.position).isNaN then 1.0 / 0.0 else f a.position) ∧ l.isNaN = false ∧
        p.isNaN = false ∧ 0 ≤ p ∧ p ≤ 1 := by
  have := Double.lawful hnan hnonneg
  have hh : h.Evaluates (β := Double exp) f := ⟨hdensity, huniform.mono fun _ hu => hu.2⟩
  intro t ht a ha
  have hfaithful := always_of_run h limit (faithful_plainMove hh limit) hrun t ht a ha
  refine ⟨hfaithful.logProb, ?_, hfaithful.acceptProb.defined, hfaithful.acceptProb.nonneg,
    hfaithful.acceptProb.le_one⟩
  have hregarded := isUndefined_regarded (β := Double exp) (f a.position)
  rw [← hfaithful.logProb] at hregarded
  exact hregarded

/-! ## A run through positions without a log-density -/

/-- A function that agrees with the exponential at the infinities, at zero, and at what is
no number. -/
def signExp (x : Float) : Float :=
  if x.isNaN then x else if x < 0 then 0 else if 0 < x then 1.0 / 0.0 else 1

theorem isNaN_signExp (x : Float) (hx : x.isNaN = true) : (signExp x).isNaN = true := by
  simp only [signExp, hx, if_true]

theorem signExp_nonneg (x : Float) (hx : x.isNaN = false) : 0 ≤ signExp x := by
  have hzero : (0 : Float) ≤ 0 := by decide
  have hinfinite : (0 : Float) ≤ 1.0 / 0.0 := by decide
  have hone : (0 : Float) ≤ 1 := by decide
  simp only [signExp, hx, Bool.false_eq_true, if_false]
  split
  · exact hzero
  · split
    · exact hinfinite
    · exact hone

/-- A log-density that has a number for its value at three points of the line only. -/
def onThreePoints (p : Point Float) : Float :=
  if p.coords.all fun x => x == 0 || x == 1 || x == 2 then 0 else 0.0 / 0.0

/-- Two sweeps from these points, the first of which leaves them and records infinity. -/
theorem run_records_faithful_leaving :
    let h : Host (Tape Float (Double signExp)) Unit Float (Double signExp) (Point Float) :=
      { Tape.host onThreePoints with uniform := pure (0.5 : Float) }
    let tape : Tape Float (Double signExp) :=
      ⟨List.replicate 12 1, [1, 0.5, 1, 0, 0, 1, 1, 1, 1, 1, 1, 1], []⟩
    ∃ c rest, run h 1 2 (.start 1 [⟨[0]⟩, ⟨[1]⟩, ⟨[2]⟩]) tape = (.ok c, rest) ∧
      (∃ t ∈ c.sweeps, ∃ a ∈ t.walkers, (onThreePoints a.position).isNaN = true) ∧
      ∀ t ∈ c.sweeps, ∀ a ∈ t.walkers,
        let l : Float := a.logProb
        let p : Float := a.acceptProb
        l = (if (onThreePoints a.position).isNaN then 1.0 / 0.0 else onThreePoints a.position) ∧
          l.isNaN = false ∧ p.isNaN = false ∧ 0 ≤ p ∧ p ≤ 1 := by
  intro h tape
  have hleaves : (run h 1 2 (.start 1 [⟨[0]⟩, ⟨[1]⟩, ⟨[2]⟩]) tape).1.toOption.any (fun c =>
      c.sweeps.any fun t => t.walkers.any fun a => (onThreePoints a.position).isNaN) = true := by
    decide +kernel
  have hdensity : ∀ x, Draw.Always (fun l => l = onThreePoints x) (h.logDensity x) :=
    fun x => Draw.Always.pure (P := fun l => l = onThreePoints x) rfl
  have huniform : Draw.Always (fun u : Double signExp => 0 ≤ u ∧ u < 1) h.uniform :=
    Draw.Always.pure (P := fun u : Double signExp => 0 ≤ u ∧ u < 1)
      (show (0 : Float) ≤ 0.5 ∧ (0.5 : Float) < 1 by decide)
  rcases hrun : run h 1 2 (.start 1 [⟨[0]⟩, ⟨[1]⟩, ⟨[2]⟩]) tape with ⟨e | c, rest⟩
  · rw [hrun] at hleaves
    simp [Except.toOption] at hleaves
  · rw [hrun] at hleaves
    refine ⟨c, rest, rfl, ?_, ?_⟩
    · simpa [Except.toOption] using hleaves
    · exact run_records_faithful isNaN_signExp signExp_nonneg hdensity huniform hrun

end EnsembleSampling
