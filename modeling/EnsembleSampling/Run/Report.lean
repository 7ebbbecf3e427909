import EnsembleSampling.Run
import EnsembleSampling.Session
set_option autoImplicit false

/-!
# Runs with a report

A run from arguments: the number of sweeps is checked first, then a generator is made
from the seed unless there is one, then the starting positions are checked.  What has
been reported before a failure stays reported.
-/

namespace EnsembleSampling

/-- What a run has to tell while it goes on. -/
inductive Notice where
  | running (kernel : Kernel)
  | walkers (n : Nat)
  | dims (n : Nat)
  | sweeps (n : Nat)
  | undefinedAt (walker : Nat)
  | meanAcceptance (p : Float)
  deriving Inhabited

namespace Notice

/-- Number of places of a mean acceptance probability. -/
def places : Nat := 3

/-- Text of a notice. -/
def text : Notice → String
  | .running k => "Running " ++ k.name
  | .walkers n => "Number of walkers: " ++ toString n
  | .dims n => "Number of dimensions: " ++ toString n
  | .sweeps n => "Number of sweeps: " ++ toString n
  | .undefinedAt i => "NaN log-density at proposal for walker " ++ toString i
  | .meanAcceptance p => "Mean acceptance probability: " ++ Report.fixed places p

/-- The level of a notice, which is lower if it is about a single walker. -/
def level : Notice → String
  | .undefinedAt _ => "DEBUG"
  | _ => "INFO"

/-- A notice as a line of a log. -/
def line (n : Notice) : String := n.level ++ " " ++ n.text

end Notice

/-- What a run leaves behind. -/
structure RunReport where
  outcome : Except Fault (Chain (Point Float) Float)
  notices : List Notice
  /-- The text written to the stream, if there is one. -/
  output : Option String
  /-- The session that the run was hosted by, if it came to that. -/
  session : Option Session

namespace RunReport

/-- A run that failed before it began. -/
def failed (f : Fault) (output : Option String) : RunReport := ⟨.error f, [], output, none⟩

end RunReport

/-- The seed of a run that is given none. -/
def defaultSeed : Argument := .integer 61254557

/-- The number of sweeps that an argument stands for. -/
def sweepCount : Argument → Except Fault Nat
  | .integer n =>
    if n < 0 then .error (.rejected (.input .sweepCountNegative)) else .ok n.toNat
  | .flag b => .ok (if b then 1 else 0)
  | _ => .error (.rejected (.input .sweepCountNegative))

/-- Mean over the walkers of their mean acceptance probabilities. -/
def Chain.overallAcceptance {V : Type} (c : Chain V Float) : Float := mean c.acceptanceFractions

/-- What a run has to tell before its first sweep. -/
def openingNotices {V β : Type} (e : Ensemble V β) (sweeps : Nat) : List Notice :=
  [.running .walk, .walkers e.size, .dims e.dims, .sweeps sweeps]

/-- What a run has to tell of its sweeps: walkers whose proposal had no log-density. -/
def sweepNotices (w : Session) : List Notice := w.undefinedAt.reverse.map .undefinedAt

/-- What a run has to tell at its end. -/
def closingNotices {V : Type} : Except Fault (Chain V Float) → List Notice
  | .ok c => [.meanAcceptance c.overallAcceptance]
  | .error _ => []

/-- The most sweeps that can be counted. -/
def countable : Nat := pow2 63 - 1

/-- The chain of a run, and the session after it.  A run of more sweeps than can be counted
makes none. -/
def chainOf (e : Ensemble (Point Float) Float) (sweeps : Nat) (w : Session) :
    Except Fault (Chain (Point Float) Float) × Session :=
  if countable < sweeps then (.error .tooLarge, w)
  else
    let (r, w) := run Session.host Session.patience sweeps e w
    (r.mapError SweepFailure.toFault, w)

/-- A run with everything in place. -/
def runReported (e : Ensemble (Point Float) Float) (sweeps : Nat) (w : Session)
    (output : Option String) : RunReport :=
  let (outcome, w) := chainOf e sweeps w
  {
    outcome
    notices := openingNotices e sweeps ++ sweepNotices w ++ closingNotices outcome
    output := output.map (· ++ Kernel.metric .walk)
    session := some w }

/-- A run from arguments, with a given generator or else one made from the seed. -/
def runOf (density : Density) (positions sweeps seed : Argument)
    (generator : Option Random.Generator) (output : Option String) : RunReport :=
  let prepared : Except Fault (Ensemble (Point Float) Float × Nat × Random.Generator) := do
    let sweeps ← sweepCount sweeps
    let generator ← generator.elim (Random.Generator.ofSeed seed) .ok
    let e ← Ensemble.ofArguments positions .absent .absent
    pure (e, sweeps, generator)
  match prepared with
  | .error f => .failed f output
  | .ok (e, sweeps, generator) => runReported e sweeps (.start generator density) output

end EnsembleSampling
