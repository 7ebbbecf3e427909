import EnsembleSampling.Density
import EnsembleSampling.Ensemble.Host
import EnsembleSampling.Ensemble.Position
import EnsembleSampling.Random.Call
set_option autoImplicit false

/-!
# Sessions

A session is one random generator and one log-density together with the record of
what has been asked of them.  Every request is put on record before it is answered,
so a request that fails is on record too.

`Session.host` is a session in the role of a sampler's host.
-/

namespace EnsembleSampling

/-- What a sampler can ask for. -/
inductive Request where
  | density
  | coin
  | normal
  | uniform
  deriving DecidableEq, Repr, Inhabited

/-- The letter of a request. -/
def Request.letter : Request → Char
  | .density => 'L'
  | .coin => 'b'
  | .normal => 'n'
  | .uniform => 'u'

/-- A generator, a log-density, and the record of what was asked of them. -/
structure Session where
  generator : Random.Generator
  density : Density
  evaluations : Nat
  /-- Requests so far, the latest first. -/
  record : List Request
  /-- Walkers whose proposal had no log-density, the latest first. -/
  undefinedAt : List Nat
  deriving Inhabited

namespace Session

/-- A session in which nothing has been asked for. -/
def start (generator : Random.Generator) (density : Density) : Session :=
  ⟨generator, density, 0, [], []⟩

/-- Put a request on record. -/
def noting (s : Session) (r : Request) : Session := { s with record := r :: s.record }

/-- Requests in their order. -/
def requests (s : Session) : List Request := s.record.reverse

/-- Number of requests of one kind. -/
def count (s : Session) (r : Request) : Nat := s.record.count r

/-- A request that the generator answers. -/
def ask {γ : Type} (r : Request) (draw : Random.Generator → Random.Drawn γ) :
    Draw Session Fault γ :=
  .ofOutcome fun s =>
    let (x, g) := draw s.generator
    (x, { s.noting r with generator := g })

/-- A request that the generator answers with a value of any kind, which must then be
made use of. -/
def askFor {γ : Type} (r : Request) (draw : Random.Generator → Random.Drawn Argument)
    (use : Argument → Except Fault γ) : Draw Session Fault γ :=
  ask r fun g =>
    let (x, g) := draw g
    (x.bind use, g)

/-- A fair coin: one for any value that counts as true. -/
def coin : Draw Session Fault Int :=
  askFor .coin (·.bernoulli (.real 0.5)) fun b => .ok (if b.isTrue then 1 else 0)

/-- A standard normal deviate.  Its standard deviation is a double, by which nothing is
repeated. -/
def normal : Draw Session Fault Float :=
  askFor .normal (·.normal Argument.mulNumbers (.real 0.0) (.real 1.0)) Argument.toReal

/-- A uniform in `[0, 1)` to calculate with. -/
def uniform : Draw Session Fault Float := askFor .uniform (·.uniform) Argument.operand

/-- A uniform in `[0, 1)` to compare a probability with. -/
def threshold : Draw Session Fault Float := askFor .uniform (·.uniform) Argument.comparable

/-- A draw, whichever it is. -/
def draw (memory : Memory) : Random.Call → Draw Session Fault Random.Answer
  | .bernoulli p => ask .coin (·.perform memory (.bernoulli p))
  | .normal mean sd => ask .normal (·.perform memory (.normal mean sd))
  | .uniform => ask .uniform (·.perform memory .uniform)

/-- The log-density at a position. -/
def logDensity (x : Point Float) : Draw Session Fault Float :=
  .ofOutcome fun s =>
    (s.density.real s.evaluations x.coords,
      { s.noting .density with evaluations := s.evaluations + 1 })

/-- Sessions as hosts of a sampler. -/
def host : Host Session Fault Float Float (Point Float) where
  logDensity := logDensity
  coin := coin
  normal := normal
  uniform := threshold
  noteUndefined i s := { s with undefinedAt := i :: s.undefinedAt }

/-- How many blocks of coins are thrown before the search for companions is given
up. -/
def patience : Nat := pow2 20

end Session

end EnsembleSampling
