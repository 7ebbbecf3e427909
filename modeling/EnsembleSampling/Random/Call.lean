import EnsembleSampling.Random.Generator
set_option autoImplicit false

/-!
# Draws on request

The draws of a generator as values, so that a sequence of them can be asked for, and
what each of them shows.  A deviate of a script may be a text or a sequence, for whose
repetition there must be memory.
-/

namespace EnsembleSampling.Random

/-- A draw that is asked for. -/
inductive Call where
  | bernoulli (p : Argument)
  | normal (mean sd : Argument)
  | uniform
  deriving Inhabited

/-- What a draw shows.  A coin is shown as it is, the other draws as doubles. -/
inductive Answer where
  | coin (b : Argument)
  | normal (z : Float)
  | uniform (u : Float)
  deriving Inhabited

/-- What a draw shows, and the generator after it. -/
def Generator.perform (memory : Memory) (g : Generator) : Call → Drawn Answer
  | .bernoulli p =>
    let (r, g) := g.bernoulli p
    (r.map .coin, g)
  | .normal mean sd =>
    let (r, g) := g.normal (Argument.mul memory) mean sd
    (r.bind fun z => z.toReal.map .normal, g)
  | .uniform =>
    let (r, g) := g.uniform
    (r.bind fun u => u.toReal.map .uniform, g)

end EnsembleSampling.Random
