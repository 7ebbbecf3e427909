import EnsembleSampling.Random.Script
import EnsembleSampling.Random.Congruential
import EnsembleSampling.Random.Ziggurat
import EnsembleSampling.Tensor.Broadcast
set_option autoImplicit false

/-!
# Random generators

Three kinds of generator, with the same three draws: a coin that shows one with a
given probability, a normal deviate with a given mean and standard deviation, and
a uniform.  The parameters of a draw are arguments, and so is what it gives, because a
script may give anything.  A draw whose parameter turns out not to be a number fails
after the generator has advanced, except that the seeded generator looks at the
parameters of a normal first.
-/

namespace EnsembleSampling.Random

/-- A random generator. -/
inductive Generator where
  | script (s : Script)
  | congruential (g : Congruential)
  /-- A permuted generator, with the seed it was made from. -/
  | seeded (seed : Argument) (g : Permuted)
  deriving Inhabited

/-- What a draw gives, and the generator after it. -/
abbrev Drawn (β : Type) : Type := Except Fault β × Generator

namespace Generator

/-- The permuted generator for a seed. -/
def ofSeed (seed : Argument) : Except Fault Generator :=
  (Seeding.wordsOfSeed seed).map fun ws => .seeded seed (.ofWords ws)

/-- A short description of a seeded generator. -/
def description (seed : Argument) : String := "NumpyRandomSource(seed=" ++ seed.plain ++ ")"

/-- A uniform in `[0, 1)`, or what the script says. -/
def uniform : Generator → Drawn Argument
  | .script s =>
    match s.uniforms.next? s.cyclic with
    | some (u, t) => (.ok u, .script { s with uniforms := t })
    | none => (.error .scriptExhausted, .script s)
  | .congruential g =>
    let (u, g) := g.uniform
    (.ok (.real u), .congruential g)
  | .seeded seed g =>
    let (u, g) := g.uniform
    (.ok (.real u), .seeded seed g)

/-- One if a uniform is below the probability, else zero. -/
def coinOfUniform (p u : Argument) : Except Fault Argument :=
  (u.lessThan p).map fun b => .integer (if b then 1 else 0)

/-- A coin that shows one with probability `p`; a script says itself what it
shows. -/
def bernoulli (p : Argument) : Generator → Drawn Argument
  | .script s =>
    match s.coins.next? s.cyclic with
    | some (b, t) => (.ok b, .script { s with coins := t })
    | none => (.error .scriptExhausted, .script s)
  | g =>
    match g.uniform with
    | (.ok u, g) => (coinOfUniform p u, g)
    | (.error e, g) => (.error e, g)

/-- A standard normal deviate moved to a mean and a standard deviation, which it is
multiplied by in a given way. -/
def spread (mul : Argument → Argument → Except Fault Argument) (mean sd z : Argument) :
    Except Fault Argument := do
  mean.add (← mul sd z)

/-! ## Normal deviates of the seeded generator -/

/-- Whether a standard deviation is neither negative nor a negative zero. -/
def isDeviation (sd : Float) : Bool := sd.isNaN || !(Binary64.content sd).isNegative

/-- The parameters of a normal deviate: numbers, of which the second is a standard
deviation.  A text is no number, even if it can be read as one. -/
def normalParameters (mean sd : Argument) : Except Fault (Float × Float) := do
  let mean ← mean.operand
  let sd ← sd.operand
  if isDeviation sd then pure (mean, sd) else throw .malformed

/-- A standard normal deviate. -/
def deviate (g : Permuted) : Except Fault Float × Permuted :=
  match Ziggurat.next g with
  | (some z, g) => (.ok z, g)
  | (none, g) => (.error .stalled, g)

/-- The generator after so many normal deviates. -/
def skip : Nat → Permuted → Permuted
  | 0, g => g
  | n + 1, g => skip n (deviate g).2

/-- The number of deviates that arrays of means and of standard deviations ask for. -/
def deviateCount (mean sd : Tensor Float) : Except Fault Nat :=
  if sd.entries.all isDeviation then
    match Tensor.commonShape? mean.shape sd.shape with
    | some shape => .ok (Tensor.count shape)
    | none => .error .malformed
  else .error .malformed

/-- A normal deviate of the seeded generator.  Both parameters are read as arrays first.
Beside an array with axes there is a deviate for every place, and no single one to
show. -/
def normalSeeded (mean sd : Argument) (g : Permuted) : Except Fault Float × Permuted :=
  let arrays : Except Fault (Tensor Float × Tensor Float) := do
    pure (← Tensor.ofArgument mean, ← Tensor.ofArgument sd)
  match arrays with
  | .error f => (.error f, g)
  | .ok (means, sds) =>
    if means.rank = 0 ∧ sds.rank = 0 then
      match normalParameters mean sd with
      | .error f => (.error f, g)
      | .ok (mean, sd) =>
        let (z, g) := deviate g
        (z.map fun z => mean + sd * z, g)
    else
      match deviateCount means sds with
      | .error f => (.error f, g)
      | .ok n => (.error .unsupported, skip n g)

/-- A normal deviate with a mean and a standard deviation, where arguments are multiplied
in a given way. -/
def normal (mul : Argument → Argument → Except Fault Argument) (mean sd : Argument) :
    Generator → Drawn Argument
  | .script s =>
    match s.normals.next? s.cyclic with
    | some (z, t) => (spread mul mean sd z, .script { s with normals := t })
    | none => (.error .scriptExhausted, .script s)
  | .congruential g =>
    let (z, g) := g.deviate
    (spread mul mean sd (.real z), .congruential g)
  | .seeded seed g =>
    let (z, g) := normalSeeded mean sd g
    (z.map .real, .seeded seed g)

end Generator

end EnsembleSampling.Random
