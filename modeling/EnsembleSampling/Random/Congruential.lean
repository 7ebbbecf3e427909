import EnsembleSampling.Number.Binary64
set_option autoImplicit false

/-!
# A plain congruential generator

A state of 64 bits goes through a linear congruence; its upper 53 bits are a
uniform.  A normal deviate is approximated by the sum of twelve uniforms less six.
-/

namespace EnsembleSampling.Random

/-- A plain congruential generator. -/
structure Congruential where
  state : UInt64
  deriving DecidableEq, Repr, Inhabited

namespace Congruential

/-- The generator with a given seed. -/
def ofSeed (seed : Int) : Congruential := ⟨UInt64.ofBitVec (BitVec.ofInt 64 seed)⟩

/-- The next state. -/
def step (g : Congruential) : Congruential :=
  ⟨g.state * 6364136223846793005 + 1442695040888963407⟩

/-- A uniform double in `[0, 1)`. -/
def uniform (g : Congruential) : Float × Congruential :=
  let g := g.step
  (Float.ofNat (g.state >>> 11).toNat * (1.0 / 9007199254740992.0), g)

/-- A sum with `count` further uniforms. -/
def addUniforms : (count : Nat) → Float → Congruential → Float × Congruential
  | 0, total, g => (total, g)
  | count + 1, total, g =>
    let (u, g) := g.uniform
    addUniforms count (total + u) g

/-- An approximate standard normal deviate. -/
def deviate (g : Congruential) : Float × Congruential :=
  let (total, g) := addUniforms 12 0.0 g
  (total - 6.0, g)

end Congruential

end EnsembleSampling.Random
