import EnsembleSampling.Random.Permuted
import EnsembleSampling.Random.Ziggurat.Layers
set_option autoImplicit false

/-!
# Normal deviates by layers

A word chooses a layer, a sign and an offset.  Nearly always the offset shows at
once that the point lies under the density; otherwise a uniform decides, or, in
the base strip, a point of the tail is drawn by rejection.

Both rejection loops end with certainty only in the limit; they are given a limit
on the number of rounds that no run comes near, and no answer beyond it.
-/

namespace EnsembleSampling.Random.Ziggurat

/-- Limit on the rounds of a rejection loop. -/
def rounds : Nat := 4096

/-- Logarithm of `1 - u` for a uniform `u`.  A uniform is a multiple of `2^-53`, so
the difference is exact. -/
def logComplement (u : Float) : Float := Float.log (1.0 - u)

/-- A point of the tail: the distance from where it begins. -/
def tail : Nat → Permuted → Option Float × Permuted
  | 0, g => (none, g)
  | fuel + 1, g =>
    let (u, g) := g.uniform
    let (v, g) := g.uniform
    let x := -(1.0 / tailStart) * logComplement u
    let y := -(logComplement v)
    if x * x < y + y then (some x, g) else tail fuel g

/-- The parts of a word: layer, sign, and offset of 52 bits. -/
def split (word : BitVec 64) : Nat × Bool × Nat :=
  (word.toNat % 256, word.toNat / 256 % 2 == 1, word.toNat / 512 % pow2 52)

/-- A standard normal deviate. -/
def deviate : Nat → Permuted → Option Float × Permuted
  | 0, g => (none, g)
  | fuel + 1, g =>
    let (word, g) := g.next
    let (index, negative, offset) := split word
    let layer := layers.getD index default
    let x := Float.ofNat offset * Float.ofBits layer.width
    let x := if negative then -x else x
    if offset < layer.cut then (some x, g)
    else if index = 0 then
      let (distance, g) := tail rounds g
      (distance.map fun d =>
        if offset / 256 % 2 == 1 then -(tailStart + d) else tailStart + d, g)
    else
      let (u, g) := g.uniform
      let inner := Float.ofBits (layers.getD (index - 1) default).height
      let outer := Float.ofBits layer.height
      if (inner - outer) * u + outer < Float.exp (-0.5 * x * x) then (some x, g)
      else deviate fuel g

/-- The next standard normal deviate of a generator. -/
def next (g : Permuted) : Option Float × Permuted := deviate rounds g

end EnsembleSampling.Random.Ziggurat
