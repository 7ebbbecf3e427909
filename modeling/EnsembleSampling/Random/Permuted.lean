import EnsembleSampling.Random.Seeding
set_option autoImplicit false

/-!
# A permuted congruential generator

The state is a word of 128 bits that goes through a linear congruence.  Each draw
joins the two halves of the state by exclusive or and rotates the result by the
uppermost six bits of the state, which hides the regularities of the congruence.
-/

namespace EnsembleSampling.Random

/-- A permuted congruential generator. -/
structure Permuted where
  state : BitVec 128
  increment : BitVec 128
  deriving DecidableEq, Repr, Inhabited

namespace Permuted

/-- Factor of the congruence. -/
def multiplier : BitVec 128 := 0x2360ED051FC65DA44385DF649FCCF645#128

/-- One step of the congruence. -/
def step (g : Permuted) : Permuted := { g with state := g.state * multiplier + g.increment }

/-- The word that a state shows. -/
def output (state : BitVec 128) : BitVec 64 :=
  let high := state.extractLsb' 64 64
  let low := state.extractLsb' 0 64
  (high ^^^ low).rotateRight (state.extractLsb' 122 6).toNat

/-- The next word. -/
def next (g : Permuted) : BitVec 64 × Permuted :=
  let g := g.step
  (output g.state, g)

/-- The generator for a starting state and a sequence number; any increment is
odd. -/
def start (state sequence : BitVec 128) : Permuted :=
  let g : Permuted := ⟨0, (sequence <<< 1) ||| 1⟩
  let g := g.step
  ({ g with state := g.state + state }).step

/-- The generator for the words of a seed. -/
def ofWords (seed : List Seeding.Word) : Permuted :=
  match Seeding.expand seed with
  | [q0, q1, q2, q3] => start (q0 ++ q1) (q2 ++ q3)
  | _ => start 0 0

/-- A uniform double in `[0, 1)`: 53 bits of a word. -/
def uniform (g : Permuted) : Float × Permuted :=
  let (word, g) := g.next
  (Float.ofNat (word >>> 11).toNat * (1.0 / 9007199254740992.0), g)

end Permuted

end EnsembleSampling.Random
