import EnsembleSampling.Ensemble.Host
import EnsembleSampling.Number.Binary64
import EnsembleSampling.Random.Seeding
set_option autoImplicit false

/-!
# A twisted generator

The state is 624 words of 32 bits.  They are shown one after the other, each with its
bits tempered; when all have been shown, every word is replaced by the word 397 places
on, combined with the upper bit of its own and the lower bits of its neighbour.

A uniform takes 53 bits of two words.  Normal deviates come in pairs, from a uniform
place in the unit disc: the first is given out at once, and the second is kept for the
next request.  A list is shuffled from its end, each place trading with one at or
before it.

Places in the disc and places to trade with are found by rejection, so that both have a
limit on their attempts.
-/

namespace EnsembleSampling.Random

/-- A word of 32 bits. -/
abbrev Word : Type := Seeding.Word

/-- A twisted generator. -/
structure Twister where
  words : Array Word
  /-- How many of the words have been shown. -/
  shown : Nat
  /-- The second normal deviate of a pair. -/
  kept : Option Float
  deriving Inhabited

namespace Twister

/-- The number of words of a state. -/
def size : Nat := 624

/-- How far on the word is that a word is combined with. -/
def stride : Nat := 397

/-! ## Words -/

/-- The word that replaces the one at a place. -/
def successor (words : Array Word) (place : Nat) : Word :=
  let upper := words.getD place 0 &&& 0x80000000#32
  let lower := words.getD ((place + 1) % size) 0 &&& 0x7fffffff#32
  let joined := upper ||| lower
  words.getD ((place + stride) % size) 0 ^^^ (joined >>> 1)
    ^^^ (if joined.getLsbD 0 then 0x9908b0df#32 else 0)

/-- All words replaced, in their order; a later word sees those replaced before it. -/
def twist (words : Array Word) : Array Word :=
  (List.range size).foldl (fun ws place => ws.setIfInBounds place (successor ws place)) words

/-- A word with its bits tempered. -/
def temper (w : Word) : Word :=
  let w := w ^^^ (w >>> 11)
  let w := w ^^^ ((w <<< 7) &&& 0x9d2c5680#32)
  let w := w ^^^ ((w <<< 15) &&& 0xefc60000#32)
  w ^^^ (w >>> 18)

/-- The next word. -/
def next (g : Twister) : Word × Twister :=
  let g := if g.shown < size then g else { g with words := twist g.words, shown := 0 }
  (temper (g.words.getD g.shown 0), { g with shown := g.shown + 1 })

/-- A uniform double in `[0, 1)`: 27 bits of a word above 26 bits of the next. -/
def uniform (g : Twister) : Float × Twister :=
  let (high, g) := g.next
  let (low, g) := g.next
  (Float.ofNat ((high >>> 5).toNat * pow2 26 + (low >>> 6).toNat) * (1.0 / 9007199254740992.0), g)

/-! ## Requests -/

/-- A uniform double in `[0, 1)`. -/
def fraction : Draw Twister Fault Float :=
  .ofOutcome fun g =>
    let (u, g) := g.uniform
    (.ok u, g)

/-- The least power of two above a number, less one. -/
def mask (n : Nat) : Nat := pow2 (n.log2 + 1) - 1

example : mask 5 = 7 := by decide
example : mask 8 = 15 := by decide

/-- A word that is at most a limit, among so many words cut down to its bits. -/
def wordUpTo (limit : Nat) : (attempts : Nat) → Draw Twister Fault Nat
  | 0 => throw .stalled
  | attempts + 1 => do
    let w ← .ofOutcome fun g =>
      let (w, g) := g.next
      (.ok (w.toNat &&& mask limit), g)
    if w ≤ limit then pure w else wordUpTo limit attempts

/-- A place in the unit disc other than its centre: its coordinates, and its squared
distance from the centre. -/
def placeInDisc : (attempts : Nat) → Draw Twister Fault (Float × Float × Float)
  | 0 => throw .stalled
  | attempts + 1 => do
    let x := 2.0 * (← fraction) - 1.0
    let y := 2.0 * (← fraction) - 1.0
    let r := x * x + y * y
    if r < 1.0 && 0.0 < r then pure (x, y, r) else placeInDisc attempts

/-- The number of attempts after which a search is given up. -/
def patience : Nat := pow2 16

/-- A standard normal deviate. -/
def deviate : Draw Twister Fault Float := do
  let kept ← .ofOutcome fun g => (.ok g.kept, { g with kept := none })
  match kept with
  | some z => pure z
  | none => do
    let (x, y, r) ← placeInDisc patience
    let scale := Float.sqrt (-2.0 * Float.log r / r)
    .change fun g => { g with kept := some (scale * x) }
    pure (scale * y)

/-- Trade the entries at a place and at each place before it, but for the first, with one
at or before them. -/
def shuffleFrom {β : Type} : (place : Nat) → Array β → Draw Twister Fault (Array β)
  | 0, xs => pure xs
  | place + 1, xs => do
    let other ← wordUpTo (place + 1) patience
    shuffleFrom place (xs.swapIfInBounds (place + 1) other)

/-- A list in a random order. -/
def shuffled {β : Type} (xs : List β) : Draw Twister Fault (List β) := do
  pure (← shuffleFrom (xs.length - 1) xs.toArray).toList

end Twister

end EnsembleSampling.Random
