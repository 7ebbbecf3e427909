import EnsembleSampling.Random.Twister
import EnsembleSampling.Tensor
set_option autoImplicit false

/-!
# Seeds of the twisted generator

A seed is a word of 32 bits or a sequence of such words.  A single word is carried on
from place to place by a congruence.  A sequence is worked into the state of a fixed
word: once around for each of its words, but at least once around the state, and then
once more around the state without them.

Without a seed any state will do.
-/

namespace EnsembleSampling.Random.Twister

/-- A word as the next place but one of a state sees it. -/
def folded (w : Word) : Word := w ^^^ (w >>> 30)

/-- So many words after one at a place, each made from the one before it. -/
def wordsAfter (w : Word) : (place count : Nat) → List Word
  | _, 0 => []
  | place, count + 1 =>
    let next := 1812433253#32 * folded w + BitVec.ofNat 32 (place + 1)
    next :: wordsAfter next (place + 1) count

/-- The generator for a word. -/
def ofWord (w : Word) : Twister := ⟨(w :: wordsAfter w 0 (size - 1)).toArray, size, none⟩

/-! ## Sequences of words -/

/-- The place that is worked on after so many others: any but the first, over and over. -/
def placeAfter (count : Nat) : Nat := 1 + count % (size - 1)

/-- A word worked into the place after so many others.  The first place repeats the
last. -/
def workIn (factor term : Word) (words : Array Word) (count : Nat) : Array Word :=
  let place := placeAfter count
  let w := (words.getD place 0 ^^^ (folded (words.getD (place - 1) 0) * factor)) + term
  let words := words.setIfInBounds place w
  if place + 1 = size then words.setIfInBounds 0 w else words

/-- The generator for a sequence of words. -/
def ofWords (seed : List Word) : Twister :=
  let seed := seed.toArray
  let count := max size seed.size
  let term (i : Nat) : Word := seed.getD (i % seed.size) 0 + BitVec.ofNat 32 (i % seed.size)
  let start := (ofWord 19650218#32).words
  let once := (List.range count).foldl (fun ws i => workIn 1664525#32 (term i) ws i) start
  let twice := ((List.range (size - 1)).map (count + ·)).foldl
    (fun ws i => workIn 1566083941#32 (-(BitVec.ofNat 32 (placeAfter i))) ws i) once
  ⟨twice.setIfInBounds 0 0x80000000#32, size, none⟩

/-! ## Seeds from arguments -/

/-- Whether an integer is a word of 32 bits. -/
def isSeed (n : Int) : Bool := decide (0 ≤ n ∧ n < pow2 32)

/-- The generator for an array of seeds.  It is not empty, holds machine words, and has a
single axis. -/
def ofSeeds (t : Tensor Argument) : Except Fault Twister := do
  if t.entries.isEmpty then throw .malformed
  let ns ← t.entries.mapM Argument.index
  if !ns.all Argument.fitsWord then throw .unsupported
  if t.rank ≠ 1 then throw .malformed
  if ns.all isSeed then pure (ofWords (ns.map (BitVec.ofInt 32))) else throw .malformed

/-- The generator for a seed. -/
def ofSeed : Argument → Except Fault Twister
  | .absent => .ok (ofWord 0)
  | .list xs => do ofSeeds (← Tensor.ofNested (.list xs))
  | a => do
    let n ← a.index
    if isSeed n then pure (ofWord (BitVec.ofInt 32 n)) else throw .malformed

end EnsembleSampling.Random.Twister
