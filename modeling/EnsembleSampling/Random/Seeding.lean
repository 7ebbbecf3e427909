import EnsembleSampling.Argument.Arithmetic
import EnsembleSampling.Decimal.Integer
set_option autoImplicit false

/-!
# Seeding

A seed of any size is spread over a pool of four words of 32 bits, each word of
the seed touching each word of the pool; eight words are then drawn out of the
pool and joined into four words of 64 bits.  All arithmetic is on words and wraps
around.

A seed is a natural number, or a sequence of such; it enters as its words of 32
bits, the least significant first.
-/

namespace EnsembleSampling.Random

namespace Seeding

/-- A word of 32 bits. -/
abbrev Word := BitVec 32

/-- Words of a positive number, the least significant first. -/
def wordsOf (n : Nat) : List Word :=
  if 0 < n then BitVec.ofNat 32 n :: wordsOf (n / pow2 32) else []
termination_by n
decreasing_by exact Nat.div_lt_self (by assumption) (by decide)

/-- Words of a number; zero has one. -/
def words (n : Nat) : List Word := if n = 0 then [0] else wordsOf n

/-- Fold the upper half of a word into the lower. -/
def fold (v : Word) : Word := v ^^^ (v >>> 16)

/-- Mix a word into the running constant; the result and the next constant. -/
def hash (constant v : Word) : Word × Word :=
  let next := constant * 0x931e8875#32
  (fold ((v ^^^ constant) * next), next)

/-- Mix two words. -/
def mix (x y : Word) : Word := fold (0xca01f9dd#32 * x - 0x4973f715#32 * y)

/-- Four words, and the running constant of `hash`. -/
structure Pool where
  p0 : Word
  p1 : Word
  p2 : Word
  p3 : Word
  constant : Word
  deriving DecidableEq, Repr, Inhabited

namespace Pool

/-- The word at a place; places beyond the last count as the last. -/
def get (p : Pool) : Nat → Word
  | 0 => p.p0
  | 1 => p.p1
  | 2 => p.p2
  | _ => p.p3

/-- Replace the word at a place. -/
def set (p : Pool) (v : Word) : Nat → Pool
  | 0 => { p with p0 := v }
  | 1 => { p with p1 := v }
  | 2 => { p with p2 := v }
  | _ => { p with p3 := v }

/-- Mix the hash of a word into one place. -/
def absorb (p : Pool) (v : Word) (place : Nat) : Pool :=
  let (h, constant) := hash p.constant v
  ({ p with constant }).set (mix (p.get place) h) place

/-- Mix a word into every place. -/
def absorbAll (p : Pool) (v : Word) : Pool := [0, 1, 2, 3].foldl (·.absorb v) p

/-- Mix every place into every other. -/
def stir (p : Pool) : Pool :=
  [0, 1, 2, 3].foldl (fun p source =>
    ([0, 1, 2, 3].filter (· != source)).foldl (fun p place => p.absorb (p.get source) place) p) p

/-- The pool that the first four words of a seed are hashed into. -/
def start (seed : List Word) : Pool :=
  [0, 1, 2, 3].foldl (fun p place =>
    let (h, constant) := hash p.constant (seed.getD place 0)
    ({ p with constant }).set h place) ⟨0, 0, 0, 0, 0x43b0d7e5⟩

/-- The pool of a seed. -/
def ofSeed (seed : List Word) : Pool := (seed.drop 4).foldl absorbAll (start seed).stir

end Pool

/-- `count` words drawn from a pool, going round its places from `place`. -/
def drawn (p : Pool) : (count place : Nat) → (constant : Word) → List Word
  | 0, _, _ => []
  | count + 1, place, constant =>
    let next := constant * 0x58f38ded#32
    fold ((p.get (place % 4) ^^^ constant) * next) :: drawn p count (place + 1) next

/-- The four words of 64 bits that a seed gives. -/
def expand (seed : List Word) : List (BitVec 64) :=
  pairUp (drawn (Pool.ofSeed seed) 8 0 0x8b51f9dd)
where
  /-- Join words in pairs, the less significant first. -/
  pairUp : List Word → List (BitVec 64)
    | low :: high :: rest => (high ++ low) :: pairUp rest
    | _ => []

/-- The integer that a text in a sequence of seeds denotes: one in base sixteen if the
text begins with the mark of that base, one in base ten if it begins with one of the
first ten digits. -/
def integerOfText? (s : String) : Option Int :=
  match s.toList with
  | '0' :: 'x' :: _ => Numeral.toInt? .sixteen s
  | c :: _ => if c.isDigit then Numeral.toInt? .ten s else none
  | [] => none

/-- Words of a natural number given as an integer. -/
def wordsOfInt (n : Int) : Except Fault (List Word) :=
  if n < 0 then .error .malformed else .ok (words n.toNat)

mutual

/-- Words of a member of a sequence of seeds. -/
def wordsOfMember : Argument → Except Fault (List Word)
  | .integer n | .word n => wordsOfInt n
  | .flag b => .ok (words (if b then 1 else 0))
  | .text s =>
    match integerOfText? s with
    | some n => wordsOfInt n
    | none => .error .malformed
  | .list xs | .tuple xs => wordsOfMembers xs
  | _ => .error .unsupported

/-- Words of the members of a sequence of seeds, one after the other. -/
def wordsOfMembers : List Argument → Except Fault (List Word)
  | [] => .ok []
  | x :: xs => do
    let ws ← wordsOfMember x
    let rest ← wordsOfMembers xs
    pure (ws ++ rest)

end

/-- Words of a seed. -/
def wordsOfSeed : Argument → Except Fault (List Word)
  | .integer n | .word n => wordsOfInt n
  | .flag b => .ok (words (if b then 1 else 0))
  | .list xs | .tuple xs => wordsOfMembers xs
  | _ => .error .unsupported

end Seeding

end EnsembleSampling.Random
