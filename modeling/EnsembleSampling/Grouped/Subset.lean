import EnsembleSampling.Decimal.Integer
import EnsembleSampling.Tensor
set_option autoImplicit false

/-!
# Subsets of companions

A group is moved by companions from the other groups: all of them, or as many as a
caller asks for.  What the caller gives is looked at twice, first as a count, which must
not be negative nor exceed the number of walkers to choose from, and then as the lengths
that those chosen are laid out in, of which there must be only one.  At least two
companions are needed, so that they have a covariance.
-/

namespace EnsembleSampling.Grouped

/-- A double without its part behind the point. -/
def truncated (x : Float) : Except Fault Int :=
  match Binary64.content x with
  | .undefined => .error .malformed
  | .infinite _ => .error .tooLarge
  | .finite .. =>
    let below := (Binary64.ceil? (-x.abs)).getD 0
    .ok (if x < 0.0 then below else -below)

/-- A double as a machine word; one that does not fit is the least word. -/
def wordOfReal (x : Float) : Int :=
  match truncated x with
  | .ok n => if Argument.fitsWord n then n else -(pow2 63 : Int)
  | .error _ => -(pow2 63 : Int)

/-- An integer that is a machine word, with a sign or without. -/
def wordOfInt (n : Int) : Except Fault Int :=
  if n < -(pow2 63 : Int) ∨ (pow2 64 : Int) ≤ n then .error .tooLarge else .ok (Argument.wrap n)

/-- The count that a member of a size stands for. -/
def countOfMember : Argument → Except Fault Int
  | .integer n | .word n => wordOfInt n
  | .flag b => .ok (if b then 1 else 0)
  | .real x | .entry x => .ok (wordOfReal x)
  | .text s =>
    match Numeral.toInt? .ten s with
    | some n => if Argument.fitsWord n then .ok n else .error .tooLarge
    | none => .error .malformed
  | _ => .error .unsupported

/-- The number of companions that a size asks for: the product of its members. -/
def countOf (size : Argument) : Except Fault Int := do
  let members ← Tensor.ofNested size
  let counts ← members.entries.mapM countOfMember
  pure (Argument.wrap (counts.foldl (· * ·) 1))

/-- Whether an argument is an integer, which a truth value is not. -/
def isInteger : Argument → Bool
  | .integer _ | .word _ => true
  | _ => false

/-- Whether those chosen are laid out in a single axis, by a length that is an integer.
Laid out in several axes they have no covariance. -/
def checkLayout : Argument → Except Fault Unit
  | .integer _ | .word _ | .list [.integer _] | .list [.word _] => .ok ()
  | .list sizes => if sizes.all isInteger then .error .malformed else .error .unsupported
  | _ => .error .unsupported

/-- The number of companions that are chosen among so many other walkers, when all or a
number of them are asked for. -/
def chosenCount (others : Nat) : Argument → Except Fault Nat
  | .absent => if others ≤ 1 then .error .malformed else .ok others
  | size => do
    let count ← countOf size
    if others < count ∨ (others = 0 ∧ count ≠ 0) ∨ count < 0 then throw .malformed
    checkLayout size
    if count ≤ 1 then throw .malformed
    pure count.toNat

end EnsembleSampling.Grouped
