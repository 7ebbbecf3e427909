import EnsembleSampling.Fault
set_option autoImplicit false

/-!
# Nested lists as arrays

Nested lists have the layout of an array when lists side by side agree in shape,
whatever their depth; what is laid out in a shape already must fill it.
`Argument.arrayShape` reads the shape off, and `Argument.leaves` the members in
row-major order; what kind of values the members are plays no part in either.
-/

namespace EnsembleSampling

/-- The most axes that an array can have. -/
def maxRank : Nat := 64

namespace Argument

mutual

/-- The common shape of nested lists. -/
def commonShape : Argument → Except Fault (List Nat)
  | .list [] | .tuple [] => .ok [0]
  | .list (x :: xs) => do
    let s ← commonShape x
    sameShape s xs
    pure ((xs.length + 1) :: s)
  | .tuple (x :: xs) => do
    let s ← commonShape x
    sameShape s xs
    pure ((xs.length + 1) :: s)
  | .array s xs => if xs.length = s.foldr (· * ·) 1 then .ok s else .error .malformed
  | _ => .ok []

/-- Whether all members have a given shape. -/
def sameShape (s : List Nat) : List Argument → Except Fault Unit
  | [] => .ok ()
  | x :: xs => do
    let s' ← commonShape x
    if s' = s then sameShape s xs else .error .malformed

end

/-- The shape of nested lists as an array, which has only so many axes. -/
def arrayShape (a : Argument) : Except Fault (List Nat) := do
  let s ← commonShape a
  if maxRank < s.length then throw .malformed
  pure s

mutual

/-- The members of nested lists, in row-major order. -/
def leaves : Argument → List Argument
  | .list xs => leavesAll xs
  | .tuple xs => leavesAll xs
  | .array _ xs => xs
  | a => [a]

/-- The members of all of a sequence of nested lists. -/
def leavesAll : List Argument → List Argument
  | [] => []
  | x :: xs => leaves x ++ leavesAll xs

end

/-- Whether an argument is a text. -/
def isText : Argument → Bool
  | .text _ => true
  | _ => false

/-- Whether an argument is no value. -/
def isAbsent : Argument → Bool
  | .absent => true
  | _ => false

example : (leaves (.list [.list [.flag true], .list [.absent]])).length = 2 := by decide +kernel

end Argument

end EnsembleSampling
