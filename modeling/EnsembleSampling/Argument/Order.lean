import EnsembleSampling.Argument.Nested
import EnsembleSampling.Number.Binary64
set_option autoImplicit false

/-!
# Order and equality of arguments

Integers are compared with doubles exactly.  A machine word or an array entry beside a
sequence is compared with the single member that the sequence must have.  Texts have
an order among themselves, and so have sequences, which are compared by the first
members that differ.

Because of the sole member, it may fail to ask whether two arguments are equal.
Sequences of different lengths are unequal before any member is looked at.
-/

namespace EnsembleSampling.Argument

/-! ## Numbers and texts -/

/-- The order of two doubles; nothing when one of them is no number. -/
def compareReal (x y : Float) : Option Ordering :=
  if x < y then some .lt else if x == y then some .eq else if y < x then some .gt else none

/-- The order of an exact integer beside a double, read from either side. -/
def flip : Option Ordering → Option Ordering := Option.map Ordering.swap

/-- The order of two numbers; the outer level is empty when one of them is not a
number, the inner one when the two have no order. -/
def compareNumbers? : Argument → Argument → Option (Option Ordering)
  | .real x, .real y | .real x, .entry y | .entry x, .real y | .entry x, .entry y =>
    some (compareReal x y)
  | .word n, .real y | .word n, .entry y => some (compareReal (Float.ofInt n) y)
  | .real x, .word n | .entry x, .word n => some (compareReal x (Float.ofInt n))
  | .real x, b | .entry x, b => b.integral?.map fun n => flip (Binary64.compareInt n x)
  | a, .real y | a, .entry y => a.integral?.map fun n => Binary64.compareInt n y
  | a, b =>
    match a.integral?, b.integral? with
    | some m, some n => some (some (compare m n))
    | _, _ => none

/-- The order of two texts, by code points. -/
def compareText (s t : String) : Ordering :=
  compareOfLessAndEq (s.toList.map Char.toNat) (t.toList.map Char.toNat)

/-- Whether two arguments are equal numbers. -/
def equalNumbers (a b : Argument) : Bool := compareNumbers? a b == some (some .eq)

/-! ## Sole members -/

/-- The single member of a sequence, at any depth. -/
def soleMember (xs : List Argument) : Except Fault Argument := do
  let _ ← arrayShape (.list xs)
  match leavesAll xs with
  | [a] => pure a
  | _ => throw .malformed

/-- The single number that a sequence must hold to have an order beside a number. -/
def soleNumber (xs : List Argument) : Except Fault Argument := do
  let _ ← arrayShape (.list xs)
  if (leavesAll xs).any fun a => a.isText || a.isAbsent then throw .unsupported
  soleMember xs

/-! ## Equality -/

mutual

/-- Whether two arguments are equal. -/
def equal : Argument → Argument → Except Fault Bool
  | .text s, .text t => .ok (s == t)
  | .absent, .absent => .ok true
  | .list xs, .list ys => if xs.length = ys.length then equalAll xs ys else .ok false
  | .tuple xs, .tuple ys => if xs.length = ys.length then equalAll xs ys else .ok false
  | .word n, .list ys => (soleMember ys).map (equalNumbers (.word n))
  | .entry x, .list ys => (soleMember ys).map (equalNumbers (.entry x))
  | .list xs, .word n => (soleMember xs).map (equalNumbers (.word n))
  | .list xs, .entry y => (soleMember xs).map (equalNumbers (.entry y))
  | a, b => .ok (equalNumbers a b)

/-- Whether two sequences are equal member by member; the first that differ end the
search. -/
def equalAll : List Argument → List Argument → Except Fault Bool
  | [], [] => .ok true
  | x :: xs, y :: ys => do if ← equal x y then equalAll xs ys else pure false
  | _, _ => .ok false

end

/-! ## Order -/

mutual

/-- The order of two arguments; nothing when the two have no order. -/
def compare? : Argument → Argument → Except Fault (Option Ordering)
  | .text s, .text t => .ok (some (compareText s t))
  | .list xs, .list ys => compareAll? xs ys
  | .tuple xs, .tuple ys => compareAll? xs ys
  | .word n, .list ys => do pure ((compareNumbers? (.word n) (← soleNumber ys)).getD none)
  | .list xs, .word n => do pure ((compareNumbers? (← soleNumber xs) (.word n)).getD none)
  | a, b =>
    match compareNumbers? a b with
    | some o => .ok o
    | none => .error .unsupported

/-- The order of two sequences is that of the first members that differ. -/
def compareAll? : List Argument → List Argument → Except Fault (Option Ordering)
  | [], [] => .ok (some .eq)
  | [], _ :: _ => .ok (some .lt)
  | _ :: _, [] => .ok (some .gt)
  | x :: xs, y :: ys => do if ← equal x y then compareAll? xs ys else compare? x y

end

/-- Whether the first argument is at most the second. -/
def atMost (a b : Argument) : Except Fault Bool :=
  (compare? a b).map fun o => o == some .lt || o == some .eq

/-- Whether the first argument is below the second. -/
def lessThan (a b : Argument) : Except Fault Bool :=
  (compare? a b).map fun o => o == some .lt

end EnsembleSampling.Argument
