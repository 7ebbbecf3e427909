import EnsembleSampling.Argument.Arithmetic
set_option autoImplicit false

/-!
# Slices

A slice selects rows of a list: it starts at one of them and goes on in equal
strides to an end of the list, forwards with a positive stride and backwards with a
negative one.  A negative start counts from the end of the list; a start outside of
it is moved to the nearest end.  Without a start the slice begins at the end that it
moves away from.

`Slice.indices` lists the rows that are selected, in the order of selection.
-/

namespace EnsembleSampling

/-- A start, if there is one, and a stride. -/
structure Slice where
  start : Option Int
  stride : Int
  deriving DecidableEq, Repr, Inhabited

namespace Slice

/-- Every row from a given one on. -/
def startingAt (start : Option Int) : Slice := ⟨start, 1⟩

/-- A start counted from the front; negative if it lies before the first row. -/
def fromFront (n : Nat) (start : Int) : Int := if start < 0 then start + n else start

/-- Number of rows before the start of a slice that goes forwards. -/
def skipped (n : Nat) : Option Int → Nat
  | none => 0
  | some start => min (fromFront n start).toNat n

/-- Number of rows up to the start of a slice that goes backwards. -/
def reached (n : Nat) : Option Int → Nat
  | none => n
  | some start => min (fromFront n start + 1).toNat n

/-- Number of strides of length `k` that begin within `n` rows. -/
def strides (n k : Nat) : Nat := (n + (k - 1)) / k

/-- The rows among `n` that a slice selects; a stride of zero selects none. -/
def indices (s : Slice) (n : Nat) : List Nat :=
  let k := s.stride.natAbs
  if 0 < s.stride then
    let first := skipped n s.start
    (List.range (strides (n - first) k)).map fun i => first + i * k
  else if s.stride < 0 then
    let count := reached n s.start
    (List.range (strides count k)).map fun i => count - 1 - i * k
  else []

/-- The selected rows of a list. -/
def select {β : Type} (s : Slice) (xs : List β) : List β :=
  let rows := xs.toArray
  (s.indices xs.length).filterMap (rows[·]?)

/-! ## From arguments -/

/-- A place that an argument stands for, if it is not absent. -/
def placeOf : Argument → Except Fault (Option Int)
  | .absent => .ok none
  | a => a.index.map some

/-- The slice with a start and a stride; the stride is looked at first, and may not be
zero. -/
def ofArguments (start stride : Argument) : Except Fault Slice := do
  let stride ← placeOf stride
  let stride := stride.getD 1
  if stride = 0 then throw .malformed
  let start ← placeOf start
  pure ⟨start, stride⟩

/-! ## Small facts -/

theorem strides_one (n : Nat) : strides n 1 = n := by simp [strides]

example : (Slice.mk (some 2) 2).indices 7 = [2, 4, 6] := by decide
example : (Slice.mk (some (-2)) 1).indices 5 = [3, 4] := by decide
example : (Slice.mk none (-2)).indices 5 = [4, 2, 0] := by decide
example : (Slice.mk (some (-9)) (-1)).indices 5 = [] := by decide

end Slice

end EnsembleSampling
