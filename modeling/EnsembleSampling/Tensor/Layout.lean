import EnsembleSampling.Tensor
set_option autoImplicit false

/-!
# The layout of a table

A caller may ask for a table of given lengths.  The lengths are integers, looked at in
order; a length may not be negative, and the table must not be too large to be laid out.
An axis of length zero leaves nothing to store, but the other axes are laid out all the
same, so that they count.  A table that can be laid out can be stored if there is memory
for its entries.
-/

namespace EnsembleSampling.Layout

/-- The integer that a length is; a truth value is none.  It must fit a machine word. -/
def lengthOf : Argument → Except Fault Int
  | .integer n => if Argument.fitsWord n then .ok n else .error .malformed
  | .word n => .ok n
  | _ => .error .unsupported

/-- The lengths in a sequence, of which there may be only so many. -/
def lengthsOf (xs : List Argument) : Except Fault (List Int) :=
  if maxRank < xs.length then .error .malformed else xs.mapM lengthOf

/-- The lengths that an argument stands for: a single one, or a sequence of them.  A text
is a sequence of characters, none of which is a length. -/
def lengths : Argument → Except Fault (List Int)
  | .list xs | .tuple xs => lengthsOf xs
  | .text s => lengthsOf (s.toList.map fun c => .text (String.singleton c))
  | a => (lengthOf a).map ([·])

/-- The number of bytes that the axes of a table of doubles are laid out with. -/
def span (shape : List Nat) : Nat := bytesPerDouble * Tensor.count (shape.filter (· != 0))

example : span [0, 3] = 24 := by decide

/-- What must hold of the shape of a table that is to be laid out. -/
def check (shape : List Nat) : Except Fault Unit :=
  if addressable < span shape then .error .malformed else .ok ()

/-- What must hold of the shape of a table that is to be stored. -/
def checkStored (memory : Memory) (shape : List Nat) : Except Fault Unit := do
  check shape
  if !memory.holds (bytesPerDouble * Tensor.count shape) then throw .outOfMemory

/-- The shape of a table with the lengths that an argument stands for, which is to be
stored. -/
def shapeOf (memory : Memory) (a : Argument) : Except Fault (List Nat) := do
  let ns ← lengths a
  if ns.any (· < 0) then throw .malformed
  let shape := ns.map Int.toNat
  checkStored memory shape
  pure shape

/-! ## Small facts -/

/-- Without an axis of length zero the axes are laid out with the bytes of the table. -/
theorem span_eq_of_forall_ne_zero {shape : List Nat} (h : ∀ n ∈ shape, n ≠ 0) :
    span shape = bytesPerDouble * Tensor.count shape := by
  unfold span
  rw [List.filter_eq_self.2 fun n hn => by simpa using h n hn]

/-- A table that cannot be laid out is malformed; of any other the machine says whether there is
memory for it. -/
theorem checkStored_eq (memory : Memory) (shape : List Nat) :
    checkStored memory shape =
      if addressable < span shape then .error .malformed
      else if memory.holds (bytesPerDouble * Tensor.count shape) then .ok ()
      else .error .outOfMemory := by
  unfold checkStored check
  split
  · rfl
  · cases memory.holds (bytesPerDouble * Tensor.count shape) <;> rfl

end EnsembleSampling.Layout
