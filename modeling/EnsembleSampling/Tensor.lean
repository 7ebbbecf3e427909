import EnsembleSampling.Argument.Arithmetic
set_option autoImplicit false

/-!
# Rectangular arrays

A tensor is a shape and its entries in row-major order, the last index running
fastest.  `Tensor.ofArgument` reads nested lists: first they must have the layout of
an array, and only then are the members read as doubles, in order.
-/

namespace EnsembleSampling

/-- A rectangular array with entries in row-major order. -/
structure Tensor (α : Type) where
  shape : List Nat
  entries : List α
  deriving Inhabited

namespace Tensor

variable {α : Type}

/-- Number of entries of a shape. -/
def count (shape : List Nat) : Nat := shape.foldr (· * ·) 1

/-- Number of axes. -/
def rank (t : Tensor α) : Nat := t.shape.length

/-- The array of a given shape with one value everywhere. -/
def constant (shape : List Nat) (a : α) : Tensor α := ⟨shape, List.replicate (count shape) a⟩

/-- A single value. -/
def scalar (a : α) : Tensor α := ⟨[], [a]⟩

/-- A vector. -/
def vector (xs : List α) : Tensor α := ⟨[xs.length], xs⟩

/-- Rows of a given length, one below the other. -/
def ofRows (columns : Nat) (rows : List (List α)) : Tensor α :=
  ⟨[rows.length, columns], rows.flatten⟩

/-- A list cut into `n` pieces of length `size`. -/
def pieces (size : Nat) : Nat → List α → List (List α)
  | 0, _ => []
  | n + 1, xs => xs.take size :: pieces size n (xs.drop size)

/-- The entries below each index of the first axis. -/
def slabs (t : Tensor α) : List (List α) :=
  match t.shape with
  | [] => []
  | n :: rest => pieces (count rest) n t.entries

/-- The sub-arrays along the first axis. -/
def subs (t : Tensor α) : List (Tensor α) := t.slabs.map fun xs => ⟨t.shape.drop 1, xs⟩

/-- Apply a function to every entry. -/
def map {β : Type} (f : α → β) (t : Tensor α) : Tensor β := ⟨t.shape, t.entries.map f⟩

/-- A single value counts as a vector of length one. -/
def atLeastVector (t : Tensor α) : Tensor α :=
  match t.shape with
  | [] => ⟨[1], t.entries⟩
  | _ => t

/-! ## Reading nested lists -/

/-- Nested lists as an array of their members. -/
def ofNested (a : Argument) : Except Fault (Tensor Argument) :=
  a.arrayShape.map fun shape => ⟨shape, a.leaves⟩

/-- A member of an array as a double; no value is read as no number. -/
def entryOf : Argument → Except Fault Float
  | .absent => .ok (0.0 / 0.0)
  | a => a.toReal

/-- Nested lists as an array of doubles. -/
def ofArgument (a : Argument) : Except Fault (Tensor Float) := do
  let t ← ofNested a
  let entries ← t.entries.mapM entryOf
  pure ⟨t.shape, entries⟩

/-! ## Small facts -/

theorem length_pieces (size n : Nat) (xs : List α) : (pieces size n xs).length = n := by
  induction n generalizing xs with
  | zero => rfl
  | succ n ih => simp [pieces, ih]

theorem count_cons (n : Nat) (s : List Nat) : count (n :: s) = n * count s := rfl

/-- Cutting up pieces of equal length undoes their joining. -/
theorem pieces_flatten (size : Nat) (xss : List (List α)) (h : ∀ xs ∈ xss, xs.length = size) :
    pieces size xss.length xss.flatten = xss := by
  induction xss with
  | nil => rfl
  | cons xs xss ih =>
    have hx : xs.length = size := h xs (by simp)
    have ih' := ih fun ys hy => h ys (by simp [hy])
    simp [pieces, ← hx] at ih' ⊢
    exact ih'

end Tensor

end EnsembleSampling
