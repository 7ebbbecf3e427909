import EnsembleSampling.Tensor
set_option autoImplicit false

/-!
# Arrays side by side

Two arrays fit together when, counted from the last axis, their axes have equal lengths
or one of them has length one; such an axis serves for all places of the other, and so
does an axis that is missing in front.  `Tensor.zip?` combines two such arrays entry by
entry, `Tensor.fitInto?` spreads one array over a given shape.
-/

namespace EnsembleSampling.Tensor

variable {α β γ : Type}

/-- A shape with axes of length one in front, so as to have so many axes. -/
def padded (rank : Nat) (shape : List Nat) : List Nat :=
  List.replicate (rank - shape.length) 1 ++ shape

/-- The common lengths of as many axes. -/
def commonLengths? : List Nat → List Nat → Option (List Nat)
  | [], [] => some []
  | n :: s, m :: t =>
    if n = m ∨ m = 1 then (commonLengths? s t).map (n :: ·)
    else if n = 1 then (commonLengths? s t).map (m :: ·)
    else none
  | _, _ => none

/-- The shape of two arrays side by side. -/
def commonShape? (s t : List Nat) : Option (List Nat) :=
  let rank := max s.length t.length
  commonLengths? (padded rank s) (padded rank t)

example : commonShape? [3, 1] [2] = some [3, 2] := by decide
example : commonShape? [3] [2] = none := by decide

/-- The entries of an array of shape `source` repeated along each axis of length one, to
as many axes of the lengths `target`. -/
def spread : (source target : List Nat) → List α → List α
  | n :: source, m :: target, xs =>
    let rows := ((pieces (count source) n xs).map (spread source target)).flatten
    if n = m then rows else (List.replicate m rows).flatten
  | _, _, xs => xs

/-- An array spread over a shape that it fits together with. -/
def spreadOver (shape : List Nat) (t : Tensor α) : Tensor α :=
  ⟨shape, spread (padded shape.length t.shape) shape t.entries⟩

/-- Two arrays combined entry by entry, if they fit together. -/
def zip? (f : α → β → γ) (a : Tensor α) (b : Tensor β) : Option (Tensor γ) :=
  (commonShape? a.shape b.shape).map fun shape =>
    ⟨shape, List.zipWith f (a.spreadOver shape).entries (b.spreadOver shape).entries⟩

/-- A shape without axes of length one in front that go beyond so many axes. -/
def trimmed (rank : Nat) : List Nat → List Nat
  | 1 :: s => if rank ≤ s.length then trimmed rank s else 1 :: s
  | s => s

example : trimmed 1 [1, 1, 3] = [3] := by decide

/-- Whether an array of shape `source` fits into one of the shape `target`. -/
def fits (source target : List Nat) : Bool :=
  decide (commonShape? (trimmed target.length source) target = some target)

/-- An array spread over a given shape, if it fits into it. -/
def fitInto? (shape : List Nat) (t : Tensor α) : Option (Tensor α) :=
  if fits t.shape shape then
    some (spreadOver shape ⟨trimmed shape.length t.shape, t.entries⟩)
  else none

end EnsembleSampling.Tensor
