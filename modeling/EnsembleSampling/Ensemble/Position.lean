import EnsembleSampling.Number.Summation
set_option autoImplicit false

/-!
# Positions

A sweep needs very little of a position: differences, sums, multiples by a scalar
and means.  `LinearOps` asks for just that, so a sweep can be followed in any
space that has them; on doubles, a position is a `Point`, a list of coordinates.
-/

namespace EnsembleSampling

/-- What a sweep does with positions `V` over scalars `α`. -/
class LinearOps (α : outParam Type) (V : Type) where
  add : V → V → V
  sub : V → V → V
  scale : α → V → V
  /-- The origin of the space that a position lies in. -/
  origin : V → V
  mean : List V → V

/-- A position given by its coordinates. -/
structure Point (α : Type) where
  coords : List α
  deriving Inhabited

namespace Point

variable {α : Type}

/-- Number of coordinates. -/
def dim (p : Point α) : Nat := p.coords.length

/-- Combine two positions coordinate by coordinate. -/
def zipWith (f : α → α → α) (p q : Point α) : Point α := ⟨List.zipWith f p.coords q.coords⟩

instance [Zero α] [Add α] [Sub α] [Mul α] [Div α] [NatCast α] : LinearOps α (Point α) where
  add := zipWith (· + ·)
  sub := zipWith (· - ·)
  scale a p := ⟨p.coords.map (a * ·)⟩
  origin p := ⟨p.coords.map fun _ => 0⟩
  mean ps := ⟨meanRows (ps.map coords)⟩

theorem dim_zipWith {f : α → α → α} {p q : Point α} (h : p.dim = q.dim) :
    (zipWith f p q).dim = q.dim := by
  simp only [dim, zipWith, List.length_zipWith] at h ⊢
  omega

end Point

end EnsembleSampling
