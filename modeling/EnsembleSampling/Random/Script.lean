import EnsembleSampling.Argument
set_option autoImplicit false

/-!
# Scripted draws

A script lists the draws of each kind beforehand, as values of any kind; whether a value
is of use is for those to find out who draw it.  Each kind of draw is read in order; past
its end the list begins again if the script is cyclic, and otherwise there is no further
draw.
-/

namespace EnsembleSampling.Random

/-- A list that is read in order, and how many of its entries have been read. -/
structure Tape (β : Type) where
  entries : List β
  read : Nat
  deriving Repr, Inhabited

namespace Tape

variable {β : Type}

/-- A list of which nothing has been read. -/
def ofList (entries : List β) : Tape β := ⟨entries, 0⟩

/-- The next entry; a cyclic list begins again at its end. -/
def next? (cyclic : Bool) (t : Tape β) : Option (β × Tape β) :=
  let place := if cyclic then t.read % t.entries.length else t.read
  (t.entries[place]?).map fun b => (b, { t with read := t.read + 1 })

end Tape

/-- The draws of each kind. -/
structure Script where
  coins : Tape Argument
  normals : Tape Argument
  uniforms : Tape Argument
  cyclic : Bool
  deriving Inhabited

end EnsembleSampling.Random
