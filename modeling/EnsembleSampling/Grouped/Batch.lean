import EnsembleSampling.Density
import EnsembleSampling.Grouped.Details
set_option autoImplicit false

/-!
# Batches of log-densities

The log-densities of a group are asked for in one go, and only then looked at.  Each must
be a single number, which a sequence with a single member counts as.  If all of them are
sequences or texts and one of these is longer than that, the first member of each is the
log-density, and the others are details that go along with it.
-/

namespace EnsembleSampling.Grouped

/-! ## Values with a length -/

/-- A value that has a length: its length, its first member, and what is left without
it. -/
structure Row where
  length : Nat
  first? : Option Argument
  rest : Argument
  deriving Inhabited

/-- A value taken apart, if it has a length. -/
def Row.ofValue? : Argument → Option Row
  | .list xs | .tuple xs => some ⟨xs.length, xs.head?, .list (xs.drop 1)⟩
  | .text s =>
    let cs := s.toList
    some ⟨cs.length, cs.head?.map fun c => .text (String.singleton c),
      .text (String.ofList (cs.drop 1))⟩
  | .array [n] xs => some ⟨n, xs.head?, .array [n - 1] (xs.drop 1)⟩
  | .array (n :: shape) xs =>
    let size := Tensor.count shape
    some ⟨n, if n = 0 then none else some (.array shape (xs.take size)),
      .array ((n - 1) :: shape) (xs.drop size)⟩
  | _ => none

/-! ## Batches -/

/-- The log-densities of a group, and the details that go along with them. -/
structure Batch where
  values : List Float
  details : Option Details
  deriving Inhabited

namespace Batch

/-- A value that must be a single number. -/
def single (a : Argument) : Except Fault Float :=
  match a with
  | .list _ | .tuple _ | .array _ _ => do
    let t ← Tensor.ofNested a
    match t.entries with
    | [x] => x.toReal
    | _ => throw .malformed
  | a => a.toReal

/-- The values taken apart, if all of them have a length and one has details. -/
def rows? (values : List Argument) : Option (List Row) :=
  match values.mapM Row.ofValue? with
  | none => none
  | some rows => if rows.any (1 < ·.length) then some rows else none

/-- The first member as a single number. -/
def first (row : Row) : Except Fault Float :=
  match row.first? with
  | none => .error .unsupported
  | some x => single x

/-- The log-densities among some values, before any is known to be a number.  If a first
member is missing or not of a kind with numbers, the values are taken whole. -/
def read (values : List Argument) : Except Fault Batch :=
  let whole : Except Fault Batch := (values.mapM single).map (⟨·, none⟩)
  match rows? values with
  | none => whole
  | some rows =>
    match rows.mapM first with
    | .ok ls => do
      let details ← Details.ofRows ((rows.filter (1 < ·.length)).map Row.rest)
      pure ⟨ls, some details⟩
    | .error .unsupported => whole
    | .error f => .error f

/-- The log-densities among some values, which must all be numbers. -/
def ofValues (values : List Argument) : Except Fault Batch := do
  let batch ← read values
  if batch.values.any Float.isNaN then throw .malformed
  pure batch

end Batch

end EnsembleSampling.Grouped
