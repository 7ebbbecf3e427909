import EnsembleSampling.Decimal.Integer
import EnsembleSampling.Grouped.Subset
import EnsembleSampling.Tensor.Broadcast
set_option autoImplicit false

/-!
# Details beside log-densities

A density may give further values along with a log-density.  The details of several
walkers are kept in one table, whose kind of value is that of the first walker's
details: truth values, machine words with or without a sign, doubles, or anything.  A
table of anything takes what it is given and has as many axes as all details share; any
other table must be rectangular and turns every value into one of its kind.  Axes of
length one are dropped, but for the first.

A run never looks at details again.  It stores those of walkers that were moved, which
the new table must have the shape for.
-/

namespace EnsembleSampling.Grouped

/-! ## Kinds of value -/

/-- The kind of value that a table of details holds. -/
inductive DetailKind where
  | truth
  | word
  | unsigned
  | double
  | anything
  deriving DecidableEq, Repr, Inhabited

namespace DetailKind

/-- The kind of some values side by side, in the layout of an array. -/
def ofMembers (members : List Argument) : DetailKind :=
  if members.any fun a => a.isText || a.keepsMembers then .anything
  else if members.isEmpty || members.any Argument.isReal then .double
  else if members.all Argument.isFlag then .truth
  else if members.all fun a => a.isUnsigned || a.isFlag then .unsigned
  else if members.any Argument.isUnsigned then .double
  else .word

/-- The kind of the details of one walker. -/
def ofDetails (details : Argument) : DetailKind :=
  match details.arrayShape with
  | .ok _ => ofMembers details.leaves
  | .error _ => .anything

/-- Whether a machine word can be made of an integer, of one without a sign as well if
`unsigned` says so. -/
def checkWhole (unsigned : Bool) (n : Int) : Except Fault Unit :=
  if -(pow2 63 : Int) ≤ n ∧ n < (if unsigned then pow2 64 else pow2 63) then .ok ()
  else .error .tooLarge

/-- Whether a machine word can be made of a value.  An integer must be one already; a double
is cut off behind the point, and a text is read. -/
def checkWord (unsigned : Bool) : Argument → Except Fault Unit
  | .integer n => if unsigned && decide (n < 0) then .error .tooLarge else checkWhole unsigned n
  | .real x => do checkWhole unsigned (← truncated x)
  | .text s =>
    match Numeral.toInt? .ten s with
    | some n => checkWhole unsigned n
    | none => .error .malformed
  | .word _ | .entry _ | .flag _ => .ok ()
  | .list _ | .tuple _ | .array _ _ => .error .malformed
  | .absent => .error .unsupported

/-- Whether a double can be made of a value. -/
def checkDouble : Argument → Except Fault Unit
  | .list _ | .tuple _ | .array _ _ => .error .malformed
  | a => do
    let _ ← Tensor.entryOf a
    pure ()

/-- Whether a value of a kind can be made of a value. -/
def check : DetailKind → Argument → Except Fault Unit
  | .anything, _ | .truth, _ => .ok ()
  | .word, a => checkWord false a
  | .unsigned, a => checkWord true a
  | .double, a => checkDouble a

end DetailKind

/-! ## Shapes of anything -/

/-- The lengths that two shapes begin with in common. -/
def sharedLengths : List Nat → List Nat → List Nat
  | n :: s, m :: t => if n = m then n :: sharedLengths s t else []
  | _, _ => []

mutual

/-- The lengths that all branches of nested lists have in common. -/
def looseShape : Argument → List Nat
  | .list xs | .tuple xs => xs.length :: looseShapeAll xs
  | .array shape _ => shape
  | _ => []

/-- The lengths that all members of a sequence have in common. -/
def looseShapeAll : List Argument → List Nat
  | [] => []
  | [x] => looseShape x
  | x :: xs => sharedLengths (looseShape x) (looseShapeAll xs)

end

example : looseShape (.list [.list [.absent], .list [.absent, .absent]]) = [2] := by
  decide +kernel

/-- The members of nested lists at a depth. -/
def membersAt : (depth : Nat) → Argument → List Argument
  | depth + 1, .list xs | depth + 1, .tuple xs => xs.flatMap (membersAt depth)
  | _ + 1, .array _ xs => xs
  | _, a => [a]

/-! ## Tables -/

/-- The details of several walkers, as they were given. -/
structure Details where
  kind : DetailKind
  /-- The number of walkers. -/
  count : Nat
  /-- The lengths of the axes behind the first. -/
  shape : List Nat
  entries : List Argument
  deriving Inhabited

namespace Details

/-- A table of given lengths; axes of length one are dropped. -/
def ofShape (kind : DetailKind) (shape : List Nat) (entries : List Argument) : Details :=
  ⟨kind, shape.headD 0, (shape.drop 1).filter (· != 1), entries⟩

/-- The table of the details of some walkers. -/
def ofRows (rows : List Argument) : Except Fault Details := do
  let all : Argument := .list rows
  match DetailKind.ofDetails (rows.headD (.list [])) with
  | .anything =>
    let shape := (looseShape all).take maxRank
    pure (ofShape .anything shape (membersAt shape.length all))
  | kind => do
    let shape ← all.arrayShape
    all.leaves.forM kind.check
    pure (ofShape kind shape all.leaves)

/-- Whether a table can be stored: no axis behind the first is empty. -/
def checkStored (d : Details) : Except Fault Unit :=
  if d.shape.contains 0 then .error .malformed else .ok ()

/-- Whether a table has the details of so many walkers. -/
def checkCount (walkers : Nat) (d : Details) : Except Fault Unit :=
  if d.count = walkers then .ok () else .error .malformed

/-- What must hold of the shapes of two tables for so many rows of the second to be stored
in the first.  Single values cannot be stored as rows. -/
def checkShapes (rows : Nat) (old new : List Nat) : Except Fault Unit :=
  if old.isEmpty then
    if new.isEmpty then .ok () else .error .unsupported
  else if Tensor.fits (rows :: new) (rows :: old) then .ok () else .error .malformed

/-- The entries of the rows that are marked. -/
def marked (marks : List Bool) (d : Details) : List Argument :=
  let rows := Tensor.pieces (Tensor.count d.shape) d.count d.entries
  (((rows.zip marks).filter (·.2)).map (·.1)).flatten

/-- Whether the details of a group can be stored in those of all walkers, for the members
of the group that are marked.  Only a table of anything may hold what cannot be. -/
def checkUpdate (walkers : Nat) (old new : Details) (marks : List Bool) :
    Except Fault Unit := do
  if new.count ≠ marks.length then throw .outOfRange
  if old.count ≠ walkers then throw .outOfRange
  checkShapes (marks.count true) old.shape new.shape
  if new.kind = .anything then (new.marked marks).forM old.kind.check

end Details

end EnsembleSampling.Grouped
