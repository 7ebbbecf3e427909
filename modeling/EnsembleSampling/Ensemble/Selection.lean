import EnsembleSampling.Ensemble.Companions
import EnsembleSampling.Ensemble.Walker
set_option autoImplicit false

/-!
# Companions and their mean, from arguments

A caller may ask for companions of any index among any number of walkers, and for the
mean of any selection of positions.  An index need not be an integer, only comparable
with one; it is compared with nothing before the first coin shows heads.

A selection is a single place, an array of places, which may lie in several axes, or an
array of truth values that selects among the leading axes.  Places count from the end
when negative.  A selection of no kind selects everything.
-/

namespace EnsembleSampling

section

variable {σ : Type} {α β V : Type}

/-- The first of `n` walkers that is at or behind an index: the least integer that is
at least the index, zero if all are, and `n` if none is. -/
def indexOf? (n : Nat) : Argument → Option Int
  | .real x | .entry x =>
    match Binary64.content x with
    | .infinite true => some 0
    | .finite .. => Binary64.ceil? x
    | _ => some n
  | a => a.integral?

/-- Throw coins until one shows heads. -/
def awaitHeads (h : Host σ Fault α β V) : (limit : Nat) → Draw σ Fault Unit
  | 0 => throw .stalled
  | limit + 1 => do
    if (← h.coin) = 0 then awaitHeads h limit

/-- The number of walkers that companions are drawn among. -/
def companionCount (n : Argument) : Except Fault Nat := do
  if ← n.lessThan (.integer minWalkers) then throw (.rejected (.degenerate n))
  let n ← n.index
  pure n.toNat

/-- Companions of an index among so many walkers. -/
def companionsOf (h : Host σ Fault α β V) (limit : Nat) (index n : Argument) :
    Draw σ Fault (List Nat) := do
  let n ← Draw.ofExcept (companionCount n)
  match indexOf? n index with
  | none => do
    awaitHeads h limit
    throw .unsupported
  | some i =>
    .ofOutcome fun w =>
      let (r, w) := (drawCompanions h i (n - 1) limit).outcome w
      (r.mapError SweepFailure.toFault, w)

end

/-! ## Means of selected rows -/

/-- The row that a place stands for, among `n`. -/
def placeAmong (n : Nat) (place : Int) : Except Fault Nat :=
  let i := if place < 0 then place + n else place
  if 0 ≤ i ∧ i < n then .ok i.toNat else .error .outOfRange

/-- The place that a member of a selection stands for; no other kind of value selects
a row. -/
def placeIn (n : Nat) (a : Argument) : Except Fault Nat :=
  match a.integral? with
  | some i => placeAmong n i
  | none => .error .outOfRange

/-- The truth value that an argument is. -/
def flag? : Argument → Option Bool
  | .flag b => some b
  | _ => none

/-- The places that the members of an array stand for.  Words without a sign wrap around,
and there are no words with a sign beside them; no other kind of value is a place. -/
def placesOf (members : List Argument) : Except Fault (List Int) := do
  let places ← members.mapM fun a => a.integral?.elim (.error .outOfRange) .ok
  if members.any Argument.isUnsigned then
    if members.all fun a => a.isUnsigned || a.isFlag then
      pure (places.map Argument.wrap)
    else throw .outOfRange
  else if places.all Argument.fitsWord then pure places
  else throw .outOfRange

/-- The sub-arrays of an array that an array of places selects along its first axis. -/
def selectPlaces (shape : List Nat) (places : List Int) (rows : Tensor Float) :
    Except Fault (Tensor Float) :=
  match rows.shape with
  | [] => .error .outOfRange
  | n :: rest => do
    if maxRank < shape.length + rest.length then throw .outOfRange
    let places ← places.mapM (placeAmong n)
    let slabs := rows.slabs.toArray
    pure ⟨shape ++ rest, (places.filterMap (slabs[·]?)).flatten⟩

/-- The sub-arrays of an array that truth values for its leading axes select. -/
def selectFlagged (shape : List Nat) (flags : List Bool) (rows : Tensor Float) :
    Except Fault (Tensor Float) :=
  if shape.isPrefixOf rows.shape then
    let rest := rows.shape.drop shape.length
    let slabs := Tensor.pieces (Tensor.count rest) flags.length rows.entries
    let chosen := ((slabs.zip flags).filter (·.2)).map (·.1)
    .ok ⟨chosen.length :: rest, chosen.flatten⟩
  else .error .outOfRange

/-- What an array selects: by truth values if it has members and all of them are, else by
places. -/
def selectBy (t : Tensor Argument) (rows : Tensor Float) : Except Fault (Tensor Float) :=
  match t.entries, t.entries.mapM flag? with
  | _ :: _, some flags => selectFlagged t.shape flags rows
  | _, _ => do selectPlaces t.shape (← placesOf t.entries) rows

/-- The array with one more axis in front, along which it stands so many times. -/
def stacked (times : Nat) (rows : Tensor Float) : Except Fault (Tensor Float) :=
  if rows.rank = maxRank then .error .outOfRange
  else .ok ⟨times :: rows.shape, (List.replicate times rows.entries).flatten⟩

/-- The sub-array at the place that an argument stands for. -/
def selectOne (a : Argument) (rows : Tensor Float) : Except Fault (Tensor Float) :=
  match rows.shape with
  | [] => .error .outOfRange
  | n :: rest => do
    let place ← placeIn n a
    match rows.slabs[place]? with
    | some row => pure ⟨rest, row⟩
    | none => throw .outOfRange

/-- What an argument selects.  A single place is a machine word with a sign. -/
def selected (selection : Argument) (rows : Tensor Float) : Except Fault (Tensor Float) :=
  match selection with
  | .absent | .flag true => stacked 1 rows
  | .flag false => stacked 0 rows
  | .list xs => do selectBy (← Tensor.ofNested (.list xs)) rows
  | a => if a.isUnsigned then .error .tooLarge else selectOne a rows

/-- The mean along the first axis, which there must be; that of nothing is no number
everywhere. -/
def meanAlongFirst (t : Tensor Float) : Except Fault (Tensor Float) :=
  match t.shape with
  | [] => .error .malformed
  | n :: rest =>
    .ok ⟨rest, if n = 0 then List.replicate (Tensor.count rest) (mean []) else
      meanRows t.slabs⟩

/-- The mean of what an argument selects. -/
def meanOfSelected (selection : Argument) (rows : Tensor Float) : Except Fault (Tensor Float) := do
  meanAlongFirst (← selected selection rows)

/-! ## Small facts -/

/-- The check that a search for companions makes of the number of walkers. -/
theorem companionCount_of_le {n : Nat} (hn : minWalkers ≤ n) :
    companionCount (.integer n) = .ok n := by
  have hless : Argument.lessThan (.integer n) (.integer minWalkers) = .ok false := by
    have hcompare : compare (n : Int) minWalkers ≠ .lt := by
      simp only [compare, compareOfLessAndEq]
      have hnot : ¬ (n : Int) < minWalkers := by omega
      rw [if_neg hnot]
      split <;> simp
    simp [Argument.lessThan, Argument.compare?, Argument.compareNumbers?, Argument.integral?,
      Except.map, hcompare]
  simp [companionCount, hless, Argument.index, Argument.integral?, bind, Except.bind, pure,
    Except.pure]

end EnsembleSampling
