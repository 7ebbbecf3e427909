import EnsembleSampling.Number.Elementary
set_option autoImplicit false

/-!
# Sums in blocks

Rounded addition is not associative, so a sum is an order of additions.
`pairedSum` adds fewer than eight terms from left to right; up to 128 terms it
keeps eight running sums, each of every eighth term, joins them in pairs and adds
what is left over; a longer list is cut in two near the middle.  `blockSum` adds the
result to zero, which shows only in that a sum is never a negative zero.  In exact
arithmetic each of these is the sum of the list.

Rows are added to zeros column by column (`sumRows`).
-/

namespace EnsembleSampling

section

variable {α : Type} [Zero α] [Add α]

/-- The sum from left to right. -/
def sumLeft : List α → α
  | [] => 0
  | x :: xs => xs.foldl (· + ·) x

/-- Eight running sums. -/
structure Lanes (α : Type) where
  a : α
  b : α
  c : α
  d : α
  e : α
  f : α
  g : α
  h : α

/-- Add groups of eight terms to the lanes, then join the lanes and add the
terms that are left over one by one. -/
def Lanes.finish (l : Lanes α) : List α → α
  | x₁ :: x₂ :: x₃ :: x₄ :: x₅ :: x₆ :: x₇ :: x₈ :: rest =>
    Lanes.finish ⟨l.a + x₁, l.b + x₂, l.c + x₃, l.d + x₄,
      l.e + x₅, l.f + x₆, l.g + x₇, l.h + x₈⟩ rest
  | rest =>
    rest.foldl (· + ·) (((l.a + l.b) + (l.c + l.d)) + ((l.e + l.f) + (l.g + l.h)))

/-- The sum with eight lanes, of at least eight terms. -/
def sumLanes : List α → α
  | x₁ :: x₂ :: x₃ :: x₄ :: x₅ :: x₆ :: x₇ :: x₈ :: rest =>
    Lanes.finish ⟨x₁, x₂, x₃, x₄, x₅, x₆, x₇, x₈⟩ rest
  | xs => sumLeft xs

/-- Where a list of `n` terms is cut: half of it, rounded down to a multiple of
eight. -/
def cutPoint (n : Nat) : Nat := n / 2 - n / 2 % 8

theorem cutPoint_lt {n : Nat} (h : 128 < n) : cutPoint n < n := by
  unfold cutPoint; omega

theorem cutPoint_pos {n : Nat} (h : 128 < n) : 0 < cutPoint n := by
  unfold cutPoint; omega

/-- The sum of a list that is cut in two until its parts are short. -/
def pairedSum (xs : List α) : α :=
  if 128 < xs.length then
    pairedSum (xs.take (cutPoint xs.length)) + pairedSum (xs.drop (cutPoint xs.length))
  else sumLanes xs
termination_by xs.length
decreasing_by
  all_goals
    rename_i h
    have := cutPoint_lt h
    have := cutPoint_pos h
    simp only [List.length_take, List.length_drop]
    omega

/-- The sum in blocks. -/
def blockSum (xs : List α) : α := 0 + pairedSum xs

/-- The mean: the sum in blocks divided by the number of terms. -/
def mean [Div α] [NatCast α] (xs : List α) : α := blockSum xs / (xs.length : α)

/-- Running sums from left to right. -/
def runningSums (xs : List α) : List α :=
  match xs with
  | [] => []
  | x :: rest => x :: go x rest
where
  /-- The running sums after a partial sum. -/
  go (s : α) : List α → List α
    | [] => []
    | y :: ys => (s + y) :: go (s + y) ys

omit [Zero α] in
theorem length_runningSums_go (s : α) (xs : List α) :
    (runningSums.go s xs).length = xs.length := by
  induction xs generalizing s with
  | nil => rfl
  | cons x xs ih => simp [runningSums.go, ih]

omit [Zero α] in
theorem length_runningSums (xs : List α) : (runningSums xs).length = xs.length := by
  cases xs with
  | nil => rfl
  | cons x xs => simp [runningSums, length_runningSums_go]

end

section

variable {α : Type} [Zero α] [Add α]

/-- The sum of rows, column by column: a single column is summed in blocks, several
are summed from the first row down. -/
def sumRows : List (List α) → List α
  | [] => []
  | [x] :: rows => [blockSum (x :: rows.flatten)]
  | row :: rows => rows.foldl (List.zipWith (· + ·)) (row.map (0 + ·))

/-- The mean of rows, column by column. -/
def meanRows [Div α] [NatCast α] (rows : List (List α)) : List α :=
  (sumRows rows).map (· / (rows.length : α))

end

end EnsembleSampling
