import EnsembleSampling.Ensemble.Host
set_option autoImplicit false

/-!
# Companions

A walker is moved by a random set of the others, at least two of them.  A fair coin
is thrown for each of the others in order; a set with fewer than two members is
thrown away with its coins, and the next block of coins is thrown.

No number of blocks is enough for certain, so the search takes a limit on them.
-/

namespace EnsembleSampling

/-- Number the other walkers around the one with a given index: `k` stays `k` below
it and becomes `k + 1` from it on. -/
def skipOver (index : Int) (k : Nat) : Nat := if index ≤ k then k + 1 else k

/-- The walkers that one block of coins selects: those whose coin is not zero. -/
def selectedBy (index : Int) (coins : List Int) : List Nat :=
  (coins.zipIdx.filter fun c => c.1 != 0).map fun c => skipOver index c.2

/-- Whether a set of companions can move a walker. -/
def isEnough (companions : List Nat) : Bool := 2 ≤ companions.length

section

variable {σ ε α β V : Type}

/-- Companions of the walker `index` among `others` further walkers: the set that the
first block of coins selects which is large enough, if it is among the first
`limit` blocks. -/
def drawCompanions (h : Host σ ε α β V) (index : Int) (others : Nat) :
    (limit : Nat) → Draw σ (SweepFailure ε) (List Nat)
  | 0 => throw .stalled
  | limit + 1 => do
    let coins ← (Draw.times others h.coin).inSweep
    let companions := selectedBy index coins
    if isEnough companions then pure companions else drawCompanions h index others limit

end

/-! ## Small facts -/

theorem skipOver_ne (index : Int) (k : Nat) : (skipOver index k : Int) ≠ index := by
  unfold skipOver
  split <;> omega

theorem skipOver_lt {index : Int} {j k : Nat} (h : j < k) :
    skipOver index j < skipOver index k := by
  unfold skipOver
  split <;> split <;> omega

theorem skipOver_le (index : Int) (k : Nat) : skipOver index k ≤ k + 1 := by
  unfold skipOver
  split <;> omega

/-- Every other walker has a place among the coins. -/
theorem exists_skipOver {N i j : Nat} (hj : j < N) (hi : i < N) (hne : j ≠ i) :
    ∃ k, k < N - 1 ∧ skipOver i k = j := by
  unfold skipOver
  rcases Nat.lt_or_gt_of_ne hne with hlt | hgt
  · refine ⟨j, by omega, if_neg ?_⟩
    omega
  · refine ⟨j - 1, by omega, ?_⟩
    rw [if_pos (by omega)]
    omega

/-- A selected walker is the image of a place whose coin is not zero. -/
theorem mem_selectedBy {index : Int} {coins : List Int} {i : Nat} :
    i ∈ selectedBy index coins ↔
      ∃ k c, coins[k]? = some c ∧ c ≠ 0 ∧ skipOver index k = i := by
  simp only [selectedBy, List.mem_map, List.mem_filter, bne_iff_ne, Prod.exists,
    List.mem_zipIdx_iff_getElem?]
  constructor
  · rintro ⟨c, k, ⟨hk, hc⟩, rfl⟩
    exact ⟨k, c, hk, hc, rfl⟩
  · rintro ⟨k, c, hk, hc, rfl⟩
    exact ⟨c, k, ⟨hk, hc⟩, rfl⟩

/-- A block of coins selects walkers in ascending order. -/
theorem pairwise_selectedBy (index : Int) (coins : List Int) :
    (selectedBy index coins).Pairwise (· < ·) := by
  have hplaces : coins.zipIdx.Pairwise fun c d => c.2 < d.2 := by
    rw [← List.pairwise_map (f := Prod.snd) (R := (· < ·)), List.zipIdx_map_snd]
    exact List.pairwise_lt_range'
  refine List.pairwise_map.mpr ?_
  exact (hplaces.filter _).imp fun h => skipOver_lt h

end EnsembleSampling
