import EnsembleSampling.Proofs.Unconstrain.Passing
import Mathlib.Algebra.Group.Nat.Even
import Mathlib.Data.Set.Function
import Mathlib.Order.Interval.Finset.Fin
set_option autoImplicit false

/-!
# Filling an array

The partial correlations of an upper factor are written into an array that nothing is known of.
The position of the next cell runs along with the rows, each of which is shorter than the one
above.  After `m` rows it stands where row `m` begins (`foldlM_assign`), so in the end every cell
has been written once, and the pair `(i, j)` is found at its place (`factorUpper_fills_once`).

What is written does not depend on what a square matrix holds below its diagonal: it is what the
triangle of the matrix gives (`flatMap_rowPartials`).
-/

namespace EnsembleSampling.Factor

/-! ## Where rows begin -/

/-- The place at which the row `i` begins when the pairs with `i < j < K` are enumerated row by
row. -/
def rowStart (K i : Nat) : Nat := i * K - i * (i + 1) / 2

theorem place_eq (K i j : Nat) : place K i j = rowStart K i + (j - i - 1) := rfl

theorem rowStart_zero (K : Nat) : rowStart K 0 = 0 := by
  simp [rowStart]

/-- A row ends where the next one begins. -/
theorem rowStart_succ {K i : Nat} (hi : i < K) :
    rowStart K (i + 1) = rowStart K i + (K - 1 - i) := by
  have hle := half_le hi
  rw [rowStart, rowStart, half_succ, Nat.succ_mul]
  omega

theorem rowStart_last (K : Nat) : rowStart K (K - 1) = K * (K - 1) / 2 := by
  cases K with
  | zero => rfl
  | succ K =>
    obtain ⟨q, hq⟩ := Nat.even_mul_succ_self K
    rw [rowStart, Nat.add_sub_cancel, Nat.mul_comm (K + 1) K, hq]
    omega

theorem rowStart_mono {K m n : Nat} (hmn : m ≤ n) (hn : n ≤ K) : rowStart K m ≤ rowStart K n := by
  induction n, hmn using Nat.le_induction with
  | base => exact le_rfl
  | succ n _ ih =>
    rw [rowStart_succ hn]
    exact (ih (Nat.le_of_succ_le hn)).trans (Nat.le_add_right _ _)

/-- The place of a pair is in its row. -/
theorem place_lt_rowStart {K i j : Nat} (hij : i < j) (hj : j < K) :
    place K i j < rowStart K (i + 1) := by
  rw [place_eq, rowStart_succ (hij.trans hj)]
  omega

theorem exists_place_eq {K m c : Nat} (hm : m < K) (hc : c < rowStart K m) :
    ∃ i j, i < j ∧ j < K ∧ place K i j = c := by
  induction m with
  | zero =>
    rw [rowStart_zero] at hc
    exact absurd hc (Nat.not_lt_zero c)
  | succ m ih =>
    rcases Nat.lt_or_ge c (rowStart K m) with hbefore | hbehind
    · exact ih (Nat.lt_of_succ_lt hm) hbefore
    · rw [rowStart_succ (Nat.lt_of_succ_lt hm)] at hc
      refine ⟨m, m + 1 + (c - rowStart K m), by omega, by omega, ?_⟩
      rw [place_eq]
      omega

/-- Places in different rows are different. -/
theorem place_lt_place {K i j i' j' : Nat} (hij : i < j) (hj : j < K) (hi : i < i') (hi' : i' < K) :
    place K i j < place K i' j' := by
  have hrow := place_lt_rowStart hij hj
  have hmono : rowStart K (i + 1) ≤ rowStart K i' := rowStart_mono hi hi'.le
  rw [place_eq K i' j']
  omega

/-- The pairs `i < j < K` have the places below `K * (K - 1) / 2`, each pair its own. -/
theorem bijOn_place (K : Nat) :
    Set.BijOn (fun p : Nat × Nat => place K p.1 p.2) {p | p.1 < p.2 ∧ p.2 < K}
      (Set.Iio (K * (K - 1) / 2)) := by
  rw [← rowStart_last]
  refine ⟨?_, ?_, ?_⟩
  · rintro ⟨i, j⟩ ⟨hij, hj⟩
    have hlast : i + 1 ≤ K - 1 := by omega
    exact (place_lt_rowStart hij hj).trans_le (rowStart_mono hlast (Nat.sub_le K 1))
  · rintro ⟨i, j⟩ ⟨hij, hj⟩ ⟨i', j'⟩ ⟨hij', hj'⟩ heq
    have heq : place K i j = place K i' j' := heq
    rcases Nat.lt_trichotomy i i' with hi | rfl | hi
    · exact absurd heq (place_lt_place hij hj hi (hij'.trans hj')).ne
    · rw [place_eq, place_eq] at heq
      have hjj : j = j' := by
        dsimp only at hij hij'
        omega
      rw [hjj]
    · exact absurd heq (place_lt_place hij' hj' hi (hij.trans hj)).ne'
  · intro c hc
    have hK : K - 1 < K := by
      by_contra hzero
      obtain rfl : K = 0 := by omega
      exact absurd hc (Nat.not_lt_zero c)
    obtain ⟨i, j, hij, hj, hplace⟩ := exists_place_eq hK hc
    exact ⟨(i, j), ⟨hij, hj⟩, hplace⟩

/-! ## The loop -/

section

variable {α γ : Type} (put : γ → α → γ)

/-- **One row.**  The cells ahead are written, and those before them stay. -/
theorem Filling.assign_append {n : Nat} {values : List α} (done : List γ) {ahead : List γ}
    (hvalues : values.length = n) (hahead : n ≤ ahead.length) :
    (⟨done.length, done ++ ahead⟩ : Filling γ).assign put n values =
      some ⟨done.length + n,
        done ++ (List.zipWith put ahead values ++ ahead.drop n)⟩ := by
  have hroom : done.length + n ≤ (done ++ ahead).length := by
    rw [List.length_append]
    omega
  rw [Filling.assign, if_pos ⟨hvalues, hroom⟩, List.drop_left, List.take_left]

theorem zipWith_append_values (cells : List γ) (xs ys : List α) (h : xs.length ≤ cells.length) :
    List.zipWith put cells (xs ++ ys) =
      List.zipWith put cells xs ++ List.zipWith put (cells.drop xs.length) ys := by
  have htake : (cells.take xs.length).length = xs.length := by
    rw [List.length_take, Nat.min_eq_left h]
  have hfirst : List.zipWith put cells xs = List.zipWith put (cells.take xs.length) xs := by
    rw [← List.take_append_drop xs.length cells, ← List.append_nil xs,
      List.zipWith_append (by simpa using h)]
    simp
  rw [hfirst]
  conv_lhs => rw [← List.take_append_drop xs.length cells, List.zipWith_append htake]

/-- **A run of rows.**  After `m` rows the position is where row `m` begins; every cell before it
has taken one value, and no cell behind it has taken any. -/
theorem foldlM_assign {K : Nat} {row : Nat → List α}
    (hrow : ∀ i < K - 1, (row i).length = K - 1 - i) {cells : List γ}
    (hcells : cells.length = K * (K - 1) / 2) {m : Nat} (hm : m ≤ K - 1) :
    ((List.range m).flatMap row).length = rowStart K m ∧
      (List.range m).foldlM (fun (f : Filling γ) i => f.assign put (K - 1 - i) (row i)) ⟨0, cells⟩ =
        some ⟨rowStart K m, List.zipWith put cells ((List.range m).flatMap row) ++
          cells.drop (rowStart K m)⟩ := by
  induction m with
  | zero =>
    rw [rowStart_zero]
    exact ⟨rfl, by simp⟩
  | succ m ih =>
    obtain ⟨hlength, hrun⟩ := ih (Nat.le_of_succ_le hm)
    have hvalues := hrow m hm
    have hnext : rowStart K (m + 1) = rowStart K m + (K - 1 - m) := rowStart_succ (by omega)
    have hroom : rowStart K (m + 1) ≤ cells.length := by
      rw [hcells, ← rowStart_last]
      exact rowStart_mono hm (Nat.sub_le K 1)
    have hflat : (List.range (m + 1)).flatMap row = (List.range m).flatMap row ++ row m := by
      rw [List.range_succ, List.flatMap_append, List.flatMap_singleton]
    have hdone : (List.zipWith put cells ((List.range m).flatMap row)).length = rowStart K m := by
      rw [List.length_zipWith, hlength, Nat.min_eq_right (by omega)]
    have hahead : K - 1 - m ≤ (cells.drop (rowStart K m)).length := by
      rw [List.length_drop]
      omega
    have hstep := Filling.assign_append put
      (List.zipWith put cells ((List.range m).flatMap row)) hvalues hahead
    rw [hdone, List.drop_drop, ← List.append_assoc, ← hnext] at hstep
    refine ⟨by rw [hflat, List.length_append, hlength, hvalues, hnext], ?_⟩
    rw [List.range_succ, List.foldlM_append, hrun, ← List.range_succ, hflat,
      zipWith_append_values put cells _ _ (by omega), hlength]
    exact congrArg (· >>= some) hstep

theorem zipWith_right {cells : List γ} {values : List α} (h : values.length = cells.length) :
    List.zipWith (fun _ z => z) cells values = values := by
  rw [← List.map_uncurry_zip_eq_zipWith]
  exact List.map_snd_zip h.le

theorem zipWith_count {n : Nat} {values : List α} (h : values.length = n) :
    List.zipWith (fun written _ => written + 1) (List.replicate n 0) values =
      List.replicate n 1 := by
  induction values generalizing n with
  | nil =>
    subst h
    rfl
  | cons _ values ih =>
    subst h
    exact congrArg (1 :: ·) (ih rfl)

end

/-! ## What is written -/

section

variable {α : Type} [Zero α] [One α] [Add α] [Sub α] [Mul α] [Div α] [Elementary α]

section

variable {n : Nat} {rows : List (List α)} {row : List α}

omit [One α] [Sub α] [Div α] [Elementary α]

theorem columnSquares_append :
    columnSquares n (rows ++ [row]) =
      List.zipWith (fun s u => s + u * u) (columnSquares n rows) row := by
  rw [columnSquares, List.foldl_append]
  rfl

theorem length_columnSquares (hrows : ∀ row ∈ rows, row.length = n) :
    (columnSquares n rows).length = n := by
  induction rows using List.reverseRecOn with
  | nil => exact List.length_replicate
  | append_singleton rows row ih =>
    have hrow := hrows row (List.mem_append_right _ (List.mem_singleton_self row))
    have hrest := ih fun other h => hrows other (List.mem_append_left _ h)
    rw [columnSquares_append, List.length_zipWith, hrest, hrow, Nat.min_self]

/-- The squares of the columns behind the first one. -/
theorem tail_columnSquares :
    (columnSquares (n + 1) rows).drop 1 = columnSquares n (rows.map (List.drop 1)) := by
  induction rows using List.reverseRecOn with
  | nil => rfl
  | append_singleton rows row ih =>
    rw [columnSquares_append, List.map_append, List.map_singleton, columnSquares_append, ← ih,
      List.drop_zipWith]

end

variable {K : Nat} {rows : List (List α)} (hrows : IsSquare K rows)

include hrows

omit [Zero α] [One α] [Add α] [Sub α] [Mul α] [Div α] [Elementary α] in
theorem length_of_mem_above (i d : Nat) :
    ∀ row ∈ (rows.take i).map (List.drop d), row.length = K - d := by
  refine List.forall_mem_map.mpr fun row hrow => ?_
  rw [List.length_drop, hrows.row row (List.mem_of_mem_take hrow)]

/-- A row has a partial correlation for each entry behind its diagonal. -/
theorem length_rowPartials {i : Nat} (hi : i < K) : (rowPartials rows i).length = K - 1 - i := by
  have hlength := hrows.length
  have habove := length_columnSquares (length_of_mem_above hrows i (i + 1))
  have hrow : (rows.getD i []).length = K := by
    rw [List.getD_eq_getElem?_getD, List.getElem?_eq_getElem (hlength.symm ▸ hi)]
    exact hrows.row _ (List.getElem_mem _)
  have hcount : K - 1 - i = K - (i + 1) := by omega
  rw [rowPartials, List.length_zipWith, List.length_map, List.length_drop, hrow, hlength, hcount,
    habove, Nat.min_self]

/-- The rows from `i` on give what the triangle below `i` gives, if its columns have used what the
rows above hold. -/
theorem partials_drop_upperTriangle {i n : Nat} (hn : i + n = K) :
    partials ((upperTriangle rows).drop i)
        (columnSquares (K - i) ((rows.take i).map (List.drop i))) =
      (List.range' i n).flatMap (rowPartials rows) := by
  induction n generalizing i with
  | zero =>
    obtain rfl : i = K := hn
    rw [List.drop_eq_nil_of_le (by rw [length_upperTriangle, hrows.length])]
    rfl
  | succ n ih =>
    have hi : i < rows.length := by
      rw [hrows.length]
      omega
    have hhead : (upperTriangle rows).drop i =
        rows[i].drop i :: (upperTriangle rows).drop (i + 1) := by
      rw [List.drop_eq_getElem_cons (by rwa [length_upperTriangle])]
      simp [upperTriangle]
    have hused : (columnSquares (K - i) ((rows.take i).map (List.drop i))).drop 1 =
        columnSquares (K - 1 - i) ((rows.take i).map (List.drop (i + 1))) := by
      rw [show K - i = K - 1 - i + 1 by omega, tail_columnSquares, List.map_map]
      simp [Function.comp_def]
    have hnext : List.zipWith (fun s u => s + u * u)
        (columnSquares (K - 1 - i) ((rows.take i).map (List.drop (i + 1))))
        (rows[i].drop (i + 1)) =
        columnSquares (K - (i + 1)) ((rows.take (i + 1)).map (List.drop (i + 1))) := by
      rw [List.take_succ_eq_append_getElem hi, List.map_append, List.map_singleton,
        columnSquares_append, show K - (i + 1) = K - 1 - i by omega]
    have hrow : rowPartials rows i = List.zipWith (fun u s => u / Elementary.sqrt (1 - s))
        (rows[i].drop (i + 1))
        (columnSquares (K - 1 - i) ((rows.take i).map (List.drop (i + 1)))) := by
      rw [rowPartials, hrows.length, List.zipWith_map_right, List.getD_eq_getElem?_getD,
        List.getElem?_eq_getElem hi, Option.getD_some]
    rw [hhead, partials_cons, List.drop_drop, hused, hnext, ih (by omega), List.range'_succ,
      List.flatMap_cons, hrow]

/-- The rows of a square matrix give what its triangle gives. -/
theorem flatMap_rowPartials :
    (List.range (K - 1)).flatMap (rowPartials rows) =
      partials (upperTriangle rows) (List.replicate K 0) := by
  have hall := partials_drop_upperTriangle hrows (Nat.zero_add K)
  rw [List.drop_zero, ← List.range_eq_range'] at hall
  refine Eq.trans ?_ hall.symm
  cases K with
  | zero => rfl
  | succ K =>
    -- the last row has no entry behind its diagonal
    have hlast : rowPartials rows K = [] := by
      rw [← List.length_eq_zero_iff, length_rowPartials hrows (Nat.lt_succ_self K)]
      omega
    rw [Nat.add_sub_cancel, List.range_succ, List.flatMap_append, List.flatMap_singleton, hlast,
      List.append_nil]

/-- **Filling an array.**  Whatever the cells are, and however a cell takes a value, each takes its
own partial correlation and no other. -/
theorem fillUpper_eq {γ : Type} (put : γ → α → γ) {cells : List γ}
    (hcells : cells.length = K * (K - 1) / 2) :
    fillUpper put rows cells = some ⟨K * (K - 1) / 2,
      List.zipWith put cells (partials (upperTriangle rows) (List.replicate K 0))⟩ := by
  have hrow : ∀ i < K - 1, (rowPartials rows i).length = K - 1 - i := by
    intro i hi
    exact length_rowPartials hrows (by omega)
  obtain ⟨-, hrun⟩ := foldlM_assign put hrow hcells le_rfl
  rw [rowStart_last, flatMap_rowPartials hrows, List.drop_eq_nil_of_le hcells.le,
    List.append_nil] at hrun
  rw [fillUpper, hrows.length]
  exact hrun

end

end EnsembleSampling.Factor

namespace EnsembleSampling.Unconstrain

open Extended (real)
open Factor

/-- On its own an upper factor gives what its triangle gives. -/
theorem factorUpper_eq {α : Type} [Zero α] [One α] [Add α] [Sub α] [Mul α] [Div α] [Elementary α]
    {K : Nat} {upper : Tensor α} (hshape : upper.shape = [K, K]) (hrows : IsSquare K upper.slabs) :
    factorUpper upper = .ok (ofUpper (upperTriangle upper.slabs)) := by
  have hlength : (upperTriangle upper.slabs).length = K :=
    (length_upperTriangle _).trans hrows.length
  have hpartials :=
    length_partials hlength (isTriangle_upperTriangle hrows) (List.length_replicate (a := 0))
  rw [factorUpper, hshape, ofUpper, hlength]
  dsimp only
  split
  · rename_i hfew
    have hnone : (partials (upperTriangle upper.slabs) (List.replicate K 0)).length = 0 := by
      rw [hpartials, Nat.sub_eq_zero_of_le hfew, Nat.mul_zero]
    rw [List.length_eq_zero_iff.mp hnone]
    rfl
  · have hcells : (List.replicate (K * (K - 1) / 2) (0 : α)).length = K * (K - 1) / 2 :=
      List.length_replicate
    rw [if_pos ⟨rfl, .inl rfl⟩, fillUpper_eq hrows _ hcells,
      zipWith_right (hpartials.trans hcells.symm)]

section

variable {K : Nat} (U : Matrix (Fin K) (Fin K) ℝ)

/-- What the column `j` of an upper factor has left above the row `i`. -/
def leftAbove (i j : Fin K) : ℝ := 1 - ∑ k ∈ Finset.Iio i, U k j ^ 2

theorem upperEntry_rowsOf {i j : Fin K} (hij : i ≤ j) :
    upperEntry (upperTriangle (rowsOf U)) i j = U i j := by
  rw [upperEntry_upperTriangle (isSquare_rowsOf U) hij, entry_rowsOf, Option.getD_some]

theorem remaining_rowsOf {i j : Fin K} (hij : i < j) :
    remaining (List.replicate K 0) (upperTriangle (rowsOf U)) i j = leftAbove U i j := by
  rw [remaining_replicate _ _ j.isLt, leftAbove, ← Nat.Iio_eq_range, ← Fin.map_valEmbedding_Iio,
    Finset.sum_map]
  refine congrArg (1 - ·) (Finset.sum_congr rfl fun k hk => ?_)
  have hkj : k ≤ j := ((Finset.mem_Iio.mp hk).trans hij).le
  exact congrArg (· ^ 2) (upperEntry_rowsOf U hkj)

/-- **An array is filled once, row by row.**  Let an upper factor of size `K` be given as a square
matrix of real numbers whose columns have something left above each entry behind the diagonal.

Each of the `K * (K - 1) / 2` cells of the array is written once, and the position ends behind the
last of them.  The array that is answered does not depend on what the cells held before: for
`i < j` it holds at the place of `(i, j)` the entry there, divided by the root of what its column
has left above it, on the scale of the inverse hyperbolic tangent.  These places are all the places
of the array, each for one pair. -/
theorem factorUpper_fills_once (hleft : ∀ i j, i < j → 0 < leftAbove U i j) :
    let rows := (rowsOf U).map (List.map real)
    let total := K * (K - 1) / 2
    fillUpper (fun written _ => written + 1) rows (List.replicate total 0) =
      some ⟨total, List.replicate total 1⟩ ∧
    ∃ zs : List Extended, zs.length = total ∧
      (∀ cells : List Extended, cells.length = total →
        fillUpper (fun _ z => z) rows cells = some ⟨total, zs⟩) ∧
      factorUpper (tableOf U) = .ok (zs.map Elementary.atanh) ∧
      (∀ i j : Fin K, i < j → (zs.map Elementary.atanh)[place K i j]? =
        some (Elementary.atanh (real (U i j / √(leftAbove U i j))))) ∧
      Set.BijOn (fun p : Nat × Nat => place K p.1 p.2) {p | p.1 < p.2 ∧ p.2 < K}
        (Set.Iio total) := by
  intro rows total
  have hrows : IsSquare K rows := (isSquare_rowsOf U).map real
  have hK : (upperTriangle rows).length = K := (length_upperTriangle rows).trans hrows.length
  have hlength : (partials (upperTriangle rows) (List.replicate K 0)).length = total :=
    length_partials hK (isTriangle_upperTriangle hrows) List.length_replicate
  refine ⟨?_, _, hlength, fun cells hcells => ?_, ?_, fun i j hij => ?_, bijOn_place K⟩
  · rw [fillUpper_eq hrows _ List.length_replicate, zipWith_count hlength]
  · rw [fillUpper_eq hrows _ hcells, zipWith_right (hlength.trans hcells.symm)]
  · have hslabs : (tableOf U).slabs = rows := slabs_tableOf U
    rw [factorUpper_eq ((shape_tableOf_iff U).mpr rfl) (hslabs ▸ hrows), hslabs, ofUpper, hK]
  · have hused : (List.replicate K (0 : ℝ)).length = K := List.length_replicate
    have hsquare := isSquare_rowsOf U
    have htriangle := isTriangle_upperTriangle hsquare
    have hsize : (upperTriangle (rowsOf U)).length = (List.replicate K (0 : ℝ)).length :=
      ((length_upperTriangle _).trans hsquare.length).trans hused.symm
    have hreal : partials (upperTriangle rows) (List.replicate K 0) =
        (partials (upperTriangle (rowsOf U)) (List.replicate K 0)).map real := by
      rw [upperTriangle_map, replicate_zero_real]
      refine partials_map_real hsize htriangle fun i j hij hj => ?_
      rw [hused] at hj
      have hpos := hleft ⟨i, hij.trans hj⟩ ⟨j, hj⟩ hij
      rwa [← remaining_rowsOf U hij] at hpos
    have hentry := getElem?_partials hsize htriangle hij (hused.symm ▸ j.isLt)
    rw [hused, upperEntry_rowsOf U hij.le, remaining_rowsOf U hij] at hentry
    rw [hreal, List.getElem?_map, List.getElem?_map, hentry]
    rfl

end

/-- Three variables: in the last column the first entry leaves sixteen of twenty-five parts, so that
the last cell holds five eighths. -/
theorem factorUpper_fills_once_three :
    let U : Matrix (Fin 3) (Fin 3) ℝ := !![1, 0, 3 / 5; 0, 1, 1 / 2; 0, 0, 1]
    (∀ i j, i < j → 0 < leftAbove U i j) ∧
    fillUpper (fun written _ => written + 1) ((rowsOf U).map (List.map real)) [0, 0, 0] =
      some ⟨3, [1, 1, 1]⟩ ∧
    ∃ zs : List Extended, zs.length = 3 ∧ factorUpper (tableOf U) = .ok (zs.map Elementary.atanh) ∧
      (zs.map Elementary.atanh)[2]? = some (Elementary.atanh (real (5 / 8))) := by
  intro U
  have hfirst : Finset.Iio (0 : Fin 3) = ∅ := by decide
  have hsecond : Finset.Iio (1 : Fin 3) = {0} := by decide
  have hupper : U 0 2 = 3 / 5 := rfl
  have hlower : U 1 2 = 1 / 2 := rfl
  have hlast : leftAbove U 1 2 = 16 / 25 := by
    rw [leftAbove, hsecond, Finset.sum_singleton, hupper]
    norm_num
  have hpairs : ∀ i j : Fin 3, i < j → i = 0 ∨ i = 1 ∧ j = 2 := by decide
  have hleft : ∀ i j, i < j → 0 < leftAbove U i j := by
    intro i j hij
    rcases hpairs i j hij with rfl | ⟨rfl, rfl⟩
    · rw [leftAbove, hfirst, Finset.sum_empty]
      norm_num
    · rw [hlast]
      norm_num
  obtain ⟨hcounts, zs, hlength, -, hanswer, hcell, -⟩ := factorUpper_fills_once U hleft
  refine ⟨hleft, hcounts, zs, hlength, hanswer, ?_⟩
  have hroot : √(16 / 25 : ℝ) = 4 / 5 := by
    rw [show (16 / 25 : ℝ) = (4 / 5) ^ 2 by norm_num]
    exact Real.sqrt_sq (by norm_num)
  have hquotient : U 1 2 / √(leftAbove U 1 2) = 5 / 8 := by
    rw [hlast, hroot, hlower]
    norm_num
  have hentry := hcell 1 2 (by decide)
  rwa [hquotient] at hentry

end EnsembleSampling.Unconstrain
