import EnsembleSampling.Proofs.Table
import EnsembleSampling.Unconstrain.Factor
import Mathlib.Data.Nat.Choose.Basic
import Mathlib.Tactic.Common
set_option autoImplicit false

/-!
# Shapes of matrices that are factored

A triangle is a list of rows that begin on the diagonal, so that each row is as long as the
rows from it on are many.  The part of a square on and above the diagonal is a triangle;
elimination and factoring keep triangles, whatever the arithmetic.  Hence a square of size
`K` that has factors has `K (K - 1) / 2` partial correlations and `K` scales
(`length_ofCovariance`).
-/

namespace EnsembleSampling.Factor

variable {α : Type}

/-! ## Squares -/

/-- A square matrix of a given size, by its rows. -/
structure IsSquare (K : Nat) (rows : List (List α)) : Prop where
  length : rows.length = K
  row : ∀ row ∈ rows, row.length = K

theorem IsSquare.map {β : Type} (f : α → β) {K : Nat} {rows : List (List α)} (h : IsSquare K rows) :
    IsSquare K (rows.map (List.map f)) := by
  refine ⟨(List.length_map _).trans h.length, List.forall_mem_map.mpr fun row hrow => ?_⟩
  exact (List.length_map _).trans (h.row row hrow)

/-- The rows of a filled square table. -/
theorem isSquare_slabs {t : Tensor α} (ht : t.Filled) {n : Nat} (hshape : t.shape = [n, n]) :
    IsSquare n t.slabs := by
  have hentries : t.entries.length = n * (n * 1) := by
    rw [ht, hshape]
    rfl
  have hslabs : t.slabs = Tensor.pieces (n * 1) n t.entries := by
    unfold Tensor.slabs
    rw [hshape]
    rfl
  rw [hslabs]
  refine ⟨Tensor.length_pieces _ _ _, fun row hrow => ?_⟩
  have hlength := Tensor.length_of_mem_pieces hentries row hrow
  rwa [Nat.mul_one] at hlength

/-- A square is a corner, the row beside it, the column below it, and a smaller square. -/
theorem IsSquare.succ {K : Nat} {rows : List (List α)} (h : IsSquare (K + 1) rows) :
    ∃ x xs below, rows = (x :: xs) :: below ∧ xs.length = K ∧
      IsSquare K (below.map List.tail) := by
  obtain ⟨hlength, hrow⟩ := h
  match rows, hlength, hrow with
  | [] :: _, _, hrow => exact absurd (hrow [] (by simp)) (by simp)
  | (x :: xs) :: below, hlength, hrow =>
    rw [List.forall_mem_cons] at hrow
    refine ⟨x, xs, below, rfl, Nat.succ.inj hrow.1, ?_, ?_⟩
    · rw [List.length_map]
      exact Nat.succ.inj hlength
    · refine List.forall_mem_map.mpr fun row hmem => ?_
      rw [List.length_tail, hrow.2 row hmem]
      rfl

theorem diagonal_cons (x : α) (xs : List α) (below : List (List α)) :
    diagonal ((x :: xs) :: below) = x :: diagonal (below.map List.tail) := by
  have hshift : ∀ k, (below.zipIdx (k + 1)).filterMap (fun p => p.1[p.2]?) =
      ((below.map List.tail).zipIdx k).filterMap (fun p => p.1[p.2]?) := by
    induction below with
    | nil => exact fun _ => rfl
    | cons row below ih =>
      intro k
      rw [List.map_cons, List.zipIdx_cons, List.zipIdx_cons, List.filterMap_cons,
        List.filterMap_cons, ih]
      simp only [List.getElem?_tail]
  exact congrArg (x :: ·) (hshift 0)

theorem upperTriangle_cons (row : List α) (below : List (List α)) :
    upperTriangle (row :: below) = row :: upperTriangle (below.map List.tail) := by
  have hshift : ∀ k, (below.zipIdx (k + 1)).map (fun p => p.1.drop p.2) =
      ((below.map List.tail).zipIdx k).map (fun p => p.1.drop p.2) := by
    induction below with
    | nil => exact fun _ => rfl
    | cons row below ih =>
      intro k
      rw [List.map_cons, List.zipIdx_cons, List.zipIdx_cons, List.map_cons, List.map_cons, ih]
      simp only [List.drop_tail]
  exact congrArg (row :: ·) (hshift 0)

theorem length_diagonal {K : Nat} {rows : List (List α)} (h : IsSquare K rows) :
    (diagonal rows).length = K := by
  induction K generalizing rows with
  | zero =>
    obtain rfl := List.length_eq_zero_iff.mp h.length
    rfl
  | succ K ih =>
    obtain ⟨x, xs, below, rfl, _, hbelow⟩ := h.succ
    rw [diagonal_cons, List.length_cons, ih hbelow]

section

variable [One α] [Mul α] [Div α]

theorem isSquare_standardize {K : Nat} {rows : List (List α)} {scales : List α}
    (h : IsSquare K rows) (hscales : scales.length = K) :
    IsSquare K (standardize rows scales) := by
  refine ⟨?_, ?_⟩
  · simp [standardize, h.length, hscales]
  · intro row hrow
    unfold standardize at hrow
    obtain ⟨⟨⟨r, s⟩, i⟩, hmem, rfl⟩ := List.mem_map.mp hrow
    have hzip : (r, s) ∈ rows.zip scales := List.fst_mem_of_mem_zipIdx hmem
    simp [h.row r (List.of_mem_zip hzip).1, hscales]

end

/-! ## Triangles -/

/-- Each row is as long as the rows from it on are many. -/
def IsTriangle : List (List α) → Prop
  | [] => True
  | row :: rows => row.length = rows.length + 1 ∧ IsTriangle rows

theorem length_upperTriangle (rows : List (List α)) :
    (upperTriangle rows).length = rows.length := by
  simp [upperTriangle]

theorem isTriangle_upperTriangle {K : Nat} {rows : List (List α)} (h : IsSquare K rows) :
    IsTriangle (upperTriangle rows) := by
  induction K generalizing rows with
  | zero =>
    obtain rfl := List.length_eq_zero_iff.mp h.length
    exact trivial
  | succ K ih =>
    obtain ⟨x, xs, below, rfl, hxs, hbelow⟩ := h.succ
    rw [upperTriangle_cons]
    refine ⟨?_, ih hbelow⟩
    rw [length_upperTriangle, hbelow.length, List.length_cons, hxs]

/-- A triangle with a row in front begins with the corner. -/
theorem IsTriangle.cons {row : List α} {rows : List (List α)} (h : IsTriangle (row :: rows)) :
    ∃ x xs, row = x :: xs ∧ xs.length = rows.length ∧ IsTriangle rows := by
  obtain ⟨hlength, hrows⟩ := h
  cases row with
  | nil => simp at hlength
  | cons x xs => exact ⟨x, xs, rfl, Nat.succ.inj hlength, hrows⟩

theorem length_eliminate [Sub α] [Mul α] {u : List α} {rows : List (List α)}
    (hu : u.length = rows.length) : (eliminate u rows).length = rows.length := by
  induction u generalizing rows with
  | nil =>
    obtain rfl := List.length_eq_zero_iff.mp hu.symm
    rfl
  | cons c cs ih =>
    cases rows with
    | nil => simp at hu
    | cons row rows => exact congrArg (· + 1) (ih (Nat.succ.inj hu))

theorem isTriangle_eliminate [Sub α] [Mul α] {u : List α} {rows : List (List α)}
    (hu : u.length = rows.length) (hrows : IsTriangle rows) : IsTriangle (eliminate u rows) := by
  induction u generalizing rows with
  | nil => exact trivial
  | cons c cs ih =>
    cases rows with
    | nil => exact trivial
    | cons row rows =>
      have hcs : cs.length = rows.length := Nat.succ.inj hu
      refine ⟨?_, ih hcs hrows.2⟩
      rw [List.length_zipWith, length_eliminate hcs, hrows.1, List.length_cons, hcs, Nat.min_self]

section

variable [Zero α] [Sub α] [Mul α] [Div α] [LE α] [DecidableLE α] [Elementary α]

/-- A triangle with a corner in front has a factor if the corner is positive and what is
left of the rows below has one. -/
theorem cholesky_cons_eq_some {pivot : α} {right : List α} {below factor : List (List α)}
    (h : cholesky ((pivot :: right) :: below) = some factor) :
    ¬ pivot ≤ 0 ∧ ∃ rest,
      cholesky (eliminate (right.map (· / Elementary.sqrt pivot)) below) = some rest ∧
      factor = (Elementary.sqrt pivot :: right.map (· / Elementary.sqrt pivot)) :: rest := by
  rw [cholesky_cons] at h
  split at h
  · cases h
  · rename_i hpivot
    obtain ⟨rest, hrest, hfactor⟩ := Option.map_eq_some_iff.mp h
    exact ⟨hpivot, rest, hrest, hfactor.symm⟩

/-- The factor of a triangle is a triangle of the same size. -/
theorem isTriangle_of_cholesky {K : Nat} {rows factor : List (List α)} (hK : rows.length = K)
    (hrows : IsTriangle rows) (h : cholesky rows = some factor) :
    factor.length = K ∧ IsTriangle factor := by
  induction K generalizing rows factor with
  | zero =>
    obtain rfl := List.length_eq_zero_iff.mp hK
    rw [cholesky_nil] at h
    obtain rfl := Option.some.inj h
    exact ⟨rfl, trivial⟩
  | succ K ih =>
    obtain ⟨row, below, rfl⟩ := List.exists_cons_of_length_eq_add_one hK
    obtain ⟨pivot, right, rfl, hright, hbelow⟩ := hrows.cons
    obtain ⟨_, rest, hrest, rfl⟩ := cholesky_cons_eq_some h
    have hu : (right.map (· / Elementary.sqrt pivot)).length = below.length := by
      rw [List.length_map, hright]
    have hlength := (length_eliminate hu).trans (Nat.succ.inj hK)
    obtain ⟨hrestlength, hrest⟩ := ih hlength (isTriangle_eliminate hu hbelow) hrest
    refine ⟨by rw [List.length_cons, hrestlength], ?_, hrest⟩
    rw [List.length_cons, hu, hrestlength]
    exact congrArg (· + 1) (Nat.succ.inj hK)

end

section

variable [Zero α] [One α] [Add α] [Sub α] [Mul α] [Div α] [Elementary α]

omit [Zero α] in
/-- There is a partial correlation for each entry above the diagonal. -/
theorem length_partials {K : Nat} {triangle : List (List α)} {used : List α}
    (hK : triangle.length = K) (htriangle : IsTriangle triangle) (hused : used.length = K) :
    (partials triangle used).length = K * (K - 1) / 2 := by
  induction K generalizing triangle used with
  | zero =>
    obtain rfl := List.length_eq_zero_iff.mp hK
    rfl
  | succ K ih =>
    obtain ⟨row, rows, rfl⟩ := List.exists_cons_of_length_eq_add_one hK
    obtain ⟨s, rest, rfl⟩ := List.exists_cons_of_length_eq_add_one hused
    obtain ⟨x, xs, rfl, hxs, hrows⟩ := htriangle.cons
    have hlength : rows.length = K := Nat.succ.inj hK
    have hxsK : xs.length = K := hxs.trans hlength
    have hrestK : rest.length = K := Nat.succ.inj hused
    rw [partials_cons, List.length_append, ih hlength hrows]
    · rw [List.drop_one, List.drop_one, List.tail_cons, List.tail_cons, List.length_zipWith, hxsK,
        hrestK, Nat.min_self, Nat.triangle_succ, Nat.add_comm]
    · rw [List.drop_one, List.drop_one, List.tail_cons, List.tail_cons, List.length_zipWith, hxsK,
        hrestK, Nat.min_self]

theorem length_ofUpper {K : Nat} {triangle : List (List α)} (hK : triangle.length = K)
    (htriangle : IsTriangle triangle) : (ofUpper triangle).length = K * (K - 1) / 2 := by
  unfold ofUpper
  rw [List.length_map]
  exact length_partials hK htriangle (by rw [List.length_replicate, hK])

end

/-! ## Factors -/

section

variable [Zero α] [One α] [Add α] [Sub α] [Mul α] [Div α] [LE α] [DecidableLE α]
  [LT α] [DecidableLT α] [Elementary α]

/-- A matrix with factors has positive variances, finite correlations, and a factor of these;
its own factors are read off that. -/
theorem ofCovariance_eq_ok {rows : List (List α)} {f : Factors α} (h : ofCovariance rows = .ok f) :
    (∀ v ∈ diagonal rows, 0 < v) ∧
    (∀ row ∈ standardize rows ((diagonal rows).map Elementary.sqrt),
      ∀ x ∈ row, Elementary.isFinite x = true) ∧
    ∃ triangle,
      cholesky (upperTriangle (standardize rows ((diagonal rows).map Elementary.sqrt))) =
        some triangle ∧
      f = ⟨ofUpper triangle, ((diagonal rows).map Elementary.sqrt).map Elementary.log⟩ := by
  unfold ofCovariance at h
  dsimp only at h
  split at h
  · rename_i hvariances
    split at h
    · rename_i hfinite
      split at h
      · cases h
      · rename_i triangle htriangle
        simp only [List.all_eq_true, decide_eq_true_eq] at hvariances hfinite
        exact ⟨hvariances, hfinite, triangle, htriangle, (Except.ok.inj h).symm⟩
    · cases h
  · cases h

/-- A square of size `K` has as many partial correlations as there are entries above its
diagonal, and `K` scales. -/
theorem length_ofCovariance {K : Nat} {rows : List (List α)} (hrows : IsSquare K rows)
    {f : Factors α} (h : ofCovariance rows = .ok f) :
    f.partials.length = K * (K - 1) / 2 ∧ f.logScales.length = K := by
  obtain ⟨_, _, triangle, htriangle, rfl⟩ := ofCovariance_eq_ok h
  have hsquare : IsSquare K (standardize rows ((diagonal rows).map Elementary.sqrt)) :=
    isSquare_standardize hrows (by rw [List.length_map, length_diagonal hrows])
  have hlength := (length_upperTriangle _).trans hsquare.length
  obtain ⟨hK, hshape⟩ :=
    isTriangle_of_cholesky hlength (isTriangle_upperTriangle hsquare) htriangle
  refine ⟨length_ofUpper hK hshape, ?_⟩
  rw [List.length_map, List.length_map, length_diagonal hrows]

end

end EnsembleSampling.Factor
