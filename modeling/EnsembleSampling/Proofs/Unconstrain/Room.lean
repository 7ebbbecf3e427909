import EnsembleSampling.Proofs.Scale.Arithmetic
import EnsembleSampling.Proofs.Unconstrain.Rebuilding
set_option autoImplicit false

/-!
# The factor of a correlation matrix

Over the real numbers, the product of the factor of a triangle with itself is the triangle
(`gram_of_cholesky`), and in the factor of a matrix with ones on its diagonal every column
always has room left (`HasRoom`): the squares of the entries above any place of a column sum to
less than one.  Hence its partial correlations are between minus one and one.
-/

namespace EnsembleSampling.Factor

variable {α : Type}

/-! ## Lists side by side -/

section

variable {β γ δ : Type}

/-- What is done to a list with another is undone with the same list. -/
theorem zipWith_cancel {f g : α → β → α} {xs : List α} {vs : List β}
    (hlength : xs.length = vs.length) (h : ∀ x, ∀ v ∈ vs, g (f x v) v = x) :
    List.zipWith g (List.zipWith f xs vs) vs = xs := by
  induction xs generalizing vs with
  | nil => rfl
  | cons x xs ih =>
    cases vs with
    | nil => simp at hlength
    | cons v vs =>
      have hrest := ih (Nat.succ.inj hlength) fun x w hw => h x w (List.mem_cons_of_mem v hw)
      rw [List.zipWith_cons_cons, List.zipWith_cons_cons, h x v List.mem_cons_self, hrest]

/-- A property of all entries of one list follows from one of the entries that are made of it
and another list. -/
theorem forall_mem_of_zipWith {f : α → β → γ} {P : γ → Prop} {Q : α → Prop} {xs : List α}
    {vs : List β} (hlength : xs.length = vs.length) (hPQ : ∀ x v, P (f x v) → Q x)
    (h : ∀ y ∈ List.zipWith f xs vs, P y) : ∀ x ∈ xs, Q x := by
  induction xs generalizing vs with
  | nil => simp
  | cons x xs ih =>
    cases vs with
    | nil => simp at hlength
    | cons v vs =>
      rw [List.zipWith_cons_cons, List.forall_mem_cons] at h
      exact List.forall_mem_cons.mpr ⟨hPQ x v h.1, ih (Nat.succ.inj hlength) h.2⟩

/-- A property of what is made of two lists in one way follows from one of what is made of them
in another. -/
theorem forall_mem_zipWith_of_zipWith {f : α → β → γ} {g : β → α → δ} {P : γ → Prop}
    {Q : δ → Prop} {xs : List α} {vs : List β} (hPQ : ∀ x v, P (f x v) → Q (g v x))
    (h : ∀ y ∈ List.zipWith f xs vs, P y) : ∀ z ∈ List.zipWith g vs xs, Q z := by
  induction xs generalizing vs with
  | nil => simp
  | cons x xs ih =>
    cases vs with
    | nil => simp
    | cons v vs =>
      rw [List.zipWith_cons_cons, List.forall_mem_cons] at h ⊢
      exact ⟨hPQ x v h.1, ih h.2⟩

end

/-! ## The product of a factor -/

theorem restore_eliminate {u : List ℝ} {rows : List (List ℝ)} (hu : u.length = rows.length)
    (hrows : IsTriangle rows) : restore u (eliminate u rows) = rows := by
  induction u generalizing rows with
  | nil =>
    obtain rfl := List.length_eq_zero_iff.mp hu.symm
    rfl
  | cons c cs ih =>
    cases rows with
    | nil => simp at hu
    | cons row rows =>
      have hcs : cs.length = rows.length := Nat.succ.inj hu
      have hrow : row.length = (c :: cs).length := by rw [hrows.1, List.length_cons, hcs]
      have hcancel : List.zipWith (fun x v => x + c * v)
          (List.zipWith (fun x v => x - c * v) row (c :: cs)) (c :: cs) = row :=
        zipWith_cancel hrow fun x v _ => sub_add_cancel x (c * v)
      rw [eliminate, restore, hcancel, ih hcs hrows.2]

/-- The product of the factor of a triangle is the triangle. -/
theorem gram_of_cholesky {K : Nat} {rows factor : List (List ℝ)} (hK : rows.length = K)
    (hrows : IsTriangle rows) (h : cholesky rows = some factor) : gram factor = rows := by
  induction K generalizing rows factor with
  | zero =>
    obtain rfl := List.length_eq_zero_iff.mp hK
    rw [cholesky_nil] at h
    obtain rfl := Option.some.inj h
    rfl
  | succ K ih =>
    obtain ⟨row, below, rfl⟩ := List.exists_cons_of_length_eq_add_one hK
    obtain ⟨pivot, right, rfl, hright, hbelow⟩ := hrows.cons
    obtain ⟨hpivot, rest, hrest, rfl⟩ := cholesky_cons_eq_some h
    have hu : (right.map (· / Elementary.sqrt pivot)).length = below.length := by
      rw [List.length_map, hright]
    have hlength := (length_eliminate hu).trans (Nat.succ.inj hK)
    have hroot : 0 < Elementary.sqrt pivot := Real.sqrt_pos.mpr (not_le.mp hpivot)
    have hsquare : Elementary.sqrt pivot * Elementary.sqrt pivot = pivot :=
      Real.mul_self_sqrt (not_le.mp hpivot).le
    have hentries : (right.map (· / Elementary.sqrt pivot)).map (Elementary.sqrt pivot * ·) =
        right := by
      rw [List.map_map]
      refine List.map_id'' ?_ right
      exact fun x => mul_div_cancel₀ x hroot.ne'
    rw [gram, ih hlength (isTriangle_eliminate hu hbelow) hrest, restore_eliminate hu hbelow,
      List.map_cons, hsquare, hentries]

/-! ## Room in the columns -/

/-- The entries of a triangle on the diagonal. -/
def corners (rows : List (List α)) : List α := rows.filterMap List.head?

theorem corners_cons (x : α) (xs : List α) (rows : List (List α)) :
    corners ((x :: xs) :: rows) = x :: corners rows := rfl

theorem length_corners {rows : List (List α)} (hrows : IsTriangle rows) :
    (corners rows).length = rows.length := by
  induction rows with
  | nil => rfl
  | cons row rows ih =>
    obtain ⟨x, xs, rfl, -, hrows⟩ := hrows.cons
    rw [corners_cons, List.length_cons, List.length_cons, ih hrows]

/-- Elimination takes the square of an entry of the pivot row from the corner below it. -/
theorem corners_eliminate [Sub α] [Mul α] {u : List α} {rows : List (List α)}
    (hu : u.length = rows.length) (hrows : IsTriangle rows) :
    corners (eliminate u rows) = List.zipWith (fun x c => x - c * c) (corners rows) u := by
  induction u generalizing rows with
  | nil =>
    obtain rfl := List.length_eq_zero_iff.mp hu.symm
    rfl
  | cons c cs ih =>
    cases rows with
    | nil => simp at hu
    | cons row rows =>
      obtain ⟨x, xs, rfl, -, hrows⟩ := hrows.cons
      rw [eliminate, List.zipWith_cons_cons, corners_cons, corners_cons, List.zipWith_cons_cons,
        ih (Nat.succ.inj hu) hrows]

/-- The columns of a factor of a matrix with ones on the diagonal, of which the sums of squares
`used` are above, have room for the rest: each row begins with the root of what its column has
left, and no column is ever used up. -/
inductive HasRoom : List ℝ → List (List ℝ) → Prop
  | nil : HasRoom [] []
  | cons {s : ℝ} {used u : List ℝ} {rest : List (List ℝ)} (room : s < 1)
      (length : u.length = used.length)
      (below : HasRoom (List.zipWith (fun s u => s + u * u) used u) rest) :
      HasRoom (s :: used) ((Real.sqrt (1 - s) :: u) :: rest)

/-- Of a triangle whose corners are what the columns have left, the factor has room. -/
theorem hasRoom_of_cholesky {K : Nat} {rows factor : List (List ℝ)} {used : List ℝ}
    (hK : rows.length = K) (hrows : IsTriangle rows)
    (hcorners : corners rows = used.map (1 - ·)) (h : cholesky rows = some factor) :
    HasRoom used factor := by
  -- elimination turns what the columns have left into what they have left below the first row
  induction K generalizing rows factor used with
  | zero =>
    obtain rfl := List.length_eq_zero_iff.mp hK
    rw [cholesky_nil] at h
    obtain rfl := Option.some.inj h
    obtain rfl : used = [] := List.map_eq_nil_iff.mp hcorners.symm
    exact .nil
  | succ K ih =>
    obtain ⟨row, below, rfl⟩ := List.exists_cons_of_length_eq_add_one hK
    obtain ⟨pivot, right, rfl, hright, hbelow⟩ := hrows.cons
    obtain ⟨hpivot, rest, hrest, rfl⟩ := cholesky_cons_eq_some h
    cases used with
    | nil => simp [corners_cons] at hcorners
    | cons s used =>
      rw [corners_cons, List.map_cons, List.cons.injEq] at hcorners
      obtain ⟨rfl, hcorners⟩ := hcorners
      have hu : (right.map (· / Elementary.sqrt (1 - s))).length = below.length := by
        rw [List.length_map, hright]
      have hused : used.length = below.length := by
        rw [← length_corners hbelow, hcorners, List.length_map]
      have hlength := (length_eliminate hu).trans (Nat.succ.inj hK)
      refine .cons (by linarith [not_le.mp hpivot]) (hu.trans hused.symm) ?_
      refine ih hlength (isTriangle_eliminate hu hbelow) ?_ hrest
      rw [corners_eliminate hu hbelow, hcorners, List.zipWith_map_left, List.map_zipWith]
      congr 1
      funext s c
      ring

namespace HasRoom

variable {used : List ℝ} {factor : List (List ℝ)}

/-- No column is used up. -/
theorem lt_one (h : HasRoom used factor) : ∀ s ∈ used, s < 1 := by
  induction h with
  | nil => simp
  | cons room length _ ih =>
    refine List.forall_mem_cons.mpr ⟨room, ?_⟩
    refine forall_mem_of_zipWith length.symm (fun s u hs => ?_) ih
    nlinarith [mul_self_nonneg u]

/-- The partial correlations of a factor are between minus one and one. -/
theorem abs_partials_lt_one (h : HasRoom used factor) :
    ∀ z ∈ partials factor used, |z| < 1 := by
  induction h with
  | nil => simp [partials]
  | cons room length below ih =>
    rw [partials_cons, List.forall_mem_append]
    refine ⟨?_, ih⟩
    refine forall_mem_zipWith_of_zipWith (fun s u hs => ?_) below.lt_one
    -- the square of an entry is less than what its column has left
    have hleft : 0 < Real.sqrt (1 - s) := Real.sqrt_pos.mpr (by nlinarith [mul_self_nonneg u])
    change |u / Real.sqrt (1 - s)| < 1
    rw [abs_div, abs_of_pos hleft, div_lt_one hleft]
    refine Real.lt_sqrt_of_sq_lt ?_
    rw [sq_abs, pow_two]
    linarith

end HasRoom

theorem corners_upperTriangle {K : Nat} {rows : List (List α)} (h : IsSquare K rows) :
    corners (upperTriangle rows) = diagonal rows := by
  induction K generalizing rows with
  | zero =>
    obtain rfl := List.length_eq_zero_iff.mp h.length
    rfl
  | succ K ih =>
    obtain ⟨x, xs, below, rfl, hxs, hbelow⟩ := h.succ
    rw [upperTriangle_cons, diagonal_cons, corners_cons, ih hbelow]

/-- The factor of a matrix with ones on its diagonal has room, at first for all there is. -/
theorem hasRoom_of_ones {K : Nat} {rows factor : List (List ℝ)} (hrows : IsSquare K rows)
    (hones : ∀ d ∈ diagonal rows, d = 1) (h : cholesky (upperTriangle rows) = some factor) :
    HasRoom (List.replicate K 0) factor := by
  have hdiagonal : diagonal rows = List.replicate K 1 :=
    List.eq_replicate_iff.mpr ⟨length_diagonal hrows, hones⟩
  refine hasRoom_of_cholesky ((length_upperTriangle rows).trans hrows.length)
    (isTriangle_upperTriangle hrows) ?_ h
  rw [corners_upperTriangle hrows, hdiagonal, List.map_replicate, sub_zero]

end EnsembleSampling.Factor
