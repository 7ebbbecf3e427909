import EnsembleSampling.Ensemble.Scatter
import EnsembleSampling.Proofs.Chain.Flattened
import EnsembleSampling.Proofs.Position.Dimension
import Mathlib.Algebra.Order.Field.Basic
import Mathlib.Algebra.Order.Group.Abs
import Mathlib.Tactic.Linarith
import Mathlib.Tactic.Ring
set_option autoImplicit false

/-!
# Walkers around a point

A start is scattered from a source of uniforms that answers every request.  In exact arithmetic
uniform number `r` moves the coordinate `r % d` of the walker `r / d`, where `d` is the number of
coordinates, and no uniform is requested before it is certain that there are enough walkers and
that there is room for them (`scatterTable_in_order`).

What is scattered is a table that a sampler can start from, whatever the point, the spread and the
uniforms are.
-/

namespace EnsembleSampling

/-! ## Counting walkers -/

section

variable (dims : Nat) (walkers : Option Int)

/-- How many walkers there are to be, if their number may be left out. -/
def requestedWalkers : Int := walkers.getD (defaultWalkers dims)

theorem lessThan_integer (m n : Int) :
    Argument.lessThan (.integer m) (.integer n) = .ok (decide (m < n)) := by
  have hcompare : Argument.compare? (.integer m) (.integer n) = .ok (some (compare m n)) := by
    simp [Argument.compare?, Argument.compareNumbers?, Argument.integral?]
  rw [Argument.lessThan, hcompare, Except.map, beq_eq_decide]
  simp [compare_lt_iff_lt]

/-- Too few walkers are turned down, and a default is never too few. -/
theorem walkerCount_ofPlace :
    walkerCount dims (.ofPlace walkers) =
      if requestedWalkers dims walkers < minWalkers then
        .error (.rejected (.degenerate (.integer (requestedWalkers dims walkers))))
      else .ok (requestedWalkers dims walkers).toNat := by
  cases walkers with
  | none =>
    have henough : ¬ (defaultWalkers dims : Int) < minWalkers :=
      not_lt.mpr (Int.ofNat_le.mpr (minWalkers_le_defaultWalkers dims))
    exact (if_neg henough).symm
  | some n =>
    change walkerCount dims (.integer n) = _
    rw [walkerCount, lessThan_integer, requestedWalkers, Option.getD_some]
    · by_cases hfew : n < minWalkers
      · simp [hfew, bind, Except.bind, throw, throwThe, MonadExceptOf.throw]
      · simp [hfew, bind, Except.bind, Argument.index, Argument.integral?, pure, Except.pure]
    · intro h
      cases h

end

/-! ## One coordinate after the other -/

section

variable {σ α : Type} [Field α]

/-- A coordinate that a uniform has moved. -/
def displaced (spread p u : α) : α := p + spread * (u - 1 / ((2 : Nat) : α))

variable {ε : Type} {uniform : Draw σ ε α} {answer : σ → α} {next : σ → σ}
  (huniform : ∀ w, uniform.outcome w = (.ok (answer w), next w)) (spread : α)

include huniform

/-- **One coordinate.**  It takes one uniform. -/
theorem outcome_scatterCoordinate (p : α) (w : σ) :
    (scatterCoordinate uniform (pure spread) p).outcome w =
      (.ok (displaced spread p (answer w)), next w) := by
  rw [scatterCoordinate, Draw.outcome_bind_of_ok (huniform w), pure_bind]
  rfl

/-- **One walker.**  Uniform number `k` moves coordinate number `k`. -/
theorem outcome_scatterPoint (point : List α) (w : σ) :
    (scatterPoint uniform (pure spread) point).outcome w =
      (.ok (point.mapIdx fun k p => displaced spread p (answer (next^[k] w))),
        next^[point.length] w) := by
  induction point generalizing w with
  | nil => rfl
  | cons p point ih =>
    have hfirst := outcome_scatterCoordinate huniform spread p w
    rw [scatterPoint, Draw.outcome_bind_of_ok hfirst, Draw.outcome_bind_of_ok (ih (next w)),
      List.mapIdx_cons]
    rfl

/-- **All walkers.**  Each takes as many uniforms as there are coordinates, behind those of the
walkers before it. -/
theorem outcome_scatter (point : List α) (n : Nat) (w : σ) :
    (scatter uniform (pure spread) point n).outcome w =
      (.ok ((List.range n).map fun i => point.mapIdx fun k p =>
        displaced spread p (answer (next^[i * point.length + k] w))),
        next^[n * point.length] w) := by
  induction n generalizing w with
  | zero =>
    rw [Nat.zero_mul]
    rfl
  | succ n ih =>
    have hfirst := outcome_scatterPoint huniform spread point w
    have hrest := ih (next^[point.length] w)
    have hshift : ∀ m, next^[m] (next^[point.length] w) = next^[m + point.length] w := by
      intro m
      exact (Function.iterate_add_apply next m point.length w).symm
    have hplace : ∀ i k, i * point.length + k + point.length = (i + 1) * point.length + k := by
      intro i k
      ring
    rw [scatter] at hrest ⊢
    rw [Draw.times_succ, Draw.outcome_bind_of_ok hfirst, Draw.outcome_bind_of_ok hrest,
      Draw.outcome_pure, List.range_succ_eq_map, List.map_cons, List.map_map, Nat.succ_mul]
    simp only [hshift, hplace, Nat.zero_mul, Nat.zero_add, Function.comp_def]

end

/-! ## The table -/

section

variable {σ α : Type} [Field α] [LinearOrder α] [IsStrictOrderedRing α]

/-- A table of walkers around a point: its rows are `n` walkers, and uniform number `r` has moved
the coordinate `r % d` of the walker `r / d`. -/
structure IsScattered (point : List α) (spread : α) (uniforms : Nat → α) (n : Nat)
    (t : Tensor α) : Prop where
  shape : t.shape = [n, point.length]
  filled : t.Filled
  entry : ∀ r < n * point.length, ∃ p, point[r % point.length]? = some p ∧
    (t.slabs[r / point.length]?).bind (·[r % point.length]?) =
      some (displaced spread p (uniforms r))
  /-- No coordinate is further from the point than half the spread. -/
  near : ∀ (i k : Nat) (p x : α), (t.slabs[i]?).bind (·[k]?) = some x → point[k]? = some p →
    |x - p| ≤ |spread| / 2

theorem abs_displaced_sub_le {spread p u : α} (hu : 0 ≤ u ∧ u < 1) :
    |displaced spread p u - p| ≤ |spread| / 2 := by
  have hhalf : |u - 1 / 2| ≤ 1 / 2 := by
    rw [abs_le]
    constructor <;> linarith [hu.1, hu.2]
  have hmoved : displaced spread p u - p = spread * (u - 1 / 2) := by
    rw [displaced, Nat.cast_ofNat]
    ring
  calc |displaced spread p u - p| = |spread| * |u - 1 / 2| := by rw [hmoved, abs_mul]
    _ ≤ |spread| * (1 / 2) := mul_le_mul_of_nonneg_left hhalf (abs_nonneg spread)
    _ = |spread| / 2 := by ring

variable {point : List α} {spread : α} {uniforms : Nat → α} {n : Nat}

theorem isScattered_ofRows (hpoint : point ≠ []) (hrange : ∀ r, 0 ≤ uniforms r ∧ uniforms r < 1) :
    IsScattered point spread uniforms n (.ofRows point.length ((List.range n).map fun i =>
      point.mapIdx fun k p => displaced spread p (uniforms (i * point.length + k)))) := by
  have hd : 0 < point.length := List.length_pos_iff.mpr hpoint
  generalize hrows : (List.range n).map (fun i => point.mapIdx fun k p =>
    displaced spread p (uniforms (i * point.length + k))) = rows
  have hlength : rows.length = n := by rw [← hrows, List.length_map, List.length_range]
  have hwidth : ∀ row ∈ rows, row.length = Tensor.count [point.length] := by
    rw [← hrows, List.forall_mem_map]
    intro i _
    rw [List.length_mapIdx, Tensor.count_cons]
    exact (Nat.mul_one _).symm
  have hslabs : (Tensor.ofRows point.length rows).slabs = rows := Tensor.slabs_flatten hwidth
  have hcell : ∀ i k, ((Tensor.ofRows point.length rows).slabs[i]?).bind (·[k]?) =
      if i < n then point[k]?.map fun p => displaced spread p (uniforms (i * point.length + k))
      else none := by
    intro i k
    rw [hslabs, ← hrows, List.getElem?_map]
    split
    · rename_i hi
      rw [List.getElem?_range hi, Option.map_some, Option.bind_some, List.getElem?_mapIdx]
    · rename_i hi
      rw [List.getElem?_eq_none (by rw [List.length_range]; exact Nat.not_lt.mp hi)]
      rfl
  refine ⟨by rw [Tensor.ofRows, hlength], Tensor.filled_flatten hwidth, ?_, ?_⟩
  · intro r hr
    have hrow : r / point.length < n := Nat.div_lt_of_lt_mul (Nat.mul_comm n _ ▸ hr)
    have hp := List.getElem?_eq_getElem (Nat.mod_lt r hd)
    refine ⟨_, hp, ?_⟩
    rw [hcell, if_pos hrow, hp, Option.map_some, Nat.div_add_mod']
  · intro i k p x hx hp
    rw [hcell, hp] at hx
    split at hx
    · obtain rfl := Option.some.inj hx
      exact abs_displaced_sub_le (hrange _)
    · cases hx

omit [IsStrictOrderedRing α] in
/-- Enough walkers that are scattered are read as an ensemble, and nothing of them changes. -/
theorem IsScattered.exists_ofPositions {β : Type} [LogScale β] {t : Tensor α}
    (ht : IsScattered point spread uniforms n t) (hpoint : point ≠ []) (hn : minWalkers ≤ n) :
    ∃ e : Ensemble (Point α) β, Ensemble.ofPositions t = .ok e ∧ e.positionTable = t ∧
      e.size = n ∧ e.dims = point.length := by
  have hd : point.length ≠ 0 := fun h => hpoint (List.length_eq_zero_iff.mp h)
  have hread : (Ensemble.ofPositions t : Except Rejection (Ensemble (Point α) β)) =
      .ok (.start point.length (t.slabs.map Point.mk)) := by
    rw [Ensemble.ofPositions, positionsOf, ht.shape]
    simp only [hd, if_false, Nat.not_lt.mpr hn]
    rfl
  have hslabs : t.slabs.length = n := by
    rw [Tensor.slabs, ht.shape]
    exact Tensor.length_pieces _ _ _
  refine ⟨_, hread, ?_, ?_, rfl⟩
  · rw [Ensemble.positionTable, Ensemble.positions_start, List.map_map]
    exact (congrArg (Tensor.ofRows _) (List.map_id t.slabs)).trans
      (Tensor.ofRows_slabs ht.filled ht.shape)
  · rw [Ensemble.size_start, List.length_map, hslabs]

/-! ## Scattering -/

variable {uniform : Draw σ Fault α} {answer : σ → α} {next : σ → σ}

omit [LinearOrder α] [IsStrictOrderedRing α] in
/-- What is scattered, once it is known how many walkers there are to be. -/
theorem outcome_scatterTable (memory : Memory)
    (huniform : ∀ w, uniform.outcome w = (.ok (answer w), next w)) (point : List α) (spread : α)
    (walkers : Option Int) (w : σ) :
    (scatterTable memory uniform (pure spread) point (.ofPlace walkers)).outcome w =
      let n := requestedWalkers point.length walkers
      if n < minWalkers then (.error (.rejected (.degenerate (.integer n))), w)
      else match Layout.checkStored memory [n.toNat, point.length] with
        | .error f => (.error f, w)
        | .ok () => (.ok (.ofRows point.length ((List.range n.toNat).map fun i =>
            point.mapIdx fun k p => displaced spread p (answer (next^[i * point.length + k] w)))),
            next^[n.toNat * point.length] w) := by
  rw [scatterTable]
  simp only [walkerCount_ofPlace]
  generalize requestedWalkers point.length walkers = n
  split
  · rfl
  · rw [Draw.outcome_bind_of_ok (Draw.outcome_ofExcept _ w)]
    rcases hroom : Layout.checkStored memory [n.toNat, point.length] with f | ⟨⟩
    · exact Draw.outcome_bind_of_error (Draw.outcome_ofExcept _ w)
    · rw [Draw.outcome_bind_of_ok (Draw.outcome_ofExcept _ w),
        Draw.outcome_bind_of_ok (outcome_scatter huniform spread point n.toNat w)]
      rfl

/-- What has walkers and coordinates is laid out with the bytes that it is stored in. -/
theorem checkStored_rows {memory : Memory} {n d : Nat} (hn : 0 < n) (hd : 0 < d) :
    Layout.checkStored memory [n, d] =
      if addressable < 8 * (n * d) then .error .malformed
      else if memory.holds (8 * (n * d)) then .ok ()
      else .error .outOfMemory := by
  have hbytes : bytesPerDouble * Tensor.count [n, d] = 8 * (n * d) :=
    congrArg (fun m => 8 * (n * m)) (Nat.mul_one d)
  rw [Layout.checkStored_eq, Layout.span_eq_of_forall_ne_zero (by simp; omega), hbytes]

/-- **Walkers are scattered in order.**  Let a source answer every request for a uniform with a
number of `[0, 1)`, and let a point have `d > 0` coordinates.  The number of walkers is given as an
integer, or is `max (2 * d) 3` without one.

Fewer than three walkers are turned down.  So are `n` walkers if the bytes of `n * d` doubles cannot
be addressed, and if they can but the machine has no memory for them.  In none of these cases is a
uniform requested.  Else `n * d` of them are.  Uniform number `r` moves coordinate number `r % d` of
walker number `r / d`, no coordinate by more than half the spread.  The table is read as an ensemble
of `n` walkers in `d` dimensions, and written again it is the same. -/
theorem scatterTable_in_order (β : Type) [LogScale β] (memory : Memory)
    (huniform : ∀ w, uniform.outcome w = (.ok (answer w), next w))
    (hrange : ∀ w, 0 ≤ answer w ∧ answer w < 1) (hpoint : point ≠ []) (spread : α)
    (walkers : Option Int) (w : σ) :
    let d := point.length
    let n := walkers.getD (max (2 * d) 3)
    let bytes := 8 * (n.toNat * d)
    let result := (scatterTable memory uniform (pure spread) point (.ofPlace walkers)).outcome w
    if n < 3 then result = (.error (.rejected (.degenerate (.integer n))), w)
    else if addressable < bytes then result = (.error .malformed, w)
    else if memory.holds bytes then
      ∃ t, result = (.ok t, next^[n.toNat * d] w) ∧
        IsScattered point spread (fun r => answer (next^[r] w)) n.toNat t ∧
        ∃ e : Ensemble (Point α) β, Ensemble.ofPositions t = .ok e ∧ e.positionTable = t ∧
          e.size = n.toNat ∧ e.dims = d
    else result = (.error .outOfMemory, w) := by
  intro d n bytes result
  have hn : requestedWalkers d walkers = n := by
    rw [requestedWalkers, defaultWalkers, Nat.cast_max, Nat.cast_mul]
    rfl
  have hresult := outcome_scatterTable memory huniform point spread walkers w
  rw [hn] at hresult
  have hthree : ((minWalkers : Nat) : Int) = 3 := rfl
  simp only [hthree] at hresult
  split
  · rename_i hfew
    rwa [if_pos hfew] at hresult
  · rename_i henough
    rw [if_neg henough] at hresult
    have hroom : Layout.checkStored memory [n.toNat, d] =
        if addressable < bytes then .error .malformed
        else if memory.holds bytes then .ok () else .error .outOfMemory :=
      checkStored_rows (by omega) (List.length_pos_iff.mpr hpoint)
    split
    · rename_i hlarge
      rw [if_pos hlarge] at hroom
      rwa [hroom] at hresult
    · rename_i hlaid
      rw [if_neg hlaid] at hroom
      split
      · rename_i hholds
        rw [if_pos hholds] at hroom
        rw [hroom] at hresult
        have hscattered : IsScattered point spread (fun r => answer (next^[r] w)) n.toNat _ :=
          isScattered_ofRows hpoint fun r => hrange (next^[r] w)
        have hmin : minWalkers ≤ n.toNat := by
          rw [Int.le_toNat (by omega), hthree]
          omega
        exact ⟨_, hresult, hscattered, hscattered.exists_ofPositions hpoint hmin⟩
      · rename_i hrefused
        rw [if_neg hrefused] at hroom
        rwa [hroom] at hresult

end

/-- A source that counts its answers: the quarters below one, over and over. -/
def quarters : Draw Nat Fault ℚ := .ofOutcome fun w => (.ok ((w % 4 : Nat) / 4), w + 1)

theorem quarters_mem (w : Nat) : 0 ≤ ((w % 4 : Nat) / 4 : ℚ) ∧ ((w % 4 : Nat) / 4 : ℚ) < 1 := by
  have hlt : ((w % 4 : Nat) : ℚ) < 4 := by exact_mod_cast Nat.mod_lt w (by decide : 4 > 0)
  exact ⟨by positivity, (div_lt_one (by norm_num)).mpr hlt⟩

/-- In the plane there are four walkers without a number.  The fourth uniform is three quarters and
moves the second coordinate of the second walker.  Two walkers are too few, and 65 are too many for
a memory of 1024 bytes. -/
theorem scatterTable_in_order_plane :
    (∀ w, quarters.outcome w = (.ok ((w % 4 : Nat) / 4), w + 1)) ∧
    (∀ w : Nat, 0 ≤ ((w % 4 : Nat) / 4 : ℚ) ∧ ((w % 4 : Nat) / 4 : ℚ) < 1) ∧
    ([0, 10] : List ℚ) ≠ [] ∧
    (∃ t, (scatterTable (.upTo 1024) quarters (pure 2) [0, 10] .absent).outcome 0 = (.ok t, 8) ∧
      t.shape = [4, 2] ∧ (t.slabs[1]?).bind (·[1]?) = some (displaced 2 10 (3 / 4)) ∧
      ∃ e : Ensemble (Point ℚ) Float, Ensemble.ofPositions t = .ok e ∧ e.positionTable = t ∧
        e.size = 4 ∧ e.dims = 2) ∧
    (scatterTable (.upTo 1024) quarters (pure 2) [0, 10] (.integer 2)).outcome 0 =
      (.error (.rejected (.degenerate (.integer 2))), 0) ∧
    (scatterTable (.upTo 1024) quarters (pure 2) [0, 10] (.integer 65)).outcome 0 =
      (.error .outOfMemory, 0) := by
  have huniform : ∀ w, quarters.outcome w = (.ok ((w % 4 : Nat) / 4), w + 1) := by
    intro w
    rfl
  have hpoint : ([0, 10] : List ℚ) ≠ [] := List.cons_ne_nil _ _
  have hwith := scatterTable_in_order Float (.upTo 1024) huniform quarters_mem hpoint 2
  have hfour := hwith none 0
  refine ⟨huniform, quarters_mem, hpoint, ?_, hwith (some 2) 0, hwith (some 65) 0⟩
  obtain ⟨t, ht, hscattered, hread⟩ := hfour
  obtain ⟨p, hp, hcell⟩ := hscattered.entry 3 (by decide)
  obtain rfl : 10 = p := Option.some.inj hp
  exact ⟨t, ht, hscattered.shape, hcell, hread⟩

/-- There is no room for too many walkers on any machine, and then no uniform is requested. -/
theorem scatterTable_without_room :
    (∀ w, quarters.outcome w = (.ok ((w % 4 : Nat) / 4), w + 1)) ∧
    (∀ w : Nat, 0 ≤ ((w % 4 : Nat) / 4 : ℚ) ∧ ((w % 4 : Nat) / 4 : ℚ) < 1) ∧
    ¬ (1152921504606846976 : Int) < 3 ∧
    ∀ memory, (scatterTable memory quarters (pure 1) [0] (.integer 1152921504606846976)).outcome 0 =
      (.error .malformed, 0) := by
  have huniform : ∀ w, quarters.outcome w = (.ok ((w % 4 : Nat) / 4), w + 1) := by
    intro w
    rfl
  refine ⟨huniform, quarters_mem, by omega, fun memory => ?_⟩
  have hroom : Layout.checkStored memory [1152921504606846976, 1] = .error .malformed := by
    rw [Layout.checkStored_eq, if_pos (by decide +kernel)]
  refine (outcome_scatterTable memory huniform [0] 1 (some 1152921504606846976) 0).trans ?_
  have hcount : (requestedWalkers 1 (some 1152921504606846976)).toNat = 1152921504606846976 := rfl
  have henough : ¬ requestedWalkers 1 (some 1152921504606846976) < minWalkers := by decide
  simp only [List.length_singleton, if_neg henough, hcount, hroom]

end EnsembleSampling
