import EnsembleSampling.Chain.Reconstruction
import EnsembleSampling.Proofs.Chain.Flattened
import EnsembleSampling.Proofs.Scale.Double
set_option autoImplicit false

/-!
# Reconstructed acceptance

A chain that is made from recorded positions has marks in the place of acceptance probabilities:
one where a walker is no longer where it was, else zero.  From the start, the marks and the
positions at marked steps all positions can be told again (`Chain.reconstructed_by_marks`): between
two marks a walker is at rest (`beq_of_unmoved`), and at a mark it has moved.
-/

namespace EnsembleSampling

/-! ## Marks -/

section

variable {α : Type} [BEq α]

/-- Positions with as many coordinates are equal unless one has moved. -/
theorem hasMoved_eq_false_iff {x y : List α} (hlength : x.length = y.length) :
    hasMoved x y = false ↔ (x == y) = true := by
  induction x generalizing y with
  | nil =>
    obtain rfl := List.length_eq_zero_iff.mp hlength.symm
    simp [hasMoved]
  | cons a x ih =>
    obtain ⟨b, y, rfl⟩ := List.exists_cons_of_length_eq_add_one hlength.symm
    have hrest := ih (Nat.succ.inj hlength)
    rw [hasMoved] at hrest
    rw [hasMoved, List.zip_cons_cons, List.any_cons, Bool.or_eq_false_iff, hrest, List.cons_beq_cons,
      Bool.and_eq_true]
    exact and_congr_left' (by simp [bne])

theorem hasMoved_eq_true_iff {x y : List α} :
    hasMoved x y = true ↔ ∃ (k : Nat) (a b : α), x[k]? = some a ∧ y[k]? = some b ∧ (a == b) = false := by
  rw [hasMoved, List.any_eq_true]
  constructor
  · rintro ⟨⟨a, b⟩, hab, hne⟩
    obtain ⟨k, hk⟩ := List.getElem?_of_mem hab
    obtain ⟨ha, hb⟩ := List.getElem?_zip_eq_some.mp hk
    exact ⟨k, a, b, ha, hb, (Bool.not_eq_true' _).mp hne⟩
  · rintro ⟨k, a, b, ha, hb, hne⟩
    have hab : (x.zip y)[k]? = some (a, b) := List.getElem?_zip_eq_some.mpr ⟨ha, hb⟩
    exact ⟨(a, b), List.mem_of_getElem? hab, (Bool.not_eq_true' _).mpr hne⟩

/-- Equality of lists can be turned round and chained if that of their members can. -/
instance listPartialEquivBEq [PartialEquivBEq α] : PartialEquivBEq (List α) where
  symm {x y} h := by
    induction x generalizing y with
    | nil => cases y <;> simp_all
    | cons a x ih =>
      cases y with
      | nil => simp at h
      | cons b y =>
        rw [List.cons_beq_cons, Bool.and_eq_true] at h ⊢
        exact ⟨BEq.symm h.1, ih h.2⟩
  trans {x y z} h h' := by
    induction x generalizing y z with
    | nil => cases y <;> simp_all
    | cons a x ih =>
      cases y with
      | nil => simp at h
      | cons b y =>
        cases z with
        | nil => simp at h'
        | cons c z =>
          rw [List.cons_beq_cons, Bool.and_eq_true] at h h' ⊢
          exact ⟨BEq.trans h.1 h'.1, ih h.2 h'.2⟩

theorem beq_self_of_forall {x : List α} (h : ∀ a ∈ x, (a == a) = true) : (x == x) = true := by
  induction x with
  | nil => rfl
  | cons a x ih =>
    obtain ⟨ha, hx⟩ := List.forall_mem_cons.mp h
    rw [List.cons_beq_cons, ha, ih hx]
    rfl

/-- What is the same from each step to the next is the same after all of them. -/
theorem beq_of_unmoved {γ : Type} [BEq γ] [PartialEquivBEq γ] {q : Nat → γ} {m n : Nat}
    (hmn : m < n) (h : ∀ s, m ≤ s → s < n → (q s == q (s + 1)) = true) : (q m == q n) = true := by
  induction n, hmn using Nat.le_induction with
  | base => exact h m le_rfl (Nat.lt_succ_self m)
  | succ n hmn ih =>
    have hrest := ih fun s hs hsn => h s hs (hsn.trans (Nat.lt_succ_self n))
    exact BEq.trans hrest (h n (Nat.le_of_succ_le hmn) (Nat.lt_succ_self n))

variable [Zero α] [One α]

/-- The marks of a step compare it with the one before it, or with the start. -/
theorem getElem?_acceptanceMarks (before : List (List α)) (steps : List (List (List α)))
    (t : Nat) : (acceptanceMarks before steps)[t]? =
      ((before :: steps)[t]?).bind fun xs => (steps[t]?).map (List.zipWith acceptanceMark xs) := by
  induction steps generalizing before t with
  | nil => cases t <;> rfl
  | cons after rest ih =>
    cases t with
    | zero => rfl
    | succ t => exact ih after t

theorem length_of_mem_acceptanceMarks {n : Nat} {before : List (List α)}
    {steps : List (List (List α))} (hbefore : before.length = n)
    (hsteps : ∀ step ∈ steps, step.length = n) :
    ∀ row ∈ acceptanceMarks before steps, row.length = n := by
  induction steps generalizing before with
  | nil => exact fun _ h => absurd h List.not_mem_nil
  | cons after rest ih =>
    obtain ⟨hafter, hrest⟩ := List.forall_mem_cons.mp hsteps
    refine List.forall_mem_cons.mpr ⟨?_, ih hafter hrest⟩
    rw [List.length_zipWith, hbefore, hafter, Nat.min_self]

end

/-! ## Chains from tables -/

section

variable {β γ δ ε : Type} {f : β → γ → δ} {g : δ → ε} {xs : List β} {ys : List γ}

/-- What is read off pairs, if it depends on their first members only. -/
theorem map_zipWith_of_left {k : β → ε} (hlength : xs.length ≤ ys.length)
    (h : ∀ x ∈ xs, ∀ y ∈ ys, g (f x y) = k x) : (List.zipWith f xs ys).map g = xs.map k := by
  rw [← List.map_uncurry_zip_eq_zipWith, List.map_map]
  refine Eq.trans (List.map_congr_left fun p hp => ?_)
    ((List.map_map (g := k) (f := Prod.fst)).symm.trans
      (congrArg (List.map k) (List.map_fst_zip hlength)))
  exact h p.1 (List.of_mem_zip hp).1 p.2 (List.of_mem_zip hp).2

/-- What is read off pairs, if it depends on their second members only. -/
theorem map_zipWith_of_right {k : γ → ε} (hlength : ys.length ≤ xs.length)
    (h : ∀ x ∈ xs, ∀ y ∈ ys, g (f x y) = k y) : (List.zipWith f xs ys).map g = ys.map k := by
  rw [List.zipWith_comm]
  exact map_zipWith_of_left hlength fun y hy x hx => h x hx y hy

end

namespace Chain

variable {α : Type}

/-- A sweep that is made from rows consists of them. -/
theorem parts_sweepOfRows {n : Nat} (d : Nat) {xs : List (List α)} {ls as : List α}
    (hxs : xs.length = n) (hls : ls.length = n) (has : as.length = n) :
    (sweepOfRows d xs ls as).positions.map Point.coords = xs ∧
      (sweepOfRows d xs ls as).logProbs = ls ∧ (sweepOfRows d xs ls as).acceptProbs = as := by
  have hzip : (ls.zip as).length = n := by rw [List.length_zip, hls, has, Nat.min_self]
  have hleft : xs.length ≤ (ls.zip as).length := by omega
  have hright : (ls.zip as).length ≤ xs.length := by omega
  refine ⟨?_, ?_, ?_⟩
  · rw [Ensemble.positions, List.map_map]
    refine (map_zipWith_of_left (k := id) hleft ?_).trans (List.map_id xs)
    exact fun _ _ _ _ => rfl
  · refine (map_zipWith_of_right (k := Prod.fst) hright ?_).trans
      (List.map_fst_zip (hls.trans has.symm).le)
    exact fun _ _ _ _ => rfl
  · refine (map_zipWith_of_right (k := Prod.snd) hright ?_).trans
      (List.map_snd_zip (has.trans hls.symm).le)
    exact fun _ _ _ _ => rfl

/-- The sweeps that are made from tables hold the entries of the tables. -/
theorem parts_ofTables {T N D : Nat} (ps : List α) {ls as : List α}
    (hl : (⟨[T, N], ls⟩ : Tensor α).Filled) (ha : (⟨[T, N], as⟩ : Tensor α).Filled)
    (hN : minWalkers ≤ N) (hD : 0 < D) :
    ∃ c, ofTables ⟨[T, N, D], ps⟩ ⟨[T, N], ls⟩ ⟨[T, N], as⟩ = .ok c ∧ c.size = N ∧ c.dims = D ∧
      c.sweeps.map (fun e => e.positions.map Point.coords) =
        (⟨[T, N, D], ps⟩ : Tensor α).subs.map Tensor.slabs ∧
      c.sweeps.map Ensemble.logProbs = (⟨[T, N], ls⟩ : Tensor α).slabs ∧
      c.sweeps.map Ensemble.acceptProbs = (⟨[T, N], as⟩ : Tensor α).slabs := by
  refine ⟨_, ofTables_eq_ok rfl rfl rfl hN hD, rfl, rfl, ?_⟩
  rw [sweeps, List.reverse_reverse]
  have hsubs : ∀ xs ∈ (⟨[T, N, D], ps⟩ : Tensor α).subs, xs.slabs.length = N := by
    refine List.forall_mem_map.mpr fun xs _ => ?_
    exact Tensor.length_pieces _ _ _
  have hlrows := Tensor.length_of_mem_pieces (show ls.length = _ from hl)
  have harows := Tensor.length_of_mem_pieces (show as.length = _ from ha)
  have hlength : (⟨[T, N], ls⟩ : Tensor α).slabs.length = T := Tensor.length_pieces _ _ _
  have halength : (⟨[T, N], as⟩ : Tensor α).slabs.length = T := Tensor.length_pieces _ _ _
  have hplength : (⟨[T, N, D], ps⟩ : Tensor α).subs.length = T :=
    (List.length_map _).trans (Tensor.length_pieces _ _ _)
  have hzip : ((⟨[T, N], ls⟩ : Tensor α).slabs.zip (⟨[T, N], as⟩ : Tensor α).slabs).length = T := by
    rw [List.length_zip, hlength, halength, Nat.min_self]
  have hparts : ∀ xs ∈ (⟨[T, N, D], ps⟩ : Tensor α).subs,
      ∀ row ∈ (⟨[T, N], ls⟩ : Tensor α).slabs.zip (⟨[T, N], as⟩ : Tensor α).slabs, _ :=
    fun xs hxs row hrow => parts_sweepOfRows D (hsubs xs hxs)
      ((hlrows _ (List.of_mem_zip hrow).1).trans (Nat.mul_one N))
      ((harows _ (List.of_mem_zip hrow).2).trans (Nat.mul_one N))
  refine ⟨?_, ?_, ?_⟩
  · exact map_zipWith_of_left (by omega) fun xs hxs row hrow => (hparts xs hxs row hrow).1
  · rw [map_zipWith_of_right (k := Prod.fst) (by omega)
      fun xs hxs row hrow => (hparts xs hxs row hrow).2.1]
    exact List.map_fst_zip (by omega)
  · rw [map_zipWith_of_right (k := Prod.snd) (by omega)
      fun xs hxs row hrow => (hparts xs hxs row hrow).2.2]
    exact List.map_snd_zip (by omega)

/-! ## Where walkers are -/

/-- Where the walker `i` of a chain is after so many steps, if the walkers start at given
places. -/
def place? {β : Type} (start : List (List α)) (c : Chain (Point α) β) (i : Nat) :
    Nat → Option (List α)
  | 0 => start[i]?
  | t + 1 => (c.walker? t i).map (·.position.coords)

theorem place?_eq {β : Type} {start : List (List α)} {c : Chain (Point α) β}
    {steps : List (List (List α))}
    (h : c.sweeps.map (fun e => e.positions.map Point.coords) = steps) (i t : Nat) :
    c.place? start i t = ((start :: steps)[t]?).bind (·[i]?) := by
  subst h
  cases t with
  | zero => rfl
  | succ t =>
    simp [place?, walker?, Ensemble.positions, Option.bind_map, Option.map_bind, Function.comp_def]

theorem map_walker?_acceptProb {V β : Type} {c : Chain V β} {marks : List (List β)}
    (h : c.sweeps.map Ensemble.acceptProbs = marks) (t i : Nat) :
    (c.walker? t i).map (·.acceptProb) = (marks[t]?).bind (·[i]?) := by
  subst h
  simp [walker?, Ensemble.acceptProbs, Option.bind_map, Option.map_bind, Function.comp_def]

section

variable [BEq α]

/-- The walker `i` is at one place after `m` and after `n` steps. -/
def AtRest {β : Type} (start : List (List α)) (c : Chain (Point α) β) (i m n : Nat) : Prop :=
  ∃ x y, c.place? start i m = some x ∧ c.place? start i n = some y ∧ (x == y) = true

/-- Some coordinate of the walker `i` is not after `n` steps what it was after `m`. -/
def HasLeft {β : Type} (start : List (List α)) (c : Chain (Point α) β) (i m n : Nat) : Prop :=
  ∃ (x y : List α) (k : Nat) (a b : α), c.place? start i m = some x ∧
    c.place? start i n = some y ∧ x[k]? = some a ∧ y[k]? = some b ∧ (a == b) = false

/-- The walker `i` is marked in the sweep `t`. -/
def IsMarked {V β : Type} [One β] (c : Chain V β) (t i : Nat) : Prop :=
  (c.walker? t i).map (·.acceptProb) = some 1

/-- Where the walker `i` is after the sweep `t` is told by its marks. -/
structure ToldByMarks [Zero α] [One α] (start : List (List α)) (c : Chain (Point α) α)
    (t i : Nat) : Prop where
  /-- The sweep marks it with zero or one. -/
  mark : ∃ w, c.walker? t i = some w ∧ (w.acceptProb = 0 ∨ w.acceptProb = 1)
  /-- It is where it was after the sweep in which it was marked last. -/
  latest : ∀ m ≤ t, c.IsMarked m i → (∀ s, m < s → s ≤ t → ¬ c.IsMarked s i) →
    c.AtRest start i (m + 1) (t + 1)
  /-- It is at its start if it has not been marked. -/
  unmarked : (∀ s ≤ t, ¬ c.IsMarked s i) → c.AtRest start i 0 (t + 1)
  /-- It has moved if it is marked. -/
  moved : c.IsMarked t i → c.HasLeft start i t (t + 1)

/-! ## Told by marks -/

section

variable [Zero α] [One α] {start : List (List α)} {steps : List (List (List α))}
  {c : Chain (Point α) α} {N D : Nat}
  (hcoords : c.sweeps.map (fun e => e.positions.map Point.coords) = steps)
  (hmarks : c.sweeps.map Ensemble.acceptProbs = acceptanceMarks start steps)
  (hshape : ∀ step ∈ start :: steps, step.length = N ∧ ∀ x ∈ step, x.length = D)

include hcoords hshape

omit [BEq α] [Zero α] [One α] in
/-- Every walker is somewhere after every step. -/
theorem exists_place {t i : Nat} (ht : t ≤ steps.length) (hi : i < N) :
    ∃ xs x, (start :: steps)[t]? = some xs ∧ xs[i]? = some x ∧ c.place? start i t = some x ∧
      x.length = D := by
  have hxs := List.getElem?_eq_getElem (l := start :: steps) (Nat.lt_succ_of_le ht)
  obtain ⟨hlength, hrows⟩ := hshape _ (List.mem_of_getElem? hxs)
  have hx := List.getElem?_eq_getElem (hlength.symm ▸ hi)
  refine ⟨_, _, hxs, hx, ?_, hrows _ (List.mem_of_getElem? hx)⟩
  rw [place?_eq hcoords, hxs, Option.bind_some, hx]

include hmarks

/-- **One step.**  The mark of a walker in a sweep compares its places before and after. -/
theorem exists_mark {t i : Nat} (ht : t < steps.length) (hi : i < N) :
    ∃ x y, c.place? start i t = some x ∧ c.place? start i (t + 1) = some y ∧
      x.length = y.length ∧ (c.walker? t i).map (·.acceptProb) = some (acceptanceMark x y) := by
  obtain ⟨xs, x, hxs, hx, hplace, hlength⟩ := exists_place hcoords hshape ht.le hi
  obtain ⟨ys, y, hys, hy, hplace', hlength'⟩ := exists_place hcoords hshape ht hi
  refine ⟨x, y, hplace, hplace', hlength.trans hlength'.symm, ?_⟩
  have hys : steps[t]? = some ys := hys
  rw [map_walker?_acceptProb hmarks, getElem?_acceptanceMarks, hxs, hys]
  simp [List.getElem?_zipWith, hx, hy]

variable (hone : (0 : α) ≠ 1)

include hone

/-- A walker is marked just if it has moved. -/
theorem isMarked_iff {t i : Nat} (ht : t < steps.length) (hi : i < N) :
    ∃ x y, c.place? start i t = some x ∧ c.place? start i (t + 1) = some y ∧
      x.length = y.length ∧ (c.IsMarked t i ↔ hasMoved x y = true) := by
  obtain ⟨x, y, hx, hy, hlength, hmark⟩ := exists_mark hcoords hmarks hshape ht hi
  refine ⟨x, y, hx, hy, hlength, ?_⟩
  rw [IsMarked, hmark, Option.some_inj, acceptanceMark]
  split
  · rename_i hmoved
    exact iff_of_true rfl hmoved
  · rename_i hmoved
    exact iff_of_false hone hmoved

variable [PartialEquivBEq α]

/-- **A run without marks.**  A walker that is not marked stays where it is. -/
theorem atRest_of_not_marked {m n i : Nat} (hmn : m < n) (hn : n ≤ steps.length) (hi : i < N)
    (hunmarked : ∀ s, m ≤ s → s < n → ¬ c.IsMarked s i) : c.AtRest start i m n := by
  have hrest : ∀ s, m ≤ s → s < n →
      ((c.place? start i s).getD [] == (c.place? start i (s + 1)).getD []) = true := by
    intro s hs hsn
    obtain ⟨x, y, hx, hy, hlength, hmoved⟩ :=
      isMarked_iff hcoords hmarks hshape hone (Nat.lt_of_lt_of_le hsn hn) hi
    have hstill := eq_false_of_ne_true (mt hmoved.mpr (hunmarked s hs hsn))
    rw [hx, hy]
    exact (hasMoved_eq_false_iff hlength).mp hstill
  obtain ⟨-, x, -, -, hx, -⟩ := exists_place hcoords hshape (hmn.le.trans hn) hi
  obtain ⟨-, y, -, -, hy, -⟩ := exists_place hcoords hshape hn hi
  have hboth := beq_of_unmoved hmn hrest
  rw [hx, hy] at hboth
  exact ⟨x, y, hx, hy, hboth⟩

/-- All places are told by the start, the marks, and the places at marked sweeps. -/
theorem toldByMarks (hnumbers : ∀ step ∈ steps, ∀ x ∈ step, (x == x) = true) {t i : Nat}
    (ht : t < steps.length) (hi : i < N) : c.ToldByMarks start t i := by
  refine ⟨?_, fun m hm _ hsince => ?_, fun hnever => ?_, fun hmark => ?_⟩
  · obtain ⟨x, y, -, -, -, hmark⟩ := exists_mark hcoords hmarks hshape ht hi
    obtain ⟨w, hw, hwmark⟩ := Option.map_eq_some_iff.mp hmark
    exact ⟨w, hw, hwmark ▸ acceptanceMark_eq x y⟩
  · rcases hm.lt_or_eq with hm | rfl
    · exact atRest_of_not_marked hcoords hmarks hshape hone (Nat.succ_lt_succ hm) ht hi
        fun s hs hst => hsince s hs (Nat.le_of_lt_succ hst)
    · -- at the mark itself a number is equal to itself
      obtain ⟨ys, y, hys, hy, hplace, -⟩ := exists_place hcoords hshape ht hi
      have hself := hnumbers ys (List.mem_of_getElem? hys) y (List.mem_of_getElem? hy)
      exact ⟨y, y, hplace, hplace, hself⟩
  · exact atRest_of_not_marked hcoords hmarks hshape hone (Nat.succ_pos t) ht hi
      fun s _ hst => hnever s (Nat.le_of_lt_succ hst)
  · obtain ⟨x, y, hx, hy, -, hmoved⟩ := isMarked_iff hcoords hmarks hshape hone ht hi
    obtain ⟨k, a, b, ha, hb, hne⟩ := hasMoved_eq_true_iff.mp (hmoved.mp hmark)
    exact ⟨x, y, k, a, b, hx, hy, ha, hb, hne⟩

end

end

/-! ## Read back -/

section

variable {β : Type} {T : Nat} {xs : List α}

/-- The table of all positions of a chain is the one that its sweeps were taken from. -/
theorem positionTable_all {c : Chain (Point α) β}
    (hfilled : (⟨[T, c.size, c.dims], xs⟩ : Tensor α).Filled)
    (hcoords : c.sweeps.map (fun e => e.positions.map Point.coords) =
      (⟨[T, c.size, c.dims], xs⟩ : Tensor α).subs.map Tensor.slabs) :
    c.positionTable (.startingAt (some 0)) = ⟨[T, c.size, c.dims], xs⟩ := by
  have hentries : xs.length = T * Tensor.count [c.size, c.dims] := hfilled
  have hrows : c.coordinateRows (.startingAt (some 0)) =
      Tensor.pieces (Tensor.count [c.size, c.dims]) T xs := by
    have hflatten := congrArg (List.map List.flatten) hcoords
    rw [Tensor.subs, List.map_map, List.map_map, List.map_map] at hflatten
    rw [coordinateRows, Opened.retained_all]
    refine (List.map_congr_left fun e _ => List.flatMap_def).trans (hflatten.trans ?_)
    refine (List.map_congr_left fun piece hpiece => ?_).trans (List.map_id _)
    exact Tensor.flatten_pieces (Tensor.length_of_mem_pieces hentries piece hpiece)
  rw [positionTable_eq, hrows, Tensor.length_pieces, Tensor.flatten_pieces hentries]

/-- The table of all log-densities of a chain is the one that its sweeps were taken from. -/
theorem logProbTable_all {V : Type} {c : Chain V α}
    (hfilled : (⟨[T, c.size], xs⟩ : Tensor α).Filled)
    (hlogProbs : c.sweeps.map Ensemble.logProbs = (⟨[T, c.size], xs⟩ : Tensor α).slabs) :
    c.logProbTable (.startingAt (some 0)) = ⟨[T, c.size], xs⟩ := by
  have hrows : c.logProbs (.startingAt (some 0)) = (⟨[T, c.size], xs⟩ : Tensor α).slabs := by
    rw [logProbs, Opened.retained_all, hlogProbs]
  rw [logProbTable, hrows]
  exact Tensor.ofRows_slabs hfilled rfl

end

/-! ## Reconstruction -/

section

variable [BEq α] [Zero α] [One α] {T N D : Nat} {ps ls start : List α}
  (hp : (⟨[T, N, D], ps⟩ : Tensor α).Filled) (hl : (⟨[T, N], ls⟩ : Tensor α).Filled)
  (hstart : (⟨[N, D], start⟩ : Tensor α).Filled) (hN : minWalkers ≤ N) (hD : 0 < D)

omit [BEq α] [Zero α] [One α] in
include hp hstart in
/-- The rows of the start and of all steps have the shape of the tables. -/
theorem length_of_mem_start_steps :
    ∀ step ∈ (⟨[N, D], start⟩ : Tensor α).slabs :: (⟨[T, N, D], ps⟩ : Tensor α).subs.map
      Tensor.slabs, step.length = N ∧ ∀ x ∈ step, x.length = D := by
  have hslabs : ∀ xs : List α, xs.length = N * (D * 1) →
      (Tensor.pieces (D * 1) N xs).length = N ∧
        ∀ x ∈ Tensor.pieces (D * 1) N xs, x.length = D := by
    intro xs hxs
    refine ⟨Tensor.length_pieces _ _ _, fun x hx => ?_⟩
    exact (Tensor.length_of_mem_pieces hxs x hx).trans (Nat.mul_one D)
  refine List.forall_mem_cons.mpr ⟨hslabs start hstart, ?_⟩
  rw [Tensor.subs, List.map_map]
  refine List.forall_mem_map.mpr fun piece hpiece => ?_
  exact hslabs piece (Tensor.length_of_mem_pieces (show ps.length = T * _ from hp) piece hpiece)

include hp hl hstart hN hD in
/-- A chain that is made from tables that fit holds them, and the marks that they leave. -/
theorem parts_reconstruct :
    let before := (⟨[N, D], start⟩ : Tensor α).slabs
    let steps := (⟨[T, N, D], ps⟩ : Tensor α).subs.map Tensor.slabs
    ∃ c, reconstruct ⟨[T, N, D], ps⟩ ⟨[T, N], ls⟩ ⟨[N, D], start⟩ = .ok c ∧ c.size = N ∧
      c.dims = D ∧ c.sweeps.map (fun e => e.positions.map Point.coords) = steps ∧
      c.sweeps.map Ensemble.logProbs = (⟨[T, N], ls⟩ : Tensor α).slabs ∧
      c.sweeps.map Ensemble.acceptProbs = acceptanceMarks before steps := by
  intro before steps
  have hshape := length_of_mem_start_steps hp hstart
  have hsteps : steps.length = T :=
    (List.length_map _).trans ((List.length_map _).trans (Tensor.length_pieces _ _ _))
  have hlength : (acceptanceMarks before steps).length = T :=
    (length_acceptanceMarks before steps).trans hsteps
  have hrows : ∀ row ∈ acceptanceMarks before steps, row.length = Tensor.count [N] := by
    rw [Tensor.count_cons, Tensor.count, List.foldr_nil, Nat.mul_one]
    exact length_of_mem_acceptanceMarks (hshape _ List.mem_cons_self).1
      fun step hstep => (hshape step (List.mem_cons_of_mem _ hstep)).1
  have hfilled := Tensor.filled_flatten hrows
  have hslabs := Tensor.slabs_flatten hrows
  rw [hlength] at hfilled hslabs
  obtain ⟨c, hc, hsize, hdims, hcoords, hlogProbs, hmarks⟩ :=
    parts_ofTables ps hl hfilled hN hD
  refine ⟨c, ?_, hsize, hdims, hcoords, hlogProbs, hmarks.trans hslabs⟩
  have hcheck : checkStart [T, N, D] [N, D] = .ok () := by simp [checkStart]
  rw [reconstruct, hcheck]
  exact hc

end

end Chain

/-! ## A start from arguments -/

/-- An argument is read as a table of doubles that is compared with others: none of its members
stays what it is, and none is a text. -/
def Argument.ReadsAs (a : Argument) (t : Tensor Float) : Prop :=
  ∃ members, Tensor.ofNested a = .ok ⟨t.shape, members⟩ ∧
    (∀ m ∈ members, m.keepsMembers = false ∧ m.isText = false) ∧
    members.mapM Argument.toReal = .ok t.entries

/-- A table that is handed over is read as it is. -/
theorem Tensor.readsAs_toArgument {t : Tensor Float} (ht : t.Filled) (hrank : t.rank ≤ maxRank) :
    t.toArgument.ReadsAs t := by
  refine ⟨t.entries.map .real, ?_, List.forall_mem_map.mpr fun _ _ => ⟨rfl, rfl⟩, ?_⟩
  · rw [ofNested, arrayShape_toArgument ht hrank]
    rfl
  · exact mapM_real (fun _ => rfl) t.entries

theorem Argument.ReadsAs.filled {a : Argument} {t : Tensor Float} (h : a.ReadsAs t) :
    t.Filled := by
  obtain ⟨members, hmembers, -, hentries⟩ := h
  obtain ⟨shape, hshape, hread⟩ := map_eq_ok_iff.mp hmembers
  obtain ⟨rfl, rfl⟩ := Tensor.mk.inj hread
  exact (Tensor.length_of_mapM hentries).trans (Argument.length_leaves_of_arrayShape hshape)

namespace Chain

section

variable {positions logProb initial : Argument} {p l start : Tensor Float}
  (hp : Tensor.ofArgument positions = .ok p) (hl : Tensor.ofArgument logProb = .ok l)
  (hstart : initial.ReadsAs start)

section

include hp hl hstart

/-- A start that is read as doubles is that of the chain. -/
theorem reconstructOf_eq (hrank : start.rank ≠ maxRank) :
    reconstructOf positions logProb initial = reconstruct p l start := by
  obtain ⟨members, hmembers, hplain, hentries⟩ := hstart
  have hkept : members.any Argument.keepsMembers = false :=
    List.any_eq_false.mpr fun m hm => ne_true_of_eq_false (hplain m hm).1
  have htext : members.any Argument.isText = false :=
    List.any_eq_false.mpr fun m hm => ne_true_of_eq_false (hplain m hm).2
  have hmarks : marksOf ⟨start.shape, members⟩ p =
      .ok (acceptanceMarks start.slabs (p.subs.map Tensor.slabs)) := by
    rw [marksOf]
    simp only [hkept, htext, hentries]
    rfl
  have hrank : (⟨start.shape, members⟩ : Tensor Argument).rank ≠ maxRank := hrank
  simp only [reconstructOf, hp, hl, hmembers, bind, Except.bind, if_neg hrank, hmarks]
  rfl

/-- **Marks tell the moves.**  Let positions and log-densities of at least three walkers in at least
one dimension be recorded, in tables of `T` steps, and let the walkers' start be an array of as many
doubles.  No position is `NaN`.

The chain has `T` sweeps and holds these positions and log-densities.  Each mark is zero or one.
Each walker is after each step where it was after the last one at which it was marked, or at its
start if it has not been marked; and if it is marked at a step then some coordinate is not what it
was before.  Coordinates are compared as doubles, so that the two zeros are equal. -/
theorem reconstructed_by_marks {T N D : Nat} (hpositions : p.shape = [T, N, D])
    (hlogProb : l.shape = [T, N]) (hinitial : start.shape = [N, D]) (hN : minWalkers ≤ N)
    (hD : 1 ≤ D) (hnumbers : ∀ x ∈ p.entries, x.isNaN = false) :
    ∃ c, reconstructOf positions logProb initial = .ok c ∧ c.length = T ∧ c.size = N ∧
      c.dims = D ∧ c.positionTable (.startingAt (some 0)) = p ∧
      c.logProbTable (.startingAt (some 0)) = l ∧
      ∀ t < T, ∀ i < N, c.ToldByMarks start.slabs t i := by
  have hpfilled := Tensor.filled_ofArgument hp
  have hlfilled := Tensor.filled_ofArgument hl
  have hsfilled := hstart.filled
  have hread := reconstructOf_eq hp hl hstart (by rw [Tensor.rank, hinitial]; nofun)
  obtain ⟨shape, ps⟩ := p
  obtain rfl : shape = [T, N, D] := hpositions
  obtain ⟨shape, ls⟩ := l
  obtain rfl : shape = [T, N] := hlogProb
  obtain ⟨shape, entries⟩ := start
  obtain rfl : shape = [N, D] := hinitial
  obtain ⟨c, hc, rfl, rfl, hcoords, hlogProbs, hmarks⟩ :=
    parts_reconstruct hpfilled hlfilled hsfilled hN hD
  have hsteps := congrArg List.length hcoords
  rw [List.length_map, length_sweeps, List.length_map, Tensor.subs, List.length_map] at hsteps
  have hlength : c.length = T := hsteps.trans (Tensor.length_pieces _ _ _)
  refine ⟨c, hread.trans hc, hlength, rfl, rfl, positionTable_all hpfilled hcoords,
    logProbTable_all hlfilled hlogProbs, fun t ht i hi => ?_⟩
  have hself : ∀ step ∈ (⟨[T, c.size, c.dims], ps⟩ : Tensor Float).subs.map Tensor.slabs,
      ∀ x ∈ step, (x == x) = true := by
    rw [Tensor.subs, List.map_map]
    refine List.forall_mem_map.mpr fun piece hpiece x hx => ?_
    refine beq_self_of_forall fun a ha => double_beq_self (hnumbers a ?_)
    exact Tensor.mem_of_mem_pieces hpiece (Tensor.mem_of_mem_pieces hx ha)
  refine toldByMarks hcoords hmarks (length_of_mem_start_steps hpfilled hsfilled) (by decide)
    hself ?_ hi
  rw [← hcoords, List.length_map, length_sweeps, hlength]
  exact ht

end

/-- Three walkers on a line take two steps.  The first walker starts at a zero with a sign and moves
in the second step only, the second one never, and the third one in the first step only. -/
theorem reconstructed_by_marks_line :
    let p : Tensor Float := ⟨[2, 3, 1], [0.0, 1.0, 2.0, 0.5, 1.0, 2.0]⟩
    let l : Tensor Float := ⟨[2, 3], [-0.5, -1.0, -1.5, -0.25, -1.0, -1.5]⟩
    let start : Tensor Float := ⟨[3, 1], [-0.0, 1.0, 1.5]⟩
    minWalkers ≤ 3 ∧ (∀ x ∈ p.entries, x.isNaN = false) ∧ start.toArgument.ReadsAs start ∧
      ∃ c, reconstructOf p.toArgument l.toArgument start.toArgument = .ok c ∧ c.length = 2 ∧
        c.size = 3 ∧ c.dims = 1 ∧ c.positionTable (.startingAt (some 0)) = p ∧
        c.logProbTable (.startingAt (some 0)) = l ∧
        ∀ t < 2, ∀ i < 3, c.ToldByMarks start.slabs t i := by
  intro p l start
  have hnumbers : ∀ x ∈ p.entries, x.isNaN = false := by decide +kernel
  have hstart : start.toArgument.ReadsAs start := Tensor.readsAs_toArgument rfl (by decide)
  have htold := reconstructed_by_marks (Tensor.ofArgument_toArgument (t := p) rfl (by decide))
    (Tensor.ofArgument_toArgument (t := l) rfl (by decide)) hstart rfl rfl rfl (by decide)
    (by decide) hnumbers
  exact ⟨by decide, hnumbers, hstart, htold⟩

end

end Chain

end EnsembleSampling
