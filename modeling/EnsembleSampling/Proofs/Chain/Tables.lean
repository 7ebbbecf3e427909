import EnsembleSampling.Proofs.Chain.Parts
import EnsembleSampling.Proofs.Table
set_option autoImplicit false

/-!
# Chains as tables

However a chain was opened and whatever was recorded in it, it is regular
(`Chain.Opened.Reached.kept`): a call that fails leaves it as it was, and one that does not adds a
sweep of its shape.  The tables of a regular chain hold its sweeps one after the other, and made
into a chain again they give the sweeps back (`Chain.Regular.ofTables_tables`).

A chain can be read back whole if its positions can be laid out; there are chains without sweeps for
which they cannot (`Chain.Opened.positions_not_laid_out`).
-/

namespace EnsembleSampling

/-! ## Tables as arguments -/

namespace Tensor

/-- A table as an argument. -/
def toArgument (t : Tensor Float) : Argument := .array t.shape (t.entries.map .real)

/-- Doubles are read one after the other, by whatever reads each as it is. -/
theorem mapM_real {f : Argument → Except Fault Float} (hf : ∀ x, f (.real x) = .ok x)
    (xs : List Float) : (xs.map Argument.real).mapM f = .ok xs := by
  induction xs with
  | nil => rfl
  | cons x xs ih =>
    rw [List.map_cons, List.mapM_cons, ih, hf]
    rfl

theorem arrayShape_toArgument {t : Tensor Float} (ht : t.Filled) (hrank : t.rank ≤ maxRank) :
    t.toArgument.arrayShape = .ok t.shape := by
  have hcommon : t.toArgument.commonShape = .ok t.shape := by
    rw [toArgument, Argument.commonShape, List.length_map]
    exact if_pos ht
  have hfew : ¬ maxRank < t.shape.length := Nat.not_lt.mpr hrank
  simp [Argument.arrayShape, hcommon, hfew, bind, Except.bind, pure, Except.pure]

/-- A table that is handed over is read as it is. -/
theorem ofArgument_toArgument {t : Tensor Float} (ht : t.Filled) (hrank : t.rank ≤ maxRank) :
    ofArgument t.toArgument = .ok t := by
  have hshape := arrayShape_toArgument ht hrank
  have hentries : t.toArgument.leaves.mapM entryOf = .ok t.entries := mapM_real (fun _ => rfl) t.entries
  simp [ofArgument, ofNested, hshape, hentries, Except.map, bind, Except.bind, pure, Except.pure]

section

variable {α : Type} {shape : List Nat} {rows : List (List α)}
  (h : ∀ row ∈ rows, row.length = count shape)

include h

/-- Rows with an entry for each place of a shape, one after the other. -/
theorem slabs_flatten : (⟨rows.length :: shape, rows.flatten⟩ : Tensor α).slabs = rows :=
  pieces_flatten _ rows h

theorem filled_flatten : (⟨rows.length :: shape, rows.flatten⟩ : Tensor α).Filled := by
  rw [Filled, List.length_flatten, List.map_congr_left h, List.map_const', List.sum_replicate]
  rfl

end

end Tensor

variable {α β : Type}

/-! ## Sweeps as rows -/

theorem forall_mem_zipWith {γ δ : Type} {f : β → γ → δ} {P : δ → Prop} {xs : List β} {ys : List γ}
    (h : ∀ x ∈ xs, ∀ y ∈ ys, P (f x y)) : ∀ z ∈ List.zipWith f xs ys, P z := by
  rw [← List.map_uncurry_zip_eq_zipWith, List.forall_mem_map]
  rintro ⟨x, y⟩ hxy
  obtain ⟨hx, hy⟩ := List.of_mem_zip hxy
  exact h x hx y hy

namespace Chain

/-- A sweep that is made from rows has their shape. -/
theorem shaped_sweepOfRows {n d : Nat} {xs : List (List α)} {ls as : List α} (hxs : xs.length = n)
    (hrows : ∀ x ∈ xs, x.length = d) (hls : ls.length = n) (has : as.length = n) :
    (sweepOfRows d xs ls as).Shaped n d := by
  have hwalkers : (sweepOfRows d xs ls as).walkers.length = n := by
    simp [sweepOfRows, hxs, hls, has]
  refine ⟨(List.length_map _).trans hwalkers, rfl, List.forall_mem_map.mpr ?_,
    (List.length_map _).trans hwalkers, (List.length_map _).trans hwalkers⟩
  exact forall_mem_zipWith fun x hx _ _ => hrows x hx

/-- A sweep is made from its own rows. -/
theorem sweepOfRows_eq {n d : Nat} {e : Ensemble (Point α) α} (he : e.Shaped n d) :
    sweepOfRows d (e.positions.map Point.coords) e.logProbs e.acceptProbs = e := by
  obtain ⟨dims, walkers⟩ := e
  obtain rfl : dims = d := he.dims
  simp only [sweepOfRows, Ensemble.positions, Ensemble.logProbs, Ensemble.acceptProbs,
    List.map_map, List.zip_map', List.zipWith_map, List.zipWith_self]
  exact congrArg (Ensemble.mk dims) (List.map_id walkers)

/-- The coordinates of an ensemble, one after the other, come apart into its rows. -/
theorem slabs_coordinates {n d : Nat} {e : Ensemble (Point α) β} (he : e.Shaped n d) :
    (⟨[n, d], e.positions.flatMap Point.coords⟩ : Tensor α).slabs =
      e.positions.map Point.coords := by
  have hlength : n = (e.positions.map Point.coords).length := by
    rw [List.length_map, he.positions]
  rw [List.flatMap_def, hlength]
  exact Tensor.slabs_flatten (List.forall_mem_map.mpr fun x hx =>
    (he.rows x hx).trans (Nat.mul_one _).symm)

/-- Tables that fit make a chain of one sweep for each of their steps. -/
theorem ofTables_eq_ok {steps n d : Nat} {p l a : Tensor α} (hp : p.shape = [steps, n, d])
    (hl : l.shape = [steps, n]) (ha : a.shape = [steps, n]) (hn : minWalkers ≤ n) (hd : 0 < d) :
    ofTables p l a =
      .ok ⟨n, d, (List.zipWith (fun (xs : Tensor α) row => sweepOfRows d xs.slabs row.1 row.2)
        p.subs (l.slabs.zip a.slabs)).reverse⟩ := by
  simp only [ofTables, hp, if_pos (And.intro hl ha), start_eq_ok hn hd]
  rfl

/-- The sweeps that are made from tables have the shape that the tables tell. -/
theorem shaped_of_tables {steps size dims : Nat} {ps ls as : List α}
    (hp : (⟨[steps, size, dims], ps⟩ : Tensor α).Filled)
    (hl : (⟨[steps, size], ls⟩ : Tensor α).Filled) (ha : (⟨[steps, size], as⟩ : Tensor α).Filled) :
    ∀ e ∈ List.zipWith (fun (xs : Tensor α) row => sweepOfRows dims xs.slabs row.1 row.2)
      (⟨[steps, size, dims], ps⟩ : Tensor α).subs
      ((⟨[steps, size], ls⟩ : Tensor α).slabs.zip (⟨[steps, size], as⟩ : Tensor α).slabs),
      e.Shaped size dims := by
  have hpieces := Tensor.length_of_mem_pieces (show ps.length = _ from hp)
  have hlpieces := Tensor.length_of_mem_pieces (show ls.length = _ from hl)
  have hapieces := Tensor.length_of_mem_pieces (show as.length = _ from ha)
  refine forall_mem_zipWith fun t ht row hrow => ?_
  obtain ⟨xs, hxs, rfl⟩ := List.mem_map.mp ht
  obtain ⟨hlrow, harow⟩ := List.of_mem_zip hrow
  have hrows := Tensor.length_of_mem_pieces (hpieces xs hxs)
  refine shaped_sweepOfRows (Tensor.length_pieces _ _ _) (fun x hx => ?_) ?_ ?_
  · exact (hrows x hx).trans (Nat.mul_one dims)
  · exact (hlpieces row.1 hlrow).trans (Nat.mul_one size)
  · exact (hapieces row.2 harow).trans (Nat.mul_one size)

/-- A chain that is made from tables is regular. -/
theorem regular_ofTables {p l a : Tensor α} (hp : p.Filled) (hl : l.Filled) (ha : a.Filled)
    {c : Chain (Point α) α} (hc : ofTables p l a = .ok c) : c.Regular := by
  obtain ⟨pshape, ps⟩ := p
  obtain ⟨lshape, ls⟩ := l
  obtain ⟨ashape, as⟩ := a
  match pshape, hp, hc with
  | [steps, size, dims], hp, hc =>
    simp only [ofTables] at hc
    split at hc
    · rename_i hshapes
      obtain ⟨rfl, rfl⟩ := hshapes
      cases hstart : (start size dims : Except Fault (Chain (Point α) α)) with
      | error f => simp [hstart, bind, Except.bind] at hc
      | ok c₀ =>
        obtain ⟨hsize, hdims⟩ := le_of_start_eq_ok hstart
        rw [start_eq_ok hsize hdims] at hc
        obtain rfl := Except.ok.inj hc
        refine ⟨hsize, hdims, fun e he => ?_⟩
        rw [sweeps, List.reverse_reverse] at he
        exact shaped_of_tables hp hl ha e he
    · cases hc
  | [], _, hc | [_], _, hc | [_, _], _, hc | _ :: _ :: _ :: _ :: _, _, hc =>
    simp [ofTables] at hc

/-! ## The tables of a chain -/

/-- The coordinates of the walkers in the sweeps that a slice selects, a row for every sweep. -/
def coordinateRows (c : Chain (Point α) β) (s : Slice) : List (List α) :=
  (c.retained s).map fun e => e.positions.flatMap Point.coords

theorem positionTable_eq (c : Chain (Point α) β) (s : Slice) :
    c.positionTable s =
      ⟨(c.coordinateRows s).length :: [c.size, c.dims], (c.coordinateRows s).flatten⟩ := by
  have hlength : (c.coordinateRows s).length = (c.positions s).length := by
    rw [coordinateRows, positions, List.length_map, List.length_map]
  have hflatten : (c.coordinateRows s).flatten = (c.positions s).flatMap
      fun xs => xs.flatMap Point.coords := by
    rw [coordinateRows, positions, List.flatMap_map, List.flatMap_def]
  rw [hlength, hflatten]
  rfl

namespace Regular

variable {c : Chain (Point α) α} (hc : c.Regular) (s : Slice)

include hc

theorem length_of_mem_coordinateRows :
    ∀ row ∈ c.coordinateRows s, row.length = Tensor.count [c.size, c.dims] := by
  refine List.forall_mem_map.mpr fun e he => ?_
  have hshaped := hc.shaped_of_mem_retained he
  have hrows : ∀ x ∈ e.positions, x.coords.length = c.dims := hshaped.rows
  rw [List.length_flatMap, List.map_congr_left hrows, List.map_const', List.sum_replicate,
    hshaped.positions]
  exact congrArg (c.size * ·) (Nat.mul_one c.dims).symm

theorem length_of_mem_logProbs : ∀ ls ∈ c.logProbs s, ls.length = Tensor.count [c.size] :=
  List.forall_mem_map.mpr fun _ he =>
    (hc.shaped_of_mem_retained he).logProbs.trans (Nat.mul_one _).symm

theorem length_of_mem_acceptProbs : ∀ as ∈ c.acceptProbs s, as.length = Tensor.count [c.size] :=
  List.forall_mem_map.mpr fun _ he =>
    (hc.shaped_of_mem_retained he).acceptProbs.trans (Nat.mul_one _).symm

/-- The tables of the sweeps that a slice selects make a chain of these. -/
theorem ofTables_tables :
    ofTables (c.positionTable s) (c.logProbTable s) (c.acceptProbTable s) =
      .ok ⟨c.size, c.dims, (c.retained s).reverse⟩ := by
  have hpositions : (c.positionTable s).slabs = c.coordinateRows s := by
    rw [positionTable_eq]
    exact Tensor.slabs_flatten (hc.length_of_mem_coordinateRows s)
  have hlogProbs : (c.logProbTable s).slabs = c.logProbs s :=
    Tensor.slabs_flatten (hc.length_of_mem_logProbs s)
  have hacceptProbs : (c.acceptProbTable s).slabs = c.acceptProbs s :=
    Tensor.slabs_flatten (hc.length_of_mem_acceptProbs s)
  have hsweeps : List.zipWith (fun (xs : Tensor α) row => sweepOfRows c.dims xs.slabs row.1 row.2)
      (c.positionTable s).subs
      ((c.logProbTable s).slabs.zip (c.acceptProbTable s).slabs) = c.retained s := by
    rw [Tensor.subs, hpositions, hlogProbs, hacceptProbs, coordinateRows, logProbs, acceptProbs,
      List.map_map, List.zip_map', List.zipWith_map, List.zipWith_self]
    refine (List.map_congr_left fun e he => ?_).trans (List.map_id _)
    have hshaped := hc.shaped_of_mem_retained he
    have hrow := sweepOfRows_eq hshaped
    rw [← slabs_coordinates hshaped] at hrow
    exact hrow
  have hlogShape : (c.logProbTable s).shape = [(c.positions s).length, c.size] := by
    simp [logProbTable, positions, logProbs]
  have hacceptShape : (c.acceptProbTable s).shape = [(c.positions s).length, c.size] := by
    simp [acceptProbTable, positions, acceptProbs]
  have hshape : (c.positionTable s).shape = [(c.positions s).length, c.size, c.dims] := rfl
  rw [ofTables_eq_ok hshape hlogShape hacceptShape hc.walkers hc.dims, hsweeps]

end Regular

/-- The same, if they are handed over as arguments. -/
theorem ofArguments_tables {c : OfPoints} (hc : c.Regular) (s : Slice) :
    ofArguments (c.positionTable s).toArgument (c.logProbTable s).toArgument
      (c.acceptProbTable s).toArgument = .ok ⟨c.size, c.dims, (c.retained s).reverse⟩ := by
  have hpositions : (c.positionTable s).Filled := by
    rw [positionTable_eq]
    exact Tensor.filled_flatten (hc.length_of_mem_coordinateRows s)
  have hlogProbs : (c.logProbTable s).Filled :=
    Tensor.filled_flatten (hc.length_of_mem_logProbs s)
  have hacceptProbs : (c.acceptProbTable s).Filled :=
    Tensor.filled_flatten (hc.length_of_mem_acceptProbs s)
  rw [ofArguments, Tensor.ofArgument_toArgument hpositions (by decide : 3 ≤ maxRank),
    Tensor.ofArgument_toArgument hlogProbs (by decide : 2 ≤ maxRank),
    Tensor.ofArgument_toArgument hacceptProbs (by decide : 2 ≤ maxRank)]
  exact hc.ofTables_tables s

end Chain

/-! ## Ensembles from arguments -/

theorem dim_of_positionsOf {t : Tensor α} (ht : t.Filled) {d : Nat} {xs : List (Point α)}
    (h : positionsOf t = .ok (d, xs)) : ∀ x ∈ xs, x.dim = d := by
  obtain ⟨shape, entries⟩ := t
  match shape, ht, h with
  | [n, k], ht, h =>
    simp only [positionsOf] at h
    split at h
    · cases h
    · split at h
      · cases h
      · obtain ⟨rfl, rfl⟩ := Prod.mk.inj (Except.ok.inj h)
        refine List.forall_mem_map.mpr fun piece hpiece => ?_
        have hlength := Tensor.length_of_mem_pieces (show entries.length = n * (k * 1) from ht)
        exact (hlength piece hpiece).trans (Nat.mul_one k)
  | [], _, h | [_], _, h | _ :: _ :: _ :: _, _, h => simp [positionsOf] at h

/-- The positions of an ensemble that is read off arguments have as many coordinates as it has
dimensions. -/
theorem Ensemble.dim_of_ofArguments {p l a : Argument} {e : Ensemble (Point Float) Float}
    (he : Ensemble.ofArguments p l a = .ok e) : ∀ x ∈ e.positions, x.dim = e.dims := by
  simp only [Ensemble.ofArguments, bind_eq_ok_iff, mapError_eq_ok_iff] at he
  obtain ⟨t, ht, -, -, ls, -, as, -, he⟩ := he
  simp only [Ensemble.ofArrays, bind_eq_ok_iff] at he
  obtain ⟨⟨d, xs⟩, hxs, he⟩ := he
  split at he
  · obtain rfl := Except.ok.inj he
    have hrows := dim_of_positionsOf (Tensor.filled_ofArgument ht) hxs
    exact List.forall_mem_map.mpr (forall_mem_zipWith fun x hx _ _ => hrows x hx)
  · cases he

namespace Chain

theorem regular_ofArguments {p l a : Argument} {c : OfPoints} (hc : ofArguments p l a = .ok c) :
    c.Regular := by
  simp only [ofArguments, bind_eq_ok_iff] at hc
  obtain ⟨p', hp, hc⟩ := hc
  by_cases hrank : p'.rank = 3
  · simp only [hrank, ne_eq, not_true_eq_false, if_false, bind_eq_ok_iff] at hc
    obtain ⟨l', hl, a', ha, hc⟩ := hc
    exact regular_ofTables (Tensor.filled_ofArgument hp) (Tensor.filled_ofArgument hl)
      (Tensor.filled_ofArgument ha) hc
  · simp [hrank, throw, throwThe, MonadExceptOf.throw, bind, Except.bind] at hc

/-! ## Chains that callers open -/

namespace Opened

/-- What becomes of a chain that is opened for some walkers in some dimensions, or made from three
arguments, and in which ensembles are recorded, each with or without success. -/
inductive Reached : Opened → Prop
  | ofCounts {walkers dims : Argument} {o : Opened} (h : ofCounts walkers dims = .ok o) : Reached o
  | ofArguments {p l a : Argument} {c : OfPoints} (h : Chain.ofArguments p l a = .ok c) :
    Reached (ofChain c)
  | record {o : Opened} (h : Reached o) (memory : Memory) (p l a : Argument) :
    Reached (o.perform memory (.record p l a)).2

/-- The answer to a recorded ensemble, and the chain after it. -/
theorem perform_record {p l a : Argument} {e : Ensemble (Point Float) Float}
    (he : Ensemble.ofArguments p l a = .ok e) (o : Opened) (memory : Memory) :
    o.perform memory (.record p l a) =
      if e.size = o.chain.size ∧ e.dims = o.chain.dims then
        (.ok (.count (o.chain.length + 1)),
          ⟨{ o.chain with recorded := e :: o.chain.recorded }, o.dims⟩)
      else (.error (.rejected (.input .chainMismatch)), o) := by
  have hrecord : o.record p l a = (o.chain.record e).mapError Fault.rejected := by
    rw [record, he]
    rfl
  by_cases hfits : e.size = o.chain.size ∧ e.dims = o.chain.dims
  · rw [perform, hrecord, Chain.record, if_pos hfits, if_pos hfits]
    rfl
  · rw [perform, hrecord, Chain.record, if_neg hfits, if_neg hfits]
    rfl

/-- A chain that is regular, and the number of its dimensions, which was given as an integer or as
the truth value that counts as one. -/
structure Kept (o : Opened) : Prop where
  regular : o.chain.Regular
  dims : o.dims = .integer o.chain.dims ∨ o.dims = .flag true

theorem kept_ofCounts {walkers dims : Argument} {o : Opened} (h : ofCounts walkers dims = .ok o) :
    o.Kept := by
  simp only [Opened.ofCounts, bind_eq_ok_iff] at h
  obtain ⟨n, hn, d, hd, c, hc, ho⟩ := h
  obtain rfl := Except.ok.inj ho
  refine ⟨regular_start hc, ?_⟩
  have hcdims : c.dims = d := by
    obtain ⟨hsize, hdims⟩ := le_of_start_eq_ok hc
    rw [start_eq_ok hsize hdims] at hc
    obtain rfl := Except.ok.inj hc
    rfl
  change dims = .integer c.dims ∨ dims = .flag true
  unfold dimsOf at hd
  split at hd
  · split at hd
    · cases hd
    · obtain rfl := Except.ok.inj hd
      rw [hcdims]
      exact .inl (by rw [Int.toNat_of_nonneg (by omega)])
  · exact .inr rfl
  · cases hd

theorem Kept.record {o : Opened} (ho : o.Kept) (memory : Memory) (p l a : Argument) :
    (o.perform memory (.record p l a)).2.Kept := by
  cases he : Ensemble.ofArguments p l a with
  | error f =>
    have hrecord : o.record p l a = .error f := by
      rw [Opened.record, he]
      rfl
    rw [perform, hrecord]
    exact ho
  | ok e =>
    rw [perform_record he o memory]
    split
    · rename_i hfits
      have hrecord := record_of_fits hfits.1 hfits.2
      exact ⟨ho.regular.record (Ensemble.dim_of_ofArguments he) hrecord, ho.dims⟩
    · exact ho

/-- Whatever is recorded, a chain stays as it should be. -/
theorem Reached.kept {o : Opened} (ho : Reached o) : o.Kept := by
  induction ho with
  | ofCounts h => exact kept_ofCounts h
  | ofArguments h => exact ⟨regular_ofArguments h, .inl rfl⟩
  | record _ memory p l a ih => exact ih.record memory p l a

/-! ## Reading a chain back -/

theorem retained_all {V β : Type} (c : Chain V β) :
    c.retained (.startingAt (some 0)) = c.sweeps := by
  rw [retained_startingAt, Slice.skipped_zero, List.drop_zero]

theorem answer_positions {o : Opened} (memory : Memory) (ho : o.requireLayout = .ok ()) :
    o.answer memory (.positions (.integer 0) (.integer 1) (.flag false)) =
      .ok (.table (o.chain.positionTable (.startingAt (some 0)))) := by
  rw [answer, ho, Slice.ofArguments_integer 0 one_ne_zero]
  rfl

theorem answer_logProbs {o : Opened} (memory : Memory) (ho : o.requireWalkerLayout = .ok ()) :
    o.answer memory (.logProbs (.integer 0) (.integer 1) (.flag false)) =
      .ok (.table (o.chain.logProbTable (.startingAt (some 0)))) := by
  rw [answer, ho, Slice.ofArguments_integer 0 one_ne_zero]
  rfl

/-- **A chain is kept in order and can be read back.**  Let a chain be opened or made from arrays,
and let ensembles be recorded in it, with or without success.

It has at least three walkers in at least one dimension, as many positions, log-densities and
acceptance probabilities as sweeps, and all of the shapes of its walkers.  An ensemble is turned
down just if it has another number of walkers or dimensions, and then the chain stays as it was;
else it is recorded behind the sweeps that are there.  No call that fails changes the chain.

With the number of dimensions given as an integer, the chain is asked for its positions and
log-densities.  If the bytes of the axes can be addressed, then these come in tables by sweep,
walker and dimension, and the chain that is made from them and from the table of acceptance
probabilities is the same one, also without sweeps.  If they cannot, there is no table of
positions. -/
theorem kept_and_read_back {o : Opened} (ho : Reached o) (memory : Memory) :
    (minWalkers ≤ o.chain.size ∧ 1 ≤ o.chain.dims ∧
      o.perform memory .length = (.ok (.count o.chain.length), o) ∧
      (o.chain.positions (.startingAt (some 0))).length = o.chain.length ∧
      (o.chain.logProbs (.startingAt (some 0))).length = o.chain.length ∧
      (o.chain.acceptProbs (.startingAt (some 0))).length = o.chain.length ∧
      ∀ e ∈ o.chain.sweeps, e.Shaped o.chain.size o.chain.dims) ∧
    (∀ (p l a : Argument) (e : Ensemble (Point Float) Float),
      Ensemble.ofArguments p l a = .ok e →
        if e.size = o.chain.size ∧ e.dims = o.chain.dims then
          ∃ o', o.perform memory (.record p l a) = (.ok (.count (o.chain.length + 1)), o') ∧
            o'.chain.sweeps = o.chain.sweeps ++ [e] ∧ o'.chain.size = o.chain.size ∧
            o'.chain.dims = o.chain.dims ∧ o'.dims = o.dims
        else o.perform memory (.record p l a) =
          (.error (.rejected (.input .chainMismatch)), o)) ∧
    (∀ call f o', o.perform memory call = (.error f, o') → o' = o) ∧
    (o.dims = .integer o.chain.dims →
      if Layout.span [o.chain.length, o.chain.size, o.chain.dims] ≤ addressable then
        ∃ p l : Tensor Float,
          o.perform memory (.positions (.integer 0) (.integer 1) (.flag false)) = (.ok (.table p), o) ∧
          o.perform memory (.logProbs (.integer 0) (.integer 1) (.flag false)) = (.ok (.table l), o) ∧
          let a := o.chain.acceptProbTable (.startingAt (some 0))
          p.shape = [o.chain.length, o.chain.size, o.chain.dims] ∧
          l.shape = [o.chain.length, o.chain.size] ∧ a.shape = [o.chain.length, o.chain.size] ∧
          Chain.ofArguments p.toArgument l.toArgument a.toArgument = .ok o.chain
      else
        o.perform memory (.positions (.integer 0) (.integer 1) (.flag false)) =
          (.error .malformed, o)) := by
  have hkept := ho.kept
  have hregular := hkept.regular
  have hlength : ∀ {γ : Type} (f : Ensemble (Point Float) Float → γ),
      ((o.chain.retained (.startingAt (some 0))).map f).length = o.chain.length := by
    intro γ f
    rw [retained_all, List.length_map, length_sweeps]
  refine ⟨⟨hregular.walkers, hregular.dims, rfl, hlength _, hlength _, hlength _,
    hregular.sweeps⟩, fun p l a e he => ?_, fun _ _ _ => perform_eq_of_error, fun hdims => ?_⟩
  · rw [perform_record he o memory]
    split
    · rename_i hfits
      exact ⟨_, rfl, List.reverse_cons, rfl, rfl, rfl⟩
    · rfl
  · have hlayout := requireLayout_eq hdims
    split at hlayout
    · rename_i hroom
      have hchain := ofArguments_tables hregular (.startingAt (some 0))
      rw [retained_all, sweeps, List.reverse_reverse] at hchain
      have hlogProbs := answer_logProbs memory (requireWalkerLayout_eq_ok hregular.dims hroom)
      rw [if_pos hroom]
      exact ⟨_, _, congrArg (·, o) (answer_positions memory hlayout), congrArg (·, o) hlogProbs,
        congrArg (· :: [_, _]) (hlength _), congrArg (· :: [_]) (hlength _),
        congrArg (· :: [_]) (hlength _), hchain⟩
    · rename_i hroom
      rw [if_neg hroom]
      refine congrArg (·, o) ?_
      rw [answer, hlayout]
      rfl

/-- Three walkers on a line, before and after a sweep is recorded. -/
theorem kept_and_read_back_line :
    let memory : Memory := .upTo 1024
    let empty : Opened := ⟨⟨3, 1, []⟩, .integer 1⟩
    let o : Opened := (empty.perform memory (.record (.ofRows [[0.5], [1.0], [2.0]])
      (.ofRow [0.25, 0.5, 0.75]) (.ofRow [1.0, 0.0, 0.5]))).2
    Reached empty ∧ Reached o ∧ o.chain.length = 1 ∧ ∀ b ∈ [empty, o], ∃ p l : Tensor Float,
      b.perform memory (.positions (.integer 0) (.integer 1) (.flag false)) = (.ok (.table p), b) ∧
      b.perform memory (.logProbs (.integer 0) (.integer 1) (.flag false)) = (.ok (.table l), b) ∧
      let a := b.chain.acceptProbTable (.startingAt (some 0))
      p.shape = [b.chain.length, 3, 1] ∧ l.shape = [b.chain.length, 3] ∧
      a.shape = [b.chain.length, 3] ∧
      Chain.ofArguments p.toArgument l.toArgument a.toArgument = .ok b.chain := by
  intro memory empty o
  have hcounts : ofCounts (.integer 3) (.integer 1) = .ok empty := rfl
  have hempty : Reached empty := .ofCounts hcounts
  have ho : Reached o := hempty.record memory _ _ _
  have hroom : Layout.span [empty.chain.length, empty.chain.size, empty.chain.dims] ≤
      addressable := show Layout.span [0, 3, 1] ≤ addressable by decide +kernel
  have hroom' : Layout.span [o.chain.length, o.chain.size, o.chain.dims] ≤ addressable :=
    show Layout.span [1, 3, 1] ≤ addressable by decide +kernel
  have hread := (kept_and_read_back hempty memory).2.2.2 rfl
  have hread' := (kept_and_read_back ho memory).2.2.2 rfl
  rw [if_pos hroom] at hread
  rw [if_pos hroom'] at hread'
  refine ⟨hempty, ho, rfl, ?_⟩
  simp only [List.forall_mem_cons]
  exact ⟨hread, hread', nofun⟩

/-- Chains without sweeps whose positions cannot be laid out: one has too many walkers, and of the
other the number of dimensions was given as a truth value. -/
theorem positions_not_laid_out :
    (∃ o : Opened, ofCounts (.integer 4611686018427387904) (.integer 4) = .ok o ∧ Reached o ∧
      ∀ memory, o.perform memory (.positions (.integer 0) (.integer 1) (.flag false)) =
        (.error .malformed, o)) ∧
    ∃ o : Opened, ofCounts (.integer 3) (.flag true) = .ok o ∧ Reached o ∧
      ∀ memory, o.perform memory (.positions (.integer 0) (.integer 1) (.flag false)) =
        (.error .unsupported, o) := by
  constructor
  · have hcounts : ofCounts (.integer 4611686018427387904) (.integer 4) =
        .ok ⟨⟨4611686018427387904, 4, []⟩, .integer 4⟩ := rfl
    have hroom : ¬ Layout.span [0, 4611686018427387904, 4] ≤ addressable := by decide +kernel
    refine ⟨_, hcounts, .ofCounts hcounts, fun memory => congrArg (·, _) ?_⟩
    rw [answer, requireLayout_eq rfl]
    exact congrArg (· >>= _) (if_neg hroom)
  · have hcounts : ofCounts (.integer 3) (.flag true) = .ok ⟨⟨3, 1, []⟩, .flag true⟩ := rfl
    exact ⟨_, hcounts, .ofCounts hcounts, fun _ => rfl⟩

end Opened

end Chain

end EnsembleSampling
