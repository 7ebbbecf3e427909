import EnsembleSampling.Proofs.Chain.Tables
set_option autoImplicit false

/-!
# Flattened tables

A chain is asked for the positions or for the log-densities of the sweeps that a slice selects,
with sweeps and walkers on one axis.  The two tables are laid out by different axes, but entry `r`
is in both of them about the same walker, and in the same sweep (`Chain.Opened.flattened_aligned`).

Which sweeps a slice selects is said without reference to how they are collected: the one at its
opening, and those whole strides away from it, as far as there are sweeps
(`Slice.getElem?_indices`).
-/

namespace EnsembleSampling

/-- A place, or its absence, as an argument. -/
def Argument.ofPlace : Option Int → Argument
  | none => .absent
  | some n => .integer n

/-! ## Which rows are selected -/

namespace Slice

variable {β : Type}

theorem stride_ne_zero {stride : Option Int} (h : stride ≠ some 0) : stride.getD 1 ≠ 0 := by
  cases stride with
  | none => exact one_ne_zero
  | some k => exact fun hk => h (congrArg some hk)

theorem ofArguments_ofPlace (start : Option Int) {stride : Option Int} (h : stride ≠ some 0) :
    ofArguments (.ofPlace start) (.ofPlace stride) = .ok ⟨start, stride.getD 1⟩ := by
  have hplace : ∀ a : Option Int, placeOf (.ofPlace a) = .ok a := by
    intro a
    cases a <;> rfl
  simp [ofArguments, hplace, stride_ne_zero h, bind, Except.bind, pure, Except.pure]

/-- The row among `n` at which a slice begins.  Without a start it is the end that the slice moves
away from; a start is counted from the end of the rows if it is negative, and one that lies beyond
that end is moved to it. -/
def opening (s : Slice) (n : Nat) : Int :=
  if 0 < s.stride then s.start.elim 0 fun start => max 0 (fromFront n start)
  else s.start.elim (n - 1) fun start => min (n - 1) (fromFront n start)

/-- A stride begins within `n` rows if the strides before it do not fill them. -/
theorem lt_strides_iff {n k t : Nat} (hk : 0 < k) : t < strides n k ↔ t * k < n := by
  rw [strides, Nat.lt_div_iff_mul_lt hk]
  omega

theorem getElem?_map_range {f : Nat → β} {m t : Nat} {x : β} :
    ((List.range m).map f)[t]? = some x ↔ t < m ∧ f t = x := by
  rw [List.getElem?_map, Option.map_eq_some_iff]
  constructor
  · rintro ⟨k, hk, rfl⟩
    obtain ⟨hlt, rfl⟩ := List.getElem?_eq_some_iff.mp hk
    rw [List.length_range] at hlt
    simpa using hlt
  · rintro ⟨hlt, rfl⟩
    exact ⟨t, List.getElem?_range hlt, rfl⟩

/-- **The rows that a slice selects.**  Row `t` of the selection is `t` strides away from the
opening of the slice, if that is a row. -/
theorem getElem?_indices {s : Slice} (hs : s.stride ≠ 0) (n t i : Nat) :
    (s.indices n)[t]? = some i ↔ i < n ∧ (i : Int) = s.opening n + t * s.stride := by
  obtain ⟨start, stride⟩ := s
  have hpos : 0 < stride.natAbs := Int.natAbs_pos.mpr hs
  have hcast : ((t * stride.natAbs : Nat) : Int) = t * |stride| := by
    rw [Nat.cast_mul, Int.natCast_natAbs]
  rcases lt_or_gt_of_ne hs with hneg | hforwards
  · have habs : (t : Int) * stride = -((t * stride.natAbs : Nat) : Int) := by
      rw [hcast, abs_of_neg hneg, mul_neg, neg_neg]
    simp only [indices, opening, if_neg hneg.not_gt, if_pos hneg, getElem?_map_range,
      lt_strides_iff hpos, habs]
    generalize t * stride.natAbs = steps
    cases start with
    | none =>
      simp only [reached, Option.elim_none]
      omega
    | some start =>
      simp only [reached, Option.elim_some]
      omega
  · have habs : (t : Int) * stride = ((t * stride.natAbs : Nat) : Int) := by
      rw [hcast, abs_of_pos hforwards]
    simp only [indices, opening, if_pos hforwards, getElem?_map_range, lt_strides_iff hpos, habs]
    generalize t * stride.natAbs = steps
    cases start with
    | none =>
      simp only [skipped, Option.elim_none]
      omega
    | some start =>
      simp only [skipped, Option.elim_some]
      omega

/-- Every place that is selected is that of a row. -/
theorem map_some_select {s : Slice} (hs : s.stride ≠ 0) (xs : List β) :
    (s.select xs).map some = (s.indices xs.length).map (xs[·]?) := by
  have hrows : ∀ i ∈ s.indices xs.length, i < xs.length := by
    intro i hi
    obtain ⟨t, ht⟩ := List.getElem?_of_mem hi
    exact ((getElem?_indices hs xs.length t i).mp ht).1
  rw [select_eq_filterMap]
  generalize s.indices xs.length = picked at hrows
  induction picked with
  | nil => rfl
  | cons i picked ih =>
    obtain ⟨hi, hrest⟩ := List.forall_mem_cons.mp hrows
    rw [List.filterMap_cons_some (List.getElem?_eq_getElem hi), List.map_cons, List.map_cons,
      ih hrest, List.getElem?_eq_getElem hi]

theorem length_select {s : Slice} (hs : s.stride ≠ 0) (xs : List β) :
    (s.select xs).length = (s.indices xs.length).length := by
  simpa using congrArg List.length (map_some_select hs xs)

theorem getElem?_select {s : Slice} (hs : s.stride ≠ 0) (xs : List β) (t : Nat) :
    (s.select xs)[t]? = ((s.indices xs.length)[t]?).bind (xs[·]?) := by
  have hplaces := congrArg (·[t]?) (map_some_select hs xs)
  simp only [List.getElem?_map] at hplaces
  rcases hi : (s.indices xs.length)[t]? with _ | i
  · simpa [hi] using hplaces
  · rw [hi, Option.map_some] at hplaces
    obtain ⟨x, hx, hxi⟩ := Option.map_eq_some_iff.mp hplaces
    rw [hx, Option.bind_some, ← hxi]

end Slice

/-! ## The walkers of a selection -/

namespace Chain

variable {V α β : Type}

/-- The walker `i` in the sweep `t`. -/
def walker? (c : Chain V β) (t i : Nat) : Option (Walker V β) :=
  (c.sweeps[t]?).bind (·.walkers[i]?)

/-- The walkers in the sweeps that a slice selects, one sweep after the other. -/
def selectedWalkers (c : Chain V β) (s : Slice) : List (Walker V β) :=
  (c.retained s).flatMap Ensemble.walkers

/-- The flattened table of log-densities has one entry for each selected walker. -/
theorem merged_logProbTable (c : Chain V β) (s : Slice) :
    (c.logProbTable s).merged =
      ⟨[(c.retained s).length * c.size], (c.selectedWalkers s).map (·.logProb)⟩ := by
  have hentries : (c.logProbs s).flatten = (c.selectedWalkers s).map (·.logProb) := by
    rw [selectedWalkers, List.map_flatMap, logProbs, List.flatMap_def]
    rfl
  rw [logProbTable, hentries, logProbs, List.length_map]
  rfl

namespace Regular

variable {c : Chain (Point α) β} (hc : c.Regular) {s : Slice}

include hc

theorem length_walkers {e : Ensemble (Point α) β} (he : e ∈ c.retained s) :
    e.walkers.length = c.size := by
  rw [← (hc.shaped_of_mem_retained he).positions, Ensemble.positions, List.length_map]

theorem length_selectedWalkers :
    (c.selectedWalkers s).length = (c.retained s).length * c.size := by
  rw [selectedWalkers, List.length_flatMap, List.map_congr_left fun _ he => hc.length_walkers he,
    List.map_const', List.sum_replicate, smul_eq_mul]

/-- Which walker it is that comes at a place. -/
theorem getElem?_selectedWalkers (hs : s.stride ≠ 0) (r : Nat) :
    (c.selectedWalkers s)[r]? =
      ((s.indices c.length)[r / c.size]?).bind fun t => c.walker? t (r % c.size) := by
  have hsize : 0 < c.size := Nat.lt_of_lt_of_le (by decide) hc.walkers
  have hrows : ∀ row ∈ (c.retained s).map Ensemble.walkers, row.length = c.size :=
    List.forall_mem_map.mpr fun _ he => hc.length_walkers he
  rw [selectedWalkers, List.flatMap_def, Tensor.getElem?_flatten hsize hrows, List.getElem?_map, retained,
    Slice.getElem?_select hs, length_sweeps, Option.map_bind, Option.bind_assoc]
  simp only [walker?, Function.comp_apply, Option.bind_map]

/-- The flattened table of positions has one row for each selected walker. -/
theorem merged_positionTable :
    (c.positionTable s).merged.shape = [(c.retained s).length * c.size, c.dims] ∧
      (c.positionTable s).merged.slabs =
        (c.selectedWalkers s).map fun w => w.position.coords := by
  have hrows : ∀ row ∈ (c.selectedWalkers s).map fun w => w.position.coords,
      row.length = Tensor.count [c.dims] := by
    refine List.forall_mem_map.mpr fun w hw => ?_
    obtain ⟨e, he, hw⟩ := List.mem_flatMap.mp hw
    have hrow := (hc.shaped_of_mem_retained he).rows _ (List.mem_map_of_mem hw)
    exact hrow.trans (Nat.mul_one c.dims).symm
  have hentries : ((c.positions s).flatMap fun xs => xs.flatMap Point.coords) =
      ((c.selectedWalkers s).map fun w => w.position.coords).flatten := by
    rw [← List.flatMap_def, selectedWalkers, List.flatMap_assoc, positions, List.flatMap_map]
    simp only [Ensemble.positions, List.flatMap_map]
  have hslabs := Tensor.slabs_flatten hrows
  rw [List.length_map, hc.length_selectedWalkers] at hslabs
  have htable : (c.positionTable s).merged = ⟨[(c.retained s).length * c.size, c.dims],
      ((c.selectedWalkers s).map fun w => w.position.coords).flatten⟩ := by
    rw [positionTable, hentries, positions, List.length_map]
    rfl
  rw [htable]
  exact ⟨rfl, hslabs⟩

end Regular

/-! ## Answers -/

namespace Opened

variable {o : Opened} (memory : Memory) (discard : Option Int) {thin : Option Int}

theorem answer_flatPositions (hthin : thin ≠ some 0) (hlayout : o.requireLayout = .ok ()) :
    o.answer memory (.positions (.ofPlace discard) (.ofPlace thin) (.flag true)) =
      .ok (.table (o.chain.positionTable ⟨discard, thin.getD 1⟩).merged) := by
  rw [answer, hlayout, Slice.ofArguments_ofPlace discard hthin]
  rfl

theorem answer_flatLogProbs (hthin : thin ≠ some 0) (hlayout : o.requireWalkerLayout = .ok ()) :
    o.answer memory (.logProbs (.ofPlace discard) (.ofPlace thin) (.flag true)) =
      .ok (.table (o.chain.logProbTable ⟨discard, thin.getD 1⟩).merged) := by
  rw [answer, hlayout, Slice.ofArguments_ofPlace discard hthin]
  rfl

/-- **Flattened positions and log-densities are aligned.**  Let all sweeps of a chain have its
shape, and let the number of its dimensions be given as an integer.  Let a slice with any start and
any stride but zero, or without them, select the sweeps `picked`: its opening and what is whole
strides away from it, as far as there are sweeps.

If the bytes of the axes can be addressed, then the flattened positions and the flattened
log-densities are answered, each with as many entries as there are sweeps selected times walkers.
Entry `r` of the one is the position, and entry `r` of the other the log-density, of the walker
`r % n` in the sweep `picked[r / n]`, where `n` is the number of walkers.  If the bytes cannot be
addressed, then there are no positions. -/
theorem flattened_aligned (hregular : o.chain.Regular) (hdims : o.dims = .integer o.chain.dims)
    (hthin : thin ≠ some 0) :
    let s : Slice := ⟨discard, thin.getD 1⟩
    let picked := s.indices o.chain.length
    (∀ t i : Nat, picked[t]? = some i ↔
      i < o.chain.length ∧ (i : Int) = s.opening o.chain.length + t * s.stride) ∧
    if Layout.span [o.chain.length, o.chain.size, o.chain.dims] ≤ addressable then
      ∃ p l : Tensor Float,
        o.perform memory (.positions (.ofPlace discard) (.ofPlace thin) (.flag true)) =
          (.ok (.table p), o) ∧
        o.perform memory (.logProbs (.ofPlace discard) (.ofPlace thin) (.flag true)) =
          (.ok (.table l), o) ∧
        p.shape = [picked.length * o.chain.size, o.chain.dims] ∧
        l.shape = [picked.length * o.chain.size] ∧
        p.slabs.length = picked.length * o.chain.size ∧
        l.entries.length = picked.length * o.chain.size ∧
        ∀ r < picked.length * o.chain.size, ∃ t w,
          picked[r / o.chain.size]? = some t ∧ o.chain.walker? t (r % o.chain.size) = some w ∧
          p.slabs[r]? = some w.position.coords ∧ l.entries[r]? = some w.logProb
    else
      o.perform memory (.positions (.ofPlace discard) (.ofPlace thin) (.flag true)) =
        (.error .malformed, o) := by
  intro s picked
  have hstride : s.stride ≠ 0 := Slice.stride_ne_zero hthin
  have hpicked : (o.chain.retained s).length = picked.length := by
    rw [retained, Slice.length_select hstride, length_sweeps]
  refine ⟨Slice.getElem?_indices hstride _, ?_⟩
  have hlayout := requireLayout_eq hdims
  split at hlayout
  · rename_i hroom
    rw [if_pos hroom]
    obtain ⟨hshape, hslabs⟩ := hregular.merged_positionTable (s := s)
    have hlogProbs := o.chain.merged_logProbTable s
    have hwalkers := hregular.length_selectedWalkers (s := s)
    rw [hpicked] at hshape hlogProbs hwalkers
    have hlogs := answer_flatLogProbs memory discard hthin
      (requireWalkerLayout_eq_ok hregular.dims hroom)
    refine ⟨_, _, congrArg (·, o) (answer_flatPositions memory discard hthin hlayout), congrArg (·, o) hlogs,
      hshape, ?_, ?_, ?_, fun r hr => ?_⟩
    · rw [hlogProbs]
    · rw [hslabs, List.length_map, hwalkers]
    · rw [hlogProbs, List.length_map, hwalkers]
    · have hw := List.getElem?_eq_getElem (hwalkers ▸ hr)
      have hplace := hregular.getElem?_selectedWalkers hstride r
      rw [hw] at hplace
      obtain ⟨t, ht, hwalker⟩ := Option.bind_eq_some_iff.mp hplace.symm
      refine ⟨t, _, ht, hwalker, ?_, ?_⟩
      · rw [hslabs, List.getElem?_map, hw, Option.map_some]
      · rw [hlogProbs, List.getElem?_map, hw, Option.map_some]
  · rename_i hroom
    rw [if_neg hroom]
    refine congrArg (·, o) ?_
    rw [answer, hlayout]
    rfl

/-- Two sweeps of three walkers on a line, taken backwards: the fifth entry is the second walker in
the first sweep. -/
theorem flattened_aligned_backwards :
    let sweep (x : Float) : Ensemble (Point Float) Float :=
      ⟨1, [⟨⟨[x]⟩, -1.0, 1.0⟩, ⟨⟨[x + 1.0]⟩, -2.0, 0.5⟩, ⟨⟨[x + 2.0]⟩, -3.0, 0.0⟩]⟩
    let o : Opened := ⟨⟨3, 1, [sweep 5.0, sweep 0.0]⟩, .integer 1⟩
    let memory : Memory := .upTo 1024
    o.chain.Regular ∧ (some (-1 : Int)) ≠ some 0 ∧ ∃ p l : Tensor Float,
      o.perform memory (.positions .absent (.integer (-1)) (.flag true)) = (.ok (.table p), o) ∧
      o.perform memory (.logProbs .absent (.integer (-1)) (.flag true)) = (.ok (.table l), o) ∧
      p.shape = [6, 1] ∧ l.shape = [6] ∧
      p.slabs[4]? = some [0.0 + 1.0] ∧ l.entries[4]? = some (-2.0) := by
  intro sweep o memory
  have hshaped : ∀ x, (sweep x).Shaped 3 1 := fun x =>
    ⟨rfl, rfl, by simp [sweep, Ensemble.positions, Point.dim], rfl, rfl⟩
  have hregular : o.chain.Regular := ⟨by decide, by decide, by simp [o, sweeps, hshaped]⟩
  have hthin : (some (-1 : Int)) ≠ some 0 := by decide
  have hroom : Layout.span [o.chain.length, o.chain.size, o.chain.dims] ≤ addressable :=
    show Layout.span [2, 3, 1] ≤ addressable by decide +kernel
  obtain ⟨-, haligned⟩ := flattened_aligned memory none hregular rfl hthin
  rw [if_pos hroom] at haligned
  obtain ⟨p, l, hp, hl, hpshape, hlshape, -, -, hentries⟩ := haligned
  obtain ⟨t, w, ht, hw, hpr, hlr⟩ := hentries 4 (by decide)
  have hsweep : ((Slice.mk none (-1)).indices 2)[4 / 3]? = some 0 := by decide
  obtain rfl : 0 = t := Option.some.inj (hsweep.symm.trans ht)
  have hwalker : o.chain.walker? 0 (4 % 3) = some ⟨⟨[0.0 + 1.0]⟩, -2.0, 0.5⟩ := rfl
  obtain rfl := Option.some.inj (hwalker.symm.trans hw)
  have hcount : ((Slice.mk none (-1)).indices 2).length = 2 := by decide
  exact ⟨hregular, hthin, p, l, hp, hl, hpshape.trans (congrArg (fun m => [m * 3, 1]) hcount),
    hlshape.trans (congrArg (fun m => [m * 3]) hcount), hpr, hlr⟩

/-- Chains that have no flattened positions: one without sweeps has too many walkers, and of one
with a sweep the number of dimensions was given as a truth value. -/
theorem flatPositions_not_laid_out :
    (∃ o : Opened, ofCounts (.integer 4611686018427387904) (.integer 4) = .ok o ∧
      o.chain.Regular ∧
      ∀ memory, o.perform memory (.positions (.integer 0) (.integer 1) (.flag true)) =
        (.error .malformed, o)) ∧
    ∃ o o' : Opened, ofCounts (.integer 3) (.flag true) = .ok o ∧ o'.chain.Regular ∧
      ∀ memory,
        o.perform memory (.record (.ofRows [[1.0], [2.0], [3.0]]) .absent .absent) =
          (.ok (.count 1), o') ∧
        o'.perform memory (.positions (.integer 0) (.integer 1) (.flag true)) =
          (.error .unsupported, o') := by
  constructor
  · have hcounts : ofCounts (.integer 4611686018427387904) (.integer 4) =
        .ok ⟨⟨4611686018427387904, 4, []⟩, .integer 4⟩ := rfl
    have hroom : ¬ Layout.span [0, 4611686018427387904, 4] ≤ addressable := by decide +kernel
    refine ⟨_, hcounts, (kept_ofCounts hcounts).regular, fun memory => congrArg (·, _) ?_⟩
    rw [answer, requireLayout_eq rfl]
    exact congrArg (· >>= _) (if_neg hroom)
  · let empty : Opened := ⟨⟨3, 1, []⟩, .flag true⟩
    let rows : Argument := .ofRows [[1.0], [2.0], [3.0]]
    let e : Ensemble (Point Float) Float := .start 1 [⟨[1.0]⟩, ⟨[2.0]⟩, ⟨[3.0]⟩]
    let o : Opened := ⟨⟨3, 1, [e]⟩, .flag true⟩
    have hcounts : ofCounts (.integer 3) (.flag true) = .ok empty := rfl
    have he : Ensemble.ofArguments rows .absent .absent = .ok e := rfl
    have hrecord : ∀ memory,
        empty.perform memory (.record rows .absent .absent) = (.ok (.count 1), o) := fun memory =>
      (perform_record he empty memory).trans (if_pos ⟨rfl, rfl⟩)
    have hkept : o.Kept := by
      have hrecorded := (kept_ofCounts hcounts).record (.upTo 0) rows .absent .absent
      rwa [hrecord] at hrecorded
    have hsize : Layout.lengthOf (.integer o.chain.size) = .ok 3 :=
      Layout.lengthOf_natCast (show 3 ≤ addressable by decide +kernel)
    refine ⟨empty, o, hcounts, hkept.regular, fun memory => ⟨hrecord memory, ?_⟩⟩
    refine congrArg (·, o) ?_
    rw [answer, requireLayout, hsize]
    rfl

end Opened

end Chain

end EnsembleSampling
