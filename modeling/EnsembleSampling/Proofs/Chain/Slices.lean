import EnsembleSampling.Chain.Slice
import Mathlib.Data.List.Basic
set_option autoImplicit false

/-!
# Forward slices

A slice that goes forwards has two parts that do not depend on each other: the rows before its
start are dropped, and every so many of the others are taken (`Slice.select_eq_drop`).  With a
stride of one that is all of the others, and with any stride it is one of them at least, if
there is one.
-/

namespace EnsembleSampling.Slice

variable {β γ : Type}

/-! ## Starts -/

theorem skipped_zero (n : Nat) : skipped n (some 0) = 0 := by simp [skipped, fromFront]

/-- A start that is counted from the front. -/
theorem skipped_front {m n : Nat} (hm : m ≤ n) : skipped n (some (m : Int)) = m := by
  simp only [skipped, fromFront]
  omega

/-- A start that is counted from the end. -/
theorem skipped_back {m n : Nat} (hm : 0 < m) (hn : m ≤ n) :
    skipped n (some (-(m : Int))) = n - m := by
  simp only [skipped, fromFront]
  omega

/-! ## Selections -/

theorem select_eq_filterMap (s : Slice) (xs : List β) :
    s.select xs = (s.indices xs.length).filterMap (xs[·]?) := by
  simp [select]

/-- Selected rows of a list are rows of it. -/
theorem mem_of_mem_select {s : Slice} {xs : List β} {x : β} (hx : x ∈ s.select xs) : x ∈ xs := by
  rw [select_eq_filterMap] at hx
  obtain ⟨i, -, hi⟩ := List.mem_filterMap.mp hx
  exact List.mem_of_getElem? hi

/-- Which rows are selected does not depend on what is in them. -/
theorem select_map (s : Slice) (f : β → γ) (xs : List β) :
    s.select (xs.map f) = (s.select xs).map f := by
  rw [select_eq_filterMap, select_eq_filterMap, List.length_map, List.map_filterMap]
  exact List.filterMap_congr fun i _ => List.getElem?_map

section

variable {k : Int} (hk : 0 < k) (start : Option Int) (xs : List β)

include hk

/-- A forward slice drops what is before its start, and then begins at the front. -/
theorem select_eq_drop :
    (mk start k).select xs = (mk (some 0) k).select (xs.drop (skipped xs.length start)) := by
  rw [select_eq_filterMap, select_eq_filterMap]
  simp only [indices, if_pos hk, List.filterMap_map, List.length_drop, skipped_zero,
    Nat.sub_zero]
  refine List.filterMap_congr fun i _ => ?_
  simp only [Function.comp_apply, List.getElem?_drop, Nat.zero_add]

/-- It selects a row if there is one from its start on. -/
theorem select_eq_nil_iff :
    (mk start k).select xs = [] ↔ xs.drop (skipped xs.length start) = [] := by
  rw [select_eq_drop hk]
  generalize xs.drop (skipped xs.length start) = rest
  refine ⟨fun hnone => ?_, fun hrest => by rw [hrest]; simp [select]⟩
  by_contra hrest
  obtain ⟨x, rest, rfl⟩ := List.exists_cons_of_ne_nil hrest
  -- the row at the start is the first one that is selected
  have hmem : 0 ∈ (mk (some 0) k).indices (x :: rest).length := by
    have hstrides : 0 < strides (x :: rest).length k.natAbs := by
      refine Nat.div_pos ?_ (by omega)
      rw [List.length_cons]
      omega
    simp only [indices, if_pos hk, skipped_zero, Nat.sub_zero]
    exact List.mem_map.mpr ⟨0, List.mem_range.mpr hstrides, by simp⟩
  have hx : x ∈ (mk (some 0) k).select (x :: rest) := by
    rw [select_eq_filterMap]
    exact List.mem_filterMap.mpr ⟨0, hmem, rfl⟩
  rw [hnone] at hx
  exact List.not_mem_nil hx

end

/-- All places of a list, looked up in order. -/
theorem filterMap_range_getElem? (xs : List β) :
    (List.range xs.length).filterMap (xs[·]?) = xs := by
  induction xs with
  | nil => rfl
  | cons x xs ih =>
    have hfirst : (x :: xs)[0]? = some x := rfl
    rw [List.length_cons, List.range_succ_eq_map, List.filterMap_cons_some hfirst,
      List.filterMap_map]
    exact congrArg (x :: ·) ih

/-- With a stride of one nothing else is left out. -/
theorem select_startingAt (start : Option Int) (xs : List β) :
    (startingAt start).select xs = xs.drop (skipped xs.length start) := by
  rw [startingAt, select_eq_drop Int.one_pos]
  generalize xs.drop (skipped xs.length start) = rest
  rw [select_eq_filterMap]
  have hindices : (mk (some 0) 1).indices rest.length = List.range rest.length := by
    simp [indices, skipped_zero, strides_one]
  rw [hindices, filterMap_range_getElem?]

/-! ## What is put in front -/

/-- A slice of a list that begins behind a first part is a slice of the other part. -/
theorem select_append {k : Int} (hk : 0 < k) (front xs : List β) :
    (mk (some front.length) k).select (front ++ xs) = (mk (some 0) k).select xs := by
  rw [select_eq_drop hk, skipped_front (by simp), List.drop_left]

/-- So is one that begins as far from the end as the other part is long, if it is not empty. -/
theorem select_append_back {k : Int} (hk : 0 < k) (front : List β) {xs : List β} (hxs : xs ≠ []) :
    (mk (some (-(xs.length : Int))) k).select (front ++ xs) = (mk (some 0) k).select xs := by
  have hlength : 0 < xs.length := List.length_pos_iff.mpr hxs
  rw [select_eq_drop hk, skipped_back hlength (by simp), List.length_append,
    Nat.add_sub_cancel, List.drop_left]

/-! ## Arguments -/

/-- A start and a stride that are given as integers. -/
theorem ofArguments_integer (first : Int) {stride : Int} (hstride : stride ≠ 0) :
    ofArguments (.integer first) (.integer stride) = .ok ⟨some first, stride⟩ := by
  simp [ofArguments, placeOf, Argument.index, Argument.integral?, Except.map, bind, Except.bind,
    hstride, pure, Except.pure]

end EnsembleSampling.Slice
