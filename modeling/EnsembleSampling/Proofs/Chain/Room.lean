import EnsembleSampling.Chain.Call
import Mathlib.Order.Nat
set_option autoImplicit false

/-!
# Room for the tables of a chain

The positions of a chain are laid out by the lengths of their axes, and these can be too large even
if no sweep was recorded.  `Chain.Opened.requireLayout_eq` says when they are, and
`Chain.Opened.requireLayout_flag` what becomes of a number of dimensions that was given as a truth
value.  The fewer sweeps, the less room they take (`Layout.span_le_of_le`).
-/

namespace EnsembleSampling

namespace Layout

/-! ## Bytes of the axes -/

theorem count_pos {shape : List Nat} (h : ∀ n ∈ shape, n ≠ 0) : 0 < Tensor.count shape := by
  induction shape with
  | nil => exact Nat.one_pos
  | cons m shape ih =>
    obtain ⟨hm, hrest⟩ := List.forall_mem_cons.mp h
    exact Nat.mul_pos (Nat.pos_of_ne_zero hm) (ih hrest)

theorem le_count {shape : List Nat} (h : ∀ n ∈ shape, n ≠ 0) :
    ∀ n ∈ shape, n ≤ Tensor.count shape := by
  induction shape with
  | nil => nofun
  | cons m shape ih =>
    obtain ⟨hm, hrest⟩ := List.forall_mem_cons.mp h
    refine List.forall_mem_cons.mpr ⟨Nat.le_mul_of_pos_right m (count_pos hrest), fun n hn => ?_⟩
    exact (ih hrest n hn).trans (Nat.le_mul_of_pos_left _ (Nat.pos_of_ne_zero hm))

/-- One axis takes no more room than all of them. -/
theorem span_singleton_le {shape : List Nat} {n : Nat} (hn : n ∈ shape) :
    span [n] ≤ span shape := by
  have hcounted : ∀ m ∈ shape.filter (· != 0), m ≠ 0 := fun m hm => by
    simpa using (List.mem_filter.mp hm).2
  refine Nat.mul_le_mul_left bytesPerDouble ?_
  by_cases hzero : n = 0
  · subst hzero
    exact count_pos hcounted
  · have hfilter : n ∈ shape.filter (· != 0) := List.mem_filter.mpr ⟨hn, by simpa using hzero⟩
    simpa [hzero, Tensor.count] using le_count hcounted n hfilter

/-- An axis is not longer than the bytes of all axes. -/
theorem le_span {shape : List Nat} {n : Nat} (hn : n ∈ shape) : n ≤ span shape := by
  refine Nat.le_trans ?_ (span_singleton_le hn)
  by_cases hzero : n = 0
  · omega
  · have hspan : span [n] = 8 * n := by simp [span, hzero, Tensor.count, bytesPerDouble]
    omega

/-- A further axis takes more room. -/
theorem span_le_append (shape : List Nat) {n : Nat} (hn : n ≠ 0) :
    span shape ≤ span (shape ++ [n]) := by
  have hcount : ∀ ms : List Nat, Tensor.count (ms ++ [n]) = Tensor.count ms * n := by
    intro ms
    induction ms with
    | nil => simp [Tensor.count]
    | cons m ms ih => rw [List.cons_append, Tensor.count_cons, Tensor.count_cons, ih, Nat.mul_assoc]
  have hlast : [n].filter (· != 0) = [n] := by simp [hn]
  rw [span, span, List.filter_append, hlast, hcount]
  exact Nat.mul_le_mul_left _ (Nat.le_mul_of_pos_right _ (Nat.pos_of_ne_zero hn))

/-- A table with fewer rows takes no more room. -/
theorem span_le_of_le {m n : Nat} (hmn : m ≤ n) (shape : List Nat) :
    span (m :: shape) ≤ span (n :: shape) := by
  rcases Nat.eq_zero_or_pos m with rfl | hm
  · rcases Nat.eq_zero_or_pos n with rfl | hn
    · exact Nat.le_refl _
    · have hn' : n ≠ 0 := Nat.ne_of_gt hn
      simpa [span, hn', Tensor.count_cons] using
        Nat.mul_le_mul_left bytesPerDouble (Nat.le_mul_of_pos_left _ hn)
  · have hm' : m ≠ 0 := Nat.ne_of_gt hm
    have hn' : n ≠ 0 := Nat.ne_of_gt (Nat.lt_of_lt_of_le hm hmn)
    simpa [span, hm', hn', Tensor.count_cons] using
      Nat.mul_le_mul_left bytesPerDouble (Nat.mul_le_mul_right _ hmn)

theorem check_of_span_le {shape shape' : List Nat} (hspan : span shape' ≤ span shape)
    (h : check shape = .ok ()) : check shape' = .ok () := by
  unfold check at h ⊢
  by_cases hroom : addressable < span shape
  · rw [if_pos hroom] at h
    cases h
  · exact if_neg fun hmore => hroom (Nat.lt_of_lt_of_le hmore hspan)

/-- Where all axes are laid out, one of them can be stored if there is memory for it. -/
theorem checkStored_axis (memory : Memory) {shape : List Nat} {n : Nat} (hn : n ∈ shape)
    (hroom : span shape ≤ addressable) :
    checkStored memory [n] =
      if memory.holds (bytesPerDouble * n) then .ok () else .error .outOfMemory := by
  have hlaid : ¬ addressable < span [n] := Nat.not_lt.mpr ((span_singleton_le hn).trans hroom)
  have hcount : Tensor.count [n] = n := Nat.mul_one n
  rw [checkStored_eq, if_neg hlaid, hcount]

/-! ## Lengths -/

/-- A length that can be addressed fits a machine word, and no other does. -/
theorem lengthOf_natCast_eq (n : Nat) :
    lengthOf (.integer n) = if n ≤ addressable then .ok (n : Int) else .error .malformed := by
  have hpos := pow2_pos 63
  have hfits : Argument.fitsWord n = true ↔ n ≤ addressable := by
    rw [Argument.fitsWord, decide_eq_true_iff, addressable]
    omega
  simp only [lengthOf, hfits]

theorem lengthOf_natCast {n : Nat} (hn : n ≤ addressable) :
    lengthOf (.integer n) = .ok (n : Int) := by
  rw [lengthOf_natCast_eq, if_pos hn]

end Layout

namespace Chain

namespace Opened

/-! ## Positions and log-densities -/

theorem requireLayout_eq_ok_iff {o : Opened} : o.requireLayout = .ok () ↔
    ∃ walkers, Layout.lengthOf (.integer o.chain.size) = .ok walkers ∧
      ∃ d, Layout.lengthOf o.dims = .ok d ∧
        Layout.check [o.chain.length, walkers.toNat, d.toNat] = .ok () := by
  unfold requireLayout
  generalize Layout.lengthOf (.integer o.chain.size) = walkers
  generalize Layout.lengthOf o.dims = d
  cases walkers <;> cases d <;> simp [bind, Except.bind]

theorem requireLayout_of_length_le {c b : OfPoints} {dims : Argument} (hsize : c.size = b.size)
    (hlength : b.length ≤ c.length) (hc : (⟨c, dims⟩ : Opened).requireLayout = .ok ()) :
    (⟨b, dims⟩ : Opened).requireLayout = .ok () := by
  obtain ⟨walkers, hwalkers, d, hd, hcheck⟩ := requireLayout_eq_ok_iff.mp hc
  refine requireLayout_eq_ok_iff.mpr ⟨walkers, hsize ▸ hwalkers, d, hd, ?_⟩
  exact Layout.check_of_span_le (Layout.span_le_of_le hlength _) hcheck

/-- The positions can be laid out just if the bytes of their axes can be addressed. -/
theorem requireLayout_eq {o : Opened} (hdims : o.dims = .integer o.chain.dims) :
    o.requireLayout =
      if Layout.span [o.chain.length, o.chain.size, o.chain.dims] ≤ addressable then .ok ()
      else .error .malformed := by
  obtain ⟨c, d⟩ := o
  obtain rfl : d = .integer c.dims := hdims
  have hsize : c.size ≤ Layout.span [c.length, c.size, c.dims] := Layout.le_span (by simp)
  have hdims : c.dims ≤ Layout.span [c.length, c.size, c.dims] := Layout.le_span (by simp)
  rw [requireLayout]
  split
  · rename_i hroom
    rw [Layout.lengthOf_natCast (hsize.trans hroom), Layout.lengthOf_natCast (hdims.trans hroom)]
    exact if_neg (Nat.not_lt.mpr hroom)
  · rename_i hroom
    simp only [Layout.lengthOf_natCast_eq]
    split
    · split
      · exact if_pos (Nat.not_le.mp hroom)
      · rfl
    · rfl

/-- By a truth value they cannot be laid out. -/
theorem requireLayout_flag (c : OfPoints) (b : Bool) :
    (⟨c, .flag b⟩ : Opened).requireLayout =
      if c.size ≤ addressable then .error .unsupported else .error .malformed := by
  rw [requireLayout, Layout.lengthOf_natCast_eq]
  split <;> rfl

/-- The log-densities take no more room than the positions. -/
theorem requireWalkerLayout_eq_ok {o : Opened} (hdims : 0 < o.chain.dims)
    (hroom : Layout.span [o.chain.length, o.chain.size, o.chain.dims] ≤ addressable) :
    o.requireWalkerLayout = .ok () := by
  have hsize : o.chain.size ≤ Layout.span [o.chain.length, o.chain.size, o.chain.dims] :=
    Layout.le_span (by simp)
  have hspan : Layout.span [o.chain.length, o.chain.size] ≤
      Layout.span [o.chain.length, o.chain.size, o.chain.dims] :=
    Layout.span_le_append [o.chain.length, o.chain.size] hdims.ne'
  rw [requireWalkerLayout, Layout.lengthOf_natCast (hsize.trans hroom)]
  exact if_neg (Nat.not_lt.mpr (hspan.trans hroom))

end Opened

end Chain

end EnsembleSampling
