import EnsembleSampling.Proofs.Autocorrelation.Padding
import EnsembleSampling.Proofs.Autocorrelation.Transform
import EnsembleSampling.Proofs.Number.Summation
set_option autoImplicit false

/-!
# Autocorrelation by lag sums

In exact arithmetic the lag products that are read off the transform of a padded sequence are
the sums of the products of entries that far apart (`lagProducts_eq`).  The power spectrum turned
back is a sum over all pairs of entries, of which the orthogonality of the powers of a root of
unity leaves those whose places differ by the lag, up to a multiple of the length
(`sum_turned_pair`); as the length is at least twice that of the sequence, the multiple is zero.
-/

namespace EnsembleSampling.Autocorrelation

open EnsembleSampling.Fourier
open Cartesian (ofComplex)
open scoped ComplexConjugate

/-! ## The power spectrum -/

/-- The powers of a root of unity are orthogonal. -/
theorem sum_turned_pair {M a c : Nat} (ha : a < M) (hc : c < M) :
    ∑ k ∈ Finset.range M, (unity .clockwise M ^ a * unity .counterclockwise M ^ c) ^ k =
      if a = c then (M : ℂ) else 0 := by
  have hM : M ≠ 0 := Nat.ne_zero_of_lt ha
  have hroot := isPrimitiveRoot_unity .clockwise hM
  have hinverse := unity_clockwise_mul_counterclockwise hM
  split
  · rename_i h
    subst h
    rw [← mul_pow, hinverse, one_pow]
    simp
  · rename_i h
    set z := unity .clockwise M ^ a * unity .counterclockwise M ^ c with hz
    have hne : z - 1 ≠ 0 := by
      refine sub_ne_zero.mpr fun hone => h (hroot.pow_inj ha hc ?_)
      calc unity .clockwise M ^ a
          = z * unity .clockwise M ^ c := by
            rw [hz, mul_assoc, ← mul_pow, mul_comm (unity .counterclockwise M), hinverse, one_pow,
              mul_one]
        _ = unity .clockwise M ^ c := by rw [hone, one_mul]
    have hpow : z ^ M = 1 := by
      rw [hz, mul_pow, pow_right_comm, hroot.pow_eq_one, one_pow, one_mul, pow_right_comm,
        (isPrimitiveRoot_unity .counterclockwise hM).pow_eq_one, one_pow]
    have hsum := geom_sum_mul z M
    rw [hpow, sub_self] at hsum
    exact (mul_eq_zero.mp hsum).resolve_right hne

/-- Zeros at the end do not count. -/
theorem dft_of_zeros (w : ℂ) {n M : Nat} (hM : n ≤ M) {f : Nat → ℂ} (hf : ∀ i, n ≤ i → f i = 0)
    (k : Nat) : dft w M f k = dft w n f k := by
  refine (Finset.sum_subset (Finset.range_subset_range.mpr hM) fun i _ hi => ?_).symm
  rw [hf i (by simpa using hi), mul_zero]

theorem conj_dft (M n : Nat) (x : Nat → ℝ) (k : Nat) :
    conj (dft (unity .clockwise M) n (fun i => x i) k) =
      dft (unity .counterclockwise M) n (fun i => x i) k := by
  simp only [dft, map_sum, map_mul, map_pow, conj_unity_clockwise, Complex.conj_ofReal]

/-- The power spectrum of a sequence that is padded to twice its length, turned back. -/
theorem dft_power {n M t : Nat} (hM : 2 * n ≤ M) (ht : t < n) {x : Nat → ℝ}
    (hx : ∀ i, n ≤ i → x i = 0) :
    dft (unity .counterclockwise M) M
        (fun k => dft (unity .clockwise M) M (fun i => x i) k *
          conj (dft (unity .clockwise M) M (fun i => x i) k)) t =
      M * ∑ i ∈ Finset.range (n - t), ((x i * x (i + t) : ℝ) : ℂ) := by
  have hzeros : ∀ i, n ≤ i → (x i : ℂ) = 0 := fun i hi => by rw [hx i hi, Complex.ofReal_zero]
  have hspectrum : ∀ k, dft (unity .clockwise M) M (fun i => x i) k =
      dft (unity .clockwise M) n (fun i => x i) k := dft_of_zeros _ (by omega) hzeros
  have hterm : ∀ k, unity .counterclockwise M ^ (k * t) *
      (dft (unity .clockwise M) n (fun i => x i) k *
        dft (unity .counterclockwise M) n (fun i => x i) k) =
      ∑ b ∈ Finset.range n, ∑ a ∈ Finset.range n, (x a * x b : ℂ) *
        (unity .clockwise M ^ a * unity .counterclockwise M ^ (b + t)) ^ k := by
    intro k
    unfold dft
    rw [Finset.sum_mul_sum, Finset.sum_comm, Finset.mul_sum]
    refine Finset.sum_congr rfl fun b _ => ?_
    rw [Finset.mul_sum]
    refine Finset.sum_congr rfl fun a _ => ?_
    ring
  calc dft (unity .counterclockwise M) M
        (fun k => dft (unity .clockwise M) M (fun i => x i) k *
          conj (dft (unity .clockwise M) M (fun i => x i) k)) t
      = ∑ k ∈ Finset.range M, ∑ b ∈ Finset.range n, ∑ a ∈ Finset.range n, (x a * x b : ℂ) *
          (unity .clockwise M ^ a * unity .counterclockwise M ^ (b + t)) ^ k := by
        simp only [hspectrum, conj_dft, ← hterm]
        rfl
    _ = ∑ b ∈ Finset.range n, ∑ a ∈ Finset.range n, (x a * x b : ℂ) *
          ∑ k ∈ Finset.range M,
            (unity .clockwise M ^ a * unity .counterclockwise M ^ (b + t)) ^ k := by
        rw [Finset.sum_comm]
        refine Finset.sum_congr rfl fun b _ => ?_
        rw [Finset.sum_comm]
        exact Finset.sum_congr rfl fun a _ => (Finset.mul_sum ..).symm
    _ = ∑ b ∈ Finset.range n, ∑ a ∈ Finset.range n,
          if a = b + t then (x a * x b : ℂ) * M else 0 := by
        refine Finset.sum_congr rfl fun b hb => Finset.sum_congr rfl fun a ha => ?_
        rw [Finset.mem_range] at ha hb
        -- the places are apart by less than the length, so nothing wraps around
        rw [sum_turned_pair (by omega) (by omega), mul_ite, mul_zero]
    _ = ∑ b ∈ Finset.range n, (x (b + t) * x b : ℂ) * M := by
        refine Finset.sum_congr rfl fun b _ => ?_
        rw [Finset.sum_ite_eq']
        split
        · rfl
        · rename_i hb
          rw [hzeros (b + t) (by simpa using hb), zero_mul, zero_mul]
    _ = ∑ b ∈ Finset.range (n - t), (x (b + t) * x b : ℂ) * M := by
        refine (Finset.sum_subset (Finset.range_subset_range.mpr (Nat.sub_le n t))
          fun b _ hb => ?_).symm
        rw [hzeros (b + t) (by simp at hb; omega), zero_mul, zero_mul]
    _ = M * ∑ i ∈ Finset.range (n - t), ((x i * x (i + t) : ℝ) : ℂ) := by
        rw [Finset.mul_sum]
        refine Finset.sum_congr rfl fun b _ => ?_
        push_cast
        ring

/-! ## Lag products -/

/-- The entry of a list at a place, zero beyond its end. -/
def valueAt (ds : List ℝ) (i : Nat) : ℝ := (ds[i]?).getD 0

theorem valueAt_of_le {ds : List ℝ} {i : Nat} (h : ds.length ≤ i) : valueAt ds i = 0 := by
  rw [valueAt, List.getElem?_eq_none h, Option.getD_none]

/-- The sum of the products of the entries of a list that are `k` places apart. -/
def lagSum (ds : List ℝ) (k : Nat) : ℝ :=
  ∑ i ∈ Finset.range (ds.length - k), valueAt ds i * valueAt ds (i + k)

/-- A list that is padded with zeros is a sequence with zeros at the end. -/
theorem padTo_map_ofReal {M : Nat} {ds : List ℝ} (hM : ds.length ≤ M) :
    padTo M (.ofReal 0) (ds.map .ofReal) = points M fun i => (valueAt ds i : ℂ) := by
  have hlength : (padTo M (Cartesian.ofReal 0) (ds.map Cartesian.ofReal)).length = M :=
    length_padTo M _ _ (by rwa [List.length_map])
  apply List.ext_getElem (by rw [hlength, points, length_tabulate])
  intro i hi hi'
  simp only [padTo, points, tabulate, List.getElem_map, List.getElem_range,
    ← Cartesian.ofReal_eq, List.getElem_append, List.length_map]
  split
  · rename_i h
    simp [valueAt, h]
  · rename_i h
    simp [valueAt, h]

/-- The lag products of a sequence are the sums of the products of its entries. -/
theorem lagProducts_eq (ds : List ℝ) :
    lagProducts ds = (List.range ds.length).map (lagSum ds) := by
  set depth := (nextPowTwo ds.length).log2 + 1 with hdepth
  have hlength : 2 * nextPowTwo ds.length = pow2 depth := (pow2_depth ds.length).symm
  have hM : 2 * ds.length ≤ pow2 depth := by
    have := le_nextPowTwo ds.length
    omega
  have hpos : ((pow2 depth : Nat) : ℂ) ≠ 0 := Nat.cast_ne_zero.mpr (pow2_pos _).ne'
  have hpower : ∀ f : Nat → ℂ, (points (pow2 depth) f).map (fun z => z * z.conj) =
      points (pow2 depth) fun k => f k * conj (f k) := by
    intro f
    unfold points
    rw [map_tabulate]
    refine tabulate_congr fun k _ => ?_
    rw [Cartesian.conj_ofComplex, Cartesian.ofComplex_mul]
  have hpadded : padTo (pow2 depth) (.ofReal 0) (ds.map .ofReal) =
      points (pow2 depth) fun i => (valueAt ds i : ℂ) := padTo_map_ofReal (by omega)
  unfold lagProducts
  simp only [← hdepth, hlength, hpadded, forward_points, hpower, backward_points]
  unfold points
  rw [take_tabulate _ (by omega), map_tabulate]
  refine tabulate_congr fun t ht => ?_
  dsimp only
  rw [dft_power hM ht fun _ => valueAt_of_le, mul_div_cancel_left₀ _ hpos, ← Complex.ofReal_sum]
  rfl

/-! ## Autocorrelation -/

/-- The entries of a list less their mean. -/
noncomputable def deviations (xs : List ℝ) : List ℝ := xs.map (· - xs.sum / xs.length)

theorem centered_eq (xs : List ℝ) : centered xs = deviations xs := by
  simp only [centered, mean, blockSum_eq_sum]
  rfl

theorem autocovariance_eq (xs : List ℝ) :
    autocovariance xs =
      (List.range xs.length).map fun k =>
        lagSum (deviations xs) k / (4 * nextPowTwo xs.length) := by
  have hlength : (deviations xs).length = xs.length := List.length_map _
  simp only [autocovariance, centered_eq, lagProducts_eq, hlength, List.map_map]
  refine List.map_congr_left fun k _ => ?_
  simp

/-- At lag zero the sum vanishes just if all entries are equal. -/
theorem lagSum_deviations_zero_iff {xs : List ℝ} :
    lagSum (deviations xs) 0 = 0 ↔ ∀ x ∈ xs, ∀ y ∈ xs, x = y := by
  have hvanish : lagSum (deviations xs) 0 = 0 ↔ ∀ d ∈ deviations xs, d = 0 := by
    simp only [lagSum, Nat.sub_zero, Nat.add_zero]
    rw [Finset.sum_eq_zero_iff_of_nonneg fun i _ => mul_self_nonneg (valueAt (deviations xs) i)]
    simp only [Finset.mem_range, mul_self_eq_zero]
    constructor
    · intro h d hd
      obtain ⟨i, hi, rfl⟩ := List.getElem_of_mem hd
      have hi0 := h i hi
      rwa [valueAt, List.getElem?_eq_getElem hi, Option.getD_some] at hi0
    · intro h i hi
      rw [valueAt, List.getElem?_eq_getElem hi, Option.getD_some]
      exact h _ (List.getElem_mem hi)
  rw [hvanish, deviations, List.forall_mem_map]
  constructor
  · intro h x hx y hy
    rw [sub_eq_zero.mp (h x hx), sub_eq_zero.mp (h y hy)]
  · intro h x hx
    have hsum : xs.sum = xs.length * x := by
      rw [List.eq_replicate_of_mem fun y hy => h y hy x hx]
      simp
    have hpos : (xs.length : ℝ) ≠ 0 := Nat.cast_ne_zero.mpr (List.length_pos_of_mem hx).ne'
    rw [hsum, mul_div_cancel_left₀ _ hpos, sub_self]

theorem isZero_iff {x : ℝ} : isZero x = true ↔ x = 0 := by
  rw [isZero, Bool.and_eq_true, decide_eq_true_eq, decide_eq_true_eq, ← le_antisymm_iff]

/-- Values are divided by the first of them, or make a spike if that is zero. -/
theorem normalized?_map_range {n : Nat} (hn : n ≠ 0) (f : Nat → ℝ) :
    normalized? ((List.range n).map f) =
      if f 0 = 0 then some (1 :: List.replicate (n - 1) 0)
      else some ((List.range n).map fun k => f k / f 0) := by
  obtain ⟨n, rfl⟩ := Nat.exists_eq_succ_of_ne_zero hn
  rw [List.range_succ_eq_map, List.map_cons, normalized?]
  by_cases hzero : f 0 = 0
  · rw [if_pos (isZero_iff.mpr hzero), if_pos hzero, List.map_const', List.length_map,
      List.length_map, List.length_range]
    rfl
  · rw [if_neg (mt isZero_iff.mp hzero), if_neg hzero, ← List.map_cons, List.map_map]
    rfl

/-- The autocorrelation of a sequence is made of its lag sums: the sum of the products of the
deviations from the mean that are `k` places apart, over four times the power of two that the
sequence was padded to.  Normalised, these are divided by the first of them, unless all entries
are equal: then there is a spike at lag zero. -/
theorem autocorrelation_by_lagSums (xs : List ℝ) :
    autocovariance xs =
      (List.range xs.length).map (fun k =>
        lagSum (deviations xs) k / (4 * nextPowTwo xs.length)) ∧
    (xs ≠ [] → (∀ x ∈ xs, ∀ y ∈ xs, x = y) →
      autocorrelation? xs = some (1 :: List.replicate (xs.length - 1) 0)) ∧
    (xs ≠ [] → ¬ (∀ x ∈ xs, ∀ y ∈ xs, x = y) →
      autocorrelation? xs = some ((List.range xs.length).map fun k =>
        lagSum (deviations xs) k / (4 * nextPowTwo xs.length) /
          (lagSum (deviations xs) 0 / (4 * nextPowTwo xs.length)))) := by
  have hscale : (4 * nextPowTwo xs.length : ℝ) ≠ 0 := by
    obtain ⟨p, hp⟩ := exists_nextPowTwo_eq xs.length
    rw [hp]
    positivity
  have hzero : lagSum (deviations xs) 0 / (4 * nextPowTwo xs.length) = 0 ↔
      ∀ x ∈ xs, ∀ y ∈ xs, x = y := by
    rw [div_eq_zero_iff, or_iff_left hscale, lagSum_deviations_zero_iff]
  refine ⟨autocovariance_eq xs, fun hne hequal => ?_, fun hne hequal => ?_⟩
  · have hlength : xs.length ≠ 0 := mt List.length_eq_zero_iff.mp hne
    rw [autocorrelation?, autocovariance_eq, normalized?_map_range hlength,
      if_pos (hzero.mpr hequal)]
  · have hlength : xs.length ≠ 0 := mt List.length_eq_zero_iff.mp hne
    rw [autocorrelation?, autocovariance_eq, normalized?_map_range hlength,
      if_neg (mt hzero.mp hequal)]

/-- Two entries that differ, and three that do not. -/
theorem autocorrelation_by_lagSums_short :
    autocorrelation? [(1 : ℝ), 2] = some [1, -1 / 2] ∧
      autocorrelation? [(3 : ℝ), 3, 3] = some [1, 0, 0] := by
  constructor
  · have hdiffer : ¬ ∀ x ∈ [(1 : ℝ), 2], ∀ y ∈ [(1 : ℝ), 2], x = y := by norm_num
    rw [(autocorrelation_by_lagSums [1, 2]).2.2 (List.cons_ne_nil _ _) hdiffer]
    have hpow : nextPowTwo ([(1 : ℝ), 2].length : Nat) = 2 :=
      (doubleUntil_of_lt Nat.one_pos Nat.one_lt_two).trans (doubleUntil_of_le two_pos le_rfl)
    have hdeviations : deviations [1, 2] = [-1 / 2, 1 / 2] := by norm_num [deviations]
    rw [hpow, hdeviations]
    norm_num [lagSum, valueAt, Finset.sum_range_succ, List.range_succ]
  · have hequal : ∀ x ∈ [(3 : ℝ), 3, 3], ∀ y ∈ [(3 : ℝ), 3, 3], x = y := by simp
    exact (autocorrelation_by_lagSums [3, 3, 3]).2.1 (List.cons_ne_nil _ _) hequal

end EnsembleSampling.Autocorrelation
