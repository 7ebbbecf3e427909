import EnsembleSampling.Proofs.Autocorrelation.Window
import EnsembleSampling.Proofs.Scale.Rounding
set_option autoImplicit false

/-!
# Constant sequences of doubles

Whether a constant sequence counts as constant is decided by its deviations from the mean, and the
mean is rounded.  If the rounded mean is the value, all deviations are zero and the normalised
autocorrelation is a spike at lag zero.  If it is not, the deviations are all the same and not zero,
however small they are, and the autocorrelation falls off evenly from one
(`correlationsOf?_replicate`).

As long as every sum of so many copies of the value is a double, nothing is rounded and the mean is
exact (`value_mean_replicate`).  Three times a tenth is not a double, and three tenths make a ramp
(`tenths_make_ramp`).
-/

namespace EnsembleSampling

/-! ## The mean of copies -/

theorem value_zero : (Zero.zero : Float).isFinite = true ∧ value Zero.zero = 0 := ⟨by decide, rfl⟩

/-- The sum of so many copies of a double, if no sum of fewer copies is rounded. -/
theorem value_blockSum_replicate {v : Float} (hv : v.isFinite = true) {n : Nat} (hn : n ≠ 0)
    (h : ∀ k ≤ n, IsDouble (k * value v)) :
    (blockSum (List.replicate n v)).isFinite = true ∧
      value (blockSum (List.replicate n v)) = n * value v := by
  have hadd : ∀ (j k : Nat) (x y : Float), (x.isFinite = true ∧ value x = j * value v) →
      (y.isFinite = true ∧ value y = k * value v) → j + k ≤ n →
      (x + y).isFinite = true ∧ value (x + y) = (j + k : Nat) * value v := by
    rintro j k x y ⟨hx, hxv⟩ ⟨hy, hyv⟩ hjk
    have hsum : value x + value y = (j + k : Nat) * value v := by
      rw [hxv, hyv, Nat.cast_add, add_mul]
    have hresult := value_add hx hy (hsum ▸ h (j + k) hjk)
    rwa [hsum] at hresult
  have hlength : (List.replicate n v).length = n := List.length_replicate
  have hne : List.replicate n v ≠ [] := mt (List.replicate_eq_nil_iff v).mp hn
  have hresult := blockSum_counted hadd
    ⟨value_zero.1, by rw [Nat.cast_zero, zero_mul]; exact value_zero.2⟩ hne
    (fun x hx => by rw [List.eq_of_mem_replicate hx, Nat.cast_one, one_mul]; exact ⟨hv, rfl⟩)
    hlength.le
  rwa [hlength] at hresult

/-- The mean of copies of a double is that double, if no sum of them is rounded. -/
theorem value_mean_replicate {v : Float} (hv : v.isFinite = true) {n : Nat} (hn : n ≠ 0)
    (hcount : n < 2 ^ 53) (h : ∀ k ≤ n, IsDouble (k * value v)) :
    (mean (List.replicate n v)).isFinite = true ∧ value (mean (List.replicate n v)) = value v := by
  obtain ⟨hsum, hsumv⟩ := value_blockSum_replicate hv hn h
  obtain ⟨hcast, hcastv⟩ := value_natCast hcount
  have hpos : (0 : ℝ) < n := Nat.cast_pos.mpr (Nat.pos_of_ne_zero hn)
  have hquotient : value (blockSum (List.replicate n v)) / value (n : Float) = value v := by
    rw [hsumv, hcastv, mul_div_cancel_left₀ _ hpos.ne']
  have hone : IsDouble (value v) := by
    have hone := h 1 (Nat.one_le_iff_ne_zero.mpr hn)
    rwa [Nat.cast_one, one_mul] at hone
  have hresult := value_div hsum hcast (hcastv ▸ hpos) (hquotient ▸ hone)
  rw [mean, List.length_replicate]
  rwa [hquotient] at hresult

/-- Copies of a number with few bits: no sum of them is rounded. -/
theorem isDouble_natCast_mul {z e : Int} {n : Nat} (hfew : n * z.natAbs < 2 ^ 53)
    (hleast : -1074 ≤ e) (hgreatest : e ≤ 971) : ∀ k ≤ n, IsDouble (k * (z * 2 ^ e)) := by
  intro k hk
  refine ⟨k * z, e, ?_, hleast, hgreatest, by push_cast; ring⟩
  rw [Int.natAbs_mul, Int.natAbs_natCast]
  exact (Nat.mul_le_mul_right _ hk).trans_lt hfew

namespace Autocorrelation

/-! ## Deviations that are all the same -/

section

variable {α : Type} [Zero α] [One α] [Neg α] [Add α] [Sub α] [Mul α] [Div α] [NatCast α] [LE α]
  [DecidableLE α] [CircleFunctions α]

/-- The normalised autocorrelation of a sequence, from its deviations from the mean. -/
def correlationsOf? (ds : List α) : Option (List α) :=
  normalized? ((lagProducts ds).map (· / ((4 * nextPowTwo ds.length : Nat) : α)))

theorem autocorrelation?_eq_correlationsOf? (xs : List α) :
    autocorrelation? xs = correlationsOf? (centered xs) := by
  rw [autocorrelation?, autocovariance, correlationsOf?, length_centered]

end

theorem lagSum_replicate (n : Nat) (d : ℝ) (k : Nat) :
    lagSum (List.replicate n d) k = (n - k : Nat) * (d * d) := by
  have hterm : ∀ i ∈ Finset.range (n - k),
      valueAt (List.replicate n d) i * valueAt (List.replicate n d) (i + k) = d * d := by
    intro i hi
    rw [Finset.mem_range] at hi
    simp [valueAt, show i < n by omega, show i + k < n by omega]
  rw [lagSum, List.length_replicate, Finset.sum_congr rfl hterm, Finset.sum_const,
    Finset.card_range, nsmul_eq_mul]

/-- Deviations that are all zero make a spike, and others that are all the same a ramp. -/
theorem correlationsOf?_replicate {n : Nat} (hn : n ≠ 0) (d : ℝ) :
    correlationsOf? (List.replicate n d) =
      some (if d = 0 then 1 :: List.replicate (n - 1) 0
        else (List.range n).map fun k => ((n - k : Nat) : ℝ) / n) := by
  have hscale : ((4 * nextPowTwo n : Nat) : ℝ) ≠ 0 := by
    obtain ⟨p, hp⟩ := exists_nextPowTwo_eq n
    rw [hp]
    positivity
  have hn' : (n : ℝ) ≠ 0 := Nat.cast_ne_zero.mpr hn
  rw [correlationsOf?, lagProducts_eq, List.map_map, List.length_replicate,
    normalized?_map_range hn]
  simp only [Function.comp_apply, lagSum_replicate, Nat.sub_zero]
  by_cases hd : d = 0
  · simp [hd]
  · have hfirst : (n : ℝ) * (d * d) / ((4 * nextPowTwo n : Nat) : ℝ) ≠ 0 :=
      div_ne_zero (mul_ne_zero hn' (mul_ne_zero hd hd)) hscale
    rw [if_neg hfirst, if_neg hd]
    refine congrArg some (List.map_congr_left fun k _ => ?_)
    rw [div_div_div_cancel_right₀ hscale, mul_div_mul_right _ _ (mul_ne_zero hd hd)]

theorem centered_replicate (n : Nat) (v : Float) :
    centered (List.replicate n v) = List.replicate n (v - mean (List.replicate n v)) :=
  List.map_replicate

/-- **A constant sequence makes a spike or a ramp.**  Let `n` copies of a finite double be given,
with their mean as it is rounded, and let the deviation from it be finite.  The autocorrelation
depends on the deviations alone, and from these on the arithmetic is exact.  It is a spike at lag
zero just if the mean is the value; else it falls off from one to `1 / n` in even steps.

The mean is the value if no sum of up to `n` copies needs to be rounded. -/
theorem constant_spike_or_ramp {v : Float} (hv : v.isFinite = true) {n : Nat} (hn : n ≠ 0) :
    let m := mean (List.replicate n v)
    autocorrelation? (List.replicate n v) = correlationsOf? (centered (List.replicate n v)) ∧
    centered (List.replicate n v) = List.replicate n (v - m) ∧
    ((v - m).isFinite = true →
      correlationsOf? ((centered (List.replicate n v)).map value) =
        some (if value m = value v then 1 :: List.replicate (n - 1) 0
          else (List.range n).map fun k => ((n - k : Nat) : ℝ) / n)) ∧
    (n < 2 ^ 53 → (∀ k ≤ n, IsDouble (k * value v)) →
      value m = value v ∧
        correlationsOf? ((centered (List.replicate n v)).map value) =
          some (1 :: List.replicate (n - 1) 0)) := by
  intro m
  have hcorrelations : (v - m).isFinite = true →
      correlationsOf? ((centered (List.replicate n v)).map value) =
        some (if value m = value v then 1 :: List.replicate (n - 1) 0
          else (List.range n).map fun k => ((n - k : Nat) : ℝ) / n) := by
    intro hfinite
    have hm : m.isFinite = true := isFinite_of_isFinite_sub hfinite
    have hzero : value (v - m) = 0 ↔ value m = value v :=
      (value_sub_eq_zero_iff hv hm hfinite).trans eq_comm
    rw [centered_replicate, List.map_replicate, correlationsOf?_replicate hn]
    exact congrArg some (if_congr hzero rfl rfl)
  refine ⟨autocorrelation?_eq_correlationsOf? _, centered_replicate n v, hcorrelations,
    fun hcount hsums => ?_⟩
  obtain ⟨hm, hequal⟩ := value_mean_replicate hv hn hcount hsums
  have hresult := hcorrelations (isFinite_sub_of_value_eq hv hm hequal.symm)
  rw [if_pos hequal] at hresult
  exact ⟨hequal, hresult⟩

/-- Ten copies of three. -/
theorem constant_spike_or_ramp_threes :
    value (mean (List.replicate 10 (3.0 : Float))) = value 3.0 ∧
      correlationsOf? ((centered (List.replicate 10 (3.0 : Float))).map value) =
        some (1 :: List.replicate 9 0) := by
  have hvalue : value 3.0 = (3 * 2 ^ 51 : Int) * 2 ^ (-51 : Int) := rfl
  have hthree : value 3.0 = (3 : Int) * 2 ^ (0 : Int) := by
    rw [hvalue]
    norm_num
  have hfew : 10 * (3 : Int).natAbs < 2 ^ 53 := by decide
  have hsums : ∀ k : Nat, k ≤ 10 → IsDouble (k * value 3.0) := by
    rw [hthree]
    exact isDouble_natCast_mul hfew (by norm_num) (by norm_num)
  exact (constant_spike_or_ramp (by decide) (by decide)).2.2.2 (by norm_num) hsums

/-- The mean of three tenths is rounded up. -/
theorem tenths_make_ramp :
    correlationsOf? ((centered (List.replicate 3 (0.1 : Float))).map value) =
        some [1, 2 / 3, 1 / 3] ∧
      autocorrelation? (List.replicate 3 (0.1 : Float)) ≠ some [1, 0, 0] := by
  constructor
  · have hdeviation : 0.1 - mean (List.replicate 3 (0.1 : Float)) = -1.3877787807814457e-17 := by
      decide +kernel
    have hvalue : value (-1.3877787807814457e-17) = (-(2 ^ 52 : Int) : Int) * 2 ^ (-108 : Int) := rfl
    have hnonzero : value (0.1 - mean (List.replicate 3 (0.1 : Float))) ≠ 0 := by
      rw [hdeviation, hvalue]
      norm_num
    rw [centered_replicate, List.map_replicate, correlationsOf?_replicate (by decide),
      if_neg hnonzero]
    norm_num [List.range_succ]
  · decide +kernel

end Autocorrelation

end EnsembleSampling
