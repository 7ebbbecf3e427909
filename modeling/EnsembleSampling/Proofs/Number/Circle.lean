import EnsembleSampling.Autocorrelation.Fourier
import Mathlib.RingTheory.RootsOfUnity.Complex
import Mathlib.Analysis.SpecialFunctions.Trigonometric.Basic
set_option autoImplicit false

/-!
# Points on the unit circle in exact arithmetic

With cosines and sines for the points on the unit circle a complex quantity by its two parts is
a complex number, and a turn by `k` of `n` parts is the multiplication by a power of a primitive
root of unity (`turned_ofComplex`); the turns that are made without a root are no exception.
-/

namespace EnsembleSampling

open Complex (I)
open scoped ComplexConjugate

/-- The points that cut the unit circle into equal parts, by cosine and sine. -/
noncomputable instance : CircleFunctions ℝ where
  turn k n := ⟨Real.cos (2 * Real.pi * (k / n)), Real.sin (2 * Real.pi * (k / n))⟩
  rootHalf := √(1 / 2)

namespace Cartesian

/-- A complex number by its two parts. -/
def ofComplex (z : ℂ) : Cartesian ℝ := ⟨z.re, z.im⟩

theorem ofComplex_add (z w : ℂ) : ofComplex z + ofComplex w = ofComplex (z + w) := rfl

theorem ofComplex_sub (z w : ℂ) : ofComplex z - ofComplex w = ofComplex (z - w) := rfl

theorem ofComplex_mul (z w : ℂ) : ofComplex z * ofComplex w = ofComplex (z * w) := by
  change (⟨z.re * w.re - z.im * w.im, z.re * w.im + z.im * w.re⟩ : Cartesian ℝ) = _
  rw [ofComplex, Complex.mul_re, Complex.mul_im]

theorem conj_ofComplex (z : ℂ) : (ofComplex z).conj = ofComplex (conj z) := rfl

theorem ofReal_eq (x : ℝ) : (ofReal x : Cartesian ℝ) = ofComplex (x : ℂ) := rfl

end Cartesian

namespace Fourier

open Cartesian (ofComplex)

/-- The point after one of `n` equal parts of a full turn from `1`. -/
noncomputable def unity : Sense → Nat → ℂ
  | .clockwise, n => conj (Complex.exp (2 * Real.pi * I / n))
  | .counterclockwise, n => Complex.exp (2 * Real.pi * I / n)

theorem conj_unity_clockwise (n : Nat) :
    conj (unity .clockwise n) = unity .counterclockwise n := Complex.conj_conj _

theorem isPrimitiveRoot_unity (s : Sense) {n : Nat} (hn : n ≠ 0) :
    IsPrimitiveRoot (unity s n) n := by
  have hroot := Complex.isPrimitiveRoot_exp n hn
  cases s with
  | counterclockwise => exact hroot
  | clockwise => exact hroot.map_of_injective (starRingEnd ℂ).injective

/-- The two senses undo each other. -/
theorem unity_clockwise_mul_counterclockwise {n : Nat} (hn : n ≠ 0) :
    unity .clockwise n * unity .counterclockwise n = 1 := by
  have hnorm : ‖unity .clockwise n‖ = 1 := (isPrimitiveRoot_unity .clockwise hn).norm'_eq_one hn
  rw [← conj_unity_clockwise, Complex.mul_conj', hnorm, Complex.ofReal_one, one_pow]

/-- Of `m * n` parts of a turn `m` make one of `n` parts. -/
theorem unity_mul_pow (s : Sense) {m : Nat} (hm : m ≠ 0) (n : Nat) :
    unity s (m * n) ^ m = unity s n := by
  have hm' : (m : ℂ) ≠ 0 := Nat.cast_ne_zero.mpr hm
  have hexp : Complex.exp (2 * Real.pi * I / (m * n : Nat)) ^ m =
      Complex.exp (2 * Real.pi * I / n) := by
    rw [← Complex.exp_nat_mul, Nat.cast_mul]
    congr 1
    rcases eq_or_ne (n : ℂ) 0 with hn | hn
    · simp [hn]
    · field_simp
  cases s with
  | counterclockwise => exact hexp
  | clockwise =>
    rw [unity, unity, ← map_pow, hexp]

/-- Half a turn leads to minus one. -/
theorem unity_two (s : Sense) : unity s 2 = -1 := by
  have hexp : Complex.exp (2 * Real.pi * I / (2 : Nat)) = -1 := by
    rw [Nat.cast_ofNat, mul_assoc, mul_div_cancel_left₀ _ two_ne_zero, Complex.exp_pi_mul_I]
  cases s with
  | counterclockwise => exact hexp
  | clockwise => rw [unity, hexp, map_neg, map_one]

theorem unity_two_mul_pow (s : Sense) {n : Nat} (hn : n ≠ 0) : unity s (2 * n) ^ n = -1 := by
  rw [Nat.mul_comm, unity_mul_pow s hn, unity_two]

theorem unity_counterclockwise_pow (n k : Nat) :
    unity .counterclockwise n ^ k = Complex.exp ((2 * Real.pi * (k / n) : ℝ) * I) := by
  rw [unity, ← Complex.exp_nat_mul]
  congr 1
  push_cast
  ring

theorem root_eq (s : Sense) (k n : Nat) :
    (root s k n : Cartesian ℝ) = ofComplex (unity s n ^ k) := by
  have hturn : (CircleFunctions.turn k n : Cartesian ℝ) =
      ofComplex (unity .counterclockwise n ^ k) := by
    rw [unity_counterclockwise_pow, ofComplex, Complex.exp_ofReal_mul_I_re,
      Complex.exp_ofReal_mul_I_im]
    rfl
  cases s with
  | counterclockwise => exact hturn
  | clockwise =>
    rw [root, hturn, Cartesian.conj_ofComplex, map_pow]
    rfl

/-! ## Turns without a root -/

theorem eighthTurned_ofComplex (s : Sense) (z : ℂ) :
    eighthTurned s (ofComplex z) = ofComplex (unity s 8 * z) := by
  have hhalf : (CircleFunctions.rootHalf : ℝ) = √2 / 2 := by
    change √(1 / 2) = √2 / 2
    rw [Real.sqrt_div zero_le_one, Real.sqrt_one, Real.sqrt_div_self']
  have hexp : Complex.exp (2 * Real.pi * I / (8 : Nat)) = ⟨√2 / 2, √2 / 2⟩ := by
    have h := unity_counterclockwise_pow 8 1
    rw [pow_one] at h
    rw [show Complex.exp (2 * Real.pi * I / (8 : Nat)) = unity .counterclockwise 8 from rfl, h]
    have hangle : 2 * Real.pi * ((1 : Nat) / (8 : Nat)) = Real.pi / 4 := by
      push_cast
      ring
    rw [hangle]
    apply Complex.ext
    · rw [Complex.exp_ofReal_mul_I_re, Real.cos_pi_div_four]
    · rw [Complex.exp_ofReal_mul_I_im, Real.sin_pi_div_four]
  cases s with
  | counterclockwise =>
    simp only [eighthTurned, unity, hexp, hhalf, ofComplex, Complex.mul_re, Complex.mul_im]
    refine congrArg₂ Cartesian.mk ?_ ?_ <;> ring
  | clockwise =>
    simp only [eighthTurned, unity, hexp, hhalf, ofComplex, Complex.mul_re, Complex.mul_im,
      Complex.conj_re, Complex.conj_im]
    refine congrArg₂ Cartesian.mk ?_ ?_ <;> ring

theorem quarterTurned_ofComplex (s : Sense) (z : ℂ) :
    quarterTurned s (ofComplex z) = ofComplex (unity s 4 * z) := by
  have hexp : Complex.exp (2 * Real.pi * I / (4 : Nat)) = I := by
    rw [show 2 * Real.pi * I / (4 : Nat) = (Real.pi : ℂ) / 2 * I by push_cast; ring,
      Complex.exp_pi_div_two_mul_I]
  cases s with
  | counterclockwise =>
    rw [unity, hexp]
    simp [quarterTurned, ofComplex]
  | clockwise =>
    rw [unity, hexp]
    simp [quarterTurned, ofComplex]

theorem threeEighthsTurned_ofComplex (s : Sense) (z : ℂ) :
    threeEighthsTurned s (ofComplex z) = ofComplex (unity s 8 ^ 3 * z) := by
  have hthree : threeEighthsTurned s (ofComplex z) =
      eighthTurned s (quarterTurned s (ofComplex z)) := by
    cases s
    all_goals
      simp only [threeEighthsTurned, eighthTurned, quarterTurned]
      refine congrArg₂ Cartesian.mk ?_ ?_ <;> ring
  have hfour : unity s 4 = unity s 8 ^ 2 := (unity_mul_pow s two_ne_zero 4).symm
  rw [hthree, quarterTurned_ofComplex, eighthTurned_ofComplex, hfour]
  congr 1
  ring

/-- Turning is multiplying by a power of a root of unity. -/
theorem turned_ofComplex (s : Sense) (k n : Nat) (z : ℂ) :
    turned s k n (ofComplex z) = ofComplex (unity s n ^ k * z) := by
  unfold turned
  split
  · rename_i hk
    rw [hk, pow_zero, one_mul]
  · rename_i hk
    split
    · rename_i h
      rw [eighthTurned_ofComplex, ← h, Nat.mul_comm, unity_mul_pow s hk]
    · split
      · rename_i h
        rw [quarterTurned_ofComplex, ← h, Nat.mul_comm, unity_mul_pow s hk]
      · split
        · rename_i h
          obtain ⟨j, rfl⟩ : ∃ j, k = 3 * j := ⟨k / 3, by omega⟩
          obtain rfl : n = j * 8 := by omega
          rw [threeEighthsTurned_ofComplex, Nat.mul_comm 3 j, pow_mul,
            unity_mul_pow s (by omega : j ≠ 0)]
        · rw [root_eq, Cartesian.ofComplex_mul]

end Fourier

end EnsembleSampling
