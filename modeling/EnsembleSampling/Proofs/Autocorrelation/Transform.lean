import EnsembleSampling.Proofs.Autocorrelation.Tabulated
import EnsembleSampling.Proofs.Number.Circle
set_option autoImplicit false

/-!
# The transform is the discrete Fourier transform

In exact arithmetic the entries of a transform are the sums `dft` of all entries, each turned by
the product of the places.  Halves of such a sum are again such sums (`dft_halves`), which is
what a transform is put together from, and so are the columns of a table and then its rows
(`dft_table`), which is what a pass does.
-/

namespace EnsembleSampling.Fourier

open Cartesian (ofComplex)

/-! ## Sums of turned entries -/

/-- The discrete Fourier transform of the first `n` values of `f`, where `w` is turned by. -/
noncomputable def dft (w : ℂ) (n : Nat) (f : Nat → ℂ) (k : Nat) : ℂ :=
  ∑ j ∈ Finset.range n, w ^ (j * k) * f j

/-- A sum over a table is the sum over its rows. -/
theorem sum_range_mul {M : Type} [AddCommMonoid M] (n m : Nat) (g : Nat → M) :
    ∑ j ∈ Finset.range (n * m), g j =
      ∑ r ∈ Finset.range n, ∑ i ∈ Finset.range m, g (r * m + i) := by
  induction n with
  | zero => simp
  | succ n ih => rw [Nat.succ_mul, Finset.sum_range_add, ih, Finset.sum_range_succ]

theorem dft_add_period {w : ℂ} {n : Nat} (hw : w ^ n = 1) (f : Nat → ℂ) (k : Nat) :
    dft w n f (k + n) = dft w n f k := by
  refine Finset.sum_congr rfl fun j _ => ?_
  rw [Nat.mul_add, pow_add, Nat.mul_comm j n, pow_mul w n j, hw, one_pow, mul_one]

/-- A transform is made of the transforms of the entries at even and at odd places. -/
theorem dft_halves (w : ℂ) (n : Nat) (f : Nat → ℂ) (k : Nat) :
    dft w (2 * n) f k =
      dft (w ^ 2) n (fun j => f (2 * j)) k + w ^ k * dft (w ^ 2) n (fun j => f (2 * j + 1)) k := by
  unfold dft
  rw [Nat.mul_comm 2 n, sum_range_mul, Finset.mul_sum, ← Finset.sum_add_distrib]
  refine Finset.sum_congr rfl fun j _ => ?_
  rw [Finset.sum_range_succ, Finset.sum_range_one]
  ring_nf

/-- A transform is made of those of the columns of a table, turned, and then of those of its
rows. -/
theorem dft_table {w : ℂ} {n m : Nat} (hw : w ^ (n * m) = 1) (f : Nat → ℂ) (q k : Nat) :
    dft w (n * m) f (q * n + k) =
      dft (w ^ n) m (fun i => w ^ (k * i) * dft (w ^ m) n (fun r => f (r * m + i)) k) q := by
  unfold dft
  rw [sum_range_mul, Finset.sum_comm]
  refine Finset.sum_congr rfl fun i _ => ?_
  dsimp only
  rw [Finset.mul_sum, Finset.mul_sum]
  refine Finset.sum_congr rfl fun r _ => ?_
  have hexponent : (r * m + i) * (q * n + k) =
      n * m * (r * q) + n * (i * q) + k * i + m * (r * k) := by
    ring
  rw [hexponent, pow_add, pow_add, pow_add, pow_mul, hw, one_pow, pow_mul w n, pow_mul w m]
  ring

/-! ## Transforms -/

/-- The first `n` values of a function as complex quantities. -/
def points (n : Nat) (f : Nat → ℂ) : List (Cartesian ℝ) := tabulate n fun k => ofComplex (f k)

theorem twist_points (s : Sense) (n m : Nat) (f : Nat → ℂ) :
    twist s n (points m f) = points m fun k => unity s n ^ k * f k := by
  unfold twist points
  rw [zipIdx_tabulate, map_tabulate]
  simp only [turned_ofComplex]

/-- A transform by halves is the discrete Fourier transform. -/
theorem transform_points (s : Sense) (depth : Nat) (f : Nat → ℂ) :
    transform s depth (points (pow2 depth) f) =
      points (pow2 depth) (dft (unity s (pow2 depth)) (pow2 depth) f) := by
  induction depth generalizing f with
  | zero => simp [transform, points, tabulate, pow2_zero, dft]
  | succ depth ih =>
    have hpow := pow2_succ depth
    have hn : pow2 depth ≠ 0 := (pow2_pos depth).ne'
    set n := pow2 depth
    have hsquare : unity s (2 * n) ^ 2 = unity s n := unity_mul_pow s two_ne_zero n
    have hperiod : unity s n ^ n = 1 := (isPrimitiveRoot_unity s hn).pow_eq_one
    have hevens : evens (points (2 * n) f) = points n fun k => f (2 * k) :=
      evens_tabulate n _
    have hodds : odds (points (2 * n) f) = points n fun k => f (2 * k + 1) :=
      odds_tabulate n _
    rw [transform, hpow, hevens, hodds, ih, ih, twist_points]
    unfold points
    rw [zipWith_tabulate, zipWith_tabulate, Nat.two_mul, tabulate_add]
    congr 1
    · refine tabulate_congr fun k _ => ?_
      rw [Cartesian.ofComplex_add, ← Nat.two_mul, dft_halves, hsquare]
    · refine tabulate_congr fun k _ => ?_
      rw [Cartesian.ofComplex_sub, Nat.add_comm n k, ← Nat.two_mul, dft_halves, hsquare,
        dft_add_period hperiod, dft_add_period hperiod, pow_add, unity_two_mul_pow s hn]
      congr 1
      ring

/-! ## Passes -/

theorem pow2_add (m n : Nat) : pow2 (m + n) = pow2 m * pow2 n := Nat.pow_add 2 m n

theorem turnedColumn_points (s : Sense) (total unit i n : Nat) (f : Nat → ℂ) :
    turnedColumn s total unit i (points n f) =
      points n fun k => unity s total ^ (unit * k * i) * f k := by
  unfold turnedColumn points
  rw [zipIdx_tabulate, map_tabulate]
  refine tabulate_congr fun k _ => ?_
  dsimp only
  split
  · -- a turn by no parts
    rename_i hzero
    rcases hzero with rfl | rfl <;> simp
  · rw [root_eq, Cartesian.ofComplex_mul]

/-- A pass transforms the columns of a table and turns them. -/
theorem passed_points (s : Sense) (total unit depth m : Nat) (f : Nat → ℂ) :
    passed s total unit depth (points (pow2 depth * m) f) =
      tabulate m fun i => points (pow2 depth) fun k => unity s total ^ (unit * k * i) *
        dft (unity s (pow2 depth)) (pow2 depth) (fun r => f (r * m + i)) k := by
  have hwidth : (points (pow2 depth * m) f).length / pow2 depth = m := by
    rw [points, length_tabulate, Nat.mul_div_cancel_left _ (pow2_pos depth)]
  have hcolumns : transposed m (Tensor.pieces m (pow2 depth) (points (pow2 depth * m) f)) =
      tabulate m fun i => points (pow2 depth) fun r => f (r * m + i) := by
    unfold points
    rw [pieces_tabulate, transposed_tabulate]
  unfold passed
  simp only [hwidth, hcolumns, zipIdx_tabulate, map_tabulate, transform_points,
    turnedColumn_points]

/-- Passes make the discrete Fourier transform: of a part of a sequence with the roots that are
`unit` parts of a full turn apart. -/
theorem passes_points (s : Sense) (total : Nat) (depths : List Nat) (unit : Nat)
    (hunit : unit ≠ 0) (htotal : total = unit * pow2 (depths.foldr (· + ·) 0)) (f : Nat → ℂ) :
    passes s total unit depths (points (pow2 (depths.foldr (· + ·) 0)) f) =
      points (pow2 (depths.foldr (· + ·) 0))
        (dft (unity s total ^ unit) (pow2 (depths.foldr (· + ·) 0)) f) := by
  induction depths generalizing unit f with
  | nil => simp [passes, points, tabulate, pow2_zero, dft]
  | cons depth depths ih =>
    rw [List.foldr_cons, pow2_add] at htotal ⊢
    have hm : 0 < pow2 (depths.foldr (· + ·) 0) := pow2_pos _
    set m := pow2 (depths.foldr (· + ·) 0)
    have hn : 0 < pow2 depth := pow2_pos depth
    set n := pow2 depth with hndef
    set w := unity s total ^ unit with hw
    have hroot : w = unity s (n * m) := by rw [hw, htotal, unity_mul_pow s hunit]
    have hperiod : w ^ (n * m) = 1 := by
      rw [hroot]
      exact (isPrimitiveRoot_unity s (Nat.mul_ne_zero hn.ne' hm.ne')).pow_eq_one
    have hcolumn : unity s n = w ^ m := by rw [hroot, Nat.mul_comm n m, unity_mul_pow s hm.ne']
    -- the entries of a row, and what the later passes make of the row
    let row : Nat → Nat → ℂ := fun k i =>
      w ^ (k * i) * dft (w ^ m) n (fun r => f (r * m + i)) k
    have hrows : transposed n (passed s total unit depth (points (n * m) f)) =
        tabulate n fun k => points m (row k) := by
      rw [passed_points, ← hndef]
      unfold points
      rw [transposed_tabulate]
      refine tabulate_congr fun k _ => tabulate_congr fun i _ => ?_
      dsimp only [row]
      rw [Nat.mul_assoc, pow_mul, ← hw, hcolumn]
    have hparts : (tabulate n fun k => points m (row k)).map
          (passes s total (unit * n) depths) =
        tabulate n fun k => points m (dft (w ^ n) m (row k)) := by
      rw [map_tabulate]
      refine tabulate_congr fun k _ => ?_
      rw [ih (unit * n) (Nat.mul_ne_zero hunit hn.ne') (by rw [htotal, Nat.mul_assoc]), pow_mul]
    have hlength : (points (n * m) f).length / n = m := by
      rw [points, length_tabulate, Nat.mul_div_cancel_left _ hn]
    rw [passes]
    simp only [← hndef, hrows, hparts, hlength]
    unfold points
    rw [transposed_tabulate, flatten_tabulate m hn, Nat.mul_comm m n]
    refine tabulate_congr fun t _ => ?_
    rw [← dft_table hperiod, Nat.div_add_mod']

/-- The transform in passes is the discrete Fourier transform. -/
theorem passTransform_points (s : Sense) (depth : Nat) (f : Nat → ℂ) :
    passTransform s depth (points (pow2 depth) f) =
      points (pow2 depth) (dft (unity s (pow2 depth)) (pow2 depth) f) := by
  have hpasses := passes_points s (pow2 depth) (passDepths depth) 1 one_ne_zero
    (by rw [foldr_passDepths, Nat.one_mul]) f
  rwa [foldr_passDepths, pow_one] at hpasses

theorem forward_points (depth : Nat) (f : Nat → ℂ) :
    forward depth (points (pow2 depth) f) =
      points (pow2 depth) (dft (unity .clockwise (pow2 depth)) (pow2 depth) f) :=
  passTransform_points .clockwise depth f

theorem backward_points (depth : Nat) (f : Nat → ℂ) :
    backward depth (points (pow2 depth) f) = points (pow2 depth) fun t =>
      dft (unity .counterclockwise (pow2 depth)) (pow2 depth) f t / (pow2 depth : Nat) := by
  unfold backward
  rw [passTransform_points]
  unfold points
  rw [map_tabulate]
  refine tabulate_congr fun t _ => ?_
  rw [ofComplex, ofComplex, Complex.div_natCast_re, Complex.div_natCast_im]

end EnsembleSampling.Fourier
