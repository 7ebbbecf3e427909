import EnsembleSampling.Proofs.Scale.Special
set_option autoImplicit false

/-!
# The numbers that doubles stand for

A finite double stands for a real number (`value`), an integer of at most 53 bits times a power
of two; those are the numbers `IsDouble`.  Arithmetic rounds, but where the exact result is a double
it is what comes out (`value_add`, `value_div`).  A difference is rounded too, yet never to zero
unless the operands are equal, as the doubles next to zero are as close to each other as doubles
ever are (`value_sub_eq_zero_iff`).

Results are followed through rounding in their unpacked form.  Of the many ways to write a number
as a mantissa times a power of two, rounding chooses the one that fills 53 bits or has the least
exponent (`IsCanonical`).
-/

namespace EnsembleSampling

open Float.Model Float.Model.UnpackedFloat

/-! ## Mantissas and exponents -/

/-- A mantissa and an exponent as rounding leaves them: the mantissa fills 53 bits, or fewer if the
exponent is the least. -/
structure IsCanonical (m : Nat) (e : Int) : Prop where
  pos : 0 < m
  lt : m < 2 ^ 53
  least : -1074 ≤ e
  normal : 2 ^ 52 ≤ m ∨ e = -1074

theorem IsCanonical.log2_le {m : Nat} {e : Int} (h : IsCanonical m e) : m.log2 ≤ 52 :=
  Nat.le_of_lt_succ ((Nat.log2_lt h.pos.ne').mpr h.lt)

/-- The exponent that rounding aims at is the one that is there already. -/
theorem IsCanonical.targetExponent {m : Nat} {e : Int} (h : IsCanonical m e) :
    Format.binary64.targetExponent (totalExponent m e) = e := by
  have hlog := h.log2_le
  have hleast := h.least
  simp only [Format.targetExponent, totalExponent, Format.mantissaBits, Format.minExponent]
  rcases h.normal with hfull | hsmall
  · have hfull := (Nat.le_log2 h.pos.ne').mpr hfull
    omega
  · omega

theorem log2_mul_two_pow {m : Nat} (hm : 0 < m) (k : Nat) : (m * 2 ^ k).log2 = m.log2 + k := by
  have hlower := Nat.log2_self_le hm.ne'
  have hupper := Nat.lt_log2_self (n := m)
  refine (Nat.log2_eq_iff (Nat.mul_pos hm (Nat.two_pow_pos k)).ne').mpr ⟨?_, ?_⟩
  · rw [pow_add]
    exact Nat.mul_le_mul_right _ hlower
  · rw [Nat.add_right_comm, pow_add]
    exact Nat.mul_lt_mul_of_pos_right hupper (Nat.two_pow_pos k)

theorem two_zpow_eq {e k : Int} (h : e ≤ k) : (2 : ℝ) ^ k = 2 ^ (k - e).toNat * 2 ^ e := by
  rw [← zpow_natCast, ← zpow_add₀ two_ne_zero, Int.toNat_of_nonneg (sub_nonneg.mpr h),
    sub_add_cancel]

/-- Of two ways to write one number, that with the smaller exponent has the larger mantissa. -/
theorem eq_mul_two_pow {m n : Nat} {e k : Int} (h : (m : ℝ) * 2 ^ e = n * 2 ^ k) (hle : e ≤ k) :
    m = n * 2 ^ (k - e).toNat := by
  have hcancel : (m : ℝ) = n * 2 ^ (k - e).toNat := by
    refine mul_right_cancel₀ (zpow_ne_zero e (two_ne_zero (α := ℝ))) ?_
    rw [h, two_zpow_eq hle, mul_assoc]
  exact_mod_cast hcancel

/-- The place of the leading bit does not depend on how a number is written. -/
theorem totalExponent_congr {m n : Nat} {e k : Int} (hm : 0 < m) (hn : 0 < n)
    (h : (m : ℝ) * 2 ^ e = n * 2 ^ k) : totalExponent m e = totalExponent n k := by
  unfold totalExponent
  rcases le_total e k with hle | hle
  · rw [eq_mul_two_pow h hle, log2_mul_two_pow hn]
    omega
  · rw [eq_mul_two_pow h.symm hle, log2_mul_two_pow hm]
    omega

/-! ## Rounding -/

theorem mantissa_shiftRight (m : ExtendedMantissa) (k : Nat) :
    (m >>> k).mantissa = m.mantissa / 2 ^ k := by
  induction k with
  | zero => exact (Nat.div_one _).symm
  | succ k ih =>
    change (m >>> k).mantissa / 2 = _
    rw [ih, Nat.div_div_eq_div_mul, pow_succ]

/-- No bits are lost that are zeros. -/
theorem shiftRight_mul_two_pow (m k : Nat) :
    ExtendedMantissa.mk (m * 2 ^ k) false false >>> k = ⟨m, false, false⟩ := by
  induction k with
  | zero => rw [pow_zero, mul_one]; rfl
  | succ k ih =>
    have hshift : ∀ n j : Nat, ExtendedMantissa.mk n false false >>> (j + 1) =
        (ExtendedMantissa.mk n false false).shiftRightOne >>> j := by
      intro n j
      induction j with
      | zero => rfl
      | succ j ihj => exact congrArg ExtendedMantissa.shiftRightOne ihj
    have hone : (ExtendedMantissa.mk (m * 2 ^ (k + 1)) false false).shiftRightOne =
        ⟨m * 2 ^ k, false, false⟩ := by
      simp [ExtendedMantissa.shiftRightOne, pow_succ, ← mul_assoc]
    rw [hshift, hone, ih]

theorem mantissa_le_roundedMantissa (m : ExtendedMantissa) : m.mantissa ≤ m.roundedMantissa := by
  rcases m with ⟨m, _ | _, _ | _⟩ <;>
    simp only [ExtendedMantissa.roundedMantissa, ExtendedMantissa.accuracy,
      Accuracy.roundToNearestEven] <;> omega

/-- What fits is not shifted. -/
theorem shiftToTargetExponent_of_le {m : Nat} {e : Int} (h : m.log2 ≤ 52) (hleast : -1074 ≤ e) :
    shiftToTargetExponent .binary64 m e .exact = (⟨m, false, false⟩, e) := by
  have hshift : (Format.binary64.targetExponent (totalExponent m e) - e).toNat = 0 := by
    simp only [Format.targetExponent, totalExponent, Format.mantissaBits, Format.minExponent]
    omega
  simp only [shiftToTargetExponent, shiftToExponent, hshift, Int.natCast_zero, add_zero]
  rfl

/-- A number that is written with zeros at the end is rounded to itself. -/
theorem roundWithAccuracy_mul_two_pow {m : Nat} {e : Int} (h : IsCanonical m e) (s : Sign)
    (k : Nat) :
    roundWithAccuracy .binary64 s (m * 2 ^ k) (e - k) .exact = .finite s m e h.pos := by
  have htotal : totalExponent (m * 2 ^ k) (e - k) = totalExponent m e := by
    simp only [totalExponent, log2_mul_two_pow h.pos]
    omega
  have hfirst : shiftToTargetExponent .binary64 (m * 2 ^ k) (e - k) .exact =
      (⟨m, false, false⟩, e) := by
    have hshift : (e - (e - k)).toNat = k := by omega
    simp only [shiftToTargetExponent, htotal, h.targetExponent, shiftToExponent, hshift,
      sub_add_cancel]
    exact congrArg (·, e) (shiftRight_mul_two_pow m k)
  have hrounded : (ExtendedMantissa.mk m false false).roundedMantissa = m := rfl
  rw [roundWithAccuracy, hfirst]
  simp only [hrounded, shiftToTargetExponent_of_le h.log2_le h.least, h.pos.ne', dite_false]

/-- A number that is written with an exponent not above that of its canonical form is rounded to
it. -/
theorem roundWithAccuracy_eq {m n : Nat} {e k : Int} (h : IsCanonical n k) (s : Sign)
    (heq : (m : ℝ) * 2 ^ e = n * 2 ^ k) (hle : e ≤ k) :
    roundWithAccuracy .binary64 s m e .exact = .finite s n k h.pos := by
  have hexponent : e = k - (k - e).toNat := by omega
  rw [eq_mul_two_pow heq hle, ← roundWithAccuracy_mul_two_pow h s (k - e).toNat, ← hexponent]

/-- However a number is written, it is rounded to its canonical form. -/
theorem round_eq {m n : Nat} {e k : Int} (hm : 0 < m) (h : IsCanonical n k) (s : Sign)
    (heq : (m : ℝ) * 2 ^ e = n * 2 ^ k) :
    UnpackedFloat.round .binary64 s m e = .finite s n k h.pos := by
  unfold UnpackedFloat.round
  rw [totalExponent_congr hm h.pos heq, h.targetExponent]
  simp only [decreaseExponent, Nat.shiftLeft_eq]
  refine roundWithAccuracy_eq h s ?_ (by omega)
  rcases le_total e k with hle | hle
  · have hzero : (e - k).toNat = 0 := by omega
    rw [hzero, pow_zero, mul_one, Int.natCast_zero, sub_zero, heq]
  · have hexponent : e - (e - k).toNat = k := by omega
    rw [hexponent, ← eq_mul_two_pow heq.symm hle]

/-- Shifting keeps the leading 53 bits. -/
theorem shiftToTargetExponent_bounds {m : Nat} {e : Int} (hm : 0 < m) (hleast : -1074 ≤ e) :
    0 < (shiftToTargetExponent .binary64 m e .exact).1.mantissa ∧
      (shiftToTargetExponent .binary64 m e .exact).1.mantissa < 2 ^ 53 ∧
      -1074 ≤ (shiftToTargetExponent .binary64 m e .exact).2 := by
  have hshift : (Format.binary64.targetExponent (totalExponent m e) - e).toNat =
      m.log2 - 52 := by
    simp only [Format.targetExponent, totalExponent, Format.mantissaBits, Format.minExponent]
    omega
  have hlower : 2 ^ (m.log2 - 52) ≤ m :=
    (Nat.pow_le_pow_right two_pos (Nat.sub_le _ _)).trans (Nat.log2_self_le hm.ne')
  have hupper : m < 2 ^ 53 * 2 ^ (m.log2 - 52) := by
    rw [← pow_add]
    exact Nat.lt_log2_self.trans_le (Nat.pow_le_pow_right two_pos (by omega))
  simp only [shiftToTargetExponent, shiftToExponent, mantissa_shiftRight, hshift]
  exact ⟨Nat.div_pos hlower (Nat.two_pow_pos _),
    (Nat.div_lt_iff_lt_mul (Nat.two_pow_pos _)).mpr hupper, by omega⟩

/-- A multiple of the least power of two is not rounded to zero. -/
theorem exists_roundWithAccuracy_eq {m : Nat} {e : Int} (hm : 0 < m) (hleast : -1074 ≤ e)
    (s : Sign) : ∃ n k hn, roundWithAccuracy .binary64 s m e .exact = .finite s n k hn ∧
      n < 2 ^ 53 ∧ -1074 ≤ k := by
  obtain ⟨hfirst, -, hfirst'⟩ := shiftToTargetExponent_bounds hm hleast
  have hrounded := hfirst.trans_le (mantissa_le_roundedMantissa _)
  obtain ⟨hsecond, hlt, hsecond'⟩ := shiftToTargetExponent_bounds hrounded hfirst'
  exact ⟨_, _, hsecond, dif_neg hsecond.ne', hlt, hsecond'⟩

theorem exists_round_eq {m : Nat} {e : Int} (hm : 0 < m) (hleast : -1074 ≤ e) (s : Sign) :
    ∃ n k hn, UnpackedFloat.round .binary64 s m e = .finite s n k hn ∧ n < 2 ^ 53 ∧ -1074 ≤ k := by
  unfold UnpackedFloat.round
  simp only [decreaseExponent, Nat.shiftLeft_eq]
  refine exists_roundWithAccuracy_eq (Nat.mul_pos hm (Nat.two_pow_pos _)) ?_ s
  simp only [Format.targetExponent, totalExponent, Format.mantissaBits, Format.minExponent]
  omega

/-! ## Packing -/

theorem toNat_implicit_append (b : BitVec 52) : (1#1 ++ b).toNat = 2 ^ 52 + b.toNat := by
  rw [BitVec.toNat_append, ← Nat.shiftLeft_add_eq_or_of_lt b.isLt]
  rfl

/-- The bits of a double hold a canonical form. -/
theorem isCanonical_of_unpack {b : BitVec Format.binary64.numBits} {s : Sign} {m : Nat} {e : Int}
    {hm : 0 < m} (h : UnpackedFloat.unpack .binary64 b = .finite s m e hm) :
    IsCanonical m e ∧ e ≤ 971 := by
  have hbias : (Format.binary64.exponentBias : Int) = 1023 := by decide
  have hmantissa : (unpackMantissa b).toNat < 2 ^ 52 := (unpackMantissa b).isLt
  have hexponent : (unpackExponent b).toNat < 2 ^ 11 := (unpackExponent b).isLt
  unfold UnpackedFloat.unpack at h
  dsimp only at h
  split at h
  · split at h <;> cases h
  · rename_i hlarge
    split at h
    · rename_i hzero
      split at h
      · cases h
      · injection h with _ hm' he'
        have hnat : (unpackExponent b).toNat = 0 := by rw [hzero]; rfl
        rw [hnat, hbias] at he'
        exact ⟨⟨hm, by omega, by omega, .inr (by omega)⟩, by omega⟩
    · rename_i hzero
      injection h with _ hm' he'
      rw [toNat_implicit_append] at hm'
      rw [hbias] at he'
      have hnat : (unpackExponent b).toNat ≠ 0 := fun h0 => hzero (BitVec.eq_of_toNat_eq h0)
      have hnat' : (unpackExponent b).toNat ≠ 2047 := fun h0 => hlarge (BitVec.eq_of_toNat_eq h0)
      exact ⟨⟨hm, by omega, by omega, .inl (by omega)⟩, by omega⟩

theorem unpack_normal {m x : Nat} (hfull : 2 ^ 52 ≤ m) (hlt : m < 2 ^ 53) (hx : 0 < x)
    (hx' : x < 2047) (s : Sign) :
    UnpackedFloat.unpack .binary64
        (packComponents .binary64 s (BitVec.ofNat 11 x) (BitVec.ofNat 52 m)) =
      .finite s m (x - 1075) (by omega) := by
  have hexponent : (BitVec.ofNat 11 x).toNat = x := Nat.mod_eq_of_lt (by omega)
  have hmantissa : (1#1 ++ BitVec.ofNat 52 m).toNat = m := by
    rw [toNat_implicit_append, BitVec.toNat_ofNat]
    omega
  have hlarge : BitVec.ofNat 11 x ≠ -1#11 := fun h =>
    absurd (hexponent.symm.trans (congrArg BitVec.toNat h)) hx'.ne
  have hzero : BitVec.ofNat 11 x ≠ 0#11 := fun h =>
    absurd (hexponent.symm.trans (congrArg BitVec.toNat h)) hx.ne'
  simp only [UnpackedFloat.unpack, unpackExponent_packComponents, unpackMantissa_packComponents,
    unpackSign_packComponents, Sign.ofBitVec_toBitVec, if_neg hlarge, if_neg hzero, hmantissa,
    hexponent]
  rfl

theorem unpack_subnormal {m : Nat} (hm : 0 < m) (hlt : m < 2 ^ 52) (s : Sign) :
    UnpackedFloat.unpack .binary64 (packComponents .binary64 s 0#11 (BitVec.ofNat 52 m)) =
      .finite s m (-1074) hm := by
  have hmantissa : (BitVec.ofNat 52 m).toNat = m := Nat.mod_eq_of_lt hlt
  have hnonzero : BitVec.ofNat 52 m ≠ 0#52 := fun h =>
    absurd (hmantissa.symm.trans (congrArg BitVec.toNat h)) hm.ne'
  have hlarge : (0#11 : BitVec 11) ≠ -1#11 := by decide
  simp only [UnpackedFloat.unpack, unpackExponent_packComponents, unpackMantissa_packComponents,
    unpackSign_packComponents, Sign.ofBitVec_toBitVec, if_neg hlarge, dif_neg hnonzero, hmantissa,
    if_true]
  rfl

/-- A canonical form comes through packing. -/
theorem unpack_pack_finite {m : Nat} {e : Int} (h : IsCanonical m e) (he : e ≤ 971) (s : Sign) :
    UnpackedFloat.unpack .binary64 (UnpackedFloat.pack .binary64 (.finite s m e h.pos)) =
      .finite s m e h.pos := by
  have hleast := h.least
  have hlt := h.lt
  have hbiased : e + Format.binary64.exponentBias +
      (Format.binary64.mantissaBitsWithoutImplicit : Int) = e + 1075 :=
    add_assoc e 1023 52
  have hfits : ¬ 2 ^ Format.binary64.exponentBits ≤ (e + 1075).toNat + 1 := by
    simp only [Nat.reducePow]
    omega
  unfold UnpackedFloat.pack
  dsimp only
  rw [hbiased, if_neg hfits]
  by_cases hlog : m.log2 + 1 = Format.binary64.mantissaBits
  · have hfull : 2 ^ 52 ≤ m :=
      (Nat.le_log2 h.pos.ne').mp (Nat.succ_injective hlog : m.log2 = 52).ge
    have hexponent : ((e + 1075).toNat : Int) - 1075 = e := by omega
    rw [if_pos hlog, unpack_normal hfull hlt (by omega) (by omega)]
    congr 1
  · have hfew : m < 2 ^ 52 := by
      have hle := h.log2_le
      have hlog : m.log2 + 1 ≠ 53 := hlog
      exact (Nat.log2_lt h.pos.ne').mp (by omega)
    obtain rfl : e = -1074 := h.normal.resolve_left (by omega)
    rw [if_neg hlog, unpack_subnormal h.pos hfew]

/-- What is not zero is not packed into the bits of a zero. -/
theorem pack_ne_packedZero {m : Nat} {e : Int} (hm : 0 < m) (hlt : m < 2 ^ 53) (hleast : -1074 ≤ e)
    (s t : Sign) :
    UnpackedFloat.pack .binary64 (.finite s m e hm) ≠ packedZero .binary64 t := by
  have hbiased : e + Format.binary64.exponentBias +
      (Format.binary64.mantissaBitsWithoutImplicit : Int) = e + 1075 :=
    add_assoc e 1023 52
  intro heq
  have hexponent := congrArg unpackExponent heq
  have hmantissa := congrArg unpackMantissa heq
  unfold UnpackedFloat.pack packedZero at hexponent hmantissa
  dsimp only at hexponent hmantissa
  rw [hbiased] at hexponent hmantissa
  split at hexponent
  · simp only [packedInfinity, unpackExponent_packComponents] at hexponent
    exact absurd hexponent (by decide)
  · rename_i hfits
    split at hexponent
    · simp only [unpackExponent_packComponents] at hexponent
      have hzero : (e + 1075).toNat % 2 ^ 11 = 0 := congrArg BitVec.toNat hexponent
      simp only [Nat.reducePow] at hfits
      omega
    · rename_i hlog
      rw [if_neg hfits, if_neg hlog] at hmantissa
      simp only [unpackMantissa_packComponents] at hmantissa
      have hzero : m % 2 ^ 52 = 0 := congrArg BitVec.toNat hmantissa
      have hlog : m.log2 + 1 ≠ 53 := hlog
      have hle := (Nat.log2_lt hm.ne').mpr hlt
      have hfew : m < 2 ^ 52 := (Nat.log2_lt hm.ne').mp (by omega)
      omega

/-! ## Values -/

/-- The number that an unpacked double stands for, if it is finite. -/
noncomputable def unpackedValue : UnpackedFloat → ℝ
  | .finite s m e _ => (s.apply m : Int) * ((2 : Nat) : ℝ) ^ e
  | _ => 0

/-- The number that a double stands for, if it is finite. -/
noncomputable def value (x : Float) : ℝ := unpackedValue x.toModel.unpack

/-- A number that a double can stand for: an integer of at most 53 bits times a power of two. -/
def IsDouble (r : ℝ) : Prop :=
  ∃ z e : Int, z.natAbs < 2 ^ 53 ∧ -1074 ≤ e ∧ e ≤ 971 ∧ r = z * ((2 : Nat) : ℝ) ^ e

/-- An unpacked form of a number. -/
structure Unpacks (u : UnpackedFloat) (r : ℝ) : Prop where
  isFinite : u.isFinite = true
  value_eq : unpackedValue u = r
  canonical : ∀ {s m e hm}, u = .finite s m e hm → IsCanonical m e ∧ e ≤ 971

theorem unpacks_value {x : Float} (hx : x.isFinite = true) :
    Unpacks x.toModel.unpack (value x) :=
  ⟨hx, rfl, isCanonical_of_unpack⟩

theorem Unpacks.value_ne_zero {s : Sign} {m : Nat} {e : Int} {hm : 0 < m} {r : ℝ}
    (h : Unpacks (.finite s m e hm) r) : r ≠ 0 := by
  have hpow : (2 : ℝ) ^ e ≠ 0 := zpow_ne_zero e two_ne_zero
  obtain rfl : ((s.apply m : Int) : ℝ) * 2 ^ e = r := h.value_eq
  cases s <;> simp [Sign.apply, hm.ne', hpow]

theorem Unpacks.unpack_pack {u : UnpackedFloat} {r : ℝ} (h : Unpacks u r) :
    (Float.Model.pack u).unpack = u := by
  cases u with
  | zero s => exact (unpack_eq_zero_iff_of_valid valid_pack).mpr rfl
  | finite s m e hm =>
    obtain ⟨hcanonical, hle⟩ := h.canonical rfl
    exact unpack_pack_finite hcanonical hle s
  | notANumber | infinity => exact absurd h.isFinite Bool.false_ne_true

/-- What is packed stands for the number that it did. -/
theorem Unpacks.pack {u : UnpackedFloat} {r : ℝ} (h : Unpacks u r) :
    (Float.ofModel (.pack u)).isFinite = true ∧ value (Float.ofModel (.pack u)) = r := by
  have hfinite : (Float.Model.pack u).unpack.isFinite = true := by
    rw [h.unpack_pack]
    exact h.isFinite
  have hvalue : unpackedValue (Float.Model.pack u).unpack = r := by
    rw [h.unpack_pack]
    exact h.value_eq
  exact ⟨hfinite, hvalue⟩

theorem IsDouble.abs {r : ℝ} (h : IsDouble r) : IsDouble |r| := by
  obtain ⟨z, e, hz, hleast, hgreatest, rfl⟩ := h
  have hpow : 0 < ((2 : Nat) : ℝ) ^ e := zpow_pos (Nat.cast_pos.mpr Nat.two_pos) e
  refine ⟨z.natAbs, e, by rwa [Int.natAbs_natCast], hleast, hgreatest, ?_⟩
  rw [abs_mul, abs_of_pos hpow, ← Int.cast_abs, Int.abs_eq_natAbs]

/-- A positive number that a double can stand for has a canonical form. -/
theorem IsDouble.exists_canonical {r : ℝ} (h : IsDouble r) (hr : 0 < r) :
    ∃ n k, IsCanonical n k ∧ k ≤ 971 ∧ r = n * 2 ^ k := by
  obtain ⟨z, k, hz, hleast, hgreatest, rfl⟩ := h
  have hpos : 0 < z := by
    exact_mod_cast (mul_pos_iff_of_pos_right (zpow_pos two_pos k)).mp hr
  obtain ⟨n, rfl⟩ := Int.eq_ofNat_of_zero_le hpos.le
  have hn : 0 < n := by omega
  rw [Int.natAbs_natCast] at hz
  have hlog : n.log2 ≤ 52 := Nat.le_of_lt_succ ((Nat.log2_lt hn.ne').mpr hz)
  -- shift to the left until 53 bits are filled or the exponent is the least
  obtain ⟨j, hj⟩ : ∃ j : Nat, j = min (52 - n.log2) (k + 1074).toNat := ⟨_, rfl⟩
  have hlog' := log2_mul_two_pow hn j
  have hpos' : 0 < n * 2 ^ j := Nat.mul_pos hn (Nat.two_pow_pos j)
  refine ⟨n * 2 ^ j, k - j, ⟨hpos', ?_, by omega, ?_⟩, by omega, ?_⟩
  · exact (Nat.log2_lt hpos'.ne').mp (by omega)
  · rw [← Nat.le_log2 hpos'.ne']
    omega
  · rw [zpow_sub₀ two_ne_zero, zpow_natCast]
    push_cast
    field_simp

theorem apply_mul (s : Sign) (m : Nat) (x : ℝ) :
    ((s.apply m : Int) : ℝ) * x = (s.apply 1 : Int) * (m * x) := by
  cases s <;> simp [Sign.apply]

theorem abs_apply (s : Sign) (x : ℝ) : |((s.apply 1 : Int) : ℝ) * x| = |x| := by
  cases s <;> simp [Sign.apply]

/-! ## Exact results -/

theorem unpacks_zero (s : Sign) : Unpacks (.zero s) 0 := ⟨rfl, rfl, nofun⟩

theorem unpacks_finite {n : Nat} {k : Int} (h : IsCanonical n k) (hk : k ≤ 971) (s : Sign) :
    Unpacks (.finite s n k h.pos) ((s.apply 1 : Int) * (n * 2 ^ k)) := by
  refine ⟨rfl, apply_mul s n _, fun heq => ?_⟩
  cases heq
  exact ⟨h, hk⟩

theorem unpacks_round {m : Nat} {e : Int} (hm : 0 < m) (s : Sign)
    (h : IsDouble ((s.apply m : Int) * 2 ^ e)) :
    Unpacks (UnpackedFloat.round .binary64 s m e) ((s.apply m : Int) * 2 ^ e) := by
  have hpos : (0 : ℝ) < m * 2 ^ e := mul_pos (Nat.cast_pos.mpr hm) (zpow_pos two_pos e)
  rw [apply_mul] at h ⊢
  have hmagnitude := h.abs
  rw [abs_apply, abs_of_pos hpos] at hmagnitude
  obtain ⟨n, k, hcanonical, hk, heq⟩ := hmagnitude.exists_canonical hpos
  rw [round_eq hm hcanonical s heq, heq]
  exact unpacks_finite hcanonical hk s

/-- A sum or a difference is rounded to what it is, if that is a double. -/
theorem unpacks_normalize {k e : Int} (h : IsDouble (k * 2 ^ e)) :
    Unpacks (UnpackedFloat.normalize .binary64 k e .positive) (k * 2 ^ e) := by
  unfold UnpackedFloat.normalize
  rcases lt_trichotomy k 0 with hneg | rfl | hpos
  · have hsign : Sign.negative.apply ((-k).toNat : Int) = k := by
      simp only [Sign.apply]
      omega
    have hround := unpacks_round (m := (-k).toNat) (e := e) (by omega) .negative (by rwa [hsign])
    rw [Int.compare_eq_lt.mpr hneg]
    rwa [hsign] at hround
  · rw [Int.cast_zero, zero_mul]
    exact unpacks_zero .positive
  · have hsign : Sign.positive.apply (k.toNat : Int) = k := by
      simp only [Sign.apply]
      omega
    have hround := unpacks_round (m := k.toNat) (e := e) (by omega) .positive (by rwa [hsign])
    rw [Int.compare_eq_gt.mpr hpos]
    rwa [hsign] at hround

/-- Shifting to a smaller exponent does not change a number. -/
theorem apply_decreaseExponent (s : Sign) (m : Nat) {e k : Int} (h : k ≤ e) :
    ((s.apply (decreaseExponent m e k).1 : Int) : ℝ) * 2 ^ k = (s.apply m : Int) * 2 ^ e := by
  rw [apply_mul, apply_mul s m, two_zpow_eq h, decreaseExponent, Nat.shiftLeft_eq]
  push_cast
  ring

section

variable (s s' : Sign) {m m' : Nat} (e e' : Int) (hm : 0 < m) (hm' : 0 < m')

/-- The significands are added at the smaller exponent. -/
theorem exists_add_eq_normalize : ∃ k : Int,
    ((s.apply m : Int) : ℝ) * 2 ^ e + (s'.apply m' : Int) * 2 ^ e' = k * 2 ^ min e e' ∧
      UnpackedFloat.add .binary64 (.finite s m e hm) (.finite s' m' e' hm') =
        .normalize .binary64 k (min e e') .positive := by
  refine ⟨s.apply (decreaseExponent m e (min e e')).1 +
    s'.apply (decreaseExponent m' e' (min e e')).1, ?_, rfl⟩
  rw [Int.cast_add, add_mul, apply_decreaseExponent s m (min_le_left e e'),
    apply_decreaseExponent s' m' (min_le_right e e')]

/-- They are subtracted at the smaller exponent, too. -/
theorem exists_sub_eq_normalize : ∃ k : Int,
    ((s.apply m : Int) : ℝ) * 2 ^ e - (s'.apply m' : Int) * 2 ^ e' = k * 2 ^ min e e' ∧
      UnpackedFloat.sub .binary64 (.finite s m e hm) (.finite s' m' e' hm') =
        .normalize .binary64 k (min e e') .positive := by
  refine ⟨s.apply (decreaseExponent m e (min e e')).1 -
    s'.apply (decreaseExponent m' e' (min e e')).1, ?_, rfl⟩
  rw [Int.cast_sub, sub_mul, apply_decreaseExponent s m (min_le_left e e'),
    apply_decreaseExponent s' m' (min_le_right e e')]

end

theorem Unpacks.add {u v : UnpackedFloat} {r t : ℝ} (hu : Unpacks u r) (hv : Unpacks v t)
    (h : IsDouble (r + t)) : Unpacks (UnpackedFloat.add .binary64 u v) (r + t) := by
  cases u with
  | notANumber | infinity => exact absurd hu.isFinite Bool.false_ne_true
  | zero s =>
    obtain rfl : 0 = r := hu.value_eq
    cases v with
    | notANumber | infinity => exact absurd hv.isFinite Bool.false_ne_true
    | zero s' =>
      obtain rfl : 0 = t := hv.value_eq
      rw [add_zero, UnpackedFloat.add]
      split <;> exact unpacks_zero _
    | finite => rwa [zero_add]
  | finite s m e hm =>
    cases v with
    | notANumber | infinity => exact absurd hv.isFinite Bool.false_ne_true
    | zero s' =>
      obtain rfl : 0 = t := hv.value_eq
      rwa [add_zero]
    | finite s' m' e' hm' =>
      obtain rfl : ((s.apply m : Int) : ℝ) * 2 ^ e = r := hu.value_eq
      obtain rfl : ((s'.apply m' : Int) : ℝ) * 2 ^ e' = t := hv.value_eq
      obtain ⟨k, hsum, hadd⟩ := exists_add_eq_normalize s s' e e' hm hm'
      rw [hsum] at h ⊢
      rw [hadd]
      exact unpacks_normalize h

/-- A sum that a double can stand for is not rounded. -/
theorem value_add {a b : Float} (ha : a.isFinite = true) (hb : b.isFinite = true)
    (h : IsDouble (value a + value b)) :
    (a + b).isFinite = true ∧ value (a + b) = value a + value b :=
  ((unpacks_value ha).add (unpacks_value hb) h).pack

theorem log2_mul_le {m n : Nat} (hm : 0 < m) (hn : 0 < n) :
    (m * n).log2 ≤ m.log2 + n.log2 + 1 := by
  refine Nat.le_of_lt_succ ((Nat.log2_lt (Nat.mul_pos hm hn).ne').mpr ?_)
  calc m * n < 2 ^ (m.log2 + 1) * 2 ^ (n.log2 + 1) :=
        Nat.mul_lt_mul_of_lt_of_lt Nat.lt_log2_self Nat.lt_log2_self
    _ = 2 ^ (m.log2 + n.log2 + 2) := by rw [← pow_add]; congr 1; omega

/-- The quotient of a mantissa and a divisor of it leaves no remainder. -/
theorem divCore_eq {m₁ m₂ n : Nat} {e₁ e₂ k : Int} (hm₁ : 0 < m₁) (hm₂ : 0 < m₂)
    (h : IsCanonical n k) (heq : (m₁ : ℝ) * 2 ^ e₁ = m₂ * 2 ^ e₂ * (n * 2 ^ k)) :
    ∃ j ≤ k, divCore .binary64 m₁ e₁ m₂ e₂ = (n * 2 ^ (k - j).toNat, j, .exact) := by
  have hproduct : (m₁ : ℝ) * 2 ^ e₁ = (m₂ * n : Nat) * 2 ^ (e₂ + k) := by
    rw [heq, zpow_add₀ two_ne_zero]
    push_cast
    ring
  have htotal := totalExponent_congr hm₁ (Nat.mul_pos hm₂ h.pos) hproduct
  have hlog := log2_mul_le hm₂ h.pos
  have htarget := h.targetExponent
  obtain ⟨j, hj⟩ : ∃ j, j = min (e₁ - e₂)
      (Format.binary64.targetExponent (totalExponent m₁ e₁ - totalExponent m₂ e₂)) := ⟨_, rfl⟩
  have hle : j ≤ k := by
    simp only [Format.targetExponent, totalExponent] at hj htarget htotal
    omega
  have hshifted : m₁ <<< (e₁ - e₂ - j).toNat = m₂ * (n * 2 ^ (k - j).toNat) := by
    have hwrite : ((m₁ <<< (e₁ - e₂ - j).toNat : Nat) : ℝ) * 2 ^ (e₂ + j) =
        (m₂ * n : Nat) * 2 ^ (e₂ + k) := by
      have hsplit := two_zpow_eq (show e₂ + j ≤ e₁ by omega)
      rw [← sub_sub] at hsplit
      rw [← hproduct, Nat.shiftLeft_eq, hsplit]
      push_cast
      ring
    have hexponent : (e₂ + k - (e₂ + j)).toNat = (k - j).toNat := by omega
    rw [eq_mul_two_pow hwrite (by omega), hexponent, mul_assoc]
  refine ⟨j, hle, ?_⟩
  unfold divCore
  simp only [← hj, hshifted, Nat.mul_div_cancel_left _ hm₂, Nat.mul_mod_right, accuracyOfFraction,
    if_true]

theorem sign_eq_positive {s : Sign} {m : Nat} {x : ℝ} (hx : 0 ≤ m * x)
    (h : 0 < ((s.apply m : Int) : ℝ) * x) : s = .positive := by
  cases s with
  | positive => rfl
  | negative =>
    rw [apply_mul] at h
    simp only [Sign.apply, Int.cast_neg, Int.cast_one, neg_one_mul] at h
    linarith

/-- A quotient with a canonical form is rounded to that form. -/
theorem div_eq_finite {m₁ m₂ n : Nat} {e₁ e₂ k : Int} (s : Sign) (hm₁ : 0 < m₁) (hm₂ : 0 < m₂)
    (h : IsCanonical n k) (heq : (m₁ : ℝ) * 2 ^ e₁ = m₂ * 2 ^ e₂ * (n * 2 ^ k)) :
    UnpackedFloat.div .binary64 (.finite s m₁ e₁ hm₁) (.finite .positive m₂ e₂ hm₂) =
      .finite s n k h.pos := by
  obtain ⟨j, hj, hcore⟩ := divCore_eq hm₁ hm₂ h heq
  have hsign : s / .positive = s := by cases s <;> rfl
  simp only [UnpackedFloat.div, hcore, hsign]
  refine roundWithAccuracy_eq h s ?_ hj
  rw [two_zpow_eq hj]
  push_cast
  ring

theorem Unpacks.div {u v : UnpackedFloat} {r t : ℝ} (hu : Unpacks u r) (hv : Unpacks v t)
    (ht : 0 < t) (h : IsDouble (r / t)) : Unpacks (UnpackedFloat.div .binary64 u v) (r / t) := by
  cases v with
  | notANumber | infinity => exact absurd hv.isFinite Bool.false_ne_true
  | zero s' => exact absurd hv.value_eq ht.ne
  | finite s' m' e' hm' =>
    have hvalue : ((s'.apply m' : Int) : ℝ) * 2 ^ e' = t := hv.value_eq
    have hdivisor : (0 : ℝ) < m' * 2 ^ e' := mul_pos (Nat.cast_pos.mpr hm') (zpow_pos two_pos e')
    obtain rfl : s' = .positive := sign_eq_positive hdivisor.le (hvalue ▸ ht)
    obtain rfl : (m' : ℝ) * 2 ^ e' = t := hvalue
    cases u with
    | notANumber | infinity => exact absurd hu.isFinite Bool.false_ne_true
    | zero s =>
      obtain rfl : 0 = r := hu.value_eq
      rw [zero_div]
      exact unpacks_zero _
    | finite s m e hm =>
      obtain rfl : ((s.apply m : Int) : ℝ) * 2 ^ e = r := hu.value_eq
      have hpos : (0 : ℝ) < m * 2 ^ e := mul_pos (Nat.cast_pos.mpr hm) (zpow_pos two_pos e)
      rw [apply_mul, mul_div_assoc] at h ⊢
      have hmagnitude := h.abs
      rw [abs_apply, abs_of_pos (div_pos hpos ht)] at hmagnitude
      obtain ⟨n, k, hcanonical, hk, heq⟩ := hmagnitude.exists_canonical (div_pos hpos ht)
      have hproduct : (m : ℝ) * 2 ^ e = m' * 2 ^ e' * (n * 2 ^ k) := by
        rw [← heq, mul_div_cancel₀ _ ht.ne']
      rw [div_eq_finite s hm hm' hcanonical hproduct, heq]
      exact unpacks_finite hcanonical hk s

/-- A quotient that a double can stand for is not rounded. -/
theorem value_div {a b : Float} (ha : a.isFinite = true) (hb : b.isFinite = true)
    (hpos : 0 < value b) (h : IsDouble (value a / value b)) :
    (a / b).isFinite = true ∧ value (a / b) = value a / value b :=
  ((unpacks_value ha).div (unpacks_value hb) hpos h).pack

/-! ## Integers -/

/-- One has no effect as a factor. -/
theorem unpacks_mul_one {u : UnpackedFloat} {r : ℝ} (hu : Unpacks u r) :
    UnpackedFloat.mul .binary64 u (.finite .positive (2 ^ 52) (-52) (by decide)) = u := by
  cases u with
  | notANumber | infinity => exact absurd hu.isFinite Bool.false_ne_true
  | zero s => cases s <;> rfl
  | finite s m e hm =>
    have hsign : s * .positive = s := by cases s <;> rfl
    have hround := roundWithAccuracy_mul_two_pow (hu.canonical rfl).1 s 52
    simp only [UnpackedFloat.mul, hsign]
    exact hround

/-- An integer of at most 53 bits is a double. -/
theorem value_natCast {n : Nat} (hn : n < 2 ^ 53) :
    (n : Float).isFinite = true ∧ value (n : Float) = n := by
  have hdouble : IsDouble ((n : Int) * 2 ^ (0 : Int)) := ⟨n, 0, by simpa using hn, by simp⟩
  have hinteger : Unpacks (UnpackedFloat.ofUInt64 .binary64 n.toUInt64) n := by
    have hnat : n.toUInt64.toNat = n := Nat.mod_eq_of_lt (by omega)
    have hnormal : UnpackedFloat.ofUInt64 .binary64 n.toUInt64 =
        UnpackedFloat.normalize .binary64 n.toUInt64.toNat 0 .positive := rfl
    have hresult := unpacks_normalize hdouble
    rw [hnormal, hnat]
    rwa [zpow_zero, mul_one, Int.cast_natCast] at hresult
  have hcast : (n : Float) = n.toUInt64.toFloat * Float.ofBits 4607182418800017408 := by
    change Float.ofScientific n false 0 = _
    rw [Float.ofScientific, dif_pos ⟨hn, Nat.zero_le _⟩]
    rfl
  have hmul : n.toUInt64.toFloat * Float.ofBits 4607182418800017408 =
      .ofModel (.pack (UnpackedFloat.mul .binary64
        (Float.Model.pack (UnpackedFloat.ofUInt64 .binary64 n.toUInt64)).unpack
        (.finite .positive (2 ^ 52) (-52) (by decide)))) := rfl
  rw [hcast, hmul, hinteger.unpack_pack, unpacks_mul_one hinteger]
  exact hinteger.pack

/-! ## Differences -/

theorem exists_normalize_eq {k e : Int} (hk : k ≠ 0) (hleast : -1074 ≤ e) :
    ∃ s n j hn, UnpackedFloat.normalize .binary64 k e .positive = .finite s n j hn ∧
      n < 2 ^ 53 ∧ -1074 ≤ j := by
  unfold UnpackedFloat.normalize
  rcases lt_or_gt_of_ne hk with hneg | hpos
  · rw [Int.compare_eq_lt.mpr hneg]
    exact ⟨.negative, exists_round_eq (by omega) hleast .negative⟩
  · rw [Int.compare_eq_gt.mpr hpos]
    exact ⟨.positive, exists_round_eq (by omega) hleast .positive⟩

/-- Before it is packed, a difference is zero just if the operands are equal. -/
theorem Unpacks.sub_cases {u v : UnpackedFloat} {r t : ℝ} (hu : Unpacks u r) (hv : Unpacks v t) :
    (r = t ∧ ∃ s, UnpackedFloat.sub .binary64 u v = .zero s) ∨
      (r ≠ t ∧ ∃ s n k hn, UnpackedFloat.sub .binary64 u v = .finite s n k hn ∧
        n < 2 ^ 53 ∧ -1074 ≤ k) := by
  cases u with
  | notANumber | infinity => exact absurd hu.isFinite Bool.false_ne_true
  | zero s =>
    obtain rfl : 0 = r := hu.value_eq
    cases v with
    | notANumber | infinity => exact absurd hv.isFinite Bool.false_ne_true
    | zero s' =>
      refine .inl ⟨hv.value_eq, ?_⟩
      rw [UnpackedFloat.sub]
      split <;> exact ⟨_, rfl⟩
    | finite s' m' e' hm' =>
      obtain ⟨hcanonical, -⟩ := hv.canonical rfl
      exact .inr ⟨fun h => hv.value_ne_zero h.symm, -s', m', e', hm', rfl, hcanonical.lt,
        hcanonical.least⟩
  | finite s m e hm =>
    obtain ⟨hcanonical, -⟩ := hu.canonical rfl
    cases v with
    | notANumber | infinity => exact absurd hv.isFinite Bool.false_ne_true
    | zero s' =>
      obtain rfl : 0 = t := hv.value_eq
      exact .inr ⟨hu.value_ne_zero, s, m, e, hm, rfl, hcanonical.lt, hcanonical.least⟩
    | finite s' m' e' hm' =>
      obtain ⟨hcanonical', -⟩ := hv.canonical rfl
      obtain rfl : ((s.apply m : Int) : ℝ) * 2 ^ e = r := hu.value_eq
      obtain rfl : ((s'.apply m' : Int) : ℝ) * 2 ^ e' = t := hv.value_eq
      obtain ⟨k, hdifference, hsub⟩ := exists_sub_eq_normalize s s' e e' hm hm'
      have hequal : ((s.apply m : Int) : ℝ) * 2 ^ e = (s'.apply m' : Int) * 2 ^ e' ↔ k = 0 := by
        rw [← sub_eq_zero, hdifference, mul_eq_zero_iff_right (zpow_ne_zero _ two_ne_zero),
          Int.cast_eq_zero]
      rw [hsub, ne_eq, hequal]
      rcases eq_or_ne k 0 with rfl | hne
      · exact .inl ⟨rfl, .positive, rfl⟩
      · exact .inr ⟨hne, exists_normalize_eq hne (le_min hcanonical.least hcanonical'.least)⟩

/-- A difference of numbers is zero only if they are equal. -/
theorem value_sub_eq_zero_iff {a b : Float} (ha : a.isFinite = true) (hb : b.isFinite = true)
    (h : (a - b).isFinite = true) : value (a - b) = 0 ↔ value a = value b := by
  rcases (unpacks_value ha).sub_cases (unpacks_value hb) with
    ⟨heq, s, hsub⟩ | ⟨hne, s, n, k, hn, hsub, hlt, hleast⟩
  · rw [double_sub_eq, hsub]
    exact iff_of_true (unpacks_zero s).pack.2 heq
  · refine iff_of_false ?_ hne
    have hnonzero : ∀ t, (a - b).toModel.unpack ≠ .zero t := fun t hzero => by
      rw [double_sub_eq, hsub] at hzero
      exact pack_ne_packedZero hn hlt hleast s t
        ((unpack_eq_zero_iff_of_valid valid_pack).mp hzero)
    have hunpacks := unpacks_value h
    generalize (a - b).toModel.unpack = u at hnonzero hunpacks
    cases u with
    | notANumber | infinity => exact absurd hunpacks.isFinite Bool.false_ne_true
    | zero t => exact absurd rfl (hnonzero t)
    | finite => exact hunpacks.value_ne_zero

theorem isFinite_sub_of_value_eq {a b : Float} (ha : a.isFinite = true) (hb : b.isFinite = true)
    (h : value a = value b) : (a - b).isFinite = true := by
  rcases (unpacks_value ha).sub_cases (unpacks_value hb) with ⟨_, s, hsub⟩ | ⟨hne, _⟩
  · rw [double_sub_eq, hsub]
    exact (unpacks_zero s).pack.1
  · exact absurd h hne

/-- Only a finite number can be taken away with a finite result. -/
theorem isFinite_of_isFinite_sub {a b : Float} (h : (a - b).isFinite = true) :
    b.isFinite = true := by
  have hnumber := double_isNaN_of_isFinite h
  by_contra hb
  cases hinf : b.isInf with
  | true =>
    have hinf' := double_isInf_sub (.inr hinf) hnumber
    rcases double_isInf_iff.mp hinf' with heq | heq <;> rw [heq] at h <;> exact absurd h (by decide)
  | false =>
    have hnan := double_isNaN_of_not_finite (Bool.eq_false_iff.mpr hb) hinf
    rw [double_isNaN_sub a hnan] at hnumber
    exact absurd hnumber (by decide)

end EnsembleSampling
