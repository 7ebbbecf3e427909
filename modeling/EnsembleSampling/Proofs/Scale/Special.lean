import EnsembleSampling.Number.Elementary
import EnsembleSampling.Proofs.Scale.Double
set_option autoImplicit false

/-!
# Special values of doubles

How infinities and what is no number come through differences, magnitudes, maxima and quotients
of doubles.  A difference is no number just if one of its operands is none or both are the same
infinity (`double_isNaN_sub_iff`), a maximum keeps what is no number, and otherwise an infinity
(`isNaN_largest`, `largest_infinity`), and a quotient of an infinity is never finite.

As elsewhere the facts are read off the unpacked form.  A result is packed again, and packing
makes nothing no number that was one (`isNaN_pack`).
-/

namespace EnsembleSampling

open Float.Model Float.Model.UnpackedFloat

/-! ## Packing -/

/-- Bits are no number just if the exponent is all ones and the mantissa is not zero. -/
theorem isNaN_unpack_iff {spec : Format} {b : BitVec spec.numBits} :
    (UnpackedFloat.unpack spec b).isNaN = true ↔
      unpackExponent b = -1#_ ∧ unpackMantissa b ≠ 0#_ := by
  unfold UnpackedFloat.unpack
  dsimp only
  split
  · split <;> simp_all [UnpackedFloat.isNaN]
  · split
    · split <;> simp_all [UnpackedFloat.isNaN]
    · simp_all [UnpackedFloat.isNaN]

/-- Packing makes nothing no number that was one. -/
theorem isNaN_pack (spec : Format) (u : UnpackedFloat) (h : u.isNaN = false) :
    (UnpackedFloat.unpack spec (UnpackedFloat.pack spec u)).isNaN = false := by
  rw [← Bool.not_eq_true, isNaN_unpack_iff, not_and, not_not]
  fun_cases UnpackedFloat.pack spec u with
  | case1 => exact absurd h (by decide)
  | case2 s => simp [packedInfinity]
  | case3 s => simp [packedZero]
  | case4 s m e hm biased hlarge => simp [packedInfinity]
  | case5 s m e hm bits biased hsmall hnormal =>
    intro hexponent
    exfalso
    have hmod : biased % 2 ^ spec.exponentBits = 2 ^ spec.exponentBits - 1 := by
      simpa [BitVec.neg_one_eq_allOnes, ← BitVec.toNat_inj] using hexponent
    rw [Nat.mod_eq_of_lt (by omega)] at hmod
    omega
  | case6 s m e hm bits biased hsmall hsubnormal =>
    intro hexponent
    simp [Nat.pos_iff_ne_zero.1 spec.he] at hexponent

/-- Packing makes nothing finite that was not. -/
theorem not_isFinite_pack {u : UnpackedFloat} (h : u.isFinite = false) :
    (Float.ofModel (.pack u)).isFinite = false := by
  cases u with
  | notANumber => rfl
  | infinity s => cases s <;> rfl
  | zero | finite => exact absurd h (by simp [UnpackedFloat.isFinite])

theorem isNaN_roundWithAccuracy (spec : Format) (s : Sign) (m : Nat) (e : Int) (a : Accuracy) :
    (roundWithAccuracy spec s m e a).isNaN = false := by
  unfold roundWithAccuracy
  dsimp only
  split <;> rfl

theorem isNaN_normalize (spec : Format) (m e : Int) (s : Sign) :
    (UnpackedFloat.normalize spec m e s).isNaN = false := by
  unfold UnpackedFloat.normalize
  split
  · exact isNaN_roundWithAccuracy ..
  · rfl
  · exact isNaN_roundWithAccuracy ..

/-! ## Differences and magnitudes -/

theorem isNaN_unpacked_sub_iff (u v : UnpackedFloat) :
    (UnpackedFloat.sub .binary64 u v).isNaN = true ↔
      u.isNaN = true ∨ v.isNaN = true ∨ u.isInf = true ∧ u = v := by
  cases u with
  | notANumber => simp [UnpackedFloat.sub, UnpackedFloat.isNaN]
  | infinity s =>
    cases v with
    | infinity t =>
      have hsame : (UnpackedFloat.sub .binary64 (.infinity s) (.infinity t)).isNaN = true ↔
          s = t := by
        cases s <;> cases t
        case negative.negative | positive.positive => exact iff_of_true rfl rfl
        case negative.positive | positive.negative =>
          exact iff_of_false Bool.false_ne_true Sign.noConfusion
      rw [hsame]
      simp [UnpackedFloat.isNaN, UnpackedFloat.isInf]
    | _ => simp [UnpackedFloat.sub, UnpackedFloat.isNaN]
  | zero s =>
    cases v with
    | zero t =>
      have hnumber : (UnpackedFloat.sub .binary64 (.zero s) (.zero t)).isNaN = false := by
        cases s <;> cases t <;> rfl
      rw [hnumber]
      simp [UnpackedFloat.isNaN, UnpackedFloat.isInf]
    | _ => simp [UnpackedFloat.sub, UnpackedFloat.isNaN, UnpackedFloat.isInf]
  | finite s m e hm =>
    cases v with
    | finite t n k hn =>
      have hnumber :
          (UnpackedFloat.sub .binary64 (.finite s m e hm) (.finite t n k hn)).isNaN = false :=
        isNaN_normalize ..
      rw [hnumber]
      simp [UnpackedFloat.isNaN, UnpackedFloat.isInf]
    | _ => simp [UnpackedFloat.sub, UnpackedFloat.isNaN, UnpackedFloat.isInf]

/-- A difference is no number just if one of its operands is none or both are the same
infinity. -/
theorem double_isNaN_sub_iff {a b : Float} :
    (a - b).isNaN = true ↔ a.isNaN = true ∨ b.isNaN = true ∨ a.isInf = true ∧ a = b := by
  have hpack : (a - b).isNaN =
      (UnpackedFloat.sub .binary64 a.toModel.unpack b.toModel.unpack).isNaN := by
    cases hsub : (UnpackedFloat.sub .binary64 a.toModel.unpack b.toModel.unpack).isNaN with
    | false => exact isNaN_pack _ _ hsub
    | true =>
      cases hform : UnpackedFloat.sub .binary64 a.toModel.unpack b.toModel.unpack with
      | notANumber =>
        rw [double_sub_eq, hform]
        rfl
      | _ => simp [hform, UnpackedFloat.isNaN] at hsub
  have heq : a.toModel.unpack = b.toModel.unpack ↔ a = b :=
    ⟨double_eq_of_unpack_eq, fun h => by rw [h]⟩
  rw [hpack, isNaN_unpacked_sub_iff, heq]
  rfl

theorem double_isInf_iff {a : Float} : a.isInf = true ↔ a = 1.0 / 0.0 ∨ a = -1.0 / 0.0 := by
  constructor
  · intro h
    have h : a.toModel.unpack.isInf = true := h
    cases ha : a.toModel.unpack with
    | infinity s =>
      cases s with
      | positive => exact .inl (double_eq_of_unpack_eq (ha.trans unpack_infinity.symm))
      | negative => exact .inr (double_eq_of_unpack_eq (ha.trans unpack_negInfinity.symm))
    | _ => simp [ha, UnpackedFloat.isInf] at h
  · rintro (rfl | rfl) <;> decide

/-- What is neither finite nor infinite is no number. -/
theorem double_isNaN_of_not_finite {a : Float} (hfinite : a.isFinite = false)
    (hinf : a.isInf = false) : a.isNaN = true := by
  have hfinite : a.toModel.unpack.isFinite = false := hfinite
  have hinf : a.toModel.unpack.isInf = false := hinf
  change a.toModel.unpack.isNaN = true
  cases ha : a.toModel.unpack with
  | notANumber => rfl
  | infinity s => simp [ha, UnpackedFloat.isInf] at hinf
  | zero s => simp [ha, UnpackedFloat.isFinite] at hfinite
  | finite s m e hm => simp [ha, UnpackedFloat.isFinite] at hfinite

theorem double_not_lt_of_isNaN {a : Float} (b : Float) (ha : a.isNaN = true) : ¬ a < b := by
  rw [double_lt_iff, unpacked_compare_of_isNaN ha]
  simp

/-- A magnitude is a number just if it is one of a number. -/
theorem isNaN_magnitude (a : Float) : (magnitude a).isNaN = a.isNaN := by
  unfold magnitude
  split
  · rename_i hneg
    have ha : a.isNaN = false := by
      rw [← Bool.not_eq_true]
      exact fun h => double_not_lt_of_isNaN 0 h hneg
    have hminus : a.toModel.unpack.neg.isNaN = false := by
      have ha : a.toModel.unpack.isNaN = false := ha
      cases hform : a.toModel.unpack <;> simp_all [UnpackedFloat.neg, UnpackedFloat.isNaN]
    rw [ha]
    exact isNaN_pack _ _ hminus
  · rfl

/-- The magnitude of an infinity is the positive one. -/
theorem magnitude_of_isInf {a : Float} (ha : a.isInf = true) : magnitude a = 1.0 / 0.0 := by
  rcases double_isInf_iff.mp ha with rfl | rfl <;> decide

/-- A difference with an infinity is infinite, unless it is no number. -/
theorem double_isInf_sub {a b : Float} (hinf : a.isInf = true ∨ b.isInf = true)
    (hnumber : (a - b).isNaN = false) : (a - b).isInf = true := by
  have hsub : (UnpackedFloat.sub .binary64 a.toModel.unpack b.toModel.unpack).isFinite = false := by
    have hinf : a.toModel.unpack.isInf = true ∨ b.toModel.unpack.isInf = true := hinf
    generalize a.toModel.unpack = u at hinf ⊢
    generalize b.toModel.unpack = v at hinf ⊢
    cases u with
    | notANumber => rfl
    | infinity s =>
      cases v with
      | infinity t => cases s <;> cases t <;> rfl
      | _ => rfl
    | zero | finite =>
      cases v with
      | notANumber | infinity => rfl
      | zero | finite => simp [UnpackedFloat.isInf] at hinf
  by_contra h
  have hnan := double_isNaN_of_not_finite (not_isFinite_pack hsub) (Bool.eq_false_iff.mpr h)
  exact Bool.false_ne_true (hnumber.symm.trans hnan)

/-! ## Maxima -/

theorem double_le_infinity {a : Float} (ha : a.isNaN = false) : a ≤ 1.0 / 0.0 := by
  have ha : a.toModel.unpack.isNaN = false := ha
  have hcompare : (a.toModel.unpack.compare (.infinity .positive)).any (·.isLE) = true := by
    generalize a.toModel.unpack = y at ha ⊢
    cases y with
    | notANumber => exact absurd ha (by decide)
    | infinity s => cases s <;> rfl
    | zero s => rfl
    | finite s m e hm => cases s <;> rfl
  exact decide_eq_true (p := (a.toModel.unpack.compare (.infinity .positive)).any (·.isLE) = true)
    hcompare

theorem double_eq_of_infinity_le {a : Float} (h : 1.0 / 0.0 ≤ a) : a = 1.0 / 0.0 := by
  have hcompare :
      (UnpackedFloat.compare (.infinity .positive) a.toModel.unpack).any (·.isLE) = true :=
    of_decide_eq_true h
  apply double_eq_of_unpack_eq
  rw [unpack_infinity]
  generalize a.toModel.unpack = y at hcompare ⊢
  cases y with
  | infinity s =>
    cases s with
    | positive => rfl
    | negative => exact absurd hcompare Bool.false_ne_true
  | notANumber | zero => exact absurd hcompare Bool.false_ne_true
  | finite t => cases t <;> exact absurd hcompare Bool.false_ne_true

theorem double_le_refl {a : Float} (ha : a.isNaN = false) : a ≤ a := by
  by_contra h
  have hlt := (double_not_le_iff ha ha).mp h
  exact double_lt_asymm hlt hlt

/-- The larger of two doubles is one of them. -/
theorem larger_eq_or (x y : Float) : larger x y = x ∨ larger x y = y := by
  unfold larger
  split
  · exact .inl rfl
  · split
    · exact .inr rfl
    · exact .inl rfl

theorem isNaN_larger {x y : Float} (h : x.isNaN = true ∨ y.isNaN = true) :
    (larger x y).isNaN = true := by
  unfold larger
  cases hx : x.isNaN with
  | true =>
    rw [if_neg (double_not_le_of_isNaN x hx), ite_self]
    exact hx
  | false =>
    have hy : y.isNaN = true := h.resolve_left (Bool.eq_false_iff.mp hx)
    rw [if_neg (double_not_le_of_isNaN x hy), if_pos (double_le_refl hx)]
    exact hy

theorem larger_infinity {x y : Float} (hx : x.isNaN = false) (hy : y.isNaN = false)
    (h : x = 1.0 / 0.0 ∨ y = 1.0 / 0.0) : larger x y = 1.0 / 0.0 := by
  unfold larger
  by_cases hle : y ≤ x
  · rw [if_pos hle]
    rcases h with rfl | rfl
    · rfl
    · exact double_eq_of_infinity_le hle
  · rw [if_neg hle, if_pos (double_le_refl hx)]
    rcases h with rfl | rfl
    · exact absurd (double_le_infinity hy) hle
    · rfl

/-- A maximum is no number if one of its operands is none. -/
theorem isNaN_largest {x : Float} {xs : List Float} (h : ∃ y ∈ x :: xs, y.isNaN = true) :
    (largest x xs).isNaN = true := by
  induction xs generalizing x with
  | nil =>
    obtain ⟨y, hy, hnan⟩ := h
    obtain rfl := List.mem_singleton.mp hy
    exact hnan
  | cons z xs ih =>
    refine ih (x := larger x z) ?_
    simp only [List.exists_mem_cons_iff] at h ⊢
    rcases h with hx | hz | hrest
    · exact .inl (isNaN_larger (.inl hx))
    · exact .inl (isNaN_larger (.inr hz))
    · exact .inr hrest

/-- Among numbers the infinity is the maximum. -/
theorem largest_infinity {x : Float} {xs : List Float} (hnumbers : ∀ y ∈ x :: xs, y.isNaN = false)
    (h : 1.0 / 0.0 ∈ x :: xs) : largest x xs = 1.0 / 0.0 := by
  induction xs generalizing x with
  | nil => exact (List.mem_singleton.mp h).symm
  | cons z xs ih =>
    simp only [List.forall_mem_cons] at hnumbers
    obtain ⟨hx, hz, hrest⟩ := hnumbers
    refine ih (x := larger x z) ?_ ?_
    · refine List.forall_mem_cons.mpr ⟨?_, hrest⟩
      rcases larger_eq_or x z with heq | heq <;> rw [heq] <;> assumption
    · rw [List.mem_cons, List.mem_cons] at h
      rcases h with hx' | hz' | hrest'
      · exact List.mem_cons.mpr (.inl (larger_infinity hx hz (.inl hx'.symm)).symm)
      · exact List.mem_cons.mpr (.inl (larger_infinity hx hz (.inr hz'.symm)).symm)
      · exact List.mem_cons_of_mem _ hrest'

/-! ## Quotients -/

/-- A quotient of an infinity is never finite. -/
theorem double_not_isFinite_div {a : Float} (ha : a.isInf = true) (b : Float) :
    (a / b).isFinite = false := by
  have hdiv : (UnpackedFloat.div .binary64 a.toModel.unpack b.toModel.unpack).isFinite = false := by
    have ha : a.toModel.unpack.isInf = true := ha
    generalize a.toModel.unpack = u at ha ⊢
    cases u with
    | infinity s => cases b.toModel.unpack <;> rfl
    | _ => exact absurd ha Bool.false_ne_true
  exact not_isFinite_pack hdiv

end EnsembleSampling
