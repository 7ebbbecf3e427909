import EnsembleSampling.Proofs.Scale.Laws
import Mathlib
set_option autoImplicit false

/-!
# Doubles as a scale

The running scale has the exponential of the platform, of which nothing can be proved.
`Double exp` is the same scale with `exp` in its place, and `Double.lawful` says what must
be known of `exp` for the laws of a scale to hold: what is no number goes to what is no
number, and nothing else goes below zero.

Every other law is a fact about the arithmetic of doubles, read off their unpacked form.
-/

namespace EnsembleSampling

open Float.Model Float.Model.UnpackedFloat

/-! ## Comparisons of doubles -/

/-- Magnitudes, the exponents before the mantissas, compare in both directions alike. -/
theorem swap_compare_magnitude (e k : Int) (m n : Nat) :
    ((compare e k).then (compare m n)).swap = (compare k e).then (compare n m) := by
  rw [Ordering.swap_then, ← Std.OrientedCmp.eq_swap, ← Std.OrientedCmp.eq_swap]

/-- Comparing in the other direction gives the other answer. -/
theorem unpacked_compare_swap (a b : UnpackedFloat) :
    b.compare a = (a.compare b).map Ordering.swap := by
  cases a with
  | notANumber => cases b <;> rfl
  | infinity s => cases s <;> rcases b with (⟨_ | _⟩ | _ | ⟨_ | _⟩ | ⟨_ | _⟩) <;> rfl
  | zero s => cases s <;> rcases b with (⟨_ | _⟩ | _ | ⟨_ | _⟩ | ⟨_ | _⟩) <;> rfl
  | finite s m e =>
    cases b with
    | notANumber => cases s <;> rfl
    | infinity t => cases s <;> cases t <;> rfl
    | zero t => cases s <;> cases t <;> rfl
    | finite t n k =>
      -- Only between numbers of one sign do the magnitudes decide.
      have hswap := swap_compare_magnitude e k m n
      cases s <;> cases t
      case negative.positive => rfl
      case positive.negative => rfl
      case positive.positive => exact congrArg some hswap.symm
      case negative.negative => exact congrArg (fun o => some (Ordering.swap o)) hswap.symm

/-- What is no number is on neither side of anything. -/
theorem unpacked_compare_of_isNaN {a : UnpackedFloat} (h : a.isNaN = true) (b : UnpackedFloat) :
    a.compare b = none := by
  cases a with
  | notANumber => rfl
  | infinity | zero | finite => exact absurd h Bool.false_ne_true

/-- Between two numbers the comparison is decided. -/
theorem unpacked_compare_isSome {a b : UnpackedFloat} (ha : a.isNaN = false)
    (hb : b.isNaN = false) : (a.compare b).isSome = true := by
  cases a with
  | notANumber => exact absurd ha (by decide)
  | infinity s =>
    cases b with
    | notANumber => exact absurd hb (by decide)
    | infinity t => cases s <;> cases t <;> rfl
    | zero | finite => cases s <;> rfl
  | zero s =>
    cases b with
    | notANumber => exact absurd hb (by decide)
    | infinity t => cases t <;> rfl
    | zero t => rfl
    | finite t n k => cases t <;> rfl
  | finite s m e =>
    cases b with
    | notANumber => exact absurd hb (by decide)
    | infinity t => cases s <;> cases t <;> rfl
    | zero t => cases s <;> rfl
    | finite t n k => cases s <;> cases t <;> rfl

/-- What compares as equal is the same, or both are zeros. -/
theorem eq_or_zero_of_unpacked_compare {a b : UnpackedFloat} (h : a.compare b = some .eq) :
    a = b ∨ ∃ s t, a = .zero s ∧ b = .zero t := by
  cases a with
  | notANumber => cases b <;> simp [UnpackedFloat.compare] at h
  | infinity s =>
    cases b with
    | infinity t => cases s <;> cases t <;> simp_all [UnpackedFloat.compare]
    | notANumber | zero | finite => cases s <;> simp [UnpackedFloat.compare] at h
  | zero s =>
    cases b with
    | zero t => exact .inr ⟨s, t, rfl, rfl⟩
    | notANumber => simp [UnpackedFloat.compare] at h
    | infinity t | finite t => cases t <;> simp [UnpackedFloat.compare] at h
  | finite s m e =>
    cases b with
    | finite t n k =>
      -- numbers of one sign are equal if their exponents and their mantissas are
      cases s <;> cases t <;> simp_all [UnpackedFloat.compare]
    | notANumber => simp [UnpackedFloat.compare] at h
    | infinity t => cases t <;> simp [UnpackedFloat.compare] at h
    | zero => cases s <;> simp [UnpackedFloat.compare] at h

theorem unpacked_compare_self {a : UnpackedFloat} (h : a.isNaN = false) :
    a.compare a = some .eq := by
  cases a with
  | notANumber => exact absurd h (by decide)
  | infinity s => cases s <;> rfl
  | zero s => rfl
  | finite s m e => cases s <;> simp [UnpackedFloat.compare]

/-- The sign of a zero does not matter. -/
theorem unpacked_zero_compare (s t : Sign) (a : UnpackedFloat) :
    (zero s).compare a = (zero t).compare a := by
  rcases a with (⟨_ | _⟩ | _ | _ | ⟨_ | _⟩) <;> rfl

theorem double_beq_iff {a b : Float} :
    (a == b) = true ↔ a.toModel.unpack.compare b.toModel.unpack = some .eq := by
  change (a.toModel.unpack.compare b.toModel.unpack == some .eq) = true ↔ _
  exact beq_iff_eq

/-- Every number is equal to itself. -/
theorem double_beq_self {a : Float} (h : a.isNaN = false) : (a == a) = true :=
  double_beq_iff.mpr (unpacked_compare_self h)

/-- Equality of doubles can be turned round and chained, though zeros of different signs are equal
and what is no number is not equal to itself. -/
instance doublePartialEquivBEq : PartialEquivBEq Float where
  symm {a b} h := by
    rw [double_beq_iff] at h ⊢
    rw [unpacked_compare_swap, h]
    rfl
  trans {a b c} hab hbc := by
    rw [double_beq_iff] at hab hbc ⊢
    rcases eq_or_zero_of_unpacked_compare hab with heq | ⟨s, t, ha, hb⟩
    · rwa [heq]
    · rw [ha, unpacked_zero_compare s t, ← hb, hbc]

theorem double_lt_iff {a b : Float} :
    a < b ↔ a.toModel.unpack.compare b.toModel.unpack = some .lt := by
  refine Iff.trans ?_ beq_iff_eq
  exact decide_eq_true_iff (p := (a.toModel.unpack.compare b.toModel.unpack == some .lt) = true)

theorem double_lt_asymm {a b : Float} (hab : a < b) : ¬ b < a := by
  intro hba
  rw [double_lt_iff] at hab hba
  rw [unpacked_compare_swap, hab] at hba
  simp at hba

theorem double_not_le_of_isNaN {a : Float} (b : Float) (ha : a.isNaN = true) : ¬ a ≤ b := by
  intro hle
  have h : (a.toModel.unpack.compare b.toModel.unpack).any (·.isLE) = true :=
    of_decide_eq_true hle
  rw [unpacked_compare_of_isNaN ha] at h
  simp at h

/-- Of two numbers the first is above the second unless it is at most the second. -/
theorem double_not_le_iff {a b : Float} (ha : a.isNaN = false) (hb : b.isNaN = false) :
    ¬ a ≤ b ↔ b < a := by
  have hle : a ≤ b ↔ (a.toModel.unpack.compare b.toModel.unpack).any (·.isLE) = true :=
    decide_eq_true_iff (p := (a.toModel.unpack.compare b.toModel.unpack).any (·.isLE) = true)
  obtain ⟨o, ho⟩ := Option.isSome_iff_exists.mp (unpacked_compare_isSome
    (a := a.toModel.unpack) (b := b.toModel.unpack) ha hb)
  rw [hle, double_lt_iff, unpacked_compare_swap a.toModel.unpack b.toModel.unpack, ho]
  cases o <;> decide

/-- A difference with something that is no number is no number. -/
theorem double_isNaN_sub (a : Float) {b : Float} (hb : b.isNaN = true) : (a - b).isNaN = true := by
  have hsub : UnpackedFloat.sub .binary64 a.toModel.unpack b.toModel.unpack = .notANumber := by
    have hb : b.toModel.unpack.isNaN = true := hb
    generalize b.toModel.unpack = y at hb ⊢
    cases y with
    | notANumber => cases a.toModel.unpack <;> rfl
    | infinity | zero | finite => exact absurd hb Bool.false_ne_true
  change (Float.Model.pack (UnpackedFloat.sub .binary64 a.toModel.unpack
    b.toModel.unpack)).isNaN = true
  rw [hsub]
  rfl

/-! ## Infinities -/

theorem unpack_infinity : (1.0 / 0.0 : Float).toModel.unpack = .infinity .positive := rfl

theorem unpack_negInfinity : (-1.0 / 0.0 : Float).toModel.unpack = .infinity .negative := rfl

theorem double_sub_eq (a b : Float) :
    a - b = .ofModel (.pack (UnpackedFloat.sub .binary64 a.toModel.unpack b.toModel.unpack)) := rfl

theorem double_isNaN_of_isFinite {a : Float} (ha : a.isFinite = true) : a.isNaN = false := by
  have ha : a.toModel.unpack.isFinite = true := ha
  change a.toModel.unpack.isNaN = false
  generalize a.toModel.unpack = y at ha ⊢
  cases y with
  | zero | finite | infinity => rfl
  | notANumber => exact absurd ha Bool.false_ne_true

/-- A double is determined by its unpacked form. -/
theorem double_eq_of_unpack_eq {a b : Float} (h : a.toModel.unpack = b.toModel.unpack) : a = b := by
  have hbits : a.toModel.toBits.toBitVec = b.toModel.toBits.toBitVec :=
    (unpack_inj_of_valid a.toModel.valid b.toModel.valid).mp h
  exact Float.toBits_inj.mp (UInt64.toBitVec_inj.mp hbits)

/-- Taking away a finite number leaves the negative infinity as it is. -/
theorem double_negInfinity_sub {a : Float} (ha : a.isFinite = true) :
    (-1.0 / 0.0 : Float) - a = -1.0 / 0.0 := by
  have hsub : UnpackedFloat.sub .binary64 (.infinity .negative) a.toModel.unpack =
      .infinity .negative := by
    have ha : a.toModel.unpack.isFinite = true := ha
    generalize a.toModel.unpack = y at ha ⊢
    cases y with
    | zero | finite => rfl
    | notANumber | infinity => exact absurd ha Bool.false_ne_true
  rw [double_sub_eq, unpack_negInfinity, hsub]
  decide

/-- Taking the infinity away from any other number leaves the negative infinity. -/
theorem double_sub_infinity {a : Float} (ha : a.isNaN = false) (hne : a ≠ 1.0 / 0.0) :
    a - 1.0 / 0.0 = -1.0 / 0.0 := by
  have hsub : UnpackedFloat.sub .binary64 a.toModel.unpack (.infinity .positive) =
      .infinity .negative := by
    have ha : a.toModel.unpack.isNaN = false := ha
    have hne : a.toModel.unpack ≠ .infinity .positive := fun h =>
      hne (double_eq_of_unpack_eq (h.trans unpack_infinity.symm))
    generalize a.toModel.unpack = y at ha hne ⊢
    cases y with
    | zero | finite => rfl
    | notANumber => exact absurd ha (by decide)
    | infinity s =>
      cases s with
      | positive => exact absurd rfl hne
      | negative => rfl
  rw [double_sub_eq, unpack_infinity, hsub]
  decide

/-! ## The scale -/

/-- Doubles, with a given function in the role of the exponential. -/
def Double (_exp : Float → Float) : Type := Float

variable {exp : Float → Float}

instance : LogScale (Double exp) where
  zero := inferInstanceAs (Zero Float)
  one := inferInstanceAs (One Float)
  sub := inferInstanceAs (Sub Float)
  le := inferInstanceAs (LE Float)
  lt := inferInstanceAs (LT Float)
  exp := exp
  infinity := (1.0 / 0.0 : Float)
  undefined := (0.0 / 0.0 : Float)
  isUndefined := Float.isNaN
  decideLE := inferInstanceAs (DecidableLE Float)
  decideLT := inferInstanceAs (DecidableLT Float)

instance : DecidableEq (Double exp) := inferInstanceAs (DecidableEq Float)

-- With the exponential of the platform this is the scale that runs.
example : (inferInstanceAs (LogScale (Double Float.exp)) : LogScale Float) =
    inferInstanceAs (LogScale Float) := rfl

/-- If the exponential vanishes at the negative infinity, a move to that from a finite
log-density has the probability zero. -/
theorem Double.acceptance_negInfinity (hvanish : exp (-1.0 / 0.0) = 0) {old : Float}
    (hold : old.isFinite = true) :
    (acceptance (β := Double exp) old (-1.0 / 0.0 : Float) : Float) = 0 := by
  have hzero : (0 : Float) ≤ 1 := by decide
  change (if exp (-1.0 / 0.0 - old) ≤ 1 then exp (-1.0 / 0.0 - old) else (1 : Float)) = 0
  rw [double_negInfinity_sub hold, hvanish]
  exact if_pos hzero

/-- From the infinity a move is accepted for certain only if it leads to the infinity. -/
theorem Double.acceptance_infinity_eq_one_iff
    (hnan : ∀ x : Float, x.isNaN = true → (exp x).isNaN = true) (hvanish : exp (-1.0 / 0.0) = 0)
    {new : Float} (hnew : new.isNaN = false) :
    (acceptance (β := Double exp) (1.0 / 0.0 : Float) new : Float) = 1 ↔ new = 1.0 / 0.0 := by
  change (if exp (new - 1.0 / 0.0) ≤ 1 then exp (new - 1.0 / 0.0) else (1 : Float)) = 1 ↔ _
  constructor
  · intro hone
    by_contra hne
    have hzero : (0 : Float) ≤ 1 := by decide
    have hdiffer : (0 : Float) ≠ 1 := by decide
    rw [double_sub_infinity hnew hne, hvanish, if_pos hzero] at hone
    exact hdiffer hone
  · rintro rfl
    have hundefined : (1.0 / 0.0 - 1.0 / 0.0 : Float).isNaN = true := by decide
    exact if_neg (double_not_le_of_isNaN 1 (hnan _ hundefined))

/-- The order of doubles is that of a scale, whatever the exponential. -/
instance Double.ordered : LogScale.Ordered (Double exp) where
  not_le_iff ha hb := double_not_le_iff ha hb
  not_le_of_isUndefined b ha := double_not_le_of_isNaN b ha
  isUndefined_one := show (1.0 : Float).isNaN = false by decide

/-- The laws hold of doubles, given two facts about the exponential. -/
theorem Double.lawful (hnan : ∀ x : Float, x.isNaN = true → (exp x).isNaN = true)
    (hnonneg : ∀ x : Float, x.isNaN = false → 0 ≤ exp x) : LogScale.Lawful (Double exp) where
  isUndefined_sub_right a _ hb := double_isNaN_sub (a : Float) hb
  isUndefined_exp {a} ha := hnan a ha
  exp_nonneg {a} ha := hnonneg a ha
  toOrdered := Double.ordered
  isUndefined_infinity := show (1.0 / 0.0 : Float).isNaN = false by decide
  zero_le_one := show (0.0 : Float) ≤ 1.0 by decide
  one_le_one := show (1.0 : Float) ≤ 1.0 by decide
  lt_asymm hab := double_lt_asymm hab

end EnsembleSampling
