import EnsembleSampling.Proofs.Scale.Laws
import Mathlib.Analysis.SpecialFunctions.Log.ERealExp
set_option autoImplicit false

/-!
# The exact scale

The extended real numbers, and one more value that is no number, as a scale: what doubles
would be if they did not round.  The difference of equal infinities is no number.
-/

namespace EnsembleSampling

/-- An extended real number, or no number. -/
inductive Extended where
  | number (x : EReal)
  | undefined

namespace Extended

/-- A difference, which is no number for equal infinities. -/
noncomputable def sub : Extended → Extended → Extended
  | number x, number y =>
    open Classical in if x = y ∧ (x = ⊤ ∨ x = ⊥) then undefined else number (x - y)
  | _, _ => undefined

/-- The order, in which no number is on neither side of anything. -/
def le : Extended → Extended → Prop
  | number x, number y => x ≤ y
  | _, _ => False

def lt : Extended → Extended → Prop
  | number x, number y => x < y
  | _, _ => False

/-- The exponential, which vanishes at the negative infinity. -/
noncomputable def exp : Extended → Extended
  | number x => number (EReal.exp x)
  | undefined => undefined

def isUndefined : Extended → Bool
  | number _ => false
  | undefined => true

end Extended

open Classical in
noncomputable instance : LogScale Extended where
  zero := ⟨.number 0⟩
  one := ⟨.number 1⟩
  sub := ⟨Extended.sub⟩
  le := ⟨Extended.le⟩
  lt := ⟨Extended.lt⟩
  exp := Extended.exp
  infinity := .number ⊤
  undefined := .undefined
  isUndefined := Extended.isUndefined
  decideLE _ _ := inferInstance
  decideLT _ _ := inferInstance

namespace Extended

theorem number_le_iff {x y : EReal} : number x ≤ number y ↔ x ≤ y := Iff.rfl

theorem number_lt_iff {x y : EReal} : number x < number y ↔ x < y := Iff.rfl

/-- The exact scale obeys the laws. -/
instance : LogScale.Lawful Extended where
  isUndefined_sub_right a b hb := by
    cases b with
    | number y => contradiction
    | undefined => cases a <;> rfl
  isUndefined_exp {a} ha := by
    cases a with
    | number x => contradiction
    | undefined => rfl
  exp_nonneg {a} ha := by
    cases a with
    | number x => exact number_le_iff.mpr (EReal.coe_ennreal_nonneg _)
    | undefined => contradiction
  not_le_iff {a b} ha hb := by
    cases a with
    | undefined => contradiction
    | number x =>
      cases b with
      | undefined => contradiction
      | number y => exact not_le (a := x) (b := y)
  not_le_of_isUndefined {a} b ha := by
    cases a with
    | number x => contradiction
    | undefined => cases b <;> exact not_false
  isUndefined_infinity := rfl
  isUndefined_one := rfl
  zero_le_one := number_le_iff.mpr zero_le_one
  one_le_one := number_le_iff.mpr le_rfl
  lt_asymm {a b} hab := by
    cases a <;> cases b
    case number.number x y => exact fun hba => lt_asymm (number_lt_iff.mp hab) hba
    all_goals exact absurd hab not_false

/-! ## Two log-densities -/

theorem number_sub_zero (x : EReal) : number x - number 0 = number x := by
  have hne : ¬ (x = 0 ∧ (x = ⊤ ∨ x = ⊥)) := by
    rintro ⟨rfl, h | h⟩ <;> simp at h
  change Extended.sub (number x) (number 0) = number x
  rw [Extended.sub, if_neg hne, sub_zero]

/-- A move between positions of log-density zero is accepted for certain. -/
theorem acceptance_zero_zero : acceptance (number 0) (number 0) = number 1 := by
  have hratio : LogScale.exp (number 0 - number 0) = number 1 := by
    rw [number_sub_zero]
    exact congrArg number (by simp)
  unfold acceptance
  rw [hratio]
  exact if_pos (number_le_iff.mpr le_rfl)

/-- A move to a position of no density is never accepted. -/
theorem acceptance_zero_bot : acceptance (number 0) (number ⊥) = number 0 := by
  have hratio : LogScale.exp (number ⊥ - number 0) = number 0 := by
    rw [number_sub_zero]
    exact congrArg number (by simp)
  unfold acceptance
  rw [hratio]
  exact if_pos (number_le_iff.mpr zero_le_one)

end Extended

end EnsembleSampling
