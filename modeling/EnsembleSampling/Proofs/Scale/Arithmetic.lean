import EnsembleSampling.Proofs.Scale.Extended
import Mathlib.Analysis.SpecialFunctions.Artanh
import Mathlib.Analysis.SpecialFunctions.Log.ENNRealLogExp
set_option autoImplicit false

/-!
# Exact arithmetic

Arithmetic and elementary functions on the exact scale.  On finite numbers they are those of
the real numbers; with infinities and with what is no number they follow the rules of doubles.
A zero has no sign here.  Where a function has a limit at the end of its domain, that is its
value there: the logarithm of zero is the negative infinity, and the inverse of the hyperbolic
tangent is infinite at one.
-/

namespace EnsembleSampling

/-- The functions of a real number. -/
noncomputable instance : Elementary ℝ where
  sqrt := Real.sqrt
  exp := Real.exp
  log := Real.log
  atanh := Real.artanh
  logit x := Real.log (x / (1 - x))
  isFinite _ := true

namespace Extended

/-- A real number on the exact scale. -/
def real (r : ℝ) : Extended := number r

section

open Classical

/-- A sum, which is no number for opposite infinities. -/
noncomputable def add : Extended → Extended → Extended
  | number x, number y =>
    if (x = ⊤ ∧ y = ⊥) ∨ (x = ⊥ ∧ y = ⊤) then undefined else number (x + y)
  | _, _ => undefined

noncomputable def neg : Extended → Extended
  | number x => number (-x)
  | undefined => undefined

/-- A product, which is no number for zero and an infinity. -/
noncomputable def mul : Extended → Extended → Extended
  | number x, number y =>
    if (x = 0 ∧ (y = ⊤ ∨ y = ⊥)) ∨ ((x = ⊤ ∨ x = ⊥) ∧ y = 0) then undefined else number (x * y)
  | _, _ => undefined

/-- A quotient, which is no number for two zeros and for two infinities.  Any other quotient
by zero is infinite. -/
noncomputable def div : Extended → Extended → Extended
  | number x, number y =>
    if y = 0 then
      if x = 0 then undefined else if 0 < x then number ⊤ else number ⊥
    else if (x = ⊤ ∨ x = ⊥) ∧ (y = ⊤ ∨ y = ⊥) then undefined
    else number (x / y)
  | _, _ => undefined

noncomputable def sqrt : Extended → Extended
  | number x =>
    if x < 0 then undefined else if x = ⊤ then number ⊤ else real (Real.sqrt x.toReal)
  | undefined => undefined

/-- The logarithm, which is negative infinite at zero. -/
noncomputable def log : Extended → Extended
  | number x => if x < 0 then undefined else number (ENNReal.log x.toENNReal)
  | undefined => undefined

/-- The inverse of the hyperbolic tangent, which is infinite at the ends of its domain. -/
noncomputable def atanh : Extended → Extended
  | number x =>
    if x < -1 ∨ 1 < x then undefined
    else if x = 1 then number ⊤
    else if x = -1 then number ⊥
    else real (Real.artanh x.toReal)
  | undefined => undefined

/-- The inverse of the logistic function, which is infinite at the ends of its domain. -/
noncomputable def logit : Extended → Extended
  | number x =>
    if x < 0 ∨ 1 < x then undefined
    else if x = 0 then number ⊥
    else if x = 1 then number ⊤
    else real (Real.log (x.toReal / (1 - x.toReal)))
  | undefined => undefined

/-- Neither infinite nor no number. -/
noncomputable def isFinite : Extended → Bool
  | number x => decide (x ≠ ⊤ ∧ x ≠ ⊥)
  | undefined => false

end

noncomputable instance : Add Extended := ⟨add⟩

noncomputable instance : Neg Extended := ⟨neg⟩

noncomputable instance : Mul Extended := ⟨mul⟩

noncomputable instance : Div Extended := ⟨div⟩

noncomputable instance : NatCast Extended := ⟨fun n => real n⟩

noncomputable instance : Elementary Extended where
  sqrt := sqrt
  exp := exp
  log := log
  atanh := atanh
  logit := logit
  isFinite := isFinite

/-! ## Finite numbers -/

theorem real_zero : real 0 = 0 := rfl

theorem real_one : real 1 = 1 := rfl

theorem natCast_eq_real (n : ℕ) : (n : Extended) = real n := rfl

theorem real_injective : Function.Injective real := by
  intro a b h
  exact EReal.coe_injective (number.inj h)

@[simp] theorem real_inj {a b : ℝ} : real a = real b ↔ a = b := real_injective.eq_iff

@[simp] theorem real_le_real {a b : ℝ} : real a ≤ real b ↔ a ≤ b := EReal.coe_le_coe_iff

@[simp] theorem real_lt_real {a b : ℝ} : real a < real b ↔ a < b := EReal.coe_lt_coe_iff

@[simp] theorem real_add_real (a b : ℝ) : real a + real b = real (a + b) := by
  change add (number a) (number b) = number ((a + b : ℝ) : EReal)
  simp [add]

@[simp] theorem real_sub_real (a b : ℝ) : real a - real b = real (a - b) := by
  change sub (number a) (number b) = number ((a - b : ℝ) : EReal)
  simp [sub]

@[simp] theorem bot_sub_real (a : ℝ) : number ⊥ - real a = number ⊥ := by
  change sub (number ⊥) (number a) = _
  simp [sub]

@[simp] theorem real_sub_bot (a : ℝ) : real a - number ⊥ = number ⊤ := by
  change sub (number a) (number ⊥) = _
  simp [sub]

@[simp] theorem neg_real (a : ℝ) : -real a = real (-a) := by
  change neg (number a) = number ((-a : ℝ) : EReal)
  simp [neg]

@[simp] theorem real_mul_real (a b : ℝ) : real a * real b = real (a * b) := by
  change mul (number a) (number b) = number ((a * b : ℝ) : EReal)
  simp [mul]

theorem real_div_real (a : ℝ) {b : ℝ} (hb : b ≠ 0) : real a / real b = real (a / b) := by
  change div (number a) (number b) = number ((a / b : ℝ) : EReal)
  simp [div, hb, EReal.coe_div]

theorem sqrt_real {a : ℝ} (ha : 0 ≤ a) : Elementary.sqrt (real a) = real (Elementary.sqrt a) := by
  change sqrt (number a) = real (Real.sqrt a)
  simp [sqrt, not_lt.mpr ha]

theorem exp_real (a : ℝ) : Elementary.exp (real a) = real (Real.exp a) := by
  change exp (number a) = _
  simp [exp, real, EReal.coe_ennreal_ofReal, (Real.exp_pos a).le]

theorem log_real {a : ℝ} (ha : 0 < a) : Elementary.log (real a) = real (Elementary.log a) := by
  change log (number a) = real (Real.log a)
  simp [log, not_lt.mpr ha.le, real, ENNReal.log_ofReal_of_pos ha]

theorem log_real_zero : Elementary.log (real 0) = number ⊥ := by
  change log (number 0) = _
  simp [log]

theorem atanh_real {a : ℝ} (h : -1 < a) (h' : a < 1) :
    Elementary.atanh (real a) = real (Elementary.atanh a) := by
  change atanh (number a) = real (Real.artanh a)
  have hneg : (-1 : EReal) = ((-1 : ℝ) : EReal) := rfl
  have hlower : ¬ (a : EReal) < -1 := by
    rw [hneg, EReal.coe_lt_coe_iff]
    exact h.not_gt
  have hupper : ¬ 1 < (a : EReal) := by
    rw [← EReal.coe_one, EReal.coe_lt_coe_iff]
    exact h'.not_gt
  have hne : (a : EReal) ≠ 1 := by
    rw [← EReal.coe_one, Ne, EReal.coe_eq_coe_iff]
    exact h'.ne
  have hne' : (a : EReal) ≠ -1 := by
    rw [hneg, Ne, EReal.coe_eq_coe_iff]
    exact h.ne'
  simp [atanh, hlower, hupper, hne, hne']

theorem atanh_real_one : Elementary.atanh (real 1) = number ⊤ := by
  change atanh (number 1) = _
  have hlower : ¬ (1 : EReal) < -1 := by
    rw [show (-1 : EReal) = ((-1 : ℝ) : EReal) from rfl, ← EReal.coe_one, EReal.coe_lt_coe_iff]
    norm_num
  simp [atanh, hlower]

theorem atanh_real_neg_one : Elementary.atanh (real (-1)) = number ⊥ := by
  change atanh (number (-1)) = _
  have hupper : ¬ (1 : EReal) < -1 := by
    rw [show (-1 : EReal) = ((-1 : ℝ) : EReal) from rfl, ← EReal.coe_one, EReal.coe_lt_coe_iff]
    norm_num
  have hne : (-1 : EReal) ≠ 1 := by
    rw [show (-1 : EReal) = ((-1 : ℝ) : EReal) from rfl, ← EReal.coe_one, Ne, EReal.coe_eq_coe_iff]
    norm_num
  simp [atanh, hupper, hne]

theorem logit_real {a : ℝ} (h : 0 < a) (h' : a < 1) :
    Elementary.logit (real a) = real (Elementary.logit a) := by
  change logit (number a) = real (Real.log (a / (1 - a)))
  have hupper : ¬ 1 < (a : EReal) := by
    rw [← EReal.coe_one, EReal.coe_lt_coe_iff]
    exact h'.not_gt
  have hne : (a : EReal) ≠ 1 := by
    rw [← EReal.coe_one, Ne, EReal.coe_eq_coe_iff]
    exact h'.ne
  simp [logit, h.not_gt, hupper, hne, h.ne']

theorem logit_real_zero : Elementary.logit (real 0) = number ⊥ := by
  change logit (number 0) = _
  simp [logit]

theorem logit_real_one : Elementary.logit (real 1) = number ⊤ := by
  change logit (number 1) = _
  simp [logit]

@[simp] theorem isFinite_real (a : ℝ) : Elementary.isFinite (real a) = true := by
  change isFinite (number a) = true
  simp [isFinite]

/-- Finite numbers are the real ones. -/
theorem exists_real_of_isFinite {x : Extended} (h : Elementary.isFinite x = true) :
    ∃ r, x = real r := by
  change isFinite x = true at h
  cases x with
  | undefined => simp [isFinite] at h
  | number x =>
    induction x using EReal.rec with
    | bot => simp [isFinite] at h
    | top => simp [isFinite] at h
    | coe r => exact ⟨r, rfl⟩

theorem exists_reals_of_isFinite {xs : List Extended}
    (h : ∀ x ∈ xs, Elementary.isFinite x = true) : ∃ rs : List ℝ, xs = rs.map real := by
  induction xs with
  | nil => exact ⟨[], rfl⟩
  | cons x xs ih =>
    rw [List.forall_mem_cons] at h
    obtain ⟨r, rfl⟩ := exists_real_of_isFinite h.1
    obtain ⟨rs, rfl⟩ := ih h.2
    exact ⟨r :: rs, rfl⟩

/-- The sum of finite numbers is that of the real numbers. -/
theorem sum_map_real (rs : List ℝ) : (rs.map real).sum = real rs.sum := by
  induction rs with
  | nil => rfl
  | cons r rs ih => rw [List.map_cons, List.sum_cons, List.sum_cons, ih, real_add_real]

/-! ## Functions and their inverses -/

/-- The hyperbolic tangent. -/
noncomputable def tanh : Extended → Extended
  | number x =>
    open Classical in
    if x = ⊤ then 1 else if x = ⊥ then -1 else real (Real.tanh x.toReal)
  | undefined => undefined

/-- The logistic function. -/
noncomputable def logistic (x : Extended) : Extended := 1 / (1 + exp (-x))

theorem exp_log {a : ℝ} (ha : 0 ≤ a) : Elementary.exp (Elementary.log (real a)) = real a := by
  change exp (log (number a)) = number a
  have hnonneg : (0 : EReal) ≤ a := EReal.coe_nonneg.mpr ha
  simp only [log, hnonneg.not_gt, if_false, exp, ENNReal.exp_log, EReal.coe_toENNReal hnonneg]

theorem tanh_atanh {a : ℝ} (h : -1 ≤ a) (h' : a ≤ 1) :
    tanh (Elementary.atanh (real a)) = real a := by
  rcases h.eq_or_lt with rfl | hlower
  · rw [atanh_real_neg_one, tanh, if_neg bot_ne_top, if_pos rfl, ← real_one, neg_real]
  · rcases h'.eq_or_lt with rfl | hupper
    · rw [atanh_real_one, tanh, if_pos rfl, real_one]
    · have hinverse : Real.tanh (Real.artanh a) = a := Real.tanh_artanh ⟨hlower, hupper⟩
      rw [atanh_real hlower hupper, real, tanh, if_neg (EReal.coe_ne_top _),
        if_neg (EReal.coe_ne_bot _), EReal.toReal_coe]
      exact congrArg real hinverse

theorem logistic_real (a : ℝ) : logistic (real a) = real (1 / (1 + Real.exp (-a))) := by
  have hne : (1 + Real.exp (-a)) ≠ 0 := (add_pos zero_lt_one (Real.exp_pos _)).ne'
  have hexp : exp (real (-a)) = real (Real.exp (-a)) := exp_real (-a)
  rw [logistic, neg_real, hexp, ← real_one, real_add_real, real_div_real 1 hne]

theorem logistic_top : logistic (number ⊤) = real 1 := by
  have hexp : exp (-number ⊤) = real 0 := by
    change number (EReal.exp (-⊤)) = number 0
    simp
  rw [logistic, hexp, ← real_one, real_add_real, real_div_real 1 (by norm_num)]
  norm_num

theorem logistic_bot : logistic (number ⊥) = real 0 := by
  change div (number 1) (add (number 1) (number (EReal.exp (-⊥)))) = number 0
  have hone : (1 : EReal) ≠ ⊤ ∧ (1 : EReal) ≠ ⊥ := ⟨EReal.coe_ne_top 1, EReal.coe_ne_bot 1⟩
  simp [add, div, hone]

theorem logistic_logit {a : ℝ} (h : 0 ≤ a) (h' : a ≤ 1) :
    logistic (Elementary.logit (real a)) = real a := by
  rcases h.eq_or_lt with rfl | hlower
  · rw [logit_real_zero, logistic_bot]
  · rcases h'.eq_or_lt with rfl | hupper
    · rw [logit_real_one, logistic_top]
    · rw [logit_real hlower hupper, logistic_real]
      have hpos : 0 < 1 - a := sub_pos.mpr hupper
      have hexp : Real.exp (-Real.log (a / (1 - a))) = (1 - a) / a := by
        rw [← Real.log_inv, inv_div, Real.exp_log (div_pos hpos hlower)]
      change real (1 / (1 + Real.exp (-Real.log (a / (1 - a))))) = real a
      rw [hexp]
      congr 1
      field_simp
      ring

end Extended

end EnsembleSampling
