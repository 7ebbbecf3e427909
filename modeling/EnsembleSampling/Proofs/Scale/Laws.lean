import EnsembleSampling.Ensemble.Sweep
import Mathlib.Tactic.Common
set_option autoImplicit false

/-!
# The laws of a scale

What a sweep relies on in the order of its log-densities and probabilities
(`LogScale.Ordered`) and in their arithmetic (`LogScale.Lawful`), and what follows for a
single move.  A difference with something that is no number is no number either, and
neither is its exponential; since nothing is on either side of it, the move is accepted,
and what was no number is not kept.
-/

namespace EnsembleSampling

/-- The order of a scale: one of two numbers is at most the other, and what is no number is
on neither side of anything. -/
class LogScale.Ordered (β : Type) [LogScale β] : Prop where
  not_le_iff : ∀ {a b : β}, isUndefined a = false → isUndefined b = false → (¬ a ≤ b ↔ b < a)
  not_le_of_isUndefined : ∀ {a : β} (b : β), isUndefined a = true → ¬ a ≤ b
  isUndefined_one : isUndefined (1 : β) = false

/-- The laws of a scale. -/
class LogScale.Lawful (β : Type) [LogScale β] : Prop extends LogScale.Ordered β where
  isUndefined_sub_right : ∀ (a : β) {b : β}, isUndefined b = true → isUndefined (a - b) = true
  isUndefined_exp : ∀ {a : β}, isUndefined a = true → isUndefined (exp a) = true
  exp_nonneg : ∀ {a : β}, isUndefined a = false → 0 ≤ exp a
  isUndefined_infinity : isUndefined (infinity : β) = false
  zero_le_one : (0 : β) ≤ 1
  one_le_one : (1 : β) ≤ 1
  lt_asymm : ∀ {a b : β}, a < b → ¬ b < a

variable {V β : Type} [LogScale β]

theorem regarded_of_isUndefined {l : β} (h : LogScale.isUndefined l = true) :
    regarded l = LogScale.infinity := if_pos h

theorem regarded_of_defined {l : β} (h : LogScale.isUndefined l = false) : regarded l = l :=
  if_neg (by simp [h])

/-- The probability that a ratio of densities stands for: the ratio, but at most one, and one
for certain if the ratio is no number. -/
def probabilityOfRatio (ratio : β) : β :=
  if LogScale.isUndefined ratio then 1 else if 1 < ratio then 1 else ratio

open LogScale.Ordered in
/-- The probability of accepting is the lesser of one and the ratio of the densities. -/
theorem acceptance_eq_probabilityOfRatio [LogScale.Ordered β] (old new : β) :
    acceptance old new = probabilityOfRatio (LogScale.exp (new - old)) := by
  unfold acceptance probabilityOfRatio
  generalize (LogScale.exp (new - old) : β) = ratio
  cases hratio : LogScale.isUndefined ratio with
  | true => exact if_neg (not_le_of_isUndefined 1 hratio)
  | false =>
    by_cases hle : ratio ≤ 1
    · have hnot : ¬ 1 < ratio := fun hlt => (not_le_iff hratio isUndefined_one).mpr hlt hle
      simp [hle, hnot]
    · have hlt : 1 < ratio := (not_le_iff hratio isUndefined_one).mp hle
      simp [hle, hlt]

/-- An acceptance probability is a number from zero to one. -/
structure IsProbability (p : β) : Prop where
  defined : LogScale.isUndefined p = false
  nonneg : 0 ≤ p
  le_one : p ≤ 1

section

variable [LogScale.Lawful β]

open LogScale.Ordered LogScale.Lawful

theorem isUndefined_regarded (l : β) : LogScale.isUndefined (regarded l) = false := by
  cases h : LogScale.isUndefined l with
  | true =>
    rw [regarded_of_isUndefined h]
    exact isUndefined_infinity
  | false =>
    rw [regarded_of_defined h]
    exact h

/-- From a log-density that is no number every move is accepted. -/
theorem acceptance_of_isUndefined {old : β} (h : LogScale.isUndefined old = true) (new : β) :
    acceptance old new = 1 := by
  have hratio : LogScale.isUndefined (LogScale.exp (new - old)) = true :=
    isUndefined_exp (isUndefined_sub_right new h)
  exact if_neg (not_le_of_isUndefined 1 hratio)

/-- Whatever the log-densities, the probability of accepting is a number from zero to one:
a ratio that is no number is not at most one. -/
theorem isProbability_acceptance (old new : β) : IsProbability (acceptance old new) := by
  unfold acceptance
  by_cases hle : LogScale.exp (new - old) ≤ 1
  · have hratio : LogScale.isUndefined (LogScale.exp (new - old)) = false := by
      refine Bool.eq_false_iff.mpr fun hu => ?_
      exact not_le_of_isUndefined 1 hu hle
    have hdiff : LogScale.isUndefined (new - old) = false := by
      refine Bool.eq_false_iff.mpr fun hu => ?_
      rw [isUndefined_exp hu] at hratio
      contradiction
    simp only [hle, if_true]
    exact ⟨hratio, exp_nonneg hdiff, hle⟩
  · simp only [hle, if_false]
    exact ⟨isUndefined_one, zero_le_one, one_le_one⟩

/-- After a move a walker has the log-density of the position where it is, provided it had
that of the proposal and the uniform was below one.  What was no number would have been
left behind. -/
theorem Move.logProb_settle {m : Move V β} {f : V → β} {u : β}
    (hold : m.logProb = f m.position) (hnew : m.proposedLogProb = regarded (f m.proposed))
    (hu : u < 1) : (m.settle u).logProb = regarded (f (m.settle u).position) := by
  by_cases hlt : m.probability < u
  · rw [settle_of_lt hlt]
    have hdefined : LogScale.isUndefined m.logProb = false := by
      refine Bool.eq_false_iff.mpr fun h => ?_
      rw [probability, acceptance_of_isUndefined h] at hlt
      exact lt_asymm hu hlt
    rw [← hold]
    exact (regarded_of_defined hdefined).symm
  · rw [settle_of_not_lt hlt]
    exact hnew

end

end EnsembleSampling
