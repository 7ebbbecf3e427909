import EnsembleSampling.Autocorrelation.Checked
import Mathlib.Data.Nat.Log
import Mathlib.Data.Real.Basic
import Mathlib.Order.Bounds.Basic
import Mathlib.Tactic.NormNum
set_option autoImplicit false

/-!
# Padding to a power of two

One is doubled until it is at least `n`.  What holds after every pass is that the value is a power
of two and that the powers before it are less than `n` (`Doubled.iff_powers`).  So no run has more
passes than the logarithm of `n`, rounded up, and one that has as many has come to the least power
of two that is at least `n` (`doubled_nextPowTwo`, `isLeast_nextPowTwo`).

The power before it is less than `n` if there is one, so that it is itself less than twice `n`, and
a sequence is padded to less than four times its length (`nextPowTwo_lt`).
-/

namespace EnsembleSampling.Autocorrelation

/-! ## Passes -/

/-- What doubling has brought one to after so many passes, each made because the value was less
than `n`. -/
inductive Doubled (n : Int) : Nat → Nat → Prop
  | start : Doubled n 0 1
  | pass {k i : Nat} (h : Doubled n k i) (hlt : i < n) : Doubled n (k + 1) (2 * i)

variable {n : Int} {k i : Nat}

/-- After every pass the value is a power of two, and those before it are less than `n`. -/
theorem Doubled.iff_powers : Doubled n k i ↔ i = 2 ^ k ∧ ∀ j < k, (2 ^ j : Nat) < n := by
  constructor
  · intro h
    induction h with
    | start => exact ⟨rfl, fun j hj => absurd hj (Nat.not_lt_zero j)⟩
    | @pass k i _ hlt ih =>
      obtain ⟨rfl, hbefore⟩ := ih
      refine ⟨Nat.pow_succ'.symm, fun j hj => ?_⟩
      rcases Nat.lt_succ_iff_lt_or_eq.mp hj with hj | rfl
      · exact hbefore j hj
      · exact hlt
  · rintro ⟨rfl, hbefore⟩
    induction k with
    | zero => exact .start
    | succ k ih =>
      rw [Nat.pow_succ']
      exact .pass (ih fun j hj => hbefore j (hj.trans k.lt_succ_self)) (hbefore k k.lt_succ_self)

/-- The doubling goes on from what one has come to. -/
theorem Doubled.exists_doubleUntil (h : Doubled n k i) (hi : 0 < i) :
    ∃ p, Doubled n p (doubleUntil n.toNat i hi) := by
  fun_induction doubleUntil n.toNat i hi generalizing k with
  | case1 i hi hlt ih => exact ih (h.pass (Int.lt_toNat.mp hlt))
  | case2 i hi hle => exact ⟨k, h⟩

/-- No run has more passes than the logarithm of `n`, rounded up. -/
theorem Doubled.passes_le (h : Doubled n k i) : k ≤ Nat.clog 2 n.toNat := by
  by_contra hlt
  have hless := (iff_powers.mp h).2 _ (not_le.mp hlt)
  have hle := Nat.le_pow_clog one_lt_two n.toNat
  exact absurd hless (not_lt.mpr (Int.toNat_le.mp hle))

/-- One that has ended has as many. -/
theorem Doubled.passes_eq (h : Doubled n k i) (hle : n ≤ i) : k = Nat.clog 2 n.toNat := by
  refine le_antisymm h.passes_le (Nat.clog_le_of_le_pow ?_)
  rw [← (iff_powers.mp h).1]
  exact Int.toNat_le.mpr hle

/-- The value before the last pass was less than `n`. -/
theorem Doubled.lt_two_mul (h : Doubled n k i) (hn : 1 ≤ n) : i < 2 * n := by
  cases h with
  | start => omega
  | pass h hlt => omega

/-! ## The least power of two -/

theorem le_nextPowTwo (n : Int) : n ≤ nextPowTwo n :=
  Int.toNat_le.mp (le_doubleUntil n.toNat 1 Nat.one_pos)

theorem doubled_nextPowTwo (n : Int) : Doubled n (Nat.clog 2 n.toNat) (nextPowTwo n) := by
  obtain ⟨p, hrun⟩ := Doubled.start.exists_doubleUntil (n := n) Nat.one_pos
  exact hrun.passes_eq (le_nextPowTwo n) ▸ hrun

theorem exists_nextPowTwo_eq (n : Int) : ∃ p, nextPowTwo n = 2 ^ p :=
  ⟨_, (Doubled.iff_powers.mp (doubled_nextPowTwo n)).1⟩

theorem isLeast_nextPowTwo (n : Int) :
    IsLeast {m : Nat | (∃ p, m = 2 ^ p) ∧ n ≤ m} (nextPowTwo n) := by
  obtain ⟨hpower, hbefore⟩ := Doubled.iff_powers.mp (doubled_nextPowTwo n)
  refine ⟨⟨⟨_, hpower⟩, le_nextPowTwo n⟩, ?_⟩
  rintro m ⟨⟨p, rfl⟩, hm⟩
  rw [hpower]
  refine Nat.pow_le_pow_right two_pos ?_
  by_contra hlt
  exact absurd (hbefore p (not_le.mp hlt)) (not_lt.mpr hm)

theorem nextPowTwo_of_le_one (h : n ≤ 1) : nextPowTwo n = 1 :=
  doubleUntil_of_le Nat.one_pos (Int.toNat_le.mpr h)

theorem nextPowTwo_lt (hn : 1 ≤ n) : nextPowTwo n < 2 * n :=
  (doubled_nextPowTwo n).lt_two_mul hn

/-- An argument that stands for an integer has a power of two. -/
theorem nextPowTwoOf_of_integral {a : Argument} (ha : a.integral? = some n) :
    nextPowTwoOf a = .ok (nextPowTwo n) := by
  have hindex : a.index = .ok n := by rw [Argument.index, ha]
  cases a with
  | real x => cases ha
  | _ => simp only [nextPowTwoOf, hindex, Except.map]

/-! ## The length of a transform -/

theorem pow2_depth (n : Int) : pow2 ((nextPowTwo n).log2 + 1) = 2 * nextPowTwo n := by
  obtain ⟨p, hp⟩ := exists_nextPowTwo_eq n
  rw [hp, Nat.log2_two_pow, pow2_succ]
  rfl

/-- A sequence that is padded is as long as the transform. -/
theorem length_padTo_nextPowTwo {α : Type} [Zero α] (ds : List α) (hn : ds.length = n) :
    (padTo (2 * nextPowTwo n) (Cartesian.ofReal 0) (ds.map Cartesian.ofReal)).length =
      pow2 ((nextPowTwo n).log2 + 1) := by
  have hle : ds.length ≤ 2 * nextPowTwo n := by
    have := le_nextPowTwo n
    omega
  rw [pow2_depth]
  exact length_padTo _ _ _ (by rwa [List.length_map])

/-- **Doubling ends at the least power of two.**  For every integer `n` the doubling of one ends
after as many passes as the logarithm of `n`, rounded up, and no run has more; whatever argument
stands for `n` gets an answer.  What it has come to is the least power of two that is at least `n`,
and one if `n` is at most one.

Twice that power is what a sequence of `n` entries is padded to and the length of the transform.
It is at least `2 * n`, and so at least `2 * n - 1`, and less than `4 * n`. -/
theorem doubling_ends_at_least_power (n : Int) :
    (Doubled n (Nat.clog 2 n.toNat) (nextPowTwo n) ∧ ¬ nextPowTwo n < n ∧
      ∀ k i, Doubled n k i → k ≤ Nat.clog 2 n.toNat) ∧
    (∀ a : Argument, a.integral? = some n → nextPowTwoOf a = .ok (nextPowTwo n)) ∧
    IsLeast {m : Nat | (∃ p, m = 2 ^ p) ∧ n ≤ m} (nextPowTwo n) ∧
    (n ≤ 1 → nextPowTwo n = 1) ∧
    pow2 ((nextPowTwo n).log2 + 1) = 2 * nextPowTwo n ∧
    (∀ {α : Type} [Zero α] (ds : List α), ds.length = n →
      (padTo (2 * nextPowTwo n) (Cartesian.ofReal 0) (ds.map Cartesian.ofReal)).length =
        pow2 ((nextPowTwo n).log2 + 1)) ∧
    (1 ≤ n → 2 * n ≤ (2 * nextPowTwo n : Nat) ∧ (2 * nextPowTwo n : Nat) < 4 * n ∧
      2 * n - 1 ≤ (2 * nextPowTwo n : Nat)) := by
  have hle := le_nextPowTwo n
  refine ⟨⟨doubled_nextPowTwo n, not_lt.mpr hle, fun k i => Doubled.passes_le⟩,
    fun a => nextPowTwoOf_of_integral, isLeast_nextPowTwo n, nextPowTwo_of_le_one, pow2_depth n,
    length_padTo_nextPowTwo, fun hn => ?_⟩
  have hlt := nextPowTwo_lt hn
  omega

/-- One more than a power of two, and one. -/
theorem doubling_ends_at_least_power_past_128 :
    (Argument.integer 129).integral? = some 129 ∧ nextPowTwoOf (.integer 129) = .ok 256 ∧
      (padTo (2 * nextPowTwo 129) (Cartesian.ofReal 0)
        ((List.replicate 129 (1 : ℝ)).map Cartesian.ofReal)).length = 512 ∧
      2 * 129 ≤ (2 * nextPowTwo 129 : Int) ∧ (2 * nextPowTwo 129 : Int) < 4 * 129 ∧
      nextPowTwo 1 = 1 := by
  obtain ⟨⟨hrun, -⟩, hanswer, -, -, hdepth, hpadded, hbounds⟩ := doubling_ends_at_least_power 129
  have hpower : nextPowTwo 129 = 256 := (Doubled.iff_powers.mp hrun).1
  obtain ⟨hlower, hupper, -⟩ := hbounds (by decide)
  have hcount : ((List.replicate 129 (1 : ℝ)).length : Int) = 129 := by
    rw [List.length_replicate]
    rfl
  refine ⟨rfl, hpower ▸ hanswer (.integer 129) rfl, ?_, by exact_mod_cast hlower,
    by exact_mod_cast hupper, (doubling_ends_at_least_power 1).2.2.2.1 le_rfl⟩
  rw [hpadded _ hcount, hdepth, hpower]

end EnsembleSampling.Autocorrelation
