import EnsembleSampling.Proofs.Unconstrain.Exact
set_option autoImplicit false

/-!
# Which vectors are ordered

An ordered vector is checked by the differences of neighbours, while the bound that is named when
the check fails compares the neighbours themselves.  On the exact scale the two agree wherever the
difference is a number.  Two infinities have no difference: a vector that stays at the positive
infinity never decreases, and is turned down all the same (`repeatedInfinity_turned_down`).  Apart
from that a vector is turned down just if a comparison fails, and for the first one that does
(`positiveOrdered_turned_down_iff`).
-/

namespace EnsembleSampling

/-! ## The first break -/

/-- The entries `x` and `y`, at the places `k` and `k + 1`, are the first neighbours that are not
related. -/
structure FirstBreak {α : Type} (rel : α → α → Prop) (ys : List α) (k : Nat) (x y : α) :
    Prop where
  left : ys[k]? = some x
  right : ys[k + 1]? = some y
  unrelated : ¬ rel x y
  before : (ys.take (k + 1)).IsChain rel

section

variable {α : Type} {rel : α → α → Prop} {a b x y : α} {ys : List α} {k : Nat}

theorem not_firstBreak_singleton : ¬ FirstBreak rel [a] k x y :=
  fun h => by simpa using h.right

theorem firstBreak_zero_iff : FirstBreak rel (a :: b :: ys) 0 x y ↔ ¬ rel a b ∧ x = a ∧ y = b := by
  constructor
  · rintro ⟨hx, hy, hrel, -⟩
    obtain rfl : a = x := by simpa using hx
    obtain rfl : b = y := by simpa using hy
    exact ⟨hrel, rfl, rfl⟩
  · rintro ⟨hrel, rfl, rfl⟩
    exact ⟨rfl, rfl, hrel, by simp⟩

theorem firstBreak_succ_iff :
    FirstBreak rel (a :: b :: ys) (k + 1) x y ↔ rel a b ∧ FirstBreak rel (b :: ys) k x y := by
  have hchain : ((a :: b :: ys).take (k + 1 + 1)).IsChain rel ↔
      rel a b ∧ ((b :: ys).take (k + 1)).IsChain rel := by
    rw [List.take_succ_cons, List.take_succ_cons, List.isChain_cons_cons]
  constructor
  · rintro ⟨hx, hy, hrel, hbefore⟩
    obtain ⟨hab, hbefore⟩ := hchain.mp hbefore
    exact ⟨hab, hx, hy, hrel, hbefore⟩
  · rintro ⟨hab, hx, hy, hrel, hbefore⟩
    exact ⟨hx, hy, hrel, hchain.mpr ⟨hab, hbefore⟩⟩

/-- There is a first break unless the entries are related all along. -/
theorem exists_firstBreak_iff : (∃ k x y, FirstBreak rel ys k x y) ↔ ¬ ys.IsChain rel := by
  induction ys with
  | nil => simpa using fun k x y (h : FirstBreak rel [] k x y) => by simpa using h.left
  | cons a ys ih =>
    cases ys with
    | nil => simp [not_firstBreak_singleton]
    | cons b ys =>
      rw [List.isChain_cons_cons, not_and, ← ih]
      constructor
      · rintro ⟨k, x, y, h⟩ hab
        cases k with
        | zero => exact absurd hab (firstBreak_zero_iff.mp h).1
        | succ k => exact ⟨k, x, y, (firstBreak_succ_iff.mp h).2⟩
      · intro h
        by_cases hab : rel a b
        · obtain ⟨k, x, y, hbreak⟩ := h hab
          exact ⟨k + 1, x, y, firstBreak_succ_iff.mpr ⟨hab, hbreak⟩⟩
        · exact ⟨0, a, b, firstBreak_zero_iff.mpr ⟨hab, rfl, rfl⟩⟩

/-- Entries are related all along unless some neighbours are not. -/
theorem not_isChain_iff :
    ¬ ys.IsChain rel ↔ ∃ k x y, ys[k]? = some x ∧ ys[k + 1]? = some y ∧ ¬ rel x y := by
  constructor
  · intro h
    obtain ⟨k, x, y, hbreak⟩ := exists_firstBreak_iff.mpr h
    exact ⟨k, x, y, hbreak.left, hbreak.right, hbreak.unrelated⟩
  · rintro ⟨k, x, y, hx, hy, hrel⟩ hchain
    obtain ⟨hk, rfl⟩ := List.getElem?_eq_some_iff.mp hy
    obtain ⟨hk', rfl⟩ := List.getElem?_eq_some_iff.mp hx
    exact hrel (hchain.getElem k hk)

end

/-! ## Neighbours on the exact scale -/

namespace Extended

theorem le_trans {x y z : Extended} (hxy : x ≤ y) (hyz : y ≤ z) : x ≤ z := by
  cases x with
  | undefined => exact hxy.elim
  | number a =>
    cases y with
    | undefined => exact hxy.elim
    | number b =>
      cases z with
      | undefined => exact hyz.elim
      | number c =>
        exact number_le_iff.mpr ((number_le_iff.mp hxy).trans (number_le_iff.mp hyz))

/-- The second of two neighbours is at least the first, and they are not both the positive
infinity. -/
def Ascends (x y : Extended) : Prop := x ≤ y ∧ ¬ (x = number ⊤ ∧ y = number ⊤)

/-- Above zero the difference of neighbours tells whether they ascend. -/
theorem zero_le_sub_iff {x y : Extended} (hx : 0 ≤ x) : 0 ≤ y - x ↔ Ascends x y := by
  cases x with
  | undefined => exact hx.elim
  | number a =>
    have ha : (0 : EReal) ≤ a := number_le_iff.mp hx
    have hbot : a ≠ ⊥ := (EReal.bot_lt_zero.trans_le ha).ne'
    cases y with
    | undefined => exact iff_of_false (fun h => h.elim) fun h => h.1.elim
    | number b =>
      by_cases htop : b = ⊤ ∧ a = ⊤
      · obtain ⟨rfl, rfl⟩ := htop
        have hsub : number ⊤ - number ⊤ = undefined := by
          change Extended.sub (number ⊤) (number ⊤) = _
          rw [Extended.sub, if_pos ⟨rfl, .inl rfl⟩]
        rw [hsub]
        exact iff_of_false (fun h => h.elim) fun h => h.2 ⟨rfl, rfl⟩
      · have hsub : number b - number a = number (b - a) := by
          refine if_neg ?_
          rintro ⟨rfl, rfl | rfl⟩
          · exact htop ⟨rfl, rfl⟩
          · exact hbot rfl
        have hnonneg : 0 ≤ b - a ↔ a ≤ b :=
          EReal.sub_nonneg (not_and_or.mp htop) (.inr hbot)
        have hpair : ¬ (number a = number ⊤ ∧ number b = number ⊤) := by
          rintro ⟨h, h'⟩
          exact htop ⟨number.inj h', number.inj h⟩
        rw [hsub, Ascends, and_iff_left hpair]
        exact hnonneg

end Extended

open Extended (Ascends)

namespace Unconstrain

variable {A : Type}

/-! ## The check -/

/-- The neighbours of a vector that begins above zero are turned down at their first break. -/
theorem requireIncreasing_eq_error_iff {index : Nat} {previous : Extended} {ys : List Extended}
    (hprevious : 0 ≤ previous) {r : Refusal A Extended} :
    requireIncreasing index previous ys = .error r ↔
      ∃ k x y, FirstBreak Ascends (previous :: ys) k x y ∧
        r = .breach ⟨.positiveOrdered, .entry y, .entryIncreasing (index + k) x⟩ := by
  induction ys generalizing index previous with
  | nil => simp [requireIncreasing, not_firstBreak_singleton]
  | cons y ys ih =>
    rw [requireIncreasing]
    by_cases hascends : Ascends previous y
    · have hpass : decide (0 ≤ y - previous) = true :=
        decide_eq_true ((Extended.zero_le_sub_iff hprevious).mpr hascends)
      have hy : 0 ≤ y := Extended.le_trans hprevious hascends.1
      rw [hpass]
      change requireIncreasing (index + 1) y ys = .error r ↔ _
      rw [ih hy]
      constructor
      · rintro ⟨k, a, b, hbreak, rfl⟩
        refine ⟨k + 1, a, b, firstBreak_succ_iff.mpr ⟨hascends, hbreak⟩, ?_⟩
        rw [Nat.add_right_comm, Nat.add_assoc]
      · rintro ⟨k, a, b, hbreak, rfl⟩
        cases k with
        | zero => exact absurd hascends (firstBreak_zero_iff.mp hbreak).1
        | succ k =>
          refine ⟨k, a, b, (firstBreak_succ_iff.mp hbreak).2, ?_⟩
          rw [Nat.add_right_comm, Nat.add_assoc]
    · have hfail : decide (0 ≤ y - previous) = false :=
        decide_eq_false (mt (Extended.zero_le_sub_iff hprevious).mp hascends)
      rw [hfail]
      change Except.error (.breach ⟨.positiveOrdered, .entry y, .entryIncreasing index previous⟩) =
        Except.error r ↔ _
      rw [Except.error.injEq]
      constructor
      · rintro rfl
        exact ⟨0, previous, y, firstBreak_zero_iff.mpr ⟨hascends, rfl, rfl⟩, rfl⟩
      · rintro ⟨k, a, b, hbreak, rfl⟩
        cases k with
        | zero =>
          obtain ⟨-, rfl, rfl⟩ := firstBreak_zero_iff.mp hbreak
          rfl
        | succ k => exact absurd (firstBreak_succ_iff.mp hbreak).1 hascends

/-- A vector is turned down for its first entry, and else at the first break. -/
theorem positiveOrdered_vector_eq_error_iff {ys : List Extended} {r : Refusal A Extended} :
    positiveOrdered (.vector ys) = .error r ↔
      (∃ first ∈ ys.head?, ¬ 0 ≤ first ∧
        r = .breach ⟨.positiveOrdered, .entry first, .entryNonnegative 0⟩) ∨
      ((∀ first ∈ ys.head?, 0 ≤ first) ∧ ∃ k x y, FirstBreak Ascends ys k x y ∧
        r = .breach ⟨.positiveOrdered, .entry y, .entryIncreasing (k + 1) x⟩) := by
  cases ys with
  | nil =>
    refine iff_of_false ?_ ?_
    · exact fun h => nomatch h
    · rintro (⟨first, hfirst, -⟩ | ⟨-, k, x, y, hbreak, -⟩)
      · exact nomatch hfirst
      · exact nomatch hbreak.left
  | cons first rest =>
    simp only [List.head?_cons, Option.mem_some_iff, forall_eq', exists_eq_left']
    by_cases hfirst : 0 ≤ first
    · have hpositive : (positiveOrdered (.vector (first :: rest)) : Except (Refusal A Extended) _) =
          .error r ↔ requireIncreasing 1 first rest = .error r := by
        have hpass : decide (0 ≤ first) = true := decide_eq_true hfirst
        change (increasingOf (.vector (first :: rest))).map logIncrements = .error r ↔ _
        simp only [increasingOf, vectorOf, Tensor.rank, Tensor.vector, List.length_singleton,
          if_true, hpass, require, bind, Except.bind]
        cases requireIncreasing (A := A) 1 first rest <;> simp [Except.map, pure, Except.pure]
      rw [hpositive, requireIncreasing_eq_error_iff hfirst]
      simp only [hfirst, not_true_eq_false, false_and, false_or, true_and, Nat.add_comm 1]
    · have hpositive : (positiveOrdered (.vector (first :: rest)) : Except (Refusal A Extended) _) =
          .error (.breach ⟨.positiveOrdered, .entry first, .entryNonnegative 0⟩) := by
        have hfail : decide (0 ≤ first) = false := decide_eq_false hfirst
        change (increasingOf (.vector (first :: rest))).map logIncrements = _
        simp only [increasingOf, vectorOf, Tensor.rank, Tensor.vector, List.length_singleton,
          if_true, hfail, require, bind, Except.bind]
        rfl
      rw [hpositive, Except.error.injEq]
      simp only [hfirst, not_false_eq_true, true_and, false_and, or_false, eq_comm]

/-- **Which vectors are turned down.**  Whatever its entries, infinite or no number among them, a
vector is turned down just if its first entry is not at least zero, or an entry is not at least the
one before it, or two neighbours are both the positive infinity.

In the first case it is the first entry that is turned down.  Else it is the entry after the first
place where one of the others arises, for not being at least the one before it.  An empty vector is
never turned down. -/
theorem positiveOrdered_turned_down_iff (ys : List Extended) :
    ((∃ b, (positiveOrdered (.vector ys) : Except (Refusal A Extended) _) = .error (.breach b)) ↔
      (∃ first ∈ ys.head?, ¬ 0 ≤ first) ∨
      ∃ k x y, ys[k]? = some x ∧ ys[k + 1]? = some y ∧
        (¬ x ≤ y ∨ x = .number ⊤ ∧ y = .number ⊤)) ∧
    ∀ r : Refusal A Extended, positiveOrdered (.vector ys) = .error r ↔
      (∃ first ∈ ys.head?, ¬ 0 ≤ first ∧
        r = .breach ⟨.positiveOrdered, .entry first, .entryNonnegative 0⟩) ∨
      ((∀ first ∈ ys.head?, 0 ≤ first) ∧ ∃ k x y, FirstBreak Ascends ys k x y ∧
        r = .breach ⟨.positiveOrdered, .entry y, .entryIncreasing (k + 1) x⟩) := by
  refine ⟨?_, fun r => positiveOrdered_vector_eq_error_iff⟩
  have hpair : ∀ x y : Extended, ¬ Ascends x y ↔ ¬ x ≤ y ∨ x = .number ⊤ ∧ y = .number ⊤ := by
    intro x y
    rw [Ascends, not_and_or, not_not]
  simp only [← hpair, ← not_isChain_iff, ← exists_firstBreak_iff]
  constructor
  · rintro ⟨b, h⟩
    rcases positiveOrdered_vector_eq_error_iff.mp h with
      ⟨first, hmem, hfirst, -⟩ | ⟨-, k, x, y, hbreak, -⟩
    · exact .inl ⟨first, hmem, hfirst⟩
    · exact .inr ⟨k, x, y, hbreak⟩
  · intro h
    by_cases hnegative : ∃ first ∈ ys.head?, ¬ 0 ≤ first
    · obtain ⟨first, hmem, hfirst⟩ := hnegative
      exact ⟨_, positiveOrdered_vector_eq_error_iff.mpr (.inl ⟨first, hmem, hfirst, rfl⟩)⟩
    · obtain ⟨k, x, y, hbreak⟩ := h.resolve_left hnegative
      push Not at hnegative
      exact ⟨_, positiveOrdered_vector_eq_error_iff.mpr
        (.inr ⟨hnegative, k, x, y, hbreak, rfl⟩)⟩

/-- A vector that stays at the positive infinity is turned down, for a bound that it keeps. -/
theorem repeatedInfinity_turned_down :
    (positiveOrdered (.vector [.number ⊤, .number ⊤]) : Except (Refusal Exact Extended) _) =
      .error (.breach ⟨.positiveOrdered, .entry (.number ⊤), .entryIncreasing 1 (.number ⊤)⟩) ∧
    (0 : Extended) ≤ .number ⊤ ∧ Extended.number ⊤ ≤ .number ⊤ := by
  have hnonneg : (0 : Extended) ≤ .number ⊤ := Extended.number_le_iff.mpr le_top
  refine ⟨?_, hnonneg, Extended.number_le_iff.mpr le_rfl⟩
  refine positiveOrdered_vector_eq_error_iff.mpr (.inr ⟨?_, 0, _, _, ?_, rfl⟩)
  · rintro first ⟨⟩
    exact hnonneg
  · exact firstBreak_zero_iff.mpr ⟨fun h => h.2 ⟨rfl, rfl⟩, rfl, rfl⟩

end Unconstrain

end EnsembleSampling
