import EnsembleSampling.Number.Summation
import Mathlib.Algebra.BigOperators.Group.List.Basic
import Mathlib.Tactic.Abel
set_option autoImplicit false

/-!
# Sums in exact arithmetic

Where addition is associative and commutative, the order of the additions does not
matter: every way of summing a list is its sum.  A map that keeps sums of two terms keeps the
sum in blocks, whatever the arithmetic (`blockSum_map`), and so does a property of sums of so many
terms that a single addition passes on (`blockSum_counted`).
-/

namespace EnsembleSampling

section

variable {α : Type} [AddCommMonoid α]

theorem foldl_add_eq_sum (xs : List α) (s : α) : xs.foldl (· + ·) s = s + xs.sum := by
  induction xs generalizing s with
  | nil => simp
  | cons x xs ih => rw [List.foldl_cons, ih, List.sum_cons, add_assoc]

theorem sumLeft_eq_sum (xs : List α) : sumLeft xs = xs.sum := by
  cases xs with
  | nil => rfl
  | cons x xs => rw [sumLeft, foldl_add_eq_sum, List.sum_cons]

/-- What the lanes hold together. -/
def Lanes.total (l : Lanes α) : α :=
  ((l.a + l.b) + (l.c + l.d)) + ((l.e + l.f) + (l.g + l.h))

theorem Lanes.finish_eq_sum (l : Lanes α) (xs : List α) : l.finish xs = l.total + xs.sum := by
  fun_induction Lanes.finish l xs with
  | case1 l x₁ x₂ x₃ x₄ x₅ x₆ x₇ x₈ rest ih =>
    rw [ih]
    simp only [Lanes.total, List.sum_cons]
    abel
  | case2 l rest _ => exact foldl_add_eq_sum rest _

theorem sumLanes_eq_sum (xs : List α) : sumLanes xs = xs.sum := by
  fun_cases sumLanes xs with
  | case1 x₁ x₂ x₃ x₄ x₅ x₆ x₇ x₈ rest =>
    rw [Lanes.finish_eq_sum]
    simp only [Lanes.total, List.sum_cons]
    abel
  | case2 => exact sumLeft_eq_sum xs

theorem pairedSum_eq_sum (xs : List α) : pairedSum xs = xs.sum := by
  fun_induction pairedSum xs with
  | case1 xs _ ih₁ ih₂ => rw [ih₁, ih₂, ← List.sum_append, List.take_append_drop]
  | case2 xs _ => exact sumLanes_eq_sum xs

/-- The sum in blocks is the sum. -/
theorem blockSum_eq_sum (xs : List α) : blockSum xs = xs.sum := by
  rw [blockSum, pairedSum_eq_sum, zero_add]

end

/-! ## Sums under a map -/

section

variable {α β : Type} [Zero α] [Add α] [Zero β] [Add β] {f : α → β}

omit [Zero α] [Zero β] in
theorem foldl_add_map (hadd : ∀ x y, f (x + y) = f x + f y) (xs : List α) (s : α) :
    (xs.map f).foldl (· + ·) (f s) = f (xs.foldl (· + ·) s) := by
  induction xs generalizing s with
  | nil => rfl
  | cons x xs ih => rw [List.map_cons, List.foldl_cons, ← hadd, ih, List.foldl_cons]

theorem sumLeft_map (hzero : f 0 = 0) (hadd : ∀ x y, f (x + y) = f x + f y) (xs : List α) :
    sumLeft (xs.map f) = f (sumLeft xs) := by
  cases xs with
  | nil => exact hzero.symm
  | cons x xs => exact foldl_add_map hadd xs x

/-- What a map makes of the lanes. -/
def Lanes.map (f : α → β) (l : Lanes α) : Lanes β :=
  ⟨f l.a, f l.b, f l.c, f l.d, f l.e, f l.f, f l.g, f l.h⟩

omit [Zero α] [Add α] [Zero β] [Add β] in
/-- A list has eight terms in front if its image has. -/
theorem exists_eight_of_map {xs : List α} {y₁ y₂ y₃ y₄ y₅ y₆ y₇ y₈ : β} {ys : List β}
    (h : xs.map f = y₁ :: y₂ :: y₃ :: y₄ :: y₅ :: y₆ :: y₇ :: y₈ :: ys) :
    ∃ x₁ x₂ x₃ x₄ x₅ x₆ x₇ x₈ rest,
      xs = x₁ :: x₂ :: x₃ :: x₄ :: x₅ :: x₆ :: x₇ :: x₈ :: rest := by
  simp only [List.map_eq_cons_iff] at h
  obtain ⟨x₁, _, rfl, -, x₂, _, rfl, -, x₃, _, rfl, -, x₄, _, rfl, -, x₅, _, rfl, -,
    x₆, _, rfl, -, x₇, _, rfl, -, x₈, rest, rfl, -⟩ := h
  exact ⟨x₁, x₂, x₃, x₄, x₅, x₆, x₇, x₈, rest, rfl⟩

omit [Zero α] [Zero β] in
theorem Lanes.finish_map (hadd : ∀ x y, f (x + y) = f x + f y) (l : Lanes α) (xs : List α) :
    (l.map f).finish (xs.map f) = f (l.finish xs) := by
  fun_induction Lanes.finish l xs with
  | case1 l x₁ x₂ x₃ x₄ x₅ x₆ x₇ x₈ rest ih =>
    rw [← ih]
    simp only [List.map_cons, Lanes.finish, Lanes.map, hadd]
  | case2 l rest hshort =>
    rw [← foldl_add_map hadd]
    simp only [hadd]
    refine Lanes.finish.eq_2 _ _ fun y₁ y₂ y₃ y₄ y₅ y₆ y₇ y₈ ys h => ?_
    obtain ⟨x₁, x₂, x₃, x₄, x₅, x₆, x₇, x₈, rest, rfl⟩ := exists_eight_of_map h
    exact hshort x₁ x₂ x₃ x₄ x₅ x₆ x₇ x₈ rest rfl

theorem sumLanes_map (hzero : f 0 = 0) (hadd : ∀ x y, f (x + y) = f x + f y) (xs : List α) :
    sumLanes (xs.map f) = f (sumLanes xs) := by
  fun_cases sumLanes xs with
  | case1 x₁ x₂ x₃ x₄ x₅ x₆ x₇ x₈ rest =>
    exact Lanes.finish_map hadd ⟨x₁, x₂, x₃, x₄, x₅, x₆, x₇, x₈⟩ rest
  | case2 _ hshort =>
    rw [← sumLeft_map hzero hadd]
    refine sumLanes.eq_2 _ fun y₁ y₂ y₃ y₄ y₅ y₆ y₇ y₈ ys h => ?_
    obtain ⟨x₁, x₂, x₃, x₄, x₅, x₆, x₇, x₈, rest, rfl⟩ := exists_eight_of_map h
    exact hshort x₁ x₂ x₃ x₄ x₅ x₆ x₇ x₈ rest rfl

theorem pairedSum_map (hzero : f 0 = 0) (hadd : ∀ x y, f (x + y) = f x + f y) (xs : List α) :
    pairedSum (xs.map f) = f (pairedSum xs) := by
  fun_induction pairedSum xs with
  | case1 xs hlong ih₁ ih₂ =>
    rw [pairedSum, List.length_map, if_pos hlong, hadd, ← ih₁, ← ih₂, List.map_take, List.map_drop]
  | case2 xs hshort => rw [pairedSum, List.length_map, if_neg hshort, sumLanes_map hzero hadd]

/-- A map that keeps sums keeps the sum in blocks. -/
theorem blockSum_map (hzero : f 0 = 0) (hadd : ∀ x y, f (x + y) = f x + f y) (xs : List α) :
    blockSum (xs.map f) = f (blockSum xs) := by
  rw [blockSum, blockSum, pairedSum_map hzero hadd, hadd, hzero]

end

/-! ## Sums of so many terms -/

section

variable {α : Type} [Zero α] [Add α] {n : Nat} {R : Nat → α → Prop}
  (hadd : ∀ j k x y, R j x → R k y → j + k ≤ n → R (j + k) (x + y))

include hadd

omit [Zero α] in
theorem foldl_add_counted {j : Nat} {s : α} {xs : List α} (hs : R j s) (hxs : ∀ x ∈ xs, R 1 x)
    (hn : j + xs.length ≤ n) : R (j + xs.length) (xs.foldl (· + ·) s) := by
  induction xs generalizing j s with
  | nil => exact hs
  | cons x xs ih =>
    obtain ⟨hx, hrest⟩ := List.forall_mem_cons.mp hxs
    rw [List.length_cons] at hn ⊢
    have hstep := ih (hadd j 1 s x hs hx (by omega)) hrest (by omega)
    rwa [add_assoc, add_comm 1] at hstep

omit [Zero α] in
/-- Eight lanes of `j` terms each, and what is left of the list. -/
theorem Lanes.finish_counted {j : Nat} {l : Lanes α} {xs : List α}
    (hl : ∀ x ∈ [l.a, l.b, l.c, l.d, l.e, l.f, l.g, l.h], R j x) (hxs : ∀ x ∈ xs, R 1 x)
    (hn : 8 * j + xs.length ≤ n) : R (8 * j + xs.length) (l.finish xs) := by
  fun_induction Lanes.finish l xs generalizing j with
  | case1 l x₁ x₂ x₃ x₄ x₅ x₆ x₇ x₈ rest ih =>
    simp only [List.forall_mem_cons, List.length_cons] at hl hxs hn
    obtain ⟨ha, hb, hc, hd, he, hf, hg, hh, -⟩ := hl
    obtain ⟨h₁, h₂, h₃, h₄, h₅, h₆, h₇, h₈, hrest⟩ := hxs
    have hlane : ∀ x y, R j x → R 1 y → R (j + 1) (x + y) :=
      fun x y hx hy => hadd j 1 x y hx hy (by omega)
    have hstep := ih (j := j + 1) (by simp [*]) hrest (by omega)
    have hcount : 8 * (j + 1) + rest.length =
        8 * j + (x₁ :: x₂ :: x₃ :: x₄ :: x₅ :: x₆ :: x₇ :: x₈ :: rest).length := by
      simp only [List.length_cons]
      omega
    rwa [hcount] at hstep
  | case2 l rest _ =>
    simp only [List.forall_mem_cons] at hl
    obtain ⟨ha, hb, hc, hd, he, hf, hg, hh, -⟩ := hl
    have hjoined := hadd _ _ _ _
      (hadd _ _ _ _ (hadd _ _ _ _ ha hb (by omega)) (hadd _ _ _ _ hc hd (by omega)) (by omega))
      (hadd _ _ _ _ (hadd _ _ _ _ he hf (by omega)) (hadd _ _ _ _ hg hh (by omega)) (by omega))
      (by omega)
    have hcount : j + j + (j + j) + (j + j + (j + j)) = 8 * j := by omega
    rw [hcount] at hjoined
    exact foldl_add_counted hadd hjoined hxs hn

theorem sumLanes_counted {xs : List α} (hne : xs ≠ []) (hxs : ∀ x ∈ xs, R 1 x)
    (hn : xs.length ≤ n) : R xs.length (sumLanes xs) := by
  fun_cases sumLanes xs with
  | case1 x₁ x₂ x₃ x₄ x₅ x₆ x₇ x₈ rest =>
    simp only [List.forall_mem_cons, List.length_cons] at hxs hn
    obtain ⟨h₁, h₂, h₃, h₄, h₅, h₆, h₇, h₈, hrest⟩ := hxs
    have hfinish := Lanes.finish_counted hadd (l := ⟨x₁, x₂, x₃, x₄, x₅, x₆, x₇, x₈⟩) (j := 1)
      (by simp [*]) hrest (by omega)
    rwa [add_comm] at hfinish
  | case2 _ _ =>
    cases xs with
    | nil => exact absurd rfl hne
    | cons x xs =>
      obtain ⟨hx, hrest⟩ := List.forall_mem_cons.mp hxs
      rw [List.length_cons, add_comm] at hn ⊢
      exact foldl_add_counted hadd hx hrest hn

theorem pairedSum_counted {xs : List α} (hne : xs ≠ []) (hxs : ∀ x ∈ xs, R 1 x)
    (hn : xs.length ≤ n) : R xs.length (pairedSum xs) := by
  fun_induction pairedSum xs with
  | case1 xs hlong ih₁ ih₂ =>
    have hpos := cutPoint_pos hlong
    have hlt := cutPoint_lt hlong
    have hfront : (xs.take (cutPoint xs.length)).length = cutPoint xs.length :=
      List.length_take_of_le hlt.le
    have hback : (xs.drop (cutPoint xs.length)).length = xs.length - cutPoint xs.length :=
      List.length_drop
    have hjoined := hadd _ _ _ _
      (ih₁ (List.ne_nil_of_length_pos (by omega)) (fun x hx => hxs x (List.mem_of_mem_take hx))
        (by omega))
      (ih₂ (List.ne_nil_of_length_pos (by omega)) (fun x hx => hxs x (List.mem_of_mem_drop hx))
        (by omega))
      (by omega)
    rwa [hfront, hback, Nat.add_sub_cancel' hlt.le] at hjoined
  | case2 xs _ => exact sumLanes_counted hadd hne hxs hn

/-- What an addition passes on to sums of more terms holds of the sum in blocks, in whatever order
it adds. -/
theorem blockSum_counted {xs : List α} (hzero : R 0 0) (hne : xs ≠ []) (hxs : ∀ x ∈ xs, R 1 x)
    (hn : xs.length ≤ n) : R xs.length (blockSum xs) := by
  have hpaired := hadd 0 _ 0 _ hzero (pairedSum_counted hadd hne hxs hn) (by omega)
  rwa [zero_add] at hpaired

end

end EnsembleSampling
