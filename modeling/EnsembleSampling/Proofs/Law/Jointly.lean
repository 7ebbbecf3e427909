import Mathlib.Probability.ProbabilityMassFunction.Constructions
set_option autoImplicit false

/-!
# Independent draws

`jointly ps` is the law of a list whose members are drawn independently, one from each law
of the list `ps`.  What is done to the members one by one can be done before or after
they are put together.
-/

namespace EnsembleSampling

open scoped ENNReal

variable {ι α γ : Type}

/-- Functions that agree on what occurs have the same law. -/
theorem map_congr_of_support {p : PMF α} {f g : α → γ} (h : ∀ a ∈ p.support, f a = g a) :
    p.map f = p.map g := by
  ext b
  rw [PMF.map_apply, PMF.map_apply]
  refine tsum_congr fun a => ?_
  by_cases ha : a ∈ p.support
  · rw [h a ha]
  · rw [PMF.mem_support_iff, not_not] at ha
    simp [ha]

/-- Two values are equally likely if they come from the same draws. -/
theorem map_apply_congr {p : PMF α} {δ : Type} {f : α → γ} {g : α → δ} {c : γ} {d : δ}
    (h : ∀ a ∈ p.support, f a = c ↔ g a = d) : p.map f c = p.map g d := by
  classical
  rw [PMF.map_apply, PMF.map_apply]
  refine tsum_congr fun a => ?_
  by_cases ha : a ∈ p.support
  · exact if_congr (eq_comm.trans ((h a ha).trans eq_comm)) rfl rfl
  · rw [PMF.mem_support_iff, not_not] at ha
    simp [ha]

/-- The law of a list of independent draws. -/
noncomputable def jointly : List (PMF α) → PMF (List α)
  | [] => PMF.pure []
  | p :: ps => p.bind fun a => (jointly ps).map (List.cons a)

theorem forall₂_of_mem_support_jointly {ps : List (PMF α)} {as : List α}
    (h : as ∈ (jointly ps).support) : List.Forall₂ (fun p a => a ∈ p.support) ps as := by
  induction ps generalizing as with
  | nil =>
    obtain rfl : as = [] := by simpa [jointly] using h
    exact .nil
  | cons p ps ih =>
    rw [jointly, PMF.mem_support_bind_iff] at h
    obtain ⟨a, ha, h⟩ := h
    obtain ⟨rest, hrest, rfl⟩ := (PMF.mem_support_map_iff _ _ _).mp h
    exact .cons ha (ih hrest)

theorem jointly_cons_apply (p : PMF α) (ps : List (PMF α)) (a : α) (as : List α) :
    jointly (p :: ps) (a :: as) = p a * jointly ps as := by
  classical
  have hcons (b : α) : (jointly ps).map (List.cons b) (a :: as) =
      if b = a then jointly ps as else 0 := by
    rw [PMF.map_apply]
    by_cases hb : b = a
    · subst hb
      rw [if_pos rfl, tsum_eq_single as]
      · simp
      · intro as' has
        simp [has.symm]
    · simp [hb, Ne.symm hb]
  rw [jointly, PMF.bind_apply, tsum_eq_single a]
  · rw [hcons, if_pos rfl]
  · intro b hb
    rw [hcons, if_neg hb, mul_zero]

theorem mem_support_jointly {ps : List (PMF α)} {as : List α}
    (h : List.Forall₂ (fun p a => a ∈ p.support) ps as) : as ∈ (jointly ps).support := by
  induction h with
  | nil => exact (PMF.mem_support_pure_iff _ _).mpr rfl
  | cons ha _ ih =>
    rw [PMF.mem_support_iff, jointly_cons_apply]
    exact mul_ne_zero ha ih

/-- The probability of a list is the product of those of its members. -/
theorem jointly_map_apply (is : List ι) (p : ι → PMF α) (a : ι → α) :
    jointly (is.map p) (is.map a) = (is.map fun i => p i (a i)).prod := by
  induction is with
  | nil => exact PMF.pure_apply_self _
  | cons i is ih =>
    rw [List.map_cons, List.map_cons, jointly_cons_apply, ih, List.map_cons, List.prod_cons]

theorem map_map_jointly (f : α → γ) (ps : List (PMF α)) :
    (jointly ps).map (List.map f) = jointly (ps.map (PMF.map f)) := by
  induction ps with
  | nil => exact PMF.pure_map _ _
  | cons p ps ih =>
    rw [jointly, List.map_cons, jointly, PMF.map_bind, PMF.bind_map, ← ih]
    refine congrArg p.bind (funext fun a => ?_)
    rw [Function.comp_apply, PMF.map_comp, PMF.map_comp]
    rfl

theorem map_zipWith_jointly (g : ι → α → γ) (is : List ι) (p : ι → PMF α) :
    (jointly (is.map p)).map (List.zipWith g is) = jointly (is.map fun i => (p i).map (g i)) := by
  induction is with
  | nil => exact PMF.pure_map _ _
  | cons i is ih =>
    rw [List.map_cons, jointly, List.map_cons, jointly, PMF.map_bind, PMF.bind_map, ← ih]
    refine congrArg (p i).bind (funext fun a => ?_)
    rw [Function.comp_apply, PMF.map_comp, PMF.map_comp]
    rfl

/-- Each member by itself has the law that it is drawn from. -/
theorem map_getElem?_jointly {ps : List (PMF α)} {k : Nat} {p : PMF α} (h : ps[k]? = some p) :
    (jointly ps).map (·[k]?) = p.map some := by
  induction ps generalizing k with
  | nil => simp at h
  | cons q ps ih =>
    rw [jointly, PMF.map_bind]
    cases k with
    | zero =>
      obtain rfl : q = p := by simpa using h
      refine congrArg q.bind (funext fun a => ?_)
      rw [PMF.map_comp]
      exact PMF.map_const _ _
    | succ k =>
      rw [List.getElem?_cons_succ] at h
      have hrest (a : α) : ((jointly ps).map (List.cons a)).map (·[k + 1]?) = p.map some := by
        rw [PMF.map_comp, ← ih h]
        rfl
      simp only [hrest, PMF.bind_const]

end EnsembleSampling
