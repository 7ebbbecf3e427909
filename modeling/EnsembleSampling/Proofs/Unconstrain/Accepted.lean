import EnsembleSampling.Proofs.Unconstrain.Triangle
import EnsembleSampling.Unconstrain.Transform
set_option autoImplicit false

/-!
# What accepted values are like

For each transform, what is known of a value that it takes and of what it makes of it.  These
are the transforms read backwards: the order of the checks and the refusals are gone, and what
is left are the conditions and the output.
-/

namespace EnsembleSampling.Unconstrain

variable {A R β γ ε : Type}

/-! ## Steps -/

theorem step_eq_ok_iff {x : Except Fault β} {b : β} :
    (step x : Except (Refusal A R) β) = .ok b ↔ x = .ok b := by
  cases x <;> simp [step, Except.mapError]

theorem require_eq_ok_iff {b : Bool} {t : Transform} {value : Offender A R} {bound : Bound A R}
    {u : Unit} : require b t value bound = .ok u ↔ b = true := by
  cases b <;> simp [require]

/-! ## Scalars -/

section

variable [Quantity A R]

theorem requireAtLeast_eq_ok_iff {t : Transform} {limit y : A} {u : Unit} :
    (requireAtLeast t limit y : Except (Refusal A R) Unit) = .ok u ↔
      Quantity.atMost limit y = .ok true := by
  simp [requireAtLeast, bind_eq_ok_iff, step_eq_ok_iff, require_eq_ok_iff]

theorem requireAtMost_eq_ok_iff {t : Transform} {limit y : A} {u : Unit} :
    (requireAtMost t limit y : Except (Refusal A R) Unit) = .ok u ↔
      Quantity.atMost y limit = .ok true := by
  simp [requireAtMost, bind_eq_ok_iff, step_eq_ok_iff, require_eq_ok_iff]

theorem positive_eq_ok_iff {y : A} {r : R} :
    positive y = .ok r ↔ Quantity.atMost (Quantity.ofInt 0) y = .ok true ∧
      Quantity.log y = .ok r := by
  simp [positive, bind_eq_ok_iff, requireAtLeast_eq_ok_iff, step_eq_ok_iff]

theorem lowerBounded_eq_ok_iff {lb y : A} {r : R} :
    lowerBounded lb y = .ok r ↔ Quantity.atMost lb y = .ok true ∧
      ∃ d, Quantity.sub y lb = .ok d ∧ Quantity.log d = .ok r := by
  simp [lowerBounded, bind_eq_ok_iff, requireAtLeast_eq_ok_iff, step_eq_ok_iff]

theorem upperBounded_eq_ok_iff {ub y : A} {r : R} :
    upperBounded ub y = .ok r ↔ Quantity.atMost y ub = .ok true ∧
      ∃ d, Quantity.sub ub y = .ok d ∧ Quantity.log d = .ok r := by
  simp [upperBounded, bind_eq_ok_iff, requireAtMost_eq_ok_iff, step_eq_ok_iff]

theorem doublyBounded_eq_ok_iff {lb ub y : A} {r : R} :
    doublyBounded lb ub y = .ok r ↔ Quantity.lessThan lb ub = .ok true ∧
      Quantity.atMost lb y = .ok true ∧ Quantity.atMost y ub = .ok true ∧
      ∃ part, Quantity.sub y lb = .ok part ∧ ∃ whole, Quantity.sub ub lb = .ok whole ∧
        ∃ q, Quantity.div part whole = .ok q ∧ Quantity.logit q = .ok r := by
  simp [doublyBounded, bind_eq_ok_iff, requireAtLeast_eq_ok_iff, requireAtMost_eq_ok_iff,
    require_eq_ok_iff, step_eq_ok_iff]

theorem correlation_eq_ok_iff {y : A} {r : R} :
    correlation y = .ok r ↔ Quantity.atMost (Quantity.ofInt (-1)) y = .ok true ∧
      Quantity.atMost y (Quantity.ofInt 1) = .ok true ∧ Quantity.atanh y = .ok r := by
  simp [correlation, bind_eq_ok_iff, requireAtLeast_eq_ok_iff, requireAtMost_eq_ok_iff,
    step_eq_ok_iff]

theorem probability_eq_ok_iff {y : A} {r : R} :
    probability y = .ok r ↔ Quantity.atMost (Quantity.ofInt 0) y = .ok true ∧
      Quantity.atMost y (Quantity.ofInt 1) = .ok true ∧ Quantity.logit y = .ok r := by
  simp [probability, bind_eq_ok_iff, requireAtLeast_eq_ok_iff, requireAtMost_eq_ok_iff,
    step_eq_ok_iff]

end

/-! ## Vectors -/

section

variable [Zero R] [One R] [Add R] [Sub R] [Neg R] [Div R] [NatCast R] [LE R] [DecidableLE R]
  [LT R] [DecidableLT R] [Elementary R]

omit [Zero R] [One R] [Add R] [Sub R] [Neg R] [Div R] [NatCast R] [LE R] [DecidableLE R]
  [LT R] [DecidableLT R] [Elementary R] in
theorem vectorOf_eq_ok_iff {t : Transform} {y : Tensor R} {ys : List R} :
    (vectorOf t y : Except (Refusal A R) (List R)) = .ok ys ↔ y.rank = 1 ∧ ys = y.entries := by
  unfold vectorOf
  by_cases h : y.rank = 1
  · simp [h, eq_comm]
  · simp [h]

omit [One R] [Add R] [Neg R] [Div R] [NatCast R] [LT R] [DecidableLT R] [Elementary R] in
/-- A vector passes when none of its entries is below the one before it. -/
theorem requireIncreasing_eq_ok_iff {index : Nat} {previous : R} {ys : List R} {u : Unit} :
    (requireIncreasing index previous ys : Except (Refusal A R) Unit) = .ok u ↔
      (previous :: ys).IsChain fun x y => 0 ≤ y - x := by
  induction ys generalizing index previous with
  | nil => simp [requireIncreasing]
  | cons y ys ih =>
    simp only [requireIncreasing, bind_eq_ok_iff, require_eq_ok_iff, ih, List.isChain_cons_cons,
      decide_eq_true_eq, exists_const]

omit [One R] [Add R] [Sub R] [Neg R] [Div R] [NatCast R] [LT R] [DecidableLT R] [Elementary R] in
theorem requireNonnegative_eq_ok_iff {t : Transform} {index : Nat} {ys : List R} {u : Unit} :
    (requireNonnegative t index ys : Except (Refusal A R) Unit) = .ok u ↔ ∀ y ∈ ys, 0 ≤ y := by
  induction ys generalizing index with
  | nil => simp [requireNonnegative]
  | cons y ys ih =>
    simp only [requireNonnegative, bind_eq_ok_iff, require_eq_ok_iff, ih, List.forall_mem_cons,
      decide_eq_true_eq, exists_const]

omit [One R] [Add R] [Neg R] [Div R] [NatCast R] [LT R] [DecidableLT R] [Elementary R] in
theorem increasingOf_eq_ok_iff {y : Tensor R} {ys : List R} :
    (increasingOf y : Except (Refusal A R) (List R)) = .ok ys ↔ y.rank = 1 ∧ ys = y.entries ∧
      (∀ first ∈ ys.head?, 0 ≤ first) ∧ ys.IsChain fun x y => 0 ≤ y - x := by
  unfold increasingOf
  simp only [bind_eq_ok_iff, vectorOf_eq_ok_iff]
  refine ⟨?_, ?_⟩
  · rintro ⟨_, ⟨hrank, rfl⟩, h⟩
    revert h
    cases y.entries with
    | nil =>
      intro h
      obtain rfl := Except.ok.inj h
      simp [hrank]
    | cons first rest =>
      simp only [bind_eq_ok_iff, require_eq_ok_iff, requireIncreasing_eq_ok_iff, decide_eq_true_eq]
      rintro ⟨_, hfirst, _, hchain, h⟩
      obtain rfl := Except.ok.inj h
      exact ⟨hrank, rfl, by simpa using hfirst, hchain⟩
  · rintro ⟨hrank, rfl, hfirst, hchain⟩
    refine ⟨_, ⟨hrank, rfl⟩, ?_⟩
    revert hfirst hchain
    cases y.entries with
    | nil => exact fun _ _ => rfl
    | cons first rest =>
      intro hfirst hchain
      simp only [bind_eq_ok_iff, require_eq_ok_iff, requireIncreasing_eq_ok_iff, decide_eq_true_eq]
      exact ⟨(), hfirst first rfl, (), hchain, rfl⟩

omit [One R] [Add R] [Neg R] [Div R] [NatCast R] [LT R] [DecidableLT R] in
theorem positiveOrdered_eq_ok_iff {y : Tensor R} {rs : List R} :
    (positiveOrdered y : Except (Refusal A R) (List R)) = .ok rs ↔ y.rank = 1 ∧
      (∀ first ∈ y.entries.head?, 0 ≤ first) ∧ (y.entries.IsChain fun x y => 0 ≤ y - x) ∧
      rs = logIncrements y.entries := by
  unfold positiveOrdered
  simp only [map_eq_ok_iff, increasingOf_eq_ok_iff]
  constructor
  · rintro ⟨_, ⟨hrank, rfl, hfirst, hchain⟩, rfl⟩
    exact ⟨hrank, hfirst, hchain, rfl⟩
  · rintro ⟨hrank, hfirst, hchain, rfl⟩
    exact ⟨_, ⟨hrank, rfl, hfirst, hchain⟩, rfl⟩

theorem simplex_eq_ok_iff {y : Tensor R} {rs : List R} :
    (simplex y : Except (Refusal A R) (List R)) = .ok rs ↔ y.rank = 1 ∧ y.entries ≠ [] ∧
      magnitude (1 - blockSum y.entries) < tolerance ∧ (∀ x ∈ y.entries, 0 ≤ x) ∧
      rs = logRatios y.entries := by
  unfold simplex
  simp only [bind_eq_ok_iff, vectorOf_eq_ok_iff]
  by_cases hempty : y.entries = []
  · simp only [hempty, ne_eq, not_true_eq_false, false_and, and_false, iff_false]
    rintro ⟨_, ⟨_, rfl⟩, h⟩
    simp [bind, Except.bind, throw, throwThe, MonadExceptOf.throw] at h
  · have hnonempty : y.entries.isEmpty = false := by simpa using hempty
    refine ⟨?_, ?_⟩
    · rintro ⟨_, ⟨hrank, rfl⟩, h⟩
      simp only [hnonempty, Bool.false_eq_true, if_false, bind_eq_ok_iff, require_eq_ok_iff,
        requireNonnegative_eq_ok_iff, decide_eq_true_eq] at h
      obtain ⟨_, hsum, _, hnonneg, hrs⟩ := h
      exact ⟨hrank, hempty, hsum, hnonneg, (Except.ok.inj hrs).symm⟩
    · rintro ⟨hrank, _, hsum, hnonneg, rfl⟩
      refine ⟨_, ⟨hrank, rfl⟩, ?_⟩
      simp only [hnonempty, Bool.false_eq_true, if_false, bind_eq_ok_iff, require_eq_ok_iff,
        requireNonnegative_eq_ok_iff, decide_eq_true_eq]
      exact ⟨(), hsum, (), hnonneg, rfl⟩

end

/-! ## Matrices -/

section

variable [Zero R] [One R] [Add R] [Sub R] [Neg R] [Mul R] [Div R] [NatCast R] [LE R]
  [DecidableLE R] [LT R] [DecidableLT R] [Elementary R]

omit [Zero R] [One R] [Add R] [Sub R] [Neg R] [Mul R] [Div R] [NatCast R] [LE R]
  [DecidableLE R] [LT R] [DecidableLT R] [Elementary R] in
theorem squareOf_eq_ok_iff {t : Transform} {y : Tensor R} {rows : List (List R)} :
    (squareOf t y : Except (Refusal A R) (List (List R))) = .ok rows ↔
      ∃ n, n ≠ 0 ∧ y.shape = [n, n] ∧ rows = y.slabs := by
  unfold squareOf
  refine ⟨?_, ?_⟩
  · intro h
    split at h
    · rename_i n m hshape
      split at h
      · rename_i hnm
        obtain ⟨rfl, hn⟩ := hnm
        exact ⟨n, hn, hshape, (Except.ok.inj h).symm⟩
      · cases h
    · cases h
  · rintro ⟨n, hn, hshape, rfl⟩
    simp only [hshape]
    exact if_pos ⟨trivial, hn⟩

omit [Add R] [Elementary R] in
theorem requireSymmetric_eq_ok_iff {t : Transform} {rows : List (List R)} {u : Unit} :
    (requireSymmetric t rows : Except (Refusal A R) Unit) = .ok u ↔
      asymmetry rows ≤ tolerance * symmetryScale rows := by
  unfold requireSymmetric
  rw [require_eq_ok_iff, decide_eq_true_eq]

omit [Neg R] [NatCast R] in
theorem factorsOf_eq_ok_iff {rows : List (List R)} {f : Factor.Factors R} :
    (factorsOf rows : Except (Refusal A R) (Factor.Factors R)) = .ok f ↔
      Factor.ofCovariance rows = .ok f := by
  unfold factorsOf
  cases Factor.ofCovariance rows <;> simp

omit [Add R] [Mul R] [LE R] [DecidableLE R] [Elementary R] in
theorem requireUnitDiagonal_eq_ok_iff {index : Nat} {scales entries : List R} {u : Unit}
    (hlength : scales.length = entries.length) :
    (requireUnitDiagonal index scales entries : Except (Refusal A R) Unit) = .ok u ↔
      ∀ s ∈ scales, magnitude (s - 1) < (tolerance : R) := by
  induction scales generalizing index entries with
  | nil => simp [requireUnitDiagonal]
  | cons s scales ih =>
    cases entries with
    | nil => simp at hlength
    | cons y entries =>
      simp only [requireUnitDiagonal, bind_eq_ok_iff, require_eq_ok_iff, ih (Nat.succ.inj hlength),
        List.forall_mem_cons, decide_eq_true_eq, exists_const]

theorem covarianceMatrix_eq_ok_iff {y : Tensor R} {rs : List R} :
    (covarianceMatrix y : Except (Refusal A R) (List R)) = .ok rs ↔
      ∃ n f, n ≠ 0 ∧ y.shape = [n, n] ∧
        asymmetry y.slabs ≤ tolerance * symmetryScale y.slabs ∧
        Factor.ofCovariance y.slabs = .ok f ∧ rs = f.partials ++ f.logScales := by
  unfold covarianceMatrix covarianceFactors
  simp only [map_eq_ok_iff, bind_eq_ok_iff, squareOf_eq_ok_iff, requireSymmetric_eq_ok_iff,
    factorsOf_eq_ok_iff]
  constructor
  · rintro ⟨f, ⟨_, ⟨n, hn, hshape, rfl⟩, _, hsymmetric, hf⟩, rfl⟩
    exact ⟨n, f, hn, hshape, hsymmetric, hf, rfl⟩
  · rintro ⟨n, f, hn, hshape, hsymmetric, hf, rfl⟩
    exact ⟨f, ⟨_, ⟨n, hn, hshape, rfl⟩, (), hsymmetric, hf⟩, rfl⟩

theorem correlationMatrix_eq_ok_iff {y : Tensor R} {rs : List R} :
    (correlationMatrix y : Except (Refusal A R) (List R)) = .ok rs ↔
      ∃ n f, n ≠ 0 ∧ y.shape = [n, n] ∧
        asymmetry y.slabs ≤ tolerance * symmetryScale y.slabs ∧
        Factor.ofCovariance y.slabs = .ok f ∧
        (∀ s ∈ f.logScales.map Elementary.exp, magnitude (s - 1) < tolerance) ∧
        rs = f.partials := by
  have hlength : ∀ {f}, Factor.ofCovariance y.slabs = .ok f →
      (f.logScales.map Elementary.exp).length = (Factor.diagonal y.slabs).length := by
    intro f hf
    obtain ⟨_, _, triangle, _, rfl⟩ := Factor.ofCovariance_eq_ok hf
    simp only [List.length_map]
  unfold correlationMatrix
  simp only [bind_eq_ok_iff, squareOf_eq_ok_iff, requireSymmetric_eq_ok_iff, factorsOf_eq_ok_iff]
  constructor
  · rintro ⟨_, ⟨n, hn, hshape, rfl⟩, _, hsymmetric, f, hf, _, hones, hrs⟩
    exact ⟨n, f, hn, hshape, hsymmetric, hf,
      (requireUnitDiagonal_eq_ok_iff (hlength hf)).mp hones, (Except.ok.inj hrs).symm⟩
  · rintro ⟨n, f, hn, hshape, hsymmetric, hf, hones, rfl⟩
    exact ⟨_, ⟨n, hn, hshape, rfl⟩, (), hsymmetric, f, hf, (),
      (requireUnitDiagonal_eq_ok_iff (hlength hf)).mpr hones, rfl⟩

end

end EnsembleSampling.Unconstrain
