import EnsembleSampling.Proofs.Scale.Special
import EnsembleSampling.Proofs.Unconstrain.Log
import EnsembleSampling.Proofs.Unconstrain.Symmetry
set_option autoImplicit false

/-!
# Matrices of any doubles

What becomes of a matrix of doubles whose entries may be infinite or no number.  The check of
symmetry turns down every entry that is no number and every infinity that stands on both sides
of the diagonal, as the difference is no number.  But it does not see an infinity that differs
from the entry across the diagonal: the asymmetry is infinite, and so is the tolerance, which
scales with the largest entry (`HidesInfinity`).  A matrix of that kind, and one of which an
entry overflows when it is divided by its scales (`Overflows`), comes to the factoring, which
has no answer for it.  Every other matrix is written or turned down with an answer.
-/

namespace EnsembleSampling

open Factor (entry diagonal standardize ofCovariance IsSquare)

/-! ## Matrices that are not factored -/

namespace Factor

variable {α : Type}

/-- The factoring has no answer just if the variances are positive and an entry divided by its
scales is not finite. -/
theorem ofCovariance_eq_unbounded_iff [Zero α] [One α] [Add α] [Sub α] [Mul α] [Div α] [LE α]
    [DecidableLE α] [LT α] [DecidableLT α] [Elementary α] {rows : List (List α)} :
    ofCovariance rows = .error .unbounded ↔
      (∀ v ∈ diagonal rows, 0 < v) ∧
      ∃ row ∈ standardize rows ((diagonal rows).map Elementary.sqrt),
        ∃ x ∈ row, Elementary.isFinite x = false := by
  unfold ofCovariance
  dsimp only
  by_cases hvariances : ∀ v ∈ diagonal rows, 0 < v
  · have hall : ((diagonal rows).all fun v => decide (0 < v)) = true := by
      simpa only [List.all_eq_true, decide_eq_true_eq] using hvariances
    rw [if_pos hall]
    split
    · rename_i hfinite
      simp only [List.all_eq_true] at hfinite
      refine iff_of_false ?_ ?_
      · split <;> simp
      · rintro ⟨-, row, hrow, x, hx, hinfinite⟩
        exact Bool.false_ne_true (hinfinite.symm.trans (hfinite row hrow x hx))
    · rename_i hinfinite
      refine iff_of_true rfl ⟨hvariances, ?_⟩
      simpa using hinfinite
  · have hall : ¬ ((diagonal rows).all fun v => decide (0 < v)) = true := by
      simpa only [List.all_eq_true, decide_eq_true_eq] using hvariances
    rw [if_neg hall]
    exact iff_of_false (by simp) fun h => hvariances h.1

end Factor

namespace Unconstrain

variable {K : Nat} {rows : List (List Float)}

/-- Where a matrix passes as symmetric, the differences across the diagonal are numbers. -/
theorem isNaN_sub_of_symmetric (hrows : IsSquare K rows)
    (h : asymmetry rows ≤ tolerance * symmetryScale rows) {i j : Nat} {x y : Float}
    (hx : entry rows i j = some x) (hy : entry rows j i = some y) : (x - y).isNaN = false := by
  rw [← Bool.not_eq_true]
  intro hnan
  have hmem := (mem_differences_iff hrows).mpr ⟨i, j, x, y, hx, hy, rfl⟩
  have hasymmetry : (asymmetry rows).isNaN = true :=
    isNaN_largest ⟨_, List.mem_cons_of_mem 0 hmem, (isNaN_magnitude (x - y)).trans hnan⟩
  exact double_not_le_of_isNaN _ hasymmetry h

/-! ## Matrices without an answer -/

/-- Infinities that the check of symmetry does not see: all entries are numbers, and those that
are infinite differ from the entry across the diagonal. -/
structure HidesInfinity (rows : List (List Float)) : Prop where
  infinite : ∃ i j x, entry rows i j = some x ∧ x.isInf = true
  number : ∀ i j x, entry rows i j = some x → x.isNaN = false
  apart : ∀ i j x, entry rows i j = some x → x.isInf = true → entry rows j i ≠ some x

/-- A matrix of finite entries that passes as symmetric and of which an entry is no longer
finite when it is divided by its scales. -/
structure Overflows (rows : List (List Float)) : Prop where
  finite : ∀ i j x, entry rows i j = some x → x.isFinite = true
  symmetric : asymmetry rows ≤ tolerance * symmetryScale rows
  overflow : ∃ row ∈ standardize rows ((diagonal rows).map Elementary.sqrt),
    ∃ x ∈ row, Elementary.isFinite x = false

/-- A matrix with positive variances that is neither factored nor turned down. -/
def Escapes (rows : List (List Float)) : Prop :=
  (∀ v ∈ diagonal rows, 0 < v) ∧ (HidesInfinity rows ∨ Overflows rows)

namespace HidesInfinity

theorem isNaN_sub (h : HidesInfinity rows) {i j : Nat} {x y : Float}
    (hx : entry rows i j = some x) (hy : entry rows j i = some y) : (x - y).isNaN = false := by
  rw [← Bool.not_eq_true, double_isNaN_sub_iff, h.number i j x hx, h.number j i y hy]
  rintro (hnan | hnan | ⟨hinf, rfl⟩)
  · exact Bool.false_ne_true hnan
  · exact Bool.false_ne_true hnan
  · exact h.apart i j x hx hinf hy

/-- The asymmetry is infinite. -/
theorem asymmetry_eq (h : HidesInfinity rows) (hrows : IsSquare K rows) :
    asymmetry rows = 1.0 / 0.0 := by
  refine largest_infinity (List.forall_mem_cons.mpr ⟨by decide, fun d hd => ?_⟩)
    (List.mem_cons_of_mem 0 ((mem_differences_iff hrows).mpr ?_))
  · obtain ⟨i, j, x, y, hx, hy, rfl⟩ := (mem_differences_iff hrows).mp hd
    exact (isNaN_magnitude _).trans (h.isNaN_sub hx hy)
  · obtain ⟨i, j, x, hx, hinf⟩ := h.infinite
    obtain ⟨hi, hj⟩ := hrows.lt_of_entry hx
    obtain ⟨y, hy⟩ := hrows.exists_entry hj hi
    exact ⟨i, j, x, y, hx, hy,
      magnitude_of_isInf (double_isInf_sub (.inl hinf) (h.isNaN_sub hx hy))⟩

/-- The tolerance is infinite too. -/
theorem symmetryScale_eq (h : HidesInfinity rows) : symmetryScale rows = 1.0 / 0.0 := by
  have htop : ∀ x : Float, x.isNaN = false →
      largest x (rows.flatten.map magnitude) = 1.0 / 0.0 := by
    intro x hx
    refine largest_infinity (List.forall_mem_cons.mpr ⟨hx, fun d hd => ?_⟩)
      (List.mem_cons_of_mem x (List.mem_map.mpr ?_))
    · obtain ⟨x, hx, rfl⟩ := List.mem_map.mp hd
      obtain ⟨i, j, hx⟩ := Factor.mem_flatten_iff_entry.mp hx
      exact (isNaN_magnitude x).trans (h.number i j x hx)
    · obtain ⟨i, j, x, hx, hinf⟩ := h.infinite
      exact ⟨x, Factor.mem_flatten_iff_entry.mpr ⟨i, j, hx⟩, magnitude_of_isInf hinf⟩
  unfold symmetryScale
  dsimp only
  rw [htop _ (by decide)]
  exact if_pos (by decide)

/-- The infinite entry is not on the diagonal, and is not finite after it is divided. -/
theorem overflow (h : HidesInfinity rows) (hrows : IsSquare K rows) :
    ∃ row ∈ standardize rows ((diagonal rows).map Elementary.sqrt),
      ∃ x ∈ row, Elementary.isFinite x = false := by
  obtain ⟨i, j, x, hx, hinf⟩ := h.infinite
  have hij : i ≠ j := by
    rintro rfl
    exact h.apart i i x hx hinf hx
  obtain ⟨hi, hj⟩ := hrows.lt_of_entry hx
  have hlength : ((diagonal rows).map Elementary.sqrt : List Float).length = K := by
    rw [List.length_map, Factor.length_diagonal hrows]
  have hentry := Factor.entry_standardize hx (List.getElem?_eq_getElem (hlength.symm ▸ hi))
    (List.getElem?_eq_getElem (hlength.symm ▸ hj))
  rw [if_neg hij] at hentry
  obtain ⟨row, hrow, hquotient⟩ := Option.bind_eq_some_iff.mp hentry
  exact ⟨row, List.mem_of_getElem? hrow, _, List.mem_of_getElem? hquotient,
    double_not_isFinite_div hinf _⟩

end HidesInfinity

/-- A matrix that passes as symmetric, and not all of whose entries are finite, hides an
infinity. -/
theorem hidesInfinity_of_symmetric (hrows : IsSquare K rows)
    (hsymmetric : asymmetry rows ≤ tolerance * symmetryScale rows)
    (h : ∃ i j x, entry rows i j = some x ∧ x.isFinite = false) : HidesInfinity rows := by
  have hnumber : ∀ i j x, entry rows i j = some x → x.isNaN = false := by
    intro i j x hx
    obtain ⟨hi, hj⟩ := hrows.lt_of_entry hx
    obtain ⟨y, hy⟩ := hrows.exists_entry hj hi
    rw [← Bool.not_eq_true]
    intro hnan
    have hsub : (x - y).isNaN = true := double_isNaN_sub_iff.mpr (.inl hnan)
    exact Bool.false_ne_true ((isNaN_sub_of_symmetric hrows hsymmetric hx hy).symm.trans hsub)
  refine ⟨?_, hnumber, fun i j x hx hinf hmirror => ?_⟩
  · -- an entry that is neither finite nor infinite would be no number
    obtain ⟨i, j, x, hx, hinfinite⟩ := h
    refine ⟨i, j, x, hx, ?_⟩
    by_contra hinf
    have hnan := double_isNaN_of_not_finite hinfinite (Bool.eq_false_iff.mpr hinf)
    exact Bool.false_ne_true ((hnumber i j x hx).symm.trans hnan)
  · have hsub : (x - x).isNaN = true := double_isNaN_sub_iff.mpr (.inr (.inr ⟨hinf, rfl⟩))
    exact Bool.false_ne_true ((isNaN_sub_of_symmetric hrows hsymmetric hx hmirror).symm.trans hsub)

/-- Of the matrices that pass as symmetric the factoring has no answer for those that escape. -/
theorem escapes_iff (hrows : IsSquare K rows) :
    Escapes rows ↔ asymmetry rows ≤ tolerance * symmetryScale rows ∧
      ofCovariance rows = .error .unbounded := by
  rw [Factor.ofCovariance_eq_unbounded_iff]
  constructor
  · rintro ⟨hvariances, hhides | hoverflows⟩
    · refine ⟨?_, hvariances, hhides.overflow hrows⟩
      rw [hhides.asymmetry_eq hrows, hhides.symmetryScale_eq]
      decide
    · exact ⟨hoverflows.symmetric, hvariances, hoverflows.overflow⟩
  · rintro ⟨hsymmetric, hvariances, hoverflow⟩
    refine ⟨hvariances, ?_⟩
    by_cases hfinite : ∀ i j x, entry rows i j = some x → x.isFinite = true
    · exact .inr ⟨hfinite, hsymmetric, hoverflow⟩
    · simp only [not_forall, Bool.not_eq_true] at hfinite
      obtain ⟨i, j, x, hx, hinfinite⟩ := hfinite
      exact .inl (hidesInfinity_of_symmetric hrows hsymmetric ⟨i, j, x, hx, hinfinite⟩)

/-! ## Answers -/

/-- A refusal that is an answer of the library: the input is wrong, in one way or another. -/
def Refusal.IsAnswer (e : Refusal Argument Float) : Prop :=
  ∃ r, e.toFault = .rejected r ∧ .input ∈ r.kind.lineage

/-- All particular kinds of rejection are cases of a wrong input. -/
theorem input_mem_lineage {k : Rejection.Kind} (hk : k ≠ .general) : .input ∈ k.lineage := by
  cases k with
  | general => exact absurd rfl hk
  | _ => simp [Rejection.Kind.lineage]

theorem Refusal.isAnswer_breach (b : Breach Argument Float) :
    (Refusal.breach b : Refusal Argument Float).IsAnswer :=
  ⟨.constraint b.violation, rfl, input_mem_lineage Rejection.Kind.noConfusion⟩

theorem Refusal.isAnswer_shape (cause : InputCause) :
    (Refusal.shape cause : Refusal Argument Float).IsAnswer :=
  ⟨.input cause, rfl, input_mem_lineage Rejection.Kind.noConfusion⟩

theorem Refusal.isAnswer_obstacle {o : Factor.Obstacle Float} (rows : List (List Float))
    (ho : o.bound?.isSome = true) : (Refusal.obstacle o rows).IsAnswer := by
  obtain ⟨bound, hbound⟩ := Option.isSome_iff_exists.mp ho
  refine ⟨.factorization ⟨.text factoringName, offenderOfObstacle rows o, .text bound⟩, ?_,
    input_mem_lineage Rejection.Kind.noConfusion⟩
  simp only [Refusal.toFault, faultOfObstacle, hbound]

/-- A step of which every refusal is an answer. -/
def OnlyAnswers {β : Type} (x : Except (Refusal Argument Float) β) : Prop :=
  ∀ e, x = .error e → e.IsAnswer

namespace OnlyAnswers

variable {β γ : Type}

theorem ok (b : β) : OnlyAnswers (.ok b) := fun _ h => nomatch h

theorem error {e : Refusal Argument Float} (he : e.IsAnswer) :
    OnlyAnswers (.error e : Except _ β) := fun _ h => Except.error.inj h ▸ he

theorem bind {x : Except (Refusal Argument Float) β}
    {f : β → Except (Refusal Argument Float) γ} (hx : OnlyAnswers x)
    (hf : ∀ b, x = .ok b → OnlyAnswers (f b)) : OnlyAnswers (x >>= f) := by
  cases x with
  | error e => exact error (hx e rfl)
  | ok b => exact hf b rfl

theorem map {x : Except (Refusal Argument Float) β} (f : β → γ) (hx : OnlyAnswers x) :
    OnlyAnswers (x.map f) := by
  cases x with
  | error e => exact error (hx e rfl)
  | ok b => exact ok (f b)

theorem require (b : Bool) (t : Transform) (value : Offender Argument Float)
    (bound : Bound Argument Float) : OnlyAnswers (Unconstrain.require b t value bound) := by
  cases b with
  | true => exact ok ()
  | false => exact error (Refusal.isAnswer_breach _)

theorem squareOf (t : Transform) (y : Tensor Float) :
    OnlyAnswers (Unconstrain.squareOf t y : Except (Refusal Argument Float) _) := by
  unfold Unconstrain.squareOf
  split
  · split
    · exact ok _
    · exact error (Refusal.isAnswer_shape _)
  · exact error (Refusal.isAnswer_shape _)

theorem factorsOf (h : ofCovariance rows ≠ .error .unbounded) :
    OnlyAnswers (Unconstrain.factorsOf rows : Except (Refusal Argument Float) _) := by
  unfold Unconstrain.factorsOf
  cases hfactors : ofCovariance rows with
  | ok f => exact ok f
  | error o =>
    refine error (Refusal.isAnswer_obstacle rows ?_)
    cases o with
    | variances values => rfl
    | indefinite => rfl
    | unbounded => exact absurd hfactors h

theorem requireUnitDiagonal (index : Nat) (scales entries : List Float) :
    OnlyAnswers (Unconstrain.requireUnitDiagonal index scales entries) := by
  induction scales generalizing index entries with
  | nil => exact ok ()
  | cons scale scales ih =>
    cases entries with
    | nil => exact ok ()
    | cons y entries => exact bind (require _ _ _ _) fun _ _ => ih (index + 1) entries

end OnlyAnswers

/-! ## Calls about matrices -/

/-- A square table that escapes. -/
def EscapingTable (y : Tensor Float) : Prop := ∃ n, n ≠ 0 ∧ y.shape = [n, n] ∧ Escapes y.slabs

section

variable {β : Type} {y : Tensor Float}
  {next : List (List Float) → Factor.Factors Float → Except (Refusal Argument Float) β}

/-- A matrix is checked and factored before more is made of it. -/
def checkedFactors (t : Transform) (y : Tensor Float)
    (next : List (List Float) → Factor.Factors Float → Except (Refusal Argument Float) β) :
    Except (Refusal Argument Float) β := do
  let rows ← squareOf t y
  requireSymmetric t rows
  let f ← factorsOf rows
  next rows f

theorem onlyAnswers_checkedFactors (hy : y.Filled) (hescape : ¬ EscapingTable y) (t : Transform)
    (hnext : ∀ rows f, OnlyAnswers (next rows f)) : OnlyAnswers (checkedFactors t y next) := by
  refine .bind (.squareOf t y) fun rows hrows => ?_
  obtain ⟨n, hn, hshape, rfl⟩ := squareOf_eq_ok_iff.mp hrows
  refine .bind (.require _ _ _ _) fun _ hsymmetric => ?_
  have hsymmetric := requireSymmetric_eq_ok_iff.mp hsymmetric
  refine .bind (.factorsOf fun hunbounded => hescape ⟨n, hn, hshape, ?_⟩) fun f _ => hnext _ f
  exact (escapes_iff (Factor.isSquare_slabs hy hshape)).mpr ⟨hsymmetric, hunbounded⟩

theorem checkedFactors_of_escaping (hy : y.Filled) (hescape : EscapingTable y) (t : Transform) :
    checkedFactors t y next = .error (.obstacle .unbounded y.slabs) := by
  obtain ⟨n, hn, hshape, hescape⟩ := hescape
  obtain ⟨hsymmetric, hunbounded⟩ := (escapes_iff (Factor.isSquare_slabs hy hshape)).mp hescape
  have hsquare : (squareOf t y : Except (Refusal Argument Float) _) = .ok y.slabs :=
    squareOf_eq_ok_iff.mpr ⟨n, hn, hshape, rfl⟩
  have hpass : (requireSymmetric t y.slabs : Except (Refusal Argument Float) Unit) = .ok () :=
    requireSymmetric_eq_ok_iff.mpr hsymmetric
  simp [checkedFactors, hsquare, hpass, factorsOf, hunbounded, Bind.bind, Except.bind]

end

theorem correlationMatrix_eq_checkedFactors (y : Tensor Float) :
    (correlationMatrix y : Except (Refusal Argument Float) _) =
      checkedFactors .correlationMatrix y (fun rows f => do
        requireUnitDiagonal 0 (f.logScales.map Elementary.exp) (diagonal rows)
        pure f.partials) := rfl

theorem covarianceFactors_eq_checkedFactors (y : Tensor Float) :
    (covarianceFactors y : Except (Refusal Argument Float) _) =
      checkedFactors .covarianceMatrix y fun _ f => pure f := by
  simp only [covarianceFactors, checkedFactors, bind_pure]

/-- A call about a table that does not escape has only answers. -/
theorem Call.onlyAnswers_output {c : Call Argument Float} {y : Tensor Float}
    (hc : c = .correlationMatrix y ∨ c = .covarianceMatrix y) (hy : y.Filled)
    (hescape : ¬ EscapingTable y) : OnlyAnswers c.output := by
  rcases hc with rfl | rfl
  · refine OnlyAnswers.map _ ?_
    rw [correlationMatrix_eq_checkedFactors]
    exact onlyAnswers_checkedFactors hy hescape _ fun _ _ =>
      .bind (.requireUnitDiagonal _ _ _) fun _ _ => .ok _
  · refine OnlyAnswers.map _ (OnlyAnswers.map _ ?_)
    rw [covarianceFactors_eq_checkedFactors]
    exact onlyAnswers_checkedFactors hy hescape _ fun _ f => .ok f

/-- A call about a table that escapes ends in a failure that is no answer. -/
theorem Call.output_of_escaping {c : Call Argument Float} {y : Tensor Float}
    (hc : c = .correlationMatrix y ∨ c = .covarianceMatrix y) (hy : y.Filled)
    (hescape : EscapingTable y) : c.output = .error (.obstacle .unbounded y.slabs) := by
  rcases hc with rfl | rfl
  · simp only [Call.output, correlationMatrix_eq_checkedFactors,
      checkedFactors_of_escaping hy hescape, Except.map]
  · simp only [Call.output, Unconstrain.covarianceMatrix, covarianceFactors_eq_checkedFactors,
      checkedFactors_of_escaping hy hescape, Except.map]

/-- A call about a table that escapes fails without an answer. -/
theorem Writer.call_of_escaping (w : Writer Float) {c : Call Argument Float} {y : Tensor Float}
    (hc : c = .correlationMatrix y ∨ c = .covarianceMatrix y) (hy : y.Filled)
    (hescape : EscapingTable y) :
    ∃ e, w.call c = (.error e, w) ∧ e.toFault = .malformed := by
  refine ⟨.obstacle .unbounded y.slabs, ?_, rfl⟩
  have hcall : w.call c = w.record c.output := c.outcome_write w
  rw [hcall, Call.output_of_escaping hc hy hescape]
  rfl

/-- What becomes of a call about any table of doubles, finite, infinite or no numbers.  If the
table does not escape, the call appends all of its output, of the length that is known of it,
or it is turned down with an answer and appends nothing.  If the table escapes, the call fails
with something else, and appends nothing. -/
theorem Writer.call_matrix_cases (w : Writer Float) {c : Call Argument Float} {y : Tensor Float}
    (hc : c = .correlationMatrix y ∨ c = .covarianceMatrix y) (hy : y.Filled) :
    (¬ EscapingTable y →
      (∃ o, w.call c = (.ok (), w.append o) ∧
        o.reals.length = c.transform.reals (firstLength y.shape) ∧ o.integers = []) ∨
      ∃ e, w.call c = (.error e, w) ∧ e.IsAnswer) ∧
    (EscapingTable y → ∃ e, w.call c = (.error e, w) ∧ e.toFault = .malformed) := by
  refine ⟨fun hescape => ?_, w.call_of_escaping hc hy⟩
  have hcall : w.call c = w.record c.output := c.outcome_write w
  have hanswers := Call.onlyAnswers_output hc hy hescape
  rw [hcall]
  cases hout : c.output with
  | error e => exact .inr ⟨e, rfl, hanswers e hout⟩
  | ok o =>
    have harray : c.array? = some y := by rcases hc with rfl | rfl <;> rfl
    have hfilled : c.Filled := fun z hz => by
      obtain rfl : y = z := by simpa [harray] using hz
      exact hy
    obtain ⟨hreals, hintegers⟩ := Call.length_output hfilled hout
    refine .inl ⟨o, rfl, ?_, ?_⟩
    · rw [hreals, Call.dimension, harray]
      rfl
    · refine List.eq_nil_of_length_eq_zero (hintegers.trans ?_)
      rcases hc with rfl | rfl <;> rfl

/-- Ones on the diagonal, an infinity above it and zero below. -/
def infiniteCorner : Tensor Float := ⟨[2, 2], [1.0, 1.0 / 0.0, 0.0, 1.0]⟩

theorem filled_infiniteCorner : infiniteCorner.Filled := rfl

theorem escapingTable_infiniteCorner : EscapingTable infiniteCorner := by
  have hsquare : IsSquare 2 infiniteCorner.slabs :=
    Factor.isSquare_slabs filled_infiniteCorner rfl
  have hvariances : ∀ v ∈ diagonal infiniteCorner.slabs, 0 < v := by
    change ∀ v ∈ [(1.0 : Float), 1.0], 0 < v
    decide
  refine ⟨2, two_ne_zero, rfl, hvariances, .inl ⟨⟨0, 1, _, rfl, by decide⟩, ?_, ?_⟩⟩
  · intro i j x hx
    have hentries : ∀ x ∈ infiniteCorner.slabs.flatten, x.isNaN = false := by decide
    exact hentries x (Factor.mem_flatten_iff_entry.mpr ⟨i, j, hx⟩)
  · intro i j x hx hinf hmirror
    obtain ⟨hi, hj⟩ := hsquare.lt_of_entry hx
    have hapart : ∀ i < 2, ∀ j < 2, ∀ x ∈ entry infiniteCorner.slabs i j, x.isInf = true →
        entry infiniteCorner.slabs j i ≠ some x := by decide
    exact hapart i hi j hj x hx hinf hmirror

/-- A call about a table with an infinity on one side of its diagonal. -/
theorem call_matrix_cases_infiniteCorner :
    infiniteCorner.Filled ∧
    ∃ e, (⟨[], []⟩ : Writer Float).call (.covarianceMatrix infiniteCorner) = (.error e, ⟨[], []⟩) ∧
      e.toFault = .malformed :=
  ⟨filled_infiniteCorner,
    (Writer.call_matrix_cases ⟨[], []⟩ (.inr rfl) filled_infiniteCorner).2
      escapingTable_infiniteCorner⟩

/-- Not every call about a table with two axes is carried out or turned down with an answer. -/
theorem infiniteCorner_unanswered :
    ¬ ∀ (w : Writer Float) (y : Tensor Float) (c : Call Argument Float), y.Filled → y.rank = 2 →
      c = .correlationMatrix y ∨ c = .covarianceMatrix y →
      (∃ o, w.call c = (.ok (), w.append o)) ∨ ∃ e, w.call c = (.error e, w) ∧ e.IsAnswer := by
  intro h
  obtain ⟨e, hcall, hfault⟩ := Writer.call_of_escaping ⟨[], []⟩
    (c := .covarianceMatrix infiniteCorner) (.inr rfl) filled_infiniteCorner
    escapingTable_infiniteCorner
  rcases h ⟨[], []⟩ infiniteCorner (.covarianceMatrix infiniteCorner) filled_infiniteCorner rfl
    (.inr rfl) with ⟨o, ho⟩ | ⟨e', he', r, hr, -⟩
  · cases hcall.symm.trans ho
  · rw [hcall] at he'
    obtain rfl : e = e' := Except.error.inj (congrArg Prod.fst he')
    cases hfault.symm.trans hr

end Unconstrain

end EnsembleSampling
