import EnsembleSampling.Proofs.Unconstrain.Embedded
import EnsembleSampling.Proofs.Unconstrain.Log
set_option autoImplicit false

/-!
# Calls in exact arithmetic

The writer on the exact scale: a scalar argument is an integer or a value of the scale, and
what is written is a value of the scale.  Finite arguments are real numbers, and so is all that
is calculated of them up to the last step; what is written when they are accepted is listed by
`Call.Writes`, transform by transform.
-/

namespace EnsembleSampling

open Extended (real)

/-- A scalar argument in exact arithmetic. -/
inductive Exact where
  | integer (n : Int)
  | scale (x : Extended)

/-- The quantity that an argument is. -/
noncomputable def Exact.value : Exact → Extended
  | .integer n => real n
  | .scale x => x

open Classical in
noncomputable instance : Quantity Exact Extended where
  ofInt := .integer
  atMost a b := .ok (decide (a.value ≤ b.value))
  lessThan a b := .ok (decide (a.value < b.value))
  sub a b := .ok (.scale (a.value - b.value))
  div a b := .ok (.scale (a.value / b.value))
  value a := .ok a.value
  log a := .ok (Elementary.log a.value)
  logit a := .ok (Elementary.logit a.value)
  atanh a := .ok (Elementary.atanh a.value)
  integer?
    | .integer n => some n
    | .scale _ => none

namespace Unconstrain

/-! ## Finite arguments -/

/-- The scalar arguments of a call. -/
def Call.scalars {A R : Type} : Call A R → List A
  | .integer y | .unbounded y | .positive y | .correlation y | .probability y => [y]
  | .lowerBounded bound y | .upperBounded bound y => [bound, y]
  | .doublyBounded lb ub y => [lb, ub, y]
  | _ => []

/-- All arguments of a call are finite, and an array has an entry for each place. -/
structure Call.IsFinite (c : Call Exact Extended) : Prop where
  scalars : ∀ a ∈ c.scalars, Elementary.isFinite a.value = true
  entries : ∀ y ∈ c.array?, ∀ x ∈ y.entries, Elementary.isFinite x = true
  filled : c.Filled

theorem Call.isFinite_of_scalars {c : Call Exact Extended} (hnone : c.array? = none)
    (h : ∀ a ∈ c.scalars, Elementary.isFinite a.value = true) : c.IsFinite := by
  refine ⟨h, ?_, ?_⟩
  · intro y hy
    simp [hnone] at hy
  · intro y hy
    simp [hnone] at hy

theorem Call.isFinite_of_tensor {c : Call Exact Extended} {t : Tensor ℝ} (ht : t.Filled)
    (hnone : c.scalars = []) (hsome : c.array? = some (t.map real)) : c.IsFinite := by
  refine ⟨by simp [hnone], ?_, ?_⟩
  · intro y hy
    obtain rfl := Option.some.inj (hsome.symm.trans hy)
    exact List.forall_mem_map.mpr fun x _ => Extended.isFinite_real x
  · intro y hy
    obtain rfl := Option.some.inj (hsome.symm.trans hy)
    exact (List.length_map real).trans ht

/-- Finite entries are those of an array of real numbers. -/
theorem exists_tensor_of_isFinite {y : Tensor Extended}
    (h : ∀ x ∈ y.entries, Elementary.isFinite x = true) : ∃ t : Tensor ℝ, y = t.map real := by
  obtain ⟨rs, hrs⟩ := Extended.exists_reals_of_isFinite h
  obtain ⟨shape, entries⟩ := y
  exact ⟨⟨shape, rs⟩, congrArg (Tensor.mk shape) hrs⟩

/-! ## Accepted scalars -/

section

variable {lb ub y : Exact} {p q r : ℝ} {v : Extended}

theorem value_ofInt (n : Int) : (Quantity.ofInt n : Exact).value = real n := rfl

theorem atMost_eq_ok_true (hlb : lb.value = real p) (hy : y.value = real r) :
    Quantity.atMost lb y = .ok true ↔ p ≤ r := by
  change Except.ok (decide (lb.value ≤ y.value)) = .ok true ↔ _
  rw [hlb, hy]
  simp

theorem lessThan_eq_ok_true (hlb : lb.value = real p) (hub : ub.value = real q) :
    Quantity.lessThan lb ub = .ok true ↔ p < q := by
  change Except.ok (decide (lb.value < ub.value)) = .ok true ↔ _
  rw [hlb, hub]
  simp

theorem unbounded_exact (hy : y.value = real r) (h : unbounded y = .ok v) : v = real r := by
  have hv : y.value = v := Except.ok.inj (step_eq_ok_iff.mp h)
  rw [← hv, hy]

theorem positive_exact (hy : y.value = real r) (h : positive y = .ok v) :
    0 ≤ r ∧ v = Elementary.log (real r) := by
  obtain ⟨hle, hlog⟩ := positive_eq_ok_iff.mp h
  have hv : Elementary.log y.value = v := Except.ok.inj hlog
  rw [atMost_eq_ok_true (value_ofInt 0) hy, Int.cast_zero] at hle
  exact ⟨hle, by rw [← hv, hy]⟩

theorem lowerBounded_exact (hlb : lb.value = real p) (hy : y.value = real r)
    (h : lowerBounded lb y = .ok v) : p ≤ r ∧ v = Elementary.log (real (r - p)) := by
  obtain ⟨hle, d, hd, hlog⟩ := lowerBounded_eq_ok_iff.mp h
  obtain rfl : .scale (y.value - lb.value) = d := Except.ok.inj hd
  have hv : Elementary.log (y.value - lb.value) = v := Except.ok.inj hlog
  refine ⟨(atMost_eq_ok_true hlb hy).mp hle, ?_⟩
  rw [← hv, hy, hlb, Extended.real_sub_real]

theorem upperBounded_exact (hub : ub.value = real q) (hy : y.value = real r)
    (h : upperBounded ub y = .ok v) : r ≤ q ∧ v = Elementary.log (real (q - r)) := by
  obtain ⟨hle, d, hd, hlog⟩ := upperBounded_eq_ok_iff.mp h
  obtain rfl : .scale (ub.value - y.value) = d := Except.ok.inj hd
  have hv : Elementary.log (ub.value - y.value) = v := Except.ok.inj hlog
  refine ⟨(atMost_eq_ok_true hy hub).mp hle, ?_⟩
  rw [← hv, hy, hub, Extended.real_sub_real]

theorem doublyBounded_exact (hlb : lb.value = real p) (hub : ub.value = real q)
    (hy : y.value = real r) (h : doublyBounded lb ub y = .ok v) :
    p < q ∧ p ≤ r ∧ r ≤ q ∧ v = Elementary.logit (real ((r - p) / (q - p))) := by
  obtain ⟨hlt, hlower, hupper, part, hpart, whole, hwhole, d, hd, hlogit⟩ :=
    doublyBounded_eq_ok_iff.mp h
  obtain rfl : .scale (y.value - lb.value) = part := Except.ok.inj hpart
  obtain rfl : .scale (ub.value - lb.value) = whole := Except.ok.inj hwhole
  obtain rfl : .scale ((y.value - lb.value) / (ub.value - lb.value)) = d := Except.ok.inj hd
  have hv : Elementary.logit ((y.value - lb.value) / (ub.value - lb.value)) = v :=
    Except.ok.inj hlogit
  rw [lessThan_eq_ok_true hlb hub] at hlt
  refine ⟨hlt, (atMost_eq_ok_true hlb hy).mp hlower, (atMost_eq_ok_true hy hub).mp hupper, ?_⟩
  rw [← hv, hy, hlb, hub, Extended.real_sub_real, Extended.real_sub_real,
    Extended.real_div_real _ (sub_pos.mpr hlt).ne']

theorem correlation_exact (hy : y.value = real r) (h : correlation y = .ok v) :
    -1 ≤ r ∧ r ≤ 1 ∧ v = Elementary.atanh (real r) := by
  obtain ⟨hlower, hupper, hatanh⟩ := correlation_eq_ok_iff.mp h
  have hv : Elementary.atanh y.value = v := Except.ok.inj hatanh
  rw [atMost_eq_ok_true (value_ofInt (-1)) hy] at hlower
  rw [atMost_eq_ok_true hy (value_ofInt 1)] at hupper
  exact ⟨by exact_mod_cast hlower, by exact_mod_cast hupper, by rw [← hv, hy]⟩

theorem probability_exact (hy : y.value = real r) (h : probability y = .ok v) :
    0 ≤ r ∧ r ≤ 1 ∧ v = Elementary.logit (real r) := by
  obtain ⟨hlower, hupper, hlogit⟩ := probability_eq_ok_iff.mp h
  have hv : Elementary.logit y.value = v := Except.ok.inj hlogit
  rw [atMost_eq_ok_true (value_ofInt 0) hy] at hlower
  rw [atMost_eq_ok_true hy (value_ofInt 1)] at hupper
  exact ⟨by exact_mod_cast hlower, by exact_mod_cast hupper, by rw [← hv, hy]⟩

end

/-! ## Accepted arrays -/

/-- The first entry of a vector and its increments. -/
def steps : List ℝ → List ℝ
  | [] => []
  | first :: rest => first :: increments (first :: rest)

theorem logIncrements_map_real (rs : List ℝ) :
    logIncrements (rs.map real) = (steps rs).map fun d => Elementary.log (real d) := by
  cases rs with
  | nil => rfl
  | cons first rest =>
    have hincrements : increments ((first :: rest).map real) =
        (increments (first :: rest)).map real := by
      unfold increments
      rw [← List.map_drop]
      exact Factor.zipWith_map_real fun x y _ => Extended.real_sub_real x y
    simp only [List.map_cons] at hincrements
    rw [List.map_cons, logIncrements, hincrements, steps, List.map_cons, List.map_cons,
      List.map_map]
    rfl

theorem steps_nonneg {rs : List ℝ} (hfirst : ∀ first ∈ rs.head?, 0 ≤ first)
    (hchain : rs.IsChain (· ≤ ·)) : ∀ d ∈ steps rs, 0 ≤ d := by
  cases rs with
  | nil => simp [steps]
  | cons first rest =>
    refine List.forall_mem_cons.mpr ⟨hfirst first rfl, ?_⟩
    clear hfirst
    induction rest generalizing first with
    | nil => simp [increments]
    | cons y rest ih =>
      rw [List.isChain_cons_cons] at hchain
      exact List.forall_mem_cons.mpr ⟨sub_nonneg.mpr hchain.1, ih y hchain.2⟩

/-- What is written of an ordered vector of real numbers. -/
theorem positiveOrdered_exact {t : Tensor ℝ} {vs : List Extended}
    (h : (positiveOrdered (t.map real) : Except (Refusal Exact Extended) _) = .ok vs) :
    t.rank = 1 ∧ (∀ d ∈ steps t.entries, 0 ≤ d) ∧
      vs = (steps t.entries).map fun d => Elementary.log (real d) := by
  obtain ⟨hrank, hfirst, hchain, rfl⟩ := positiveOrdered_eq_ok_iff.mp h
  refine ⟨hrank, steps_nonneg ?_ ?_, logIncrements_map_real t.entries⟩
  · intro first hmem
    refine Extended.real_le_real.mp (hfirst (real first) ?_)
    change real first ∈ (t.entries.map real).head?
    rw [List.head?_map]
    exact Option.mem_map_of_mem real hmem
  · have hmapped : (t.entries.map real).IsChain fun x y => 0 ≤ y - x := hchain
    rw [List.isChain_map] at hmapped
    refine hmapped.imp fun x y hxy => ?_
    rw [Extended.real_sub_real, ← Extended.real_zero, Extended.real_le_real] at hxy
    exact sub_nonneg.mp hxy

/-- What is written of a simplex of real numbers. -/
theorem simplex_exact {t : Tensor ℝ} {vs : List Extended}
    (h : (simplex (t.map real) : Except (Refusal Exact Extended) _) = .ok vs) :
    t.rank = 1 ∧ (∀ x ∈ t.entries, 0 ≤ x) ∧ ∃ rest last, t.entries = rest ++ [last] ∧
      vs = rest.map fun x => Elementary.log (real x) - Elementary.log (real last) := by
  obtain ⟨hrank, hempty, -, hnonneg, rfl⟩ := simplex_eq_ok_iff.mp h
  refine ⟨hrank, fun x hx => Extended.real_le_real.mp (hnonneg _ (List.mem_map_of_mem hx)), ?_⟩
  rcases List.eq_nil_or_concat t.entries with hnil | ⟨rest, last, hentries⟩
  · exact absurd (List.map_eq_nil_iff.mpr hnil) hempty
  · rw [List.concat_eq_append] at hentries
    refine ⟨rest, last, hentries, ?_⟩
    change logRatios (t.entries.map real) = _
    rw [hentries]
    simp [logRatios]

theorem tolerance_eq_real : (tolerance : Extended) = real (1 / 100000000) := by
  rw [tolerance, Extended.natCast_eq_real, ← Extended.real_one,
    Extended.real_div_real 1 (by norm_num)]
  norm_num

/-- A simplex whose entries sum to one exactly is accepted. -/
theorem simplex_of_blockSum {y : Tensor Extended} (hrank : y.rank = 1) (hempty : y.entries ≠ [])
    (hsum : blockSum y.entries = 1) (hnonneg : ∀ x ∈ y.entries, 0 ≤ x) :
    (simplex y : Except (Refusal Exact Extended) _) = .ok (logRatios y.entries) := by
  refine simplex_eq_ok_iff.mpr ⟨hrank, hempty, ?_, hnonneg, rfl⟩
  have hzero : ¬ real 0 < 0 := fun h => lt_irrefl (0 : ℝ) (Extended.real_lt_real.mp h)
  rw [hsum, tolerance_eq_real, ← Extended.real_one, Extended.real_sub_real, sub_self, magnitude,
    if_neg hzero, Extended.real_lt_real]
  norm_num

/-- What is written of a matrix of real numbers as a correlation matrix. -/
theorem correlationMatrix_exact {t : Tensor ℝ} (ht : t.Filled) {vs : List Extended}
    (h : (correlationMatrix (t.map real) : Except (Refusal Exact Extended) _) = .ok vs) :
    ∃ K zs scales, t.shape = [K, K] ∧ Factor.IsFactored K t.slabs zs scales ∧
      vs = (zs.map real).map Elementary.atanh := by
  obtain ⟨K, f, -, hshape, -, hf, -, rfl⟩ := correlationMatrix_eq_ok_iff.mp h
  rw [Tensor.slabs_map] at hf
  obtain ⟨zs, scales, hfactored, hpartials, -⟩ :=
    Factor.ofCovariance_map_real (Factor.isSquare_slabs ht hshape) hf
  exact ⟨K, zs, scales, hshape, hfactored, hpartials⟩

/-- What is written of a matrix of real numbers as a covariance matrix. -/
theorem covarianceMatrix_exact {t : Tensor ℝ} (ht : t.Filled) {vs : List Extended}
    (h : (covarianceMatrix (t.map real) : Except (Refusal Exact Extended) _) = .ok vs) :
    ∃ K zs scales, t.shape = [K, K] ∧ Factor.IsFactored K t.slabs zs scales ∧
      vs = (zs.map real).map Elementary.atanh ++ (scales.map real).map Elementary.log := by
  obtain ⟨K, f, -, hshape, -, hf, rfl⟩ := covarianceMatrix_eq_ok_iff.mp h
  rw [Tensor.slabs_map] at hf
  obtain ⟨zs, scales, hfactored, hpartials, hscales⟩ :=
    Factor.ofCovariance_map_real (Factor.isSquare_slabs ht hshape) hf
  exact ⟨K, zs, scales, hshape, hfactored, by rw [hpartials, hscales]⟩

/-! ## What is written -/

/-- What a call with finite arguments writes when it is accepted: for each transform, the real
numbers that the arguments are, the conditions that they meet, and the values. -/
inductive Call.Writes : Call Exact Extended → List Extended → Prop
  | integer (n : Exact) : Writes (.integer n) []
  | unbounded {y : Exact} {r : ℝ} (hy : y.value = real r) : Writes (.unbounded y) [real r]
  | positive {y : Exact} {r : ℝ} (hy : y.value = real r) (nonneg : 0 ≤ r) :
      Writes (.positive y) [Elementary.log (real r)]
  | lowerBounded {lb y : Exact} {p r : ℝ} (hlb : lb.value = real p) (hy : y.value = real r)
      (above : p ≤ r) : Writes (.lowerBounded lb y) [Elementary.log (real (r - p))]
  | upperBounded {ub y : Exact} {q r : ℝ} (hub : ub.value = real q) (hy : y.value = real r)
      (below : r ≤ q) : Writes (.upperBounded ub y) [Elementary.log (real (q - r))]
  | doublyBounded {lb ub y : Exact} {p q r : ℝ} (hlb : lb.value = real p)
      (hub : ub.value = real q) (hy : y.value = real r) (ordered : p < q) (above : p ≤ r)
      (below : r ≤ q) :
      Writes (.doublyBounded lb ub y) [Elementary.logit (real ((r - p) / (q - p)))]
  | correlation {y : Exact} {r : ℝ} (hy : y.value = real r) (above : -1 ≤ r) (below : r ≤ 1) :
      Writes (.correlation y) [Elementary.atanh (real r)]
  | probability {y : Exact} {r : ℝ} (hy : y.value = real r) (above : 0 ≤ r) (below : r ≤ 1) :
      Writes (.probability y) [Elementary.logit (real r)]
  | positiveOrdered {t : Tensor ℝ} (rank : t.rank = 1) (nonneg : ∀ d ∈ steps t.entries, 0 ≤ d) :
      Writes (.positiveOrdered (t.map real))
        ((steps t.entries).map fun d => Elementary.log (real d))
  | simplex {t : Tensor ℝ} {rest : List ℝ} {last : ℝ} (rank : t.rank = 1)
      (entries : t.entries = rest ++ [last]) (nonneg : ∀ x ∈ t.entries, 0 ≤ x) :
      Writes (.simplex (t.map real))
        (rest.map fun x => Elementary.log (real x) - Elementary.log (real last))
  | correlationMatrix {t : Tensor ℝ} {K : Nat} {zs scales : List ℝ} (shape : t.shape = [K, K])
      (square : Factor.IsSquare K t.slabs) (factored : Factor.IsFactored K t.slabs zs scales) :
      Writes (.correlationMatrix (t.map real)) ((zs.map real).map Elementary.atanh)
  | covarianceMatrix {t : Tensor ℝ} {K : Nat} {zs scales : List ℝ} (shape : t.shape = [K, K])
      (square : Factor.IsSquare K t.slabs) (factored : Factor.IsFactored K t.slabs zs scales) :
      Writes (.covarianceMatrix (t.map real))
        ((zs.map real).map Elementary.atanh ++ (scales.map real).map Elementary.log)

/-- The scalar arguments of a finite call are real numbers. -/
theorem Call.IsFinite.exists_real {c : Call Exact Extended} (hc : c.IsFinite) {a : Exact}
    (ha : a ∈ c.scalars) : ∃ r, a.value = real r :=
  Extended.exists_real_of_isFinite (hc.scalars a ha)

/-- The array of a finite call is one of real numbers. -/
theorem Call.IsFinite.exists_tensor {c : Call Exact Extended} (hc : c.IsFinite)
    {y : Tensor Extended} (hy : y ∈ c.array?) : ∃ t : Tensor ℝ, y = t.map real ∧ t.Filled := by
  obtain ⟨t, rfl⟩ := exists_tensor_of_isFinite (hc.entries y hy)
  refine ⟨t, rfl, ?_⟩
  have hfilled := hc.filled (t.map real) hy
  rwa [Tensor.Filled, Tensor.map, List.length_map] at hfilled

/-- A single value that is written. -/
theorem real_output_eq_ok {x : Except (Refusal Exact Extended) Extended} {o : Output Extended}
    (h : x.map Output.real = .ok o) : ∃ v, x = .ok v ∧ o.reals = [v] := by
  obtain ⟨v, hv, rfl⟩ := map_eq_ok_iff.mp h
  exact ⟨v, hv, rfl⟩

/-- Several values that are written. -/
theorem ofReals_output_eq_ok {x : Except (Refusal Exact Extended) (List Extended)}
    {o : Output Extended} (h : x.map Output.ofReals = .ok o) : ∃ vs, x = .ok vs ∧ o.reals = vs := by
  obtain ⟨vs, hvs, rfl⟩ := map_eq_ok_iff.mp h
  exact ⟨vs, hvs, rfl⟩

theorem Call.writes_of_output {c : Call Exact Extended} (hc : c.IsFinite) {o : Output Extended}
    (h : c.output = .ok o) : c.Writes o.reals := by
  cases c with
  | integer n =>
    obtain ⟨i, -, rfl⟩ := map_eq_ok_iff.mp h
    exact .integer n
  | unbounded y =>
    obtain ⟨r, hr⟩ := hc.exists_real (a := y) (by simp [scalars])
    obtain ⟨v, hv, hreals⟩ := real_output_eq_ok (x := Unconstrain.unbounded y) h
    rw [hreals, unbounded_exact hr hv]
    exact .unbounded hr
  | positive y =>
    obtain ⟨r, hr⟩ := hc.exists_real (a := y) (by simp [scalars])
    obtain ⟨v, hv, hreals⟩ := real_output_eq_ok (x := Unconstrain.positive y) h
    obtain ⟨hnonneg, rfl⟩ := positive_exact hr hv
    rw [hreals]
    exact .positive hr hnonneg
  | lowerBounded lb y =>
    obtain ⟨p, hp⟩ := hc.exists_real (a := lb) (by simp [scalars])
    obtain ⟨r, hr⟩ := hc.exists_real (a := y) (by simp [scalars])
    obtain ⟨v, hv, hreals⟩ := real_output_eq_ok (x := Unconstrain.lowerBounded lb y) h
    obtain ⟨habove, rfl⟩ := lowerBounded_exact hp hr hv
    rw [hreals]
    exact .lowerBounded hp hr habove
  | upperBounded ub y =>
    obtain ⟨q, hq⟩ := hc.exists_real (a := ub) (by simp [scalars])
    obtain ⟨r, hr⟩ := hc.exists_real (a := y) (by simp [scalars])
    obtain ⟨v, hv, hreals⟩ := real_output_eq_ok (x := Unconstrain.upperBounded ub y) h
    obtain ⟨hbelow, rfl⟩ := upperBounded_exact hq hr hv
    rw [hreals]
    exact .upperBounded hq hr hbelow
  | doublyBounded lb ub y =>
    obtain ⟨p, hp⟩ := hc.exists_real (a := lb) (by simp [scalars])
    obtain ⟨q, hq⟩ := hc.exists_real (a := ub) (by simp [scalars])
    obtain ⟨r, hr⟩ := hc.exists_real (a := y) (by simp [scalars])
    obtain ⟨v, hv, hreals⟩ := real_output_eq_ok (x := Unconstrain.doublyBounded lb ub y) h
    obtain ⟨hordered, habove, hbelow, rfl⟩ := doublyBounded_exact hp hq hr hv
    rw [hreals]
    exact .doublyBounded hp hq hr hordered habove hbelow
  | correlation y =>
    obtain ⟨r, hr⟩ := hc.exists_real (a := y) (by simp [scalars])
    obtain ⟨v, hv, hreals⟩ := real_output_eq_ok (x := Unconstrain.correlation y) h
    obtain ⟨habove, hbelow, rfl⟩ := correlation_exact hr hv
    rw [hreals]
    exact .correlation hr habove hbelow
  | probability y =>
    obtain ⟨r, hr⟩ := hc.exists_real (a := y) (by simp [scalars])
    obtain ⟨v, hv, hreals⟩ := real_output_eq_ok (x := Unconstrain.probability y) h
    obtain ⟨habove, hbelow, rfl⟩ := probability_exact hr hv
    rw [hreals]
    exact .probability hr habove hbelow
  | positiveOrdered y =>
    obtain ⟨t, rfl, ht⟩ := hc.exists_tensor (y := y) rfl
    obtain ⟨vs, hvs, hreals⟩ := ofReals_output_eq_ok h
    obtain ⟨hrank, hnonneg, rfl⟩ := positiveOrdered_exact hvs
    rw [hreals]
    exact .positiveOrdered hrank hnonneg
  | simplex y =>
    obtain ⟨t, rfl, ht⟩ := hc.exists_tensor (y := y) rfl
    obtain ⟨vs, hvs, hreals⟩ := ofReals_output_eq_ok h
    obtain ⟨hrank, hnonneg, rest, last, hentries, rfl⟩ := simplex_exact hvs
    rw [hreals]
    exact .simplex hrank hentries hnonneg
  | correlationMatrix y =>
    obtain ⟨t, rfl, ht⟩ := hc.exists_tensor (y := y) rfl
    obtain ⟨vs, hvs, hreals⟩ := ofReals_output_eq_ok h
    obtain ⟨K, zs, scales, hshape, hfactored, rfl⟩ := correlationMatrix_exact ht hvs
    rw [hreals]
    exact .correlationMatrix hshape (Factor.isSquare_slabs ht hshape) hfactored
  | covarianceMatrix y =>
    obtain ⟨t, rfl, ht⟩ := hc.exists_tensor (y := y) rfl
    obtain ⟨vs, hvs, hreals⟩ := ofReals_output_eq_ok h
    obtain ⟨K, zs, scales, hshape, hfactored, rfl⟩ := covarianceMatrix_exact ht hvs
    rw [hreals]
    exact .covarianceMatrix hshape (Factor.isSquare_slabs ht hshape) hfactored

end Unconstrain

end EnsembleSampling
