import EnsembleSampling.Proofs.Draw
import EnsembleSampling.Proofs.Unconstrain.Accepted
import EnsembleSampling.Unconstrain.Writer
set_option autoImplicit false

/-!
# The writer as a log

A call writes step by step, but nothing that it does after its first append can be refused.
So it appends its whole output or nothing (`Call.outcome_write`), and calls in a row append
the outputs of those that are not refused (`Writer.performAll_appends`).  How many values an
output has is known from the transform and the dimension of the variable
(`Call.length_output`), so that a reader of the buffers never loses its place.
-/

namespace EnsembleSampling

/-- How many real values are written of a variable of dimension `K`. -/
def Transform.reals (K : Nat) : Transform → Nat
  | .integer => 0
  | .unbounded | .positive | .lowerBounded | .upperBounded | .doublyBounded
  | .correlation | .probability => 1
  | .positiveOrdered => K
  | .simplex => K - 1
  | .correlationMatrix => K * (K - 1) / 2
  | .covarianceMatrix => K * (K - 1) / 2 + K

/-- How many integers are written of a variable. -/
def Transform.integers : Transform → Nat
  | .integer => 1
  | _ => 0

namespace Unconstrain

variable {A R : Type}

/-! ## Steps -/

/-- Outputs one after the other. -/
def Output.joined (os : List (Output R)) : Output R :=
  ⟨os.flatMap (·.reals), os.flatMap (·.integers)⟩

namespace Writer

@[simp] theorem append_none (w : Writer R) : w.append .none = w := by
  simp [append, Output.none]

theorem append_joined_cons (w : Writer R) (o : Output R) (os : List (Output R)) :
    w.append (.joined (o :: os)) = (w.append o).append (.joined os) := by
  simp [append, Output.joined]

theorem append_ofReals_append (w : Writer R) (rs ss : List R) :
    (w.append (.ofReals rs)).append (.ofReals ss) = w.append (.ofReals (rs ++ ss)) := by
  simp [append, Output.ofReals]

/-- What buffers hold beyond those that they were appended to is what was appended. -/
@[simp] theorem since_append (w : Writer R) (o : Output R) : w.since (w.append o) = o := by
  simp [since, append]

@[simp] theorem since_self (w : Writer R) : w.since w = .none := by
  simp [since, Output.none]

/-- Append an output, or nothing if there is none. -/
def record {ε : Type} (w : Writer R) : Except ε (Output R) → Except ε Unit × Writer R
  | .ok o => (.ok (), w.append o)
  | .error e => (.error e, w)

end Writer

namespace Writing

theorem outcome_append (r : R) (w : Writer R) :
    (append r : Writing A R Unit).outcome w = (.ok (), w.append (.real r)) := by
  simp [append, Writer.append, Output.real]

theorem outcome_extend (rs : List R) (w : Writer R) :
    (extend rs : Writing A R Unit).outcome w = (.ok (), w.append (.ofReals rs)) := by
  induction rs generalizing w with
  | nil => exact congrArg (Except.ok (), ·) w.append_none.symm
  | cons r rs ih =>
    rw [extend, Draw.outcome_bind_of_ok (outcome_append r w), ih]
    exact congrArg (Except.ok (), ·) (w.append_ofReals_append [r] rs)

theorem outcome_extendFactors (f : Factor.Factors R) (w : Writer R) :
    (extendFactors f : Writing A R Unit).outcome w =
      (.ok (), w.append (.ofReals (f.partials ++ f.logScales))) := by
  rw [extendFactors, Draw.outcome_bind_of_ok (outcome_extend f.partials w), outcome_extend]
  exact congrArg (Except.ok (), ·) (w.append_ofReals_append f.partials f.logScales)

theorem outcome_extendIncreasing [Sub R] [Elementary R] (ys : List R) (w : Writer R) :
    (extendIncreasing ys : Writing A R Unit).outcome w =
      (.ok (), w.append (.ofReals (logIncrements ys))) := by
  cases ys with
  | nil => exact congrArg (Except.ok (), ·) w.append_none.symm
  | cons first rest =>
    rw [extendIncreasing, Draw.outcome_bind_of_ok (outcome_append _ w), outcome_extend]
    exact congrArg (Except.ok (), ·) (w.append_ofReals_append [Elementary.log first] _)

/-- What is written of a result, once there is one, is recorded. -/
theorem outcome_result {γ : Type} (x : Except (Refusal A R) γ) {write : γ → Writing A R Unit}
    {out : γ → Output R} (hwrite : ∀ a w, (write a).outcome w = (.ok (), w.append (out a)))
    (w : Writer R) : (Draw.ofExcept x >>= write).outcome w = w.record (x.map out) := by
  cases x with
  | error e => exact Draw.outcome_bind_of_error (Draw.outcome_ofExcept _ _)
  | ok a =>
    rw [Draw.outcome_bind_of_ok (Draw.outcome_ofExcept _ _), hwrite]
    rfl

theorem outcome_appendResult (x : Except (Refusal A R) R) (w : Writer R) :
    (appendResult x).outcome w = w.record (x.map .real) :=
  outcome_result x outcome_append w

theorem outcome_extendResult (x : Except (Refusal A R) (List R)) (w : Writer R) :
    (extendResult x).outcome w = w.record (x.map .ofReals) :=
  outcome_result x outcome_extend w

end Writing

/-! ## One call -/

section

variable [Zero R] [One R] [Add R] [Sub R] [Neg R] [Mul R] [Div R] [NatCast R]
  [LE R] [DecidableLE R] [LT R] [DecidableLT R] [Elementary R] [Quantity A R]

/-- A call appends its whole output, or it is refused and appends nothing. -/
theorem Call.outcome_write (c : Call A R) (w : Writer R) :
    c.write.outcome w = w.record c.output := by
  cases c with
  | integer n =>
    refine Writing.outcome_result _ (fun n w => ?_) w
    simp [Writing.appendInteger, Writer.append, Output.ofInteger]
  | positiveOrdered y =>
    refine (Writing.outcome_result _ Writing.outcome_extendIncreasing w).trans ?_
    simp only [Call.output, Unconstrain.positiveOrdered]
    cases increasingOf (A := A) y <;> rfl
  | covarianceMatrix y =>
    refine (Writing.outcome_result _ Writing.outcome_extendFactors w).trans ?_
    simp only [Call.output, Unconstrain.covarianceMatrix]
    cases covarianceFactors (A := A) y <;> rfl
  | simplex y => exact Writing.outcome_extendResult _ w
  | correlationMatrix y => exact Writing.outcome_extendResult _ w
  | unbounded y => exact Writing.outcome_appendResult _ w
  | positive y => exact Writing.outcome_appendResult _ w
  | lowerBounded lb y => exact Writing.outcome_appendResult _ w
  | upperBounded ub y => exact Writing.outcome_appendResult _ w
  | doublyBounded lb ub y => exact Writing.outcome_appendResult _ w
  | correlation y => exact Writing.outcome_appendResult _ w
  | probability y => exact Writing.outcome_appendResult _ w

/-- Calls in a row succeed or fail as each of them would on its own, and append the outputs of
those that are not refused. -/
theorem Writer.run_eq (w : Writer R) (cs : List (Call A R)) :
    w.run cs = (cs.map fun c => c.output.map fun _ => (),
      w.append (.joined (cs.filterMap fun c => c.output.toOption))) := by
  induction cs generalizing w with
  | nil => exact congrArg ([], ·) w.append_none.symm
  | cons c cs ih =>
    have hcall : w.call c = w.record c.output := c.outcome_write w
    simp only [run, hcall, ih, List.map_cons, List.filterMap_cons]
    cases c.output with
    | error e => simp [record, Except.map, Except.toOption]
    | ok o => simp [record, Except.map, Except.toOption, append_joined_cons]

end

/-! ## How much a call writes -/

section

variable [Sub R] [Elementary R]

theorem length_logIncrements (ys : List R) : (logIncrements ys).length = ys.length := by
  cases ys with
  | nil => rfl
  | cons first rest => simp [logIncrements, increments]

theorem length_logRatios (ys : List R) : (logRatios ys).length = ys.length - 1 := by
  rcases List.eq_nil_or_concat ys with rfl | ⟨rest, last, rfl⟩
  · rfl
  · simp [logRatios]

end

/-- The transform of a call. -/
def Call.transform : Call A R → Transform
  | .integer _ => .integer
  | .unbounded _ => .unbounded
  | .positive _ => .positive
  | .lowerBounded _ _ => .lowerBounded
  | .upperBounded _ _ => .upperBounded
  | .doublyBounded _ _ _ => .doublyBounded
  | .correlation _ => .correlation
  | .probability _ => .probability
  | .positiveOrdered _ => .positiveOrdered
  | .simplex _ => .simplex
  | .correlationMatrix _ => .correlationMatrix
  | .covarianceMatrix _ => .covarianceMatrix

/-- The array that a call is about, if it is about one. -/
def Call.array? : Call A R → Option (Tensor R)
  | .positiveOrdered y | .simplex y | .correlationMatrix y | .covarianceMatrix y => some y
  | _ => none

/-- The length of an array along its first axis. -/
def firstLength (shape : List Nat) : Nat := shape.headD 0

/-- The dimension of the variable of a call. -/
def Call.dimension (c : Call A R) : Nat := c.array?.elim 0 fun y => firstLength y.shape

/-- The array of a call has an entry for each place of its shape. -/
def Call.Filled (c : Call A R) : Prop := ∀ y ∈ c.array?, y.Filled

theorem length_of_rank_one {y : Tensor R} (hy : y.Filled) (hrank : y.rank = 1) :
    y.entries.length = firstLength y.shape := by
  obtain ⟨n, hshape⟩ := List.length_eq_one_iff.mp hrank
  rw [hy, hshape]
  exact Nat.mul_one n

section

variable [Zero R] [One R] [Add R] [Sub R] [Neg R] [Mul R] [Div R] [NatCast R]
  [LE R] [DecidableLE R] [LT R] [DecidableLT R] [Elementary R] [Quantity A R]

/-- How much a call writes is fixed by its transform and the dimension of its variable. -/
theorem Call.length_output {c : Call A R} (hc : c.Filled) {o : Output R} (h : c.output = .ok o) :
    o.reals.length = c.transform.reals c.dimension ∧
      o.integers.length = c.transform.integers := by
  cases c with
  | integer n =>
    obtain ⟨i, -, rfl⟩ := map_eq_ok_iff.mp h
    exact ⟨rfl, rfl⟩
  | positiveOrdered y =>
    obtain ⟨rs, hrs, rfl⟩ := map_eq_ok_iff.mp h
    obtain ⟨hrank, -, -, rfl⟩ := positiveOrdered_eq_ok_iff.mp hrs
    refine ⟨?_, rfl⟩
    exact (length_logIncrements _).trans (length_of_rank_one (hc y rfl) hrank)
  | simplex y =>
    obtain ⟨rs, hrs, rfl⟩ := map_eq_ok_iff.mp h
    obtain ⟨hrank, -, -, -, rfl⟩ := simplex_eq_ok_iff.mp hrs
    refine ⟨?_, rfl⟩
    exact (length_logRatios _).trans (congrArg (· - 1) (length_of_rank_one (hc y rfl) hrank))
  | correlationMatrix y =>
    obtain ⟨rs, hrs, rfl⟩ := map_eq_ok_iff.mp h
    obtain ⟨n, f, -, hshape, -, hf, -, rfl⟩ := correlationMatrix_eq_ok_iff.mp hrs
    obtain ⟨hpartials, -⟩ :=
      Factor.length_ofCovariance (Factor.isSquare_slabs (hc y rfl) hshape) hf
    refine ⟨hpartials.trans ?_, rfl⟩
    simp [transform, Transform.reals, dimension, array?, firstLength, hshape]
  | covarianceMatrix y =>
    obtain ⟨rs, hrs, rfl⟩ := map_eq_ok_iff.mp h
    obtain ⟨n, f, -, hshape, -, hf, rfl⟩ := covarianceMatrix_eq_ok_iff.mp hrs
    obtain ⟨hpartials, hscales⟩ :=
      Factor.length_ofCovariance (Factor.isSquare_slabs (hc y rfl) hshape) hf
    refine ⟨?_, rfl⟩
    simp [Output.ofReals, hpartials, hscales, transform, Transform.reals, dimension, array?,
      firstLength, hshape]
  | unbounded y | positive y | lowerBounded lb y | upperBounded ub y | doublyBounded lb ub y
  | correlation y | probability y =>
    obtain ⟨r, -, rfl⟩ := map_eq_ok_iff.mp h
    exact ⟨rfl, rfl⟩

end

/-! ## Calls by name -/

/-- What a call by name appends, or why it is refused. -/
def outputOf (name : String) (args : List Argument) : Except Fault (Output Float) :=
  Call.ofName name args >>= fun c => c.output.mapError Refusal.toFault

theorem Writer.perform_eq_record (w : Writer Float) (name : String) (args : List Argument) :
    w.perform name args = w.record (outputOf name args) := by
  unfold perform outputOf
  cases Call.ofName name args with
  | error f => rfl
  | ok c =>
    have hcall : w.call c = w.record c.output := c.outcome_write w
    simp only [hcall]
    rcases hout : c.output with e | o <;> simp [hout, bind, Except.bind, record, Except.mapError]

/-- The dimension of a variable: how long it is along its first axis. -/
def dimensionOf : List Argument → Nat
  | [] => 0
  | a :: _ => (a.arrayShape.toOption.map firstLength).getD 0

theorem dimensionOf_of_ofArgument {a : Argument} {t : Tensor Float}
    (h : Tensor.ofArgument a = .ok t) :
    dimensionOf [a] = firstLength t.shape := by
  simp [dimensionOf, (Tensor.ofArgument_eq_ok h).1, Except.toOption]

/-- A call is of the transform that its arguments are for, and its array is filled and has the
dimension of the argument. -/
theorem Call.ofArguments_eq_ok {t : Transform} {args : List Argument} {c : Call Argument Float}
    (h : ofArguments t args = .ok c) :
    c.transform = t ∧ c.Filled ∧ c.transform.reals c.dimension = t.reals (dimensionOf args) := by
  have harray : ∀ {make : Tensor Float → Call Argument Float} {a : Argument},
      (∀ y, (make y).array? = some y) → (Tensor.ofArgument a).map make = .ok c →
      ∃ y, c = make y ∧ c.Filled ∧ c.dimension = dimensionOf [a] := by
    intro make a hmake hread
    obtain ⟨y, hy, rfl⟩ := map_eq_ok_iff.mp hread
    refine ⟨y, rfl, ?_, ?_⟩
    · intro z hz
      obtain rfl : y = z := by simpa [hmake] using hz
      exact Tensor.filled_ofArgument hy
    · rw [dimensionOf_of_ofArgument hy, dimension, hmake]
      rfl
  have hscalar : ∀ {d : Call Argument Float}, d.array? = none → d.Filled := by
    intro d hd y hy
    simp [hd] at hy
  unfold ofArguments at h
  split at h
  -- the four transforms of arrays, then the calls with a wrong number of arguments
  case h_9 | h_10 | h_11 | h_12 =>
    obtain ⟨y, rfl, hfilled, hdimension⟩ := harray (fun _ => rfl) h
    exact ⟨rfl, hfilled, by rw [hdimension]; rfl⟩
  case h_13 => cases h
  all_goals
    obtain rfl := Except.ok.inj h
    exact ⟨rfl, hscalar rfl, rfl⟩

/-- How much a call by name writes is fixed by its transform and the dimension of its
variable. -/
theorem length_outputOf {name : String} {args : List Argument} {o : Output Float}
    (h : outputOf name args = .ok o) :
    ∃ t, Transform.ofName? name = some t ∧ o.reals.length = t.reals (dimensionOf args) ∧
      o.integers.length = t.integers := by
  obtain ⟨c, hc, ho⟩ := bind_eq_ok_iff.mp h
  have hout : c.output = .ok o := by
    cases hc : c.output with
    | error e => simp [hc, Except.mapError] at ho
    | ok o' => simpa [hc, Except.mapError] using ho
  unfold Call.ofName at hc
  split at hc
  · rename_i t ht
    obtain ⟨rfl, hfilled, hreals⟩ := Call.ofArguments_eq_ok hc
    obtain ⟨hlength, hintegers⟩ := Call.length_output hfilled hout
    exact ⟨_, ht, hlength.trans hreals, hintegers⟩
  · cases hc

/-- Only integers are written to the buffer of integers, and nothing else is written there. -/
theorem buffer_of_outputOf {name : String} {args : List Argument} {o : Output Float}
    (h : outputOf name args = .ok o) :
    (name = Transform.integer.name → o.reals = []) ∧
      (name ≠ Transform.integer.name → o.integers = []) := by
  obtain ⟨t, ht, hreals, hintegers⟩ := length_outputOf h
  have hname : t.name = name := by simpa using List.find?_some ht
  subst hname
  cases t with
  | integer => exact ⟨fun _ => List.eq_nil_of_length_eq_zero hreals, fun hne => absurd rfl hne⟩
  | _ => exact ⟨fun heq => by simp [Transform.name] at heq,
      fun _ => List.eq_nil_of_length_eq_zero hintegers⟩

/-! ## Calls in a row -/

/-- The outputs of calls in a row, without those that are refused. -/
def outputs (calls : List (String × List Argument)) : List (Output Float) :=
  calls.filterMap fun (name, args) => (outputOf name args).toOption

/-- What is reported of a call: whether it was refused, and what it appended. -/
def reportOf (name : String) (args : List Argument) : Except Fault Unit × Output Float :=
  match outputOf name args with
  | .ok o => (.ok (), o)
  | .error f => (.error f, .none)

namespace Writer

/-- Calls in a row report what each of them would on its own, and append the outputs of those
that are not refused. -/
theorem performAll_eq (w : Writer Float) (calls : List (String × List Argument)) :
    w.performAll calls =
      (calls.map fun (name, args) => reportOf name args, w.append (.joined (outputs calls))) := by
  induction calls generalizing w with
  | nil => exact congrArg ([], ·) w.append_none.symm
  | cons call calls ih =>
    obtain ⟨name, args⟩ := call
    simp only [performAll, perform_eq_record, ih, List.map_cons, outputs, List.filterMap_cons,
      reportOf]
    cases outputOf name args with
    | error f => simp [record, Except.toOption]
    | ok o => simp [record, Except.toOption, append_joined_cons]

/-- Calls that are refused leave no trace. -/
theorem outputs_filter (w : Writer Float) (calls : List (String × List Argument)) :
    outputs (calls.filter fun c => (w.perform c.1 c.2).1.isOk) = outputs calls := by
  induction calls with
  | nil => rfl
  | cons call calls ih =>
    obtain ⟨name, args⟩ := call
    simp only [outputs, List.filter_cons, perform_eq_record, List.filterMap_cons] at ih ⊢
    cases hout : outputOf name args with
    | error f => simpa [record, Except.isOk, Except.toBool, Except.toOption] using ih
    | ok o => simpa [record, Except.isOk, Except.toBool, Except.toOption, hout] using ih

/-- A writer is a log to which calls append all of their output or nothing.

After calls in a row, whatever they are called with, each buffer holds what it held and then
the outputs of the calls that were not refused, in their order.  A call that is refused leaves
both buffers as they were, so that the others could as well have been made without it.  Which
buffer a call writes to and how many values depends on its transform and on the dimension of
the variable. -/
theorem performAll_appends (w : Writer Float) (calls : List (String × List Argument)) :
    (w.performAll calls).2.reals = w.reals ++ (outputs calls).flatMap (·.reals) ∧
    (w.performAll calls).2.integers = w.integers ++ (outputs calls).flatMap (·.integers) ∧
    (w.performAll calls).1 = calls.map (fun c => reportOf c.1 c.2) ∧
    (∀ c ∈ calls, ∀ (v : Writer Float) (f : Fault),
      (v.perform c.1 c.2).1 = .error f → (v.perform c.1 c.2).2 = v) ∧
    (w.performAll (calls.filter fun c => (w.perform c.1 c.2).1.isOk)).2 =
      (w.performAll calls).2 ∧
    ∀ c ∈ calls, ∀ o, outputOf c.1 c.2 = .ok o →
      (c.1 = Transform.integer.name → o.reals = []) ∧
      (c.1 ≠ Transform.integer.name → o.integers = []) ∧
      ∃ t, Transform.ofName? c.1 = some t ∧ o.reals.length = t.reals (dimensionOf c.2) ∧
        o.integers.length = t.integers := by
  simp only [performAll_eq]
  refine ⟨rfl, rfl, trivial, ?_, ?_, ?_⟩
  · intro c _ v f h
    rw [perform_eq_record] at h ⊢
    cases hout : outputOf c.1 c.2 with
    | error f => rfl
    | ok o => simp [hout, record] at h
  · rw [outputs_filter]
  · intro c _ o ho
    obtain ⟨hinteger, hother⟩ := buffer_of_outputOf ho
    exact ⟨hinteger, hother, length_outputOf ho⟩

end Writer

end Unconstrain

end EnsembleSampling
