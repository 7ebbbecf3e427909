import EnsembleSampling.Proofs.Unconstrain.Exact
set_option autoImplicit false

/-!
# A reader of the real values

What a writer has written can be read back by a reader that knows of each call only its
signature: the transform, the bounds, and the dimension of the variable.  The reader takes the
values in their order, as many for each call as its signature says, and applies the inverse of
the transform.  In exact arithmetic it recovers every value and leaves nothing over
(`reals_decodable`), also for values at the ends of their constraints, which were written as
infinities.

It relies on simplices that sum to one and have a positive last entry, on matrices that are
symmetric, and on correlation matrices that have ones on the diagonal.
-/

namespace EnsembleSampling.Unconstrain

open Extended (real)

/-! ## Signatures -/

/-- What a reader knows of a call. -/
structure Signature where
  transform : Transform
  bounds : List Extended
  dimension : Nat

namespace Call

/-- The bounds of a call. -/
noncomputable def bounds : Call Exact Extended → List Extended
  | .lowerBounded bound _ | .upperBounded bound _ => [bound.value]
  | .doublyBounded lb ub _ => [lb.value, ub.value]
  | _ => []

noncomputable def signature (c : Call Exact Extended) : Signature :=
  ⟨c.transform, c.bounds, c.dimension⟩

/-- The variable of a call, as an array of real quantities; an integer is none. -/
noncomputable def value : Call Exact Extended → Tensor Extended
  | .integer _ => .vector []
  | .unbounded y | .positive y | .lowerBounded _ y | .upperBounded _ y | .doublyBounded _ _ y
  | .correlation y | .probability y => .scalar y.value
  | .positiveOrdered y | .simplex y | .correlationMatrix y | .covarianceMatrix y => y

/-- What a reader relies on beyond what the writer makes sure of. -/
def IsProper : Call Exact Extended → Prop
  | .simplex y => y.entries.sum = 1 ∧ ∀ last ∈ y.entries.getLast?, 0 < last
  | .correlationMatrix y =>
    Factor.IsSymmetric y.slabs ∧ ∀ d ∈ Factor.diagonal y.slabs, d = 1
  | .covarianceMatrix y => Factor.IsSymmetric y.slabs
  | _ => True

end Call

/-! ## Reading -/

/-- Exponentials divided by their sum. -/
noncomputable def softmax (zs : List Extended) : List Extended :=
  (zs.map Elementary.exp).map (· / (zs.map Elementary.exp).sum)

namespace Signature

/-- The number of values that a call with this signature writes. -/
def width (s : Signature) : Nat := s.transform.reals s.dimension

/-- The variable that was written as the values `zs`. -/
noncomputable def rebuild (s : Signature) (zs : List Extended) : Tensor Extended :=
  match s.transform, s.bounds, zs with
  | .unbounded, _, [z] => .scalar z
  | .positive, _, [z] => .scalar (Elementary.exp z)
  | .lowerBounded, [lb], [z] => .scalar (lb + Elementary.exp z)
  | .upperBounded, [ub], [z] => .scalar (ub - Elementary.exp z)
  | .doublyBounded, [lb, ub], [z] => .scalar (lb + (ub - lb) * Extended.logistic z)
  | .correlation, _, [z] => .scalar (Extended.tanh z)
  | .probability, _, [z] => .scalar (Extended.logistic z)
  | .positiveOrdered, _, zs => .vector (runningSums (zs.map Elementary.exp))
  | .simplex, _, zs => .vector (softmax (zs ++ [0]))
  | .correlationMatrix, _, zs =>
    .ofRows s.dimension (Factor.correlationOf s.dimension (zs.map Extended.tanh))
  | .covarianceMatrix, _, zs =>
    let cpcs := s.dimension * (s.dimension - 1) / 2
    .ofRows s.dimension (Factor.rescale
      (Factor.correlationOf s.dimension ((zs.take cpcs).map Extended.tanh))
      ((zs.drop cpcs).map Elementary.exp))
  | _, _, _ => .vector []

/-- Read one variable; what is left of the values comes with it. -/
noncomputable def read (s : Signature) (buffer : List Extended) :
    Option (Tensor Extended × List Extended) :=
  if s.width ≤ buffer.length then some (s.rebuild (buffer.take s.width), buffer.drop s.width)
  else none

/-- Read variables in a row. -/
noncomputable def readAll :
    List Signature → List Extended → Option (List (Tensor Extended) × List Extended)
  | [], buffer => some ([], buffer)
  | s :: signatures, buffer => do
    let (y, rest) ← s.read buffer
    let (ys, rest) ← readAll signatures rest
    some (y :: ys, rest)

theorem read_append {s : Signature} {zs : List Extended} (h : zs.length = s.width)
    (rest : List Extended) : s.read (zs ++ rest) = some (s.rebuild zs, rest) := by
  have hle : s.width ≤ (zs ++ rest).length := by
    rw [List.length_append, h]
    exact Nat.le_add_right _ _
  rw [read, if_pos hle, List.take_left' h, List.drop_left' h]

end Signature

/-! ## Vectors -/

/-- The increments of a vector add up to the vector. -/
theorem runningSums_steps (rs : List ℝ) : runningSums ((steps rs).map real) = rs.map real := by
  cases rs with
  | nil => rfl
  | cons first rest =>
    refine congrArg (real first :: ·) ?_
    induction rest generalizing first with
    | nil => rfl
    | cons y rest ih =>
      have hsum : real first + real (y - first) = real y := by
        rw [Extended.real_add_real, add_sub_cancel]
      change (real first + real (y - first)) ::
        runningSums.go (real first + real (y - first)) ((increments (y :: rest)).map real) = _
      rw [hsum, List.map_cons]
      exact congrArg (real y :: ·) (ih y)

/-- An exponential of a log ratio is the ratio, also of zero. -/
theorem exp_log_sub_log {a b : ℝ} (ha : 0 ≤ a) (hb : 0 < b) :
    Elementary.exp (Elementary.log (real a) - Elementary.log (real b)) = real (a / b) := by
  rw [Extended.log_real hb]
  rcases ha.eq_or_lt with rfl | hpos
  · rw [Extended.log_real_zero, Extended.bot_sub_real, zero_div]
    change Extended.number (EReal.exp ⊥) = .number 0
    simp
  · rw [Extended.log_real hpos, Extended.real_sub_real, Extended.exp_real]
    change real (Real.exp (Real.log a - Real.log b)) = _
    rw [Real.exp_sub, Real.exp_log hpos, Real.exp_log hb]

/-- The log ratios of a vector against its last entry give the vector divided by its sum. -/
theorem softmax_logRatios {rest : List ℝ} {last : ℝ} (hrest : ∀ x ∈ rest, 0 ≤ x)
    (hlast : 0 < last) :
    softmax ((rest.map fun x => Elementary.log (real x) - Elementary.log (real last)) ++ [0]) =
      ((rest ++ [last]).map (· / (rest ++ [last]).sum)).map real := by
  have hzero : Elementary.exp (0 : Extended) = real (last / last) := by
    rw [← Extended.real_zero, Extended.exp_real, Real.exp_zero, div_self hlast.ne']
  have hexp : ((rest.map fun x => Elementary.log (real x) - Elementary.log (real last)) ++
      [0]).map Elementary.exp = ((rest ++ [last]).map (· / last)).map real := by
    rw [List.map_append, List.map_map, List.map_append, List.map_append, List.map_map]
    refine congrArg₂ (· ++ ·) (List.map_congr_left fun x hx => ?_) (congrArg ([·]) hzero)
    exact exp_log_sub_log (hrest x hx) hlast
  have hsum : 0 < (rest ++ [last]).sum := by
    rw [List.sum_append, List.sum_singleton]
    exact add_pos_of_nonneg_of_pos (List.sum_nonneg hrest) hlast
  -- the exponentials are the vector divided by its last entry, and so is their sum
  have htotal : (((rest ++ [last]).map (· / last)).map real).sum =
      real ((rest ++ [last]).sum / last) := by
    simp only [div_eq_mul_inv, Extended.sum_map_real, List.sum_map_mul_right, List.map_id']
  rw [softmax, hexp, htotal, List.map_map, List.map_map, List.map_map]
  refine List.map_congr_left fun x _ => ?_
  have hne : (rest ++ [last]).sum / last ≠ 0 := (div_pos hsum hlast).ne'
  change real (x / last) / real ((rest ++ [last]).sum / last) = real (x / (rest ++ [last]).sum)
  rw [Extended.real_div_real _ hne, div_div_div_cancel_right₀ hlast.ne']

/-! ## Matrices -/

theorem map_tanh_atanh {zs : List ℝ} (h : ∀ z ∈ zs, |z| < 1) :
    ((zs.map real).map Elementary.atanh).map Extended.tanh = zs.map real := by
  rw [List.map_map, List.map_map]
  refine List.map_congr_left fun z hz => ?_
  obtain ⟨hlower, hupper⟩ := abs_lt.mp (h z hz)
  exact Extended.tanh_atanh hlower.le hupper.le

theorem map_exp_log {scales : List ℝ} (h : ∀ s ∈ scales, 0 < s) :
    ((scales.map real).map Elementary.log).map Elementary.exp = scales.map real := by
  rw [List.map_map, List.map_map]
  exact List.map_congr_left fun s hs => Extended.exp_log (h s hs).le

theorem isSymmetric_of_map_real {rows : List (List ℝ)}
    (h : Factor.IsSymmetric (rows.map (List.map real))) : Factor.IsSymmetric rows := by
  intro i j
  have hentry : ∀ i j, Factor.entry (rows.map (List.map real)) i j =
      (Factor.entry rows i j).map real := by
    intro i j
    simp [Factor.entry, Option.bind_map, Option.map_bind]
  have hij := h i j
  rw [hentry, hentry] at hij
  exact Option.map_injective Extended.real_injective hij

/-- A correlation matrix is rebuilt from what is written of it. -/
theorem correlationOf_partials {K : Nat} {rows : List (List ℝ)} {zs scales : List ℝ}
    (hrows : Factor.IsSquare K rows) (h : Factor.IsFactored K rows zs scales)
    (hsymmetric : Factor.IsSymmetric rows) (hones : ∀ d ∈ Factor.diagonal rows, d = 1) :
    Factor.correlationOf K (zs.map real) = rows.map (List.map real) := by
  have hscales : scales = List.replicate K 1 := by
    rw [List.eq_replicate_iff]
    refine ⟨?_, fun s hs => ?_⟩
    · rw [← Factor.length_diagonal hrows, h.variances, List.length_map]
    · have hsquare : s * s = 1 := by
        refine hones (s * s) ?_
        rw [h.variances]
        exact List.mem_map_of_mem hs
      nlinarith [h.pos s hs]
  rw [h.rebuilt hsymmetric, hscales, Factor.standardize_ones hrows hones]

/-- A covariance matrix is rebuilt from what is written of it. -/
theorem rescale_correlationOf {K : Nat} {rows : List (List ℝ)} {zs scales : List ℝ}
    (hrows : Factor.IsSquare K rows) (h : Factor.IsFactored K rows zs scales)
    (hsymmetric : Factor.IsSymmetric rows) :
    Factor.rescale (Factor.correlationOf K (zs.map real)) (scales.map real) =
      rows.map (List.map real) := by
  rw [h.rebuilt hsymmetric, Factor.rescale_map_real,
    Factor.rescale_standardize hrows h.variances fun s hs => (h.pos s hs).ne']

/-! ## What is recovered -/

/-- The reader recovers the value of a call from what the call writes. -/
theorem rebuild_of_writes {c : Call Exact Extended} (hc : c.IsFinite) (hproper : c.IsProper)
    {vs : List Extended} (h : c.Writes vs) : c.signature.rebuild vs = c.value := by
  cases h with
  | integer n => rfl
  | unbounded hy => exact congrArg Tensor.scalar hy.symm
  | positive hy nonneg => exact congrArg Tensor.scalar ((Extended.exp_log nonneg).trans hy.symm)
  | @lowerBounded lb y p r hlb hy above =>
    change Tensor.scalar (lb.value + Elementary.exp (Elementary.log (real (r - p)))) =
      Tensor.scalar y.value
    rw [Extended.exp_log (sub_nonneg.mpr above), hlb, hy, Extended.real_add_real, add_sub_cancel]
  | @upperBounded ub y q r hub hy below =>
    change Tensor.scalar (ub.value - Elementary.exp (Elementary.log (real (q - r)))) =
      Tensor.scalar y.value
    rw [Extended.exp_log (sub_nonneg.mpr below), hub, hy, Extended.real_sub_real, sub_sub_cancel]
  | @doublyBounded lb ub y p q r hlb hub hy ordered above below =>
    have hpart : 0 ≤ (r - p) / (q - p) :=
      div_nonneg (sub_nonneg.mpr above) (sub_nonneg.mpr ordered.le)
    have hwhole : (r - p) / (q - p) ≤ 1 :=
      div_le_one_of_le₀ (sub_le_sub_right below p) (sub_nonneg.mpr ordered.le)
    have hplace : p + (q - p) * ((r - p) / (q - p)) = r := by
      rw [mul_div_cancel₀ _ (sub_pos.mpr ordered).ne', add_sub_cancel]
    change Tensor.scalar (lb.value + (ub.value - lb.value) *
      Extended.logistic (Elementary.logit (real ((r - p) / (q - p))))) = Tensor.scalar y.value
    rw [Extended.logistic_logit hpart hwhole, hlb, hub, hy, Extended.real_sub_real,
      Extended.real_mul_real, Extended.real_add_real, hplace]
  | correlation hy above below =>
    exact congrArg Tensor.scalar ((Extended.tanh_atanh above below).trans hy.symm)
  | probability hy above below =>
    exact congrArg Tensor.scalar ((Extended.logistic_logit above below).trans hy.symm)
  | @positiveOrdered t rank nonneg =>
    have hexp : ((steps t.entries).map fun d => Elementary.log (real d)).map Elementary.exp =
        (steps t.entries).map real := by
      rw [List.map_map]
      exact List.map_congr_left fun d hd => Extended.exp_log (nonneg d hd)
    change Tensor.vector (runningSums (List.map Elementary.exp _)) = t.map real
    rw [hexp, runningSums_steps]
    exact Tensor.vector_entries (hc.filled _ rfl) rank
  | @simplex t rest last rank entries nonneg =>
    have hmapped : (t.map real).entries = (rest ++ [last]).map real := by
      rw [Tensor.map, entries]
    obtain ⟨hsum, hlast⟩ := hproper
    rw [hmapped, Extended.sum_map_real, ← Extended.real_one, Extended.real_inj] at hsum
    have hpos : 0 < last := by
      refine Extended.real_lt_real.mp (hlast (real last) ?_)
      rw [hmapped, List.map_append, List.map_singleton, List.getLast?_concat]
      rfl
    rw [entries, List.forall_mem_append] at nonneg
    change Tensor.vector (softmax (_ ++ [0])) = t.map real
    rw [softmax_logRatios nonneg.1 hpos, hsum]
    simp only [div_one, List.map_id', ← hmapped]
    exact Tensor.vector_entries (hc.filled _ rfl) rank
  | @correlationMatrix t K zs scales shape square factored =>
    obtain ⟨hsymmetric, hones⟩ := hproper
    rw [Tensor.slabs_map] at hsymmetric hones
    rw [Factor.diagonal_map] at hones
    have hones' : ∀ d ∈ Factor.diagonal t.slabs, d = 1 := fun d hd =>
      Extended.real_inj.mp (hones (real d) (List.mem_map_of_mem hd))
    have hsignature : (Call.correlationMatrix (A := Exact) (t.map real)).signature =
        ⟨.correlationMatrix, [], K⟩ := congrArg (Signature.mk _ _ <| firstLength ·) shape
    rw [hsignature]
    change Tensor.ofRows K (Factor.correlationOf K (List.map Extended.tanh _)) = t.map real
    rw [map_tanh_atanh factored.abs_lt_one,
      correlationOf_partials square factored (isSymmetric_of_map_real hsymmetric) hones',
      ← Tensor.slabs_map]
    exact Tensor.ofRows_slabs (hc.filled _ rfl) shape
  | @covarianceMatrix t K zs scales shape square factored =>
    have hsymmetric : Factor.IsSymmetric (t.map real).slabs := hproper
    rw [Tensor.slabs_map] at hsymmetric
    have hsignature : (Call.covarianceMatrix (A := Exact) (t.map real)).signature =
        ⟨.covarianceMatrix, [], K⟩ := congrArg (Signature.mk _ _ <| firstLength ·) shape
    have hlength : ((zs.map real).map Elementary.atanh).length = K * (K - 1) / 2 := by
      rw [List.length_map, List.length_map, factored.length]
    rw [hsignature]
    change Tensor.ofRows K (Factor.rescale
      (Factor.correlationOf K ((List.take (K * (K - 1) / 2) _).map Extended.tanh))
      ((List.drop (K * (K - 1) / 2) _).map Elementary.exp)) = t.map real
    rw [List.take_left' hlength, List.drop_left' hlength, map_tanh_atanh factored.abs_lt_one,
      map_exp_log factored.pos,
      rescale_correlationOf square factored (isSymmetric_of_map_real hsymmetric),
      ← Tensor.slabs_map]
    exact Tensor.ofRows_slabs (hc.filled _ rfl) shape

/-- A call that a reader can undo: its arguments are finite, and it is as the reader relies on. -/
structure Call.IsReadable (c : Call Exact Extended) : Prop where
  finite : c.IsFinite
  proper : c.IsProper

/-- The values that an accepted call writes are read as its value, and nothing else is. -/
theorem read_output {c : Call Exact Extended} (hc : c.IsReadable) {o : Output Extended}
    (h : c.output = .ok o) (rest : List Extended) :
    c.signature.read (o.reals ++ rest) = some (c.value, rest) := by
  have hwidth : o.reals.length = c.signature.width := (Call.length_output hc.finite.filled h).1
  rw [Signature.read_append hwidth,
    rebuild_of_writes hc.finite hc.proper (Call.writes_of_output hc.finite h)]

/-- The values that accepted calls in a row write are read as the values of the calls. -/
theorem readAll_joined {cs : List (Call Exact Extended)} (hcs : ∀ c ∈ cs, c.IsReadable)
    (haccepted : ∀ c ∈ cs, ∃ o, c.output = .ok o) (rest : List Extended) :
    Signature.readAll (cs.map Call.signature)
      ((Output.joined (cs.filterMap fun c => c.output.toOption)).reals ++ rest) =
        some (cs.map Call.value, rest) := by
  induction cs with
  | nil => rfl
  | cons c cs ih =>
    rw [List.forall_mem_cons] at hcs haccepted
    obtain ⟨⟨o, ho⟩, haccepted⟩ := haccepted
    have hreals : (Output.joined ((c :: cs).filterMap fun c => c.output.toOption)).reals =
        o.reals ++ (Output.joined (cs.filterMap fun c => c.output.toOption)).reals := by
      rw [List.filterMap_cons, ho]
      rfl
    rw [hreals, List.append_assoc, List.map_cons, Signature.readAll, read_output hcs.1 ho]
    exact congrArg (· >>= fun (ys, rest) => some (c.value :: ys, rest)) (ih hcs.2 haccepted)

/-- What accepted calls in a row add to a writer is read as the values of the calls. -/
theorem readAll_since {w : Writer Extended} {cs : List (Call Exact Extended)}
    (hcs : ∀ c ∈ cs, c.IsReadable) (haccepted : ∀ r ∈ (w.run cs).1, r = .ok ()) :
    Signature.readAll (cs.map Call.signature) (w.since (w.run cs).2).reals =
      some (cs.map Call.value, []) := by
  rw [Writer.run_eq] at haccepted ⊢
  have hok : ∀ c ∈ cs, ∃ o, c.output = .ok o := by
    intro c hc
    obtain ⟨o, ho, -⟩ := map_eq_ok_iff.mp (haccepted _ (List.mem_map_of_mem hc))
    exact ⟨o, ho⟩
  have hall := readAll_joined hcs hok []
  rw [List.append_nil] at hall
  rw [Writer.since_append]
  exact hall

/-- In exact arithmetic the real values of a writer can be read back by a reader that knows
only the signatures of the calls.

Of calls in a row that are all accepted, with finite arguments and proper values, the reader
recovers every value and takes up all that was written.  So calls of the same signatures that
leave the same real values are calls of the same values. -/
theorem reals_decodable (w : Writer Extended) (cs : List (Call Exact Extended))
    (hcs : ∀ c ∈ cs, c.IsReadable) (haccepted : ∀ r ∈ (w.run cs).1, r = .ok ()) :
    Signature.readAll (cs.map Call.signature) (w.since (w.run cs).2).reals =
      some (cs.map Call.value, []) ∧
    ∀ ds : List (Call Exact Extended), (∀ d ∈ ds, d.IsReadable) →
      (∀ r ∈ (w.run ds).1, r = .ok ()) → ds.map Call.signature = cs.map Call.signature →
      (w.run ds).2.reals = (w.run cs).2.reals → ds.map Call.value = cs.map Call.value := by
  have hread := readAll_since hcs haccepted
  refine ⟨hread, fun ds hds hok hsignatures hreals => ?_⟩
  have hsince : (w.since (w.run ds).2).reals = (w.since (w.run cs).2).reals :=
    congrArg (List.drop w.reals.length) hreals
  have hread' := readAll_since hds hok
  rw [hsignatures, hsince, hread] at hread'
  exact (Prod.mk.inj (Option.some.inj hread')).1.symm

/-! ## Values at the ends of their constraints -/

/-- Calls with values at the ends of their constraints, and a matrix. -/
noncomputable def boundaryCalls : List (Call Exact Extended) :=
  [.integer (.integer 7), .probability (.integer 1),
    .positiveOrdered (Tensor.map real ⟨[2], [0, 0]⟩), .simplex (Tensor.map real ⟨[2], [0, 1]⟩),
    .covarianceMatrix (Tensor.map real ⟨[2, 2], [1, 0, 0, 1]⟩)]

theorem isSymmetric_identity :
    Factor.IsSymmetric [[real 1, real 0], [real 0, real 1]] := by
  intro i j
  unfold Factor.entry
  match i, j with
  | 0, 0 | 0, 1 | 1, 0 | 1, 1 => rfl
  | 0, j + 2 | 1, j + 2 => simp
  | i + 2, 0 | i + 2, 1 => simp
  | i + 2, j + 2 => simp

theorem isReadable_boundaryCalls : ∀ c ∈ boundaryCalls, c.IsReadable := by
  have hscalar : ∀ n : Int, ∀ a ∈ [Exact.integer n], Elementary.isFinite a.value = true :=
    fun n => List.forall_mem_singleton.mpr (Extended.isFinite_real n)
  have hproper : (Call.simplex (A := Exact) (Tensor.map real ⟨[2], [0, 1]⟩)).IsProper := by
    refine ⟨?_, ?_⟩
    · refine (Extended.sum_map_real [0, 1]).trans (congrArg real ?_)
      norm_num
    · rintro last ⟨⟩
      exact Extended.real_lt_real.mpr zero_lt_one
  simp only [boundaryCalls, List.forall_mem_cons]
  refine ⟨⟨Call.isFinite_of_scalars rfl (hscalar 7), trivial⟩,
    ⟨Call.isFinite_of_scalars rfl (hscalar 1), trivial⟩,
    ⟨Call.isFinite_of_tensor (t := ⟨[2], [0, 0]⟩) rfl rfl rfl, trivial⟩,
    ⟨Call.isFinite_of_tensor (t := ⟨[2], [0, 1]⟩) rfl rfl rfl, hproper⟩,
    ⟨Call.isFinite_of_tensor (t := ⟨[2, 2], [1, 0, 0, 1]⟩) rfl rfl rfl, isSymmetric_identity⟩,
    by simp⟩

theorem ofCovariance_identity :
    Factor.ofCovariance [[real 1, real 0], [real 0, real 1]] =
      .ok ⟨[real 0], [real 0, real 0]⟩ := by
  have hroot : Elementary.sqrt (real 1) = real 1 :=
    (Extended.sqrt_real zero_le_one).trans (congrArg real Real.sqrt_one)
  have hlog : Elementary.log (real 1) = real 0 :=
    (Extended.log_real zero_lt_one).trans (congrArg real Real.log_one)
  have hatanh : Elementary.atanh (real 0) = real 0 :=
    (Extended.atanh_real (by norm_num) zero_lt_one).trans (congrArg real Real.artanh_zero)
  have hpos : (0 : Extended) < real 1 := by
    rw [← Extended.real_zero, Extended.real_lt_real]
    exact zero_lt_one
  have hnot : ¬ real 1 ≤ (0 : Extended) := by
    rw [← Extended.real_zero, Extended.real_le_real]
    norm_num
  have hstandard : Factor.standardize [[real 1, real 0], [real 0, real 1]] [real 1, real 1] =
      [[real 1, real 0], [real 0, real 1]] := by
    simp [Factor.standardize, Extended.real_div_real, ← Extended.real_one]
  have hfactor : Factor.cholesky [[real 1, real 0], [real 1]] =
      some [[real 1, real 0], [real 1]] := by
    simp [Factor.cholesky_cons, Factor.cholesky_nil, Factor.eliminate, Extended.real_div_real,
      hnot, hroot]
  have hdiagonal : Factor.diagonal [[real 1, real 0], [real 0, real 1]] = [real 1, real 1] := rfl
  have htriangle : Factor.upperTriangle [[real 1, real 0], [real 0, real 1]] =
      [[real 1, real 0], [real 1]] := rfl
  have hpartial : real 0 / Elementary.sqrt (1 - 0 : Extended) = real 0 := by
    rw [← Extended.real_one, ← Extended.real_zero, Extended.real_sub_real, sub_zero, hroot,
      Extended.real_div_real 0 one_ne_zero, zero_div]
  simp [Factor.ofCovariance, hdiagonal, hpos, hroot, hstandard, htriangle, hfactor, hlog,
    Factor.ofUpper, Factor.partials, hpartial, hatanh]

theorem covarianceMatrix_identity :
    (covarianceMatrix (Tensor.map real ⟨[2, 2], [1, 0, 0, 1]⟩) :
      Except (Refusal Exact Extended) _) = .ok [real 0, real 0, real 0] := by
  have hasymmetry : asymmetry [[real 1, real 0], [real 0, real 1]] = real 0 := by
    simp [asymmetry, transpose, magnitude, largest, larger, List.range, List.range.loop,
      ← Extended.real_zero]
  have hscale : symmetryScale [[real 1, real 0], [real 0, real 1]] = real 1 := by
    simp [symmetryScale, largest, larger, magnitude, ← Extended.real_zero, ← Extended.real_one]
    norm_num
  have hsymmetric : asymmetry [[real 1, real 0], [real 0, real 1]] ≤
      tolerance * symmetryScale [[real 1, real 0], [real 0, real 1]] := by
    rw [hasymmetry, hscale, tolerance_eq_real, Extended.real_mul_real, Extended.real_le_real]
    norm_num
  exact covarianceMatrix_eq_ok_iff.mpr
    ⟨2, _, two_ne_zero, rfl, hsymmetric, ofCovariance_identity, rfl⟩

theorem output_boundaryCalls :
    boundaryCalls.map Call.output = [.ok (.ofInteger 7), .ok (.real (.number ⊤)),
      .ok (.ofReals [.number ⊥, .number ⊥]), .ok (.ofReals [.number ⊥]),
      .ok (.ofReals [real 0, real 0, real 0])] := by
  have hvalue : (Exact.integer 1).value = real 1 := congrArg real Int.cast_one
  have hprobability : probability (Exact.integer 1) = .ok (.number ⊤) := by
    refine probability_eq_ok_iff.mpr ⟨(atMost_eq_ok_true (value_ofInt 0) hvalue).mpr (by simp),
      (atMost_eq_ok_true hvalue (value_ofInt 1)).mpr (by simp), ?_⟩
    change Except.ok (Elementary.logit (Exact.integer 1).value) = _
    rw [hvalue, Extended.logit_real_one]
  have hordered : (positiveOrdered (Tensor.map real ⟨[2], [0, 0]⟩) :
      Except (Refusal Exact Extended) _) = .ok [.number ⊥, .number ⊥] := by
    refine positiveOrdered_eq_ok_iff.mpr ⟨rfl, ?_, ?_, ?_⟩
    · rintro first ⟨⟩
      exact Extended.real_le_real.mpr le_rfl
    · change List.IsChain _ [real 0, real 0]
      simp [← Extended.real_zero]
    · refine Eq.trans ?_ (logIncrements_map_real [0, 0]).symm
      simp [steps, increments, Extended.log_real_zero]
  have hsimplex : (simplex (Tensor.map real ⟨[2], [0, 1]⟩) : Except (Refusal Exact Extended) _) =
      .ok [.number ⊥] := by
    have hsum : blockSum [real 0, real 1] = 1 := by
      rw [blockSum, pairedSum, if_neg (by simp)]
      simp [sumLanes, sumLeft, ← Extended.real_zero, ← Extended.real_one]
    have hratio : Elementary.log (real 0) - Elementary.log (real 1) = .number ⊥ := by
      rw [Extended.log_real_zero, Extended.log_real zero_lt_one, Extended.bot_sub_real]
    have hratios : logRatios [real 0, real 1] = [.number ⊥] := by
      simp [logRatios, hratio]
    refine (simplex_of_blockSum rfl (by simp [Tensor.map]) hsum ?_).trans (congrArg _ hratios)
    refine List.forall_mem_map.mpr fun x hx => ?_
    rw [← Extended.real_zero, Extended.real_le_real]
    rcases List.mem_pair.mp hx with rfl | rfl
    · exact le_rfl
    · exact zero_le_one
  simp only [boundaryCalls, List.map_cons, List.map_nil, Call.output, hprobability, hordered,
    hsimplex, covarianceMatrix_identity]
  rfl

/-- Of accepted calls with values at the ends of their constraints, infinities and all, the
reader recovers every value. -/
theorem reals_decodable_boundaryCalls :
    (∀ c ∈ boundaryCalls, c.IsReadable) ∧
    (∀ r ∈ (Writer.run ⟨[], []⟩ boundaryCalls).1, r = .ok ()) ∧
    (Writer.run ⟨[], []⟩ boundaryCalls).2.reals =
      [.number ⊤, .number ⊥, .number ⊥, .number ⊥, real 0, real 0, real 0] ∧
    Signature.readAll (boundaryCalls.map Call.signature)
      (Writer.since ⟨[], []⟩ (Writer.run ⟨[], []⟩ boundaryCalls).2).reals =
        some (boundaryCalls.map Call.value, []) := by
  have hrun : Writer.run ⟨[], []⟩ boundaryCalls =
      ((boundaryCalls.map Call.output).map fun r => r.map fun _ => (),
        Writer.append ⟨[], []⟩
          (.joined ((boundaryCalls.map Call.output).filterMap (·.toOption)))) := by
    rw [Writer.run_eq, List.map_map, List.filterMap_map]
    rfl
  rw [output_boundaryCalls] at hrun
  have haccepted : ∀ r ∈ (Writer.run ⟨[], []⟩ boundaryCalls).1, r = .ok () := by
    rw [hrun]
    simp [Except.map]
  refine ⟨isReadable_boundaryCalls, haccepted, ?_, ?_⟩
  · rw [hrun]
    rfl
  · exact (reals_decodable ⟨[], []⟩ boundaryCalls isReadable_boundaryCalls haccepted).1

end EnsembleSampling.Unconstrain
