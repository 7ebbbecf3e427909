import EnsembleSampling.Proofs.Position.Dimension
import EnsembleSampling.Proofs.Run.Support
import EnsembleSampling.Run.Report
set_option autoImplicit false

/-!
# Runs that are resumed

A run may be ended after any of its sweeps and taken up again from the positions recorded
last, with the host in the state in which it was left.  The second run checks these positions
as it would any others, and begins with a fresh sampler and a fresh buffer; nothing of this
shows (`runAt_add`), because a run is its plain sweeps in a row, and these are given nothing
but positions.  What is called from outside is such a run (`outcome_runOf`).
-/

namespace EnsembleSampling

variable {σ ε α β V : Type}

/-! ## Sweeps in two rows -/

/-- The positions after some sweeps in a row from given positions. -/
def endPositions : List V → List (List (Walker V β)) → List V
  | xs, [] => xs
  | _, ws :: ts => endPositions (ws.map Walker.position) ts

theorem mem_endPositions {I : V → Prop} {xs : List V} (hxs : ∀ x ∈ xs, I x)
    {ts : List (List (Walker V β))} (hts : ∀ ws ∈ ts, ∀ a ∈ ws, I a.position) :
    ∀ x ∈ endPositions xs ts, I x := by
  induction ts generalizing xs with
  | nil => exact hxs
  | cons ws ts ih =>
    rw [List.forall_mem_cons] at hts
    exact ih (List.forall_mem_map.mpr hts.1) hts.2

/-- The positions after some sweeps are those of the last one. -/
theorem endPositions_append_singleton (xs : List V) (ts : List (List (Walker V β)))
    (ws : List (Walker V β)) : endPositions xs (ts ++ [ws]) = ws.map Walker.position := by
  induction ts generalizing xs with
  | nil => rfl
  | cons t ts ih => exact ih _

section

variable [LinearOps α V] [LogScale β] (h : Host σ ε α β V) (limit : Nat)

/-- Sweeps in a row are the first of them, and then the others from where these end. -/
theorem plainSweeps_add (m n : Nat) (xs : List V) :
    plainSweeps h limit (m + n) xs = plainSweeps h limit m xs >>= fun ts =>
      (ts ++ ·) <$> plainSweeps h limit n (endPositions xs ts) := by
  induction m generalizing xs with
  | zero => simp [plainSweeps, endPositions]
  | succ m ih =>
    rw [Nat.succ_add, plainSweeps, plainSweeps]
    simp only [ih, bind_assoc, pure_bind, map_eq_pure_bind, endPositions, List.cons_append]

theorem length_plainSweeps (sweeps : Nat) (xs : List V) :
    Draw.Always (fun ts => ts.length = sweeps) (plainSweeps h limit sweeps xs) := by
  induction sweeps generalizing xs with
  | zero => exact .pure rfl
  | succ sweeps ih =>
    rw [plainSweeps]
    refine Draw.Always.bind_any fun ws => ?_
    refine (ih _).bind fun rest hrest => ?_
    exact .pure (by simpa using hrest)

/-- Sweeps in a row never change the number of walkers. -/
theorem length_endPositions (sweeps : Nat) (xs : List V) :
    Draw.Always (fun ts => (endPositions xs ts).length = xs.length)
      (plainSweeps h limit sweeps xs) := by
  induction sweeps generalizing xs with
  | zero => exact .pure rfl
  | succ sweeps ih =>
    rw [plainSweeps]
    refine (length_plainSweep h limit xs).bind fun ws hws => ?_
    refine (ih _).bind fun rest hrest => ?_
    refine .pure ?_
    rw [endPositions, hrest, List.length_map, hws]

end

/-! ## Runs in two parts -/

/-- The chain of a run that was ended after one chain and gave another when it was taken up
again. -/
def Chain.append (c c' : Chain V β) : Chain V β := ⟨c.size, c.dims, c'.recorded ++ c.recorded⟩

theorem Chain.sweeps_append (c c' : Chain V β) : (c.append c').sweeps = c.sweeps ++ c'.sweeps := by
  simp [append, sweeps]

theorem Chain.ofSweeps_append (size dims : Nat) (ts us : List (List (Walker V β))) :
    (ofSweeps size dims ts).append (ofSweeps size dims us) = ofSweeps size dims (ts ++ us) := by
  simp [append, ofSweeps]

/-- The table of the positions recorded last, or the one that the run started from. -/
def Chain.endTable (c : Chain (Point α) β) (t : Tensor α) : Tensor α :=
  match c.recorded with
  | [] => t
  | e :: _ => e.positionTable

/-- Taking a run up again, the positions recorded last are read as they were written. -/
theorem ofPositions_endTable [LogScale β] {t : Tensor α} {e : Ensemble (Point α) β}
    (he : Ensemble.ofPositions t = .ok e) (hstart : e = .start e.dims e.positions)
    {ts : List (List (Walker (Point α) β))}
    (hts : (Ensemble.start e.dims (endPositions e.positions ts) : Ensemble _ β).Regular) :
    (Ensemble.ofPositions ((Chain.ofSweeps e.size e.dims ts).endTable t) :
      Except Rejection (Ensemble (Point α) β)) =
        .ok (.start e.dims (endPositions e.positions ts)) := by
  rcases ts.eq_nil_or_concat with rfl | ⟨ts, ws, rfl⟩
  · exact he.trans (congrArg Except.ok hstart)
  · rw [List.concat_eq_append, endPositions_append_singleton] at hts ⊢
    have htable : (Chain.ofSweeps e.size e.dims (ts ++ [ws])).endTable t =
        (Ensemble.start e.dims (ws.map Walker.position) : Ensemble _ β).positionTable := by
      simp [Chain.ofSweeps, Chain.endTable, Ensemble.positionTable, Ensemble.positions,
        Ensemble.start, Function.comp_def]
    rw [htable, Ensemble.ofPositions_positionTable hts, Ensemble.positions_start]
    rfl

variable [Zero α] [Add α] [Sub α] [Mul α] [Div α] [NatCast α] [LogScale β]

/-- A run from a table of positions, which is checked first. -/
def runAt (h : Host σ ε α β (Point α)) (limit sweeps : Nat) (t : Tensor α) :
    Draw σ (SweepFailure ε) (Chain (Point α) β) :=
  match (Ensemble.ofPositions t : Except Rejection (Ensemble (Point α) β)) with
  | .ok e => .ofOutcome (run h limit sweeps e)
  | .error r => throw (.refused (.rejected r))

/-- A run from arguments is a run from the table that its positions stand for. -/
theorem outcome_runOf {density : Density} {positions sweeps seed : Argument}
    {generator : Option Random.Generator} {output : Option String} {t : Tensor Float} {n : Nat}
    {g : Random.Generator} (ht : Tensor.ofArgument positions = .ok t)
    (hn : sweepCount sweeps = .ok n) (hcountable : n ≤ countable)
    (hg : generator.elim (Random.Generator.ofSeed seed) .ok = .ok g) :
    (runOf density positions sweeps seed generator output).outcome =
      ((runAt Session.host Session.patience n t).outcome (.start g density)).1.mapError
        SweepFailure.toFault := by
  have he := Ensemble.ofArguments_absent positions
  unfold runOf runAt
  rw [hn, hg, he, ht]
  rcases hof : (Ensemble.ofPositions t : Except Rejection (Ensemble (Point Float) Float)) with r | e
  · simp only [bind, Except.bind, hof]
    rfl
  · have hnot : ¬ countable < n := Nat.not_lt.mpr hcountable
    have hchain : chainOf e n (.start g density) =
        ((run Session.host Session.patience n e (.start g density)).1.mapError
          SweepFailure.toFault, (run Session.host Session.patience n e (.start g density)).2) := by
      rw [chainOf, if_neg hnot]
    simp only [bind, Except.bind, hof, Except.mapError, pure, Except.pure, runReported, hchain]
    rfl

section

variable (h : Host σ ε α β (Point α)) (limit : Nat)

theorem runAt_of_ok {t : Tensor α} {e : Ensemble (Point α) β} (he : Ensemble.ofPositions t = .ok e)
    (hregular : e.Regular) (sweeps : Nat) :
    runAt h limit sweeps t =
      Chain.ofSweeps e.size e.dims <$> plainSweeps h limit sweeps e.positions := by
  apply Draw.ext
  intro w
  rw [runAt, he]
  simp only [Draw.outcome_ofOutcome]
  rw [run_eq_plainSweeps, Chain.start_eq_ok hregular.size hregular.dims]

theorem runAt_of_error {t : Tensor α} {r : Rejection}
    (hr : (Ensemble.ofPositions t : Except Rejection (Ensemble (Point α) β)) = .error r)
    (sweeps : Nat) : runAt h limit sweeps t = throw (.refused (.rejected r)) := by
  rw [runAt, hr]

/-- Among ensembles that a sampler can start from, sweeps lead to no others. -/
theorem regular_endPositions {e : Ensemble (Point α) β} (he : e.Regular) (sweeps : Nat) :
    Draw.Always
      (fun ts => (Ensemble.start e.dims (endPositions e.positions ts) : Ensemble _ β).Regular ∧
        (endPositions e.positions ts).length = e.size)
      (plainSweeps h limit sweeps e.positions) := by
  have hdims := always_plainSweeps h limit
    (fun _ hcurrent index _ hx => dim_plainMove h limit hcurrent index hx) (fun _ ha => ha) sweeps
    he.dim
  refine (hdims.and (length_endPositions h limit sweeps e.positions)).mono ?_
  rintro ts ⟨hts, hlength⟩
  rw [Ensemble.length_positions] at hlength
  refine ⟨⟨?_, he.dims, ?_⟩, hlength⟩
  · rw [Ensemble.size_start, hlength]
    exact he.size
  · rw [Ensemble.positions_start]
    exact mem_endPositions he.dim hts

/-- A run of so many sweeps is a run of the first of them, and then one of the others from the
positions recorded last. -/
theorem runAt_add {t : Tensor α} (ht : t.Filled) (n m : Nat) :
    runAt h limit (n + m) t =
      runAt h limit n t >>= fun c => c.append <$> runAt h limit m (c.endTable t) := by
  rcases he : (Ensemble.ofPositions t : Except Rejection (Ensemble (Point α) β)) with r | e
  · rw [runAt_of_error h limit he, runAt_of_error h limit he]
    rfl
  · obtain ⟨hregular, hstart⟩ := Ensemble.regular_of_ofPositions ht he
    rw [runAt_of_ok h limit he hregular, runAt_of_ok h limit he hregular, plainSweeps_add]
    simp only [map_eq_pure_bind, bind_assoc, pure_bind]
    refine (regular_endPositions h limit hregular n).bind_congr ?_
    rintro ts ⟨hts, hlength⟩
    have hsecond := runAt_of_ok h limit (ofPositions_endTable he hstart hts) hts m
    rw [Ensemble.size_start, Ensemble.positions_start, hlength] at hsecond
    rw [hsecond]
    simp only [map_eq_pure_bind, bind_assoc, pure_bind, Ensemble.start, Chain.ofSweeps_append]

/-- A chain has as many sweeps as its run. -/
theorem length_runAt {t : Tensor α} (ht : t.Filled) (sweeps : Nat) :
    Draw.Always (fun c => c.length = sweeps) (runAt h limit sweeps t) := by
  rcases he : (Ensemble.ofPositions t : Except Rejection (Ensemble (Point α) β)) with r | e
  · rw [runAt_of_error h limit he]
    exact .throw _
  · obtain ⟨hregular, -⟩ := Ensemble.regular_of_ofPositions ht he
    rw [runAt_of_ok h limit he hregular, map_eq_pure_bind]
    refine (length_plainSweeps h limit sweeps e.positions).bind fun ts hts => ?_
    refine .pure ?_
    rw [← Chain.length_sweeps, Chain.sweeps_ofSweeps, List.length_map, hts]

/-- **Runs can be split and resumed.**  From any table of positions, a run of `n + m` sweeps
gives a chain exactly when a run of `n` sweeps does and then, from the positions that this one
recorded last (or from the table, if `n` is zero) and with the host in the state in which this
one left it, a run of `m` sweeps; its chain is then the chain of the first followed by that of
the second, and leaves the host as the second does.  Hence a chain has exactly as many sweeps
as its run, and a shorter run gives the first of them.

What is called from outside is such a run.  If `n + m` sweeps can be counted, then from any
positions a call for `n + m` of them, or for any number up to that, has the outcome of the run from
the table that the positions stand for. -/
theorem run_splits_and_resumes {t : Tensor α} (ht : t.Filled) (n m : Nat) (w : σ) :
    (∀ c w'', (runAt h limit (n + m) t).outcome w = (.ok c, w'') ↔
      ∃ c₁ w' c₂, (runAt h limit n t).outcome w = (.ok c₁, w') ∧
        (runAt h limit m (c₁.endTable t)).outcome w' = (.ok c₂, w'') ∧ c = c₁.append c₂) ∧
    (∀ c w', (runAt h limit n t).outcome w = (.ok c, w') → c.sweeps.length = n) ∧
    (∀ c w'', (runAt h limit (n + m) t).outcome w = (.ok c, w'') →
      ∃ c₁ w', (runAt h limit n t).outcome w = (.ok c₁, w') ∧ c₁.sweeps = c.sweeps.take n) ∧
    (n + m ≤ countable → ∀ k ≤ n + m, ∀ (density : Density) (positions sweeps seed : Argument)
      (generator : Option Random.Generator) (output : Option String) (start : Tensor Float)
      (g : Random.Generator), Tensor.ofArgument positions = .ok start →
        sweepCount sweeps = .ok k → generator.elim (Random.Generator.ofSeed seed) .ok = .ok g →
          (runOf density positions sweeps seed generator output).outcome =
            ((runAt Session.host Session.patience k start).outcome (.start g density)).1.mapError
              SweepFailure.toFault) := by
  have hsplit : ∀ c w'', (runAt h limit (n + m) t).outcome w = (.ok c, w'') ↔
      ∃ c₁ w' c₂, (runAt h limit n t).outcome w = (.ok c₁, w') ∧
        (runAt h limit m (c₁.endTable t)).outcome w' = (.ok c₂, w'') ∧ c = c₁.append c₂ := by
    intro c w''
    rw [runAt_add h limit ht, Draw.outcome_bind_eq_ok_iff]
    simp only [map_eq_pure_bind, Draw.outcome_bind_eq_ok_iff, Draw.outcome_pure, Prod.mk.injEq,
      Except.ok.injEq]
    constructor
    · rintro ⟨c₁, w', h₁, c₂, w₂, h₂, rfl, rfl⟩
      exact ⟨c₁, w', c₂, h₁, h₂, rfl⟩
    · rintro ⟨c₁, w', c₂, h₁, h₂, rfl⟩
      exact ⟨c₁, w', h₁, c₂, w'', h₂, rfl, rfl⟩
  have hlength : ∀ c w', (runAt h limit n t).outcome w = (.ok c, w') → c.sweeps.length = n := by
    intro c w' hc
    rw [Chain.length_sweeps]
    exact length_runAt h limit ht n w c w' hc
  refine ⟨hsplit, hlength, fun c w'' hc => ?_, ?_⟩
  · obtain ⟨c₁, w', c₂, h₁, -, rfl⟩ := (hsplit c w'').mp hc
    refine ⟨c₁, w', h₁, ?_⟩
    rw [Chain.sweeps_append, List.take_left' (hlength c₁ w' h₁)]
  · intro hcountable k hk _ _ _ _ _ _ _ _ hstart hsweeps hg
    exact outcome_runOf hstart hsweeps (hk.trans hcountable) hg

end

/-- Two sweeps of three walkers on a line, the second of which is made after the first was
recorded and its positions were read again; and the same number of them called for from outside. -/
theorem run_splits_and_resumes_line :
    let h : Host (Tape Float (Double signExp)) Unit Float (Double signExp) (Point Float) :=
      steadyHost 0.5
    let t : Tensor Float := ⟨[3, 1], [0, 1, 2]⟩
    let tape : Tape Float (Double signExp) :=
      ⟨List.replicate 12 1, [1, 0.5, 1, 0, 0, 1, 1, 1, 1, 1, 1, 1], []⟩
    t.Filled ∧
      ∃ c₁ w' c₂ w'', (runAt h 1 1 t).outcome tape = (.ok c₁, w') ∧
        (runAt h 1 1 (c₁.endTable t)).outcome w' = (.ok c₂, w'') ∧
        (runAt h 1 2 t).outcome tape = (.ok (c₁.append c₂), w'') ∧
        1 + 1 ≤ countable ∧
        let g : Random.Generator := .congruential (.ofSeed 1)
        (runOf .gaussian (.ofRows [[0], [1], [2]]) (.integer 2) .absent (some g) none).outcome =
          ((runAt Session.host Session.patience 2 t).outcome (.start g .gaussian)).1.mapError
            SweepFailure.toFault := by
  intro h t tape
  have ht : t.Filled := rfl
  have hends : ((runAt h 1 2 t).outcome tape).1.toOption.any (fun _ => true) = true := by
    decide +kernel
  have hcountable : 1 + 1 ≤ countable := by decide
  obtain ⟨hsplit, -, -, hcalled⟩ := run_splits_and_resumes h 1 ht 1 1 tape
  obtain ⟨c, w'', hrun, -⟩ := Draw.exists_ok_of_any hends
  obtain ⟨c₁, w', c₂, h₁, h₂, rfl⟩ := (hsplit c w'').mp hrun
  exact ⟨ht, c₁, w', c₂, w'', h₁, h₂, hrun, hcountable,
    hcalled hcountable 2 (Nat.le_refl 2) _ _ _ _ _ _ _ _ rfl rfl rfl⟩

end EnsembleSampling
