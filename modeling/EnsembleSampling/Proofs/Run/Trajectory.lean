import EnsembleSampling.Proofs.Sweep.Buffering
import EnsembleSampling.Run
set_option autoImplicit false

/-!
# Trajectories

A run is its plain sweeps in a row, each from the positions that the one before it
answered (`plainSweeps`).  `run_eq_plainSweeps` says so of every run that begins: the
chain holds these sweeps and nothing else, and the run fails where they fail.  What is
proved of a whole run is proved of `plainSweeps`, by induction on the number of sweeps.
-/

namespace EnsembleSampling

variable {σ ε α β V : Type}

/-! ## Chains of given sweeps -/

/-- The chain in which given sweeps are recorded, the first one first. -/
def Chain.ofSweeps (size dims : Nat) (ts : List (List (Walker V β))) : Chain V β :=
  ⟨size, dims, (ts.map (Ensemble.mk dims)).reverse⟩

theorem Chain.sweeps_ofSweeps (size dims : Nat) (ts : List (List (Walker V β))) :
    (Chain.ofSweeps size dims ts).sweeps = ts.map (Ensemble.mk dims) := by
  simp [Chain.ofSweeps, Chain.sweeps]

theorem Chain.ofSweeps_injective (size dims : Nat) :
    Function.Injective (Chain.ofSweeps size dims : List (List (Walker V β)) → Chain V β) := by
  intro ts us h
  have hsweeps := congrArg Chain.sweeps h
  rw [sweeps_ofSweeps, sweeps_ofSweeps] at hsweeps
  exact (List.map_inj_right fun _ _ h => congrArg Ensemble.walkers h).mp hsweeps

/-- A chain can be started from three walkers on, in at least one dimension. -/
theorem Chain.start_eq_ok {size dims : Nat} (hsize : minWalkers ≤ size) (hdims : 0 < dims) :
    (Chain.start size dims : Except Fault (Chain V β)) = .ok ⟨size, dims, []⟩ := by
  have h₁ : ¬ size < minWalkers := Nat.not_lt.mpr hsize
  have h₂ : dims ≠ 0 := Nat.pos_iff_ne_zero.mp hdims
  simp [Chain.start, h₁, h₂]

theorem Chain.le_of_start_eq_ok {size dims : Nat} {c : Chain V β}
    (hc : (Chain.start size dims : Except Fault (Chain V β)) = .ok c) :
    minWalkers ≤ size ∧ 0 < dims := by
  unfold Chain.start at hc
  split at hc
  · simp at hc
  · split at hc
    · simp at hc
    · constructor <;> omega

/-! ## Sweeps in a row -/

variable [LinearOps α V] [LogScale β]

/-- The walkers after each of so many walking sweeps in a row, from given positions. -/
def plainSweeps (h : Host σ ε α β V) (limit : Nat) :
    (sweeps : Nat) → List V → Draw σ (SweepFailure ε) (List (List (Walker V β)))
  | 0, _ => pure []
  | sweeps + 1, xs => do
    let ws ← plainSweep h limit xs
    let rest ← plainSweeps h limit sweeps (ws.map Walker.position)
    pure (ws :: rest)

section

variable (h : Host σ ε α β V) (limit : Nat)

/-- Sweeps in a row that succeed are one that does, and others from where it ends. -/
theorem plainSweeps_succ_eq_ok {sweeps : Nat} {xs : List V} {w w' : σ}
    {ts : List (List (Walker V β))}
    (hts : (plainSweeps h limit (sweeps + 1) xs).outcome w = (.ok ts, w')) :
    ∃ ws w₁ rest, (plainSweep h limit xs).outcome w = (.ok ws, w₁) ∧
      (plainSweeps h limit sweeps (ws.map Walker.position)).outcome w₁ = (.ok rest, w') ∧
      ts = ws :: rest := by
  rw [plainSweeps] at hts
  obtain ⟨ws, w₁, hws, hnext⟩ := Draw.outcome_bind_eq_ok_iff.mp hts
  obtain ⟨rest, w₂, hrest, hcons⟩ := Draw.outcome_bind_eq_ok_iff.mp hnext
  obtain ⟨rfl, rfl⟩ : ws :: rest = ts ∧ w₂ = w' := by simpa using hcons
  exact ⟨ws, w₁, rest, hws, hrest, rfl⟩

/-- Sweeps after sweeps are that many plain sweeps, recorded behind what was there. -/
theorem Sampler.extend_eq :
    ∀ (sweeps : Nat) (s : Sampler V β) (c : Chain V β) (w : σ),
      s.Matched → s.kernel = .walk → s.current.size = c.size → s.current.dims = c.dims →
      match (plainSweeps h limit sweeps s.current.positions).outcome w with
      | (.ok ts, w') => ∃ s' : Sampler V β, Sampler.extend h limit sweeps s c w =
          (.ok (s', { c with recorded := (ts.map (Ensemble.mk c.dims)).reverse ++ c.recorded }), w')
      | (.error e, w') => Sampler.extend h limit sweeps s c w = (.error e, w') := by
  intro sweeps
  induction sweeps with
  | zero =>
    intro s c w _ _ _ _
    exact ⟨s, rfl⟩
  | succ sweeps ih =>
    intro s c w hs hk hsize hdims
    have ht := Sampler.transition_eq hs h limit w
    rw [hk] at ht
    rw [plainSweeps, Sampler.extend, Sampler.transitionInto]
    rcases hx : (plainSweep h limit s.current.positions).outcome w with ⟨e | ws, w'⟩
    · simp only [Kernel.plainSweep, hx] at ht
      obtain ⟨spoilt, -, hm⟩ := ht
      rw [Draw.outcome_bind_of_error hx, hm]
    · have hws : ws.length = s.current.size := by
        rw [← Ensemble.length_positions]
        exact length_plainSweep h limit s.current.positions w ws w' hx
      simp only [Kernel.plainSweep, hx] at ht
      have hrecord : c.record (⟨s.current.dims, ws⟩ : Ensemble V β) =
          .ok { c with recorded := ⟨s.current.dims, ws⟩ :: c.recorded } :=
        Chain.record_of_fits (hws.trans hsize) hdims
      have hs' : (⟨.walk, ⟨s.current.dims, ws⟩, s.current, s.sweeps + 1⟩ : Sampler V β).Matched :=
        Ensemble.shape_eq_iff.mpr ⟨hws.symm, rfl⟩
      have hrest := ih ⟨.walk, ⟨s.current.dims, ws⟩, s.current, s.sweeps + 1⟩
        { c with recorded := ⟨s.current.dims, ws⟩ :: c.recorded } w' hs' rfl (hws.trans hsize) hdims
      rw [Draw.outcome_bind_of_ok hx, ht]
      simp only [hrecord]
      rcases hxs : (plainSweeps h limit sweeps (ws.map Walker.position)).outcome w' with
        ⟨e | ts, w''⟩
      · rw [Draw.outcome_bind_of_error hxs]
        simp only [Ensemble.positions, hxs] at hrest
        exact hrest
      · rw [Draw.outcome_bind_of_ok hxs]
        simp only [Ensemble.positions, hxs] at hrest
        obtain ⟨s', hm⟩ := hrest
        refine ⟨s', ?_⟩
        rw [hm, hdims]
        simp

/-- A run from too few walkers, or in no dimension, is turned down before it asks for
anything; any other is its plain sweeps in a row. -/
theorem run_eq_plainSweeps (sweeps : Nat) (e : Ensemble V β) (w : σ) :
    run h limit sweeps e w =
      match (Chain.start e.size e.dims : Except Fault (Chain V β)) with
      | .error f => (.error (.refused f), w)
      | .ok _ =>
        (Chain.ofSweeps e.size e.dims <$> plainSweeps h limit sweeps e.positions).outcome w := by
  rw [run]
  rcases hc : (Chain.start e.size e.dims : Except Fault (Chain V β)) with f | c
  · rfl
  · obtain ⟨hsize, hdims⟩ := Chain.le_of_start_eq_ok hc
    obtain rfl : ⟨e.size, e.dims, []⟩ = c := by
      rw [Chain.start_eq_ok hsize hdims] at hc
      exact Except.ok.inj hc
    have hx := Sampler.extend_eq h limit sweeps (.start .walk e) ⟨e.size, e.dims, []⟩ w
      (Sampler.matched_start .walk e) rfl rfl rfl
    rw [show (Sampler.start .walk e).current.positions = e.positions from rfl] at hx
    rw [Draw.outcome_map]
    rcases hw : (plainSweeps h limit sweeps e.positions).outcome w with ⟨f | ts, w'⟩
    · rw [hw] at hx
      simp only [hx]
      rfl
    · rw [hw] at hx
      obtain ⟨s', hm⟩ := hx
      simp only [hm, List.append_nil]
      rfl

/-- The sweeps of a run that succeeds are the answers of its plain sweeps. -/
theorem plainSweeps_of_run {sweeps : Nat} {e : Ensemble V β} {w w' : σ} {c : Chain V β}
    (hrun : run h limit sweeps e w = (.ok c, w')) :
    ∃ ts, (plainSweeps h limit sweeps e.positions).outcome w = (.ok ts, w') ∧
      c = Chain.ofSweeps e.size e.dims ts := by
  rw [run_eq_plainSweeps] at hrun
  rcases hc : (Chain.start e.size e.dims : Except Fault (Chain V β)) with f | c₀
  · simp [hc] at hrun
  · simp only [hc, Draw.outcome_map] at hrun
    rcases hw : (plainSweeps h limit sweeps e.positions).outcome w with ⟨f | ts, w''⟩
    · simp [hw, Except.map] at hrun
    · obtain ⟨rfl, rfl⟩ : Chain.ofSweeps e.size e.dims ts = c ∧ w'' = w' := by
        simpa [hw, Except.map] using hrun
      exact ⟨ts, rfl, rfl⟩

/-- A run that succeeds has started from enough walkers, in some dimension. -/
theorem le_of_run {sweeps : Nat} {e : Ensemble V β} {w w' : σ} {c : Chain V β}
    (hrun : run h limit sweeps e w = (.ok c, w')) : minWalkers ≤ e.size ∧ 0 < e.dims := by
  rw [run] at hrun
  rcases hc : (Chain.start e.size e.dims : Except Fault (Chain V β)) with f | c₀
  · simp [hc] at hrun
  · exact Chain.le_of_start_eq_ok hc

/-! ## What every move leaves -/

section

variable {I : V → Prop} {P : Walker V β → Prop}

/-- If every move from positions with `I` leaves a walker with `P`, and such a walker is at a
position with `I` again, then sweeps in a row leave nothing else. -/
theorem always_plainSweeps
    (hP : ∀ current, (∀ y ∈ current, I y) → ∀ index x, I x →
      Draw.Always P (plainMove h limit current index x))
    (hI : ∀ a, P a → I a.position) (sweeps : Nat) {xs : List V} (hxs : ∀ x ∈ xs, I x) :
    Draw.Always (fun ts => ∀ ws ∈ ts, ∀ a ∈ ws, P a) (plainSweeps h limit sweeps xs) := by
  induction sweeps generalizing xs with
  | zero => exact .pure (by simp)
  | succ sweeps ih =>
    rw [plainSweeps]
    refine (always_plainSweep h limit hP hxs).bind fun ws hws => ?_
    have hnext : ∀ x ∈ ws.map Walker.position, I x :=
      List.forall_mem_map.mpr fun a ha => hI a (hws a ha)
    refine (ih hnext).bind fun rest hrest => ?_
    exact .pure (List.forall_mem_cons.mpr ⟨hws, hrest⟩)

/-- The same of every walker of every recorded sweep of a run that starts from positions
with `I`. -/
theorem always_of_run_from
    (hP : ∀ current, (∀ y ∈ current, I y) → ∀ index x, I x →
      Draw.Always P (plainMove h limit current index x))
    (hI : ∀ a, P a → I a.position) {sweeps : Nat} {e : Ensemble V β}
    (he : ∀ x ∈ e.positions, I x) {w w' : σ} {c : Chain V β}
    (hrun : run h limit sweeps e w = (.ok c, w')) :
    ∀ t ∈ c.sweeps, ∀ a ∈ t.walkers, P a := by
  obtain ⟨ts, hts, rfl⟩ := plainSweeps_of_run h limit hrun
  intro t ht
  rw [Chain.sweeps_ofSweeps] at ht
  obtain ⟨ws, hws, rfl⟩ := List.mem_map.mp ht
  exact always_plainSweeps h limit hP hI sweeps he w ts w' hts ws hws

/-- Where a sweep starts from does not matter for what every move leaves. -/
theorem always_of_run
    (hP : ∀ current index x, Draw.Always P (plainMove h limit current index x)) {sweeps : Nat}
    {e : Ensemble V β} {w w' : σ} {c : Chain V β}
    (hrun : run h limit sweeps e w = (.ok c, w')) :
    ∀ t ∈ c.sweeps, ∀ a ∈ t.walkers, P a :=
  always_of_run_from h limit (I := fun _ => True) (fun current _ index x _ => hP current index x)
    (fun _ _ => trivial) (fun _ _ => trivial) hrun

end

end

end EnsembleSampling
