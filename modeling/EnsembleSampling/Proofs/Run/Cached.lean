import EnsembleSampling.Proofs.Run.Faithful
import Mathlib.Data.List.Chain
set_option autoImplicit false

/-!
# Recorded log-densities as a cache

A sweep evaluates the log-density at every walker's position, although the sweep before it
recorded an entry for just that position.  `cachedRun` is a run that evaluates a position
only in the first sweep and takes the entries from then on.

The two treat a walker differently only where the log-density is no number: a sweep that
evaluates the position accepts any proposal, and one that reads the infinity recorded for it
accepts for certain nothing but another infinity.  `cachedRun_records_iff` says that this is the
only difference.
-/

namespace EnsembleSampling

variable {σ ε α β V : Type}

/-! ## Sweeps that evaluate proposals only -/

section

variable [LinearOps α V] [LogScale β] (h : Host σ ε α β V) (limit : Nat)

/-- A walker after its move, where the entry of the walker stands for the log-density of its
position. -/
def cachedMove (current : List V) (index : Nat) (a : Walker V β) :
    Draw σ (SweepFailure ε) (Walker V β) := do
  let companions ← drawCompanions h index (current.length - 1) limit
  let deviates ← (Draw.times companions.length h.normal).inSweep
  let y := proposal a.position (companions.filterMap (current[·]?)) deviates
  let new ← (h.logDensity y).inSweep
  noteIfUndefined h index new
  let u ← h.uniform.inSweep
  pure ((⟨a.position, a.logProb, y, regarded new⟩ : Move V β).settle u)

/-- Walkers after their moves, the first of which has a given index. -/
def cachedMoves (current : List V) :
    Nat → List (Walker V β) → Draw σ (SweepFailure ε) (List (Walker V β))
  | _, [] => pure []
  | index, a :: as => do
    let b ← cachedMove h limit current index a
    let rest ← cachedMoves current (index + 1) as
    pure (b :: rest)

/-- The walkers after a sweep from given walkers. -/
def cachedSweep (ws : List (Walker V β)) : Draw σ (SweepFailure ε) (List (Walker V β)) :=
  if ws.length < minWalkers then throw (.refused (.rejected (.degenerate (.integer ws.length))))
  else cachedMoves h limit (ws.map Walker.position) 0 ws

/-- The walkers after each of so many sweeps in a row, from given walkers. -/
def cachedSweeps :
    (sweeps : Nat) → List (Walker V β) → Draw σ (SweepFailure ε) (List (List (Walker V β)))
  | 0, _ => pure []
  | sweeps + 1, ws => do
    let us ← cachedSweep h limit ws
    let rest ← cachedSweeps sweeps us
    pure (us :: rest)

/-- The walkers after each of so many sweeps in a row, from given positions, only the first of
which evaluates them. -/
def primedSweeps (sweeps : Nat) (xs : List V) :
    Draw σ (SweepFailure ε) (List (List (Walker V β))) :=
  match sweeps with
  | 0 => pure []
  | sweeps + 1 => do
    let ws ← plainSweep h limit xs
    let rest ← cachedSweeps h limit sweeps ws
    pure (ws :: rest)

/-- A run that evaluates the positions of walkers in its first sweep, and in every other takes
their log-densities from the sweep before. -/
def cachedRun (sweeps : Nat) (e : Ensemble V β) (w : σ) :
    Except (SweepFailure ε) (Chain V β) × σ :=
  match (Chain.start e.size e.dims : Except Fault (Chain V β)) with
  | .error f => (.error (.refused f), w)
  | .ok _ => (Chain.ofSweeps e.size e.dims <$> primedSweeps h limit sweeps e.positions).outcome w

end

/-! ## One sweep -/

/-- A walker at a position without a log-density is followed by one with an infinite
log-density. -/
def Walker.StaysInfinite [LogScale β] (f : V → β) (a b : Walker V β) : Prop :=
  LogScale.isUndefined (f a.position) = true → b.logProb = LogScale.infinity

/-- The same of every walker of a sweep and the walker that follows it. -/
def StayInfinite [LogScale β] (f : V → β) (ws us : List (Walker V β)) : Prop :=
  ∀ p ∈ ws.zip us, p.1.StaysInfinite f p.2

instance [LogScale β] [DecidableEq β] (f : V → β) (a b : Walker V β) :
    Decidable (a.StaysInfinite f b) :=
  inferInstanceAs (Decidable (_ → _))

instance [LogScale β] [DecidableEq β] (f : V → β) (ws us : List (Walker V β)) :
    Decidable (StayInfinite f ws us) :=
  inferInstanceAs (Decidable (∀ p ∈ ws.zip us, p.1.StaysInfinite f p.2))

section

variable [LogScale β] [LogScale.Lawful β]
  (hinfinity : ∀ l : β, LogScale.isUndefined l = false →
    (acceptance LogScale.infinity l = 1 ↔ l = LogScale.infinity))

include hinfinity

/-- With the recorded log-density in place of the evaluated one a move settles the same,
unless it leads from no number to what is not infinity. -/
theorem Move.settle_regarded_eq_iff {x y : V} {l new u : β}
    (hnew : LogScale.isUndefined new = false) (hu : u < 1) :
    (⟨x, regarded l, y, new⟩ : Move V β).settle u = (⟨x, l, y, new⟩ : Move V β).settle u ↔
      (LogScale.isUndefined l = true →
        ((⟨x, l, y, new⟩ : Move V β).settle u).logProb = LogScale.infinity) := by
  have hone : ¬ (1 : β) < u := LogScale.Lawful.lt_asymm hu
  cases hl : LogScale.isUndefined l with
  | false => simp [regarded_of_defined hl]
  | true =>
    have hevaluated : (⟨x, l, y, new⟩ : Move V β).probability = 1 := acceptance_of_isUndefined hl new
    have hsettled : (⟨x, l, y, new⟩ : Move V β).settle u = ⟨y, new, 1⟩ := by
      rw [settle_of_not_lt (by rwa [hevaluated]), hevaluated]
    rw [hsettled, regarded_of_isUndefined hl]
    constructor
    · intro hsame _
      have haccept := congrArg Walker.acceptProb hsame
      rw [acceptProb_settle] at haccept
      exact (hinfinity new hnew).mp haccept
    · intro hinfinite
      have hrecorded : (⟨x, LogScale.infinity, y, new⟩ : Move V β).probability = 1 :=
        (hinfinity new hnew).mpr (hinfinite rfl)
      rw [settle_of_not_lt (by rwa [hrecorded]), hrecorded]

variable [LinearOps α V] {f : V → β} {h : Host σ ε α β V}
  (hpure : ∀ x, h.logDensity x = pure (f x)) (huniform : Draw.Always (fun u => u < 1) h.uniform)
  (limit : Nat)

include hpure huniform

/-- A move of a faithful walker with its entry, beside one with its log-density evaluated. -/
theorem beside_cachedMove (current : List V) (index : Nat) {a : Walker V β} (ha : a.Faithful f) :
    Draw.Beside (fun b c => c = b ↔ a.StaysInfinite f b)
      (plainMove h limit current index a.position) (cachedMove h limit current index a) := by
  have hold : (h.logDensity a.position).inSweep = pure (f a.position) := by
    rw [hpure, Draw.inSweep_pure]
  unfold plainMove cachedMove
  rw [hold, pure_bind]
  refine Draw.Beside.bind_same (.trivially _) fun companions _ => ?_
  refine Draw.Beside.bind_same (.trivially _) fun deviates _ => ?_
  refine Draw.Beside.bind_same (.trivially _) fun new _ => ?_
  refine Draw.Beside.bind_same (.trivially _) fun _ _ => ?_
  refine Draw.Beside.bind_same huniform.inSweep fun u hu => ?_
  apply Draw.Beside.pure
  rw [ha.logProb]
  exact Move.settle_regarded_eq_iff hinfinity (isUndefined_regarded new) hu

/-- Moves of faithful walkers leave the same walkers either way if each of them does. -/
theorem beside_cachedMoves (current : List V) (index : Nat) {ws : List (Walker V β)}
    (hws : ∀ a ∈ ws, a.Faithful f) :
    Draw.Beside (fun us vs => vs = us ↔ StayInfinite f ws us)
      (plainMoves h limit current index (ws.map Walker.position))
      (cachedMoves h limit current index ws) := by
  induction ws generalizing index with
  | nil => exact .pure (by simp [StayInfinite])
  | cons a ws ih =>
    rw [List.forall_mem_cons] at hws
    rw [List.map_cons, plainMoves, cachedMoves]
    have hmove := beside_cachedMove hinfinity hpure huniform limit current index hws.1
    refine hmove.bind fun b c hb => ?_
    refine (ih (index + 1) hws.2).bind fun us vs hus => ?_
    apply Draw.Beside.pure
    rw [List.cons.injEq, hb, hus, StayInfinite, StayInfinite, List.zip_cons_cons,
      List.forall_mem_cons]

/-- A sweep from faithful walkers leaves the same walkers with their entries as with their
log-densities evaluated exactly if those without a log-density stay infinite. -/
theorem beside_cachedSweep {ws : List (Walker V β)} (hws : ∀ a ∈ ws, a.Faithful f) :
    Draw.Beside (fun us vs => vs = us ↔ StayInfinite f ws us)
      (plainSweep h limit (ws.map Walker.position)) (cachedSweep h limit ws) := by
  unfold plainSweep cachedSweep
  rw [List.length_map]
  split
  · exact .throw _
  · exact beside_cachedMoves hinfinity hpure huniform limit _ 0 hws

/-! ## Sweeps in a row -/

omit hinfinity in
/-- A sweep leaves faithful walkers. -/
theorem faithful_plainSweep (xs : List V) :
    Draw.Always (fun ws => ∀ a ∈ ws, a.Faithful f) (plainSweep h limit xs) := by
  have hevaluates : h.Evaluates f := by
    refine ⟨fun x => ?_, huniform⟩
    rw [hpure]
    exact .pure rfl
  exact always_plainSweep h limit (I := fun _ => True)
    (fun current _ index x _ => faithful_plainMove hevaluates limit current index x)
    (fun _ _ => trivial)

/-- Sweeps in a row leave the same walkers either way exactly if in each of them the walkers
without a log-density stay infinite. -/
theorem cachedSweeps_eq_iff (sweeps : Nat) {ws : List (Walker V β)}
    (hws : ∀ a ∈ ws, a.Faithful f) {w w' : σ} {ts : List (List (Walker V β))}
    (hts : (plainSweeps h limit sweeps (ws.map Walker.position)).outcome w = (.ok ts, w')) :
    ((cachedSweeps h limit sweeps ws).outcome w).1 = .ok ts ↔
      (ws :: ts).IsChain (StayInfinite f) := by
  induction sweeps generalizing ws ts w with
  | zero =>
    obtain ⟨rfl, -⟩ : [] = ts ∧ w = w' := by simpa [plainSweeps] using hts
    simp [cachedSweeps]
  | succ sweeps ih =>
    obtain ⟨us, w₁, rest, hus, hrest, rfl⟩ := plainSweeps_succ_eq_ok h limit hts
    obtain ⟨vs, hvs, hiff⟩ :=
      (beside_cachedSweep hinfinity hpure huniform limit hws).of_ok hus
    have hfaithful := faithful_plainSweep hpure huniform limit _ w us w₁ hus
    -- After sweeps that differ the host may do anything, so the rest counts only if these agree.
    rw [cachedSweeps, Draw.outcome_bind_of_ok hvs, Draw.outcome_cons_eq_ok_iff,
      List.isChain_cons_cons, ← hiff, ← ih hfaithful hrest]
    refine and_congr_right fun hsame => ?_
    rw [hsame]

/-- If the log-density is a number everywhere, sweeps in a row are the same either way. -/
theorem cachedSweeps_eq (hdefined : ∀ x, LogScale.isUndefined (f x) = false) (sweeps : Nat)
    {ws : List (Walker V β)} (hws : ∀ a ∈ ws, a.Faithful f) :
    cachedSweeps h limit sweeps ws = plainSweeps h limit sweeps (ws.map Walker.position) := by
  induction sweeps generalizing ws with
  | zero => rfl
  | succ sweeps ih =>
    have hsweep : cachedSweep h limit ws = plainSweep h limit (ws.map Walker.position) := by
      refine (beside_cachedSweep hinfinity hpure huniform limit hws).eq fun us vs hiff => ?_
      refine hiff.mpr fun p _ hundefined => ?_
      rw [hdefined] at hundefined
      contradiction
    rw [cachedSweeps, plainSweeps, hsweep]
    refine (faithful_plainSweep hpure huniform limit _).bind_congr fun us hus => ?_
    rw [ih hus]

/-- The same if the first sweep evaluates the positions that it starts from. -/
theorem primedSweeps_eq_iff (sweeps : Nat) {xs : List V} {w w' : σ}
    {ts : List (List (Walker V β))}
    (hts : (plainSweeps h limit sweeps xs).outcome w = (.ok ts, w')) :
    ((primedSweeps h limit sweeps xs).outcome w).1 = .ok ts ↔ ts.IsChain (StayInfinite f) := by
  cases sweeps with
  | zero =>
    obtain ⟨rfl, -⟩ : [] = ts ∧ w = w' := by simpa [plainSweeps] using hts
    simp [primedSweeps]
  | succ sweeps =>
    obtain ⟨us, w₁, rest, hus, hrest, rfl⟩ := plainSweeps_succ_eq_ok h limit hts
    have hfaithful := faithful_plainSweep hpure huniform limit _ w us w₁ hus
    rw [primedSweeps, Draw.outcome_bind_of_ok hus, Draw.outcome_cons_eq_ok_iff,
      cachedSweeps_eq_iff hinfinity hpure huniform limit sweeps hfaithful hrest]
    exact and_iff_right rfl

theorem primedSweeps_eq (hdefined : ∀ x, LogScale.isUndefined (f x) = false) (sweeps : Nat)
    (xs : List V) : primedSweeps h limit sweeps xs = plainSweeps h limit sweeps xs := by
  cases sweeps with
  | zero => rfl
  | succ sweeps =>
    rw [primedSweeps, plainSweeps]
    refine (faithful_plainSweep hpure huniform limit xs).bind_congr fun ws hws => ?_
    rw [cachedSweeps_eq hinfinity hpure huniform limit hdefined sweeps hws]

/-- A run that succeeds has the same chain either way exactly if from each of its sweeps to the
next the walkers without a log-density stay infinite. -/
theorem cachedRun_eq_iff {sweeps : Nat} {e : Ensemble V β} {w w' : σ} {c : Chain V β}
    (hrun : run h limit sweeps e w = (.ok c, w')) :
    (cachedRun h limit sweeps e w).1 = .ok c ↔
      c.sweeps.IsChain fun s t => StayInfinite f s.walkers t.walkers := by
  obtain ⟨ts, hts, rfl⟩ := plainSweeps_of_run h limit hrun
  have hprimed := primedSweeps_eq_iff hinfinity hpure huniform limit sweeps hts
  rw [Chain.sweeps_ofSweeps, List.isChain_map]
  refine Iff.trans ?_ hprimed
  rw [run_eq_plainSweeps] at hrun
  rcases hc : (Chain.start e.size e.dims : Except Fault (Chain V β)) with r | c
  · simp [hc] at hrun
  · simp only [cachedRun, hc, Draw.outcome_map]
    rcases (primedSweeps h limit sweeps e.positions).outcome w with ⟨_ | us, _⟩
    · simp [Except.map]
    · simp [Except.map, (Chain.ofSweeps_injective e.size e.dims).eq_iff]

theorem cachedRun_eq (hdefined : ∀ x, LogScale.isUndefined (f x) = false) (sweeps : Nat)
    (e : Ensemble V β) (w : σ) : cachedRun h limit sweeps e w = run h limit sweeps e w := by
  have hprimed := primedSweeps_eq hinfinity hpure huniform limit hdefined sweeps e.positions
  rw [run_eq_plainSweeps]
  rcases hc : (Chain.start e.size e.dims : Except Fault (Chain V β)) with r | c
  · simp only [cachedRun, hc]
  · simp only [cachedRun, hc, hprimed]

end

variable [LinearOps α V]

/-- **When a recorded log-density stands for the position beside it.**  The log-density is a
function `f` of the position with any doubles for values, the uniforms are from zero to below
one, and of the exponential nothing is known but where it has no number for its value, that it is
not negative, and that it vanishes at minus infinity.  A run that succeeds has the same chain
with the recorded log-densities in place of evaluations exactly if, from each sweep to the
next, every walker at a position where `f` is no number is followed by one whose entry is
infinity.  If `f` is a number everywhere, all runs have the same outcome. -/
theorem cachedRun_records_iff {exp : Float → Float}
    (hnan : ∀ x : Float, x.isNaN = true → (exp x).isNaN = true)
    (hnonneg : ∀ x : Float, x.isNaN = false → 0 ≤ exp x) (hvanish : exp (-1.0 / 0.0) = 0)
    {f : V → Float} {h : Host σ ε α (Double exp) V} (hpure : ∀ x, h.logDensity x = pure (f x))
    (huniform : Draw.Always (fun u => 0 ≤ u ∧ u < 1) h.uniform) (limit sweeps : Nat)
    (e : Ensemble V (Double exp)) (w : σ) :
    (∀ c w', run h limit sweeps e w = (.ok c, w') →
      ((cachedRun h limit sweeps e w).1 = .ok c ↔
        c.sweeps.IsChain fun s t => ∀ p ∈ s.walkers.zip t.walkers,
          (f p.1.position).isNaN = true → (p.2.logProb : Float) = 1.0 / 0.0)) ∧
    ((∀ x, (f x).isNaN = false) → cachedRun h limit sweeps e w = run h limit sweeps e w) := by
  have := Double.lawful hnan hnonneg
  have hinfinity : ∀ l : Double exp, LogScale.isUndefined l = false →
      (acceptance LogScale.infinity l = 1 ↔ l = LogScale.infinity) :=
    fun l hl => Double.acceptance_infinity_eq_one_iff hnan hvanish hl
  have hbelow : Draw.Always (fun u => u < 1) h.uniform := huniform.mono fun u hu => hu.2
  refine ⟨?_, ?_⟩
  · intro c w' hrun
    exact cachedRun_eq_iff (f := (f : V → Double exp)) hinfinity hpure hbelow limit hrun
  · intro hdefined
    exact cachedRun_eq (f := (f : V → Double exp)) hinfinity hpure hbelow limit hdefined sweeps e w

/-! ## Runs through positions without a log-density -/

/-- A host with the log-density of three points, the uniform one half, and other draws from a
tape. -/
def threePointHost :
    Host (Tape Float (Double signExp)) Unit Float (Double signExp) (Point Float) :=
  Tape.steady onThreePoints (0.5 : Float)

/-- Walkers at the three points. -/
def onAllThreePoints : Ensemble (Point Float) (Double signExp) :=
  .start 1 [⟨[0]⟩, ⟨[1]⟩, ⟨[2]⟩]

theorem uniform_threePointHost :
    Draw.Always (fun u : Double signExp => 0 ≤ u ∧ u < 1) threePointHost.uniform :=
  Tape.uniform_steady _ (show (0 : Float) ≤ 0.5 ∧ (0.5 : Float) < 1 by decide)

/-- Two walkers leave the points and stay where they are in the second sweep, so the entries
may stand for their log-densities. -/
theorem cachedRun_records_iff_staying :
    let tape : Tape Float (Double signExp) :=
      ⟨List.replicate 12 1, [1, 0.5, 1, 0, 0, 1, 1, 1, 1, 1, 1, 1], []⟩
    ∃ c rest, run threePointHost 1 2 onAllThreePoints tape = (.ok c, rest) ∧
      (∃ t ∈ c.sweeps, ∃ a ∈ t.walkers, (onThreePoints a.position).isNaN = true) ∧
      (cachedRun threePointHost 1 2 onAllThreePoints tape).1 = .ok c := by
  intro tape
  let f : Point Float → Double signExp := onThreePoints
  have hstays : (run threePointHost 1 2 onAllThreePoints tape).1.toOption.any (fun c =>
      decide (∃ t ∈ c.sweeps, ∃ a ∈ t.walkers, (onThreePoints a.position).isNaN = true) &&
      decide (c.sweeps.IsChain fun s t => StayInfinite f s.walkers t.walkers)) = true := by
    decide +kernel
  have hvanish : signExp (-1.0 / 0.0) = 0 := by decide
  obtain ⟨hiff, -⟩ := cachedRun_records_iff isNaN_signExp signExp_nonneg hvanish
    (h := threePointHost) (fun _ => rfl) uniform_threePointHost 1 2 onAllThreePoints tape
  obtain ⟨c, rest, hrun, htest⟩ := Draw.exists_ok_of_any hstays
  rw [Bool.and_eq_true, decide_eq_true_iff, decide_eq_true_iff] at htest
  obtain ⟨hleaves, hchain⟩ := htest
  exact ⟨c, rest, hrun, hleaves, (hiff c rest hrun).mpr hchain⟩

/-- A walker that leaves the points comes back to one of them in the second sweep: for certain
if its position is evaluated, and not at all if infinity stands for its log-density. -/
theorem cachedRun_differs_returning :
    let tape : Tape Float (Double signExp) :=
      ⟨List.replicate 12 1, [1, 0, 0, 0, 0, 0, -1, 0, 0, 0, 0, 0], []⟩
    (∀ x, threePointHost.logDensity x = pure (onThreePoints x)) ∧
      Draw.Always (fun u : Double signExp => 0 ≤ u ∧ u < 1) threePointHost.uniform ∧
      ∃ c c' rest rest', run threePointHost 1 2 onAllThreePoints tape = (.ok c, rest) ∧
        cachedRun threePointHost 1 2 onAllThreePoints tape = (.ok c', rest') ∧
        (c.sweeps.map Ensemble.acceptProbs : List (List Float)) = [[1, 1, 1], [1, 1, 1]] ∧
        (c'.sweeps.map Ensemble.acceptProbs : List (List Float)) = [[1, 1, 1], [0, 1, 1]] := by
  intro tape
  refine ⟨fun _ => rfl, uniform_threePointHost, ?_⟩
  have hevaluated : (run threePointHost 1 2 onAllThreePoints tape).1.toOption.any (fun c =>
      decide ((c.sweeps.map Ensemble.acceptProbs : List (List Float)) =
        [[1, 1, 1], [1, 1, 1]])) = true := by
    decide +kernel
  have hcached : (cachedRun threePointHost 1 2 onAllThreePoints tape).1.toOption.any (fun c =>
      decide ((c.sweeps.map Ensemble.acceptProbs : List (List Float)) =
        [[1, 1, 1], [0, 1, 1]])) = true := by
    decide +kernel
  obtain ⟨c, rest, hrun, htest⟩ := Draw.exists_ok_of_any hevaluated
  obtain ⟨c', rest', hrun', htest'⟩ := Draw.exists_ok_of_any hcached
  exact ⟨c, c', rest, rest', hrun, hrun', of_decide_eq_true htest, of_decide_eq_true htest'⟩

end EnsembleSampling
