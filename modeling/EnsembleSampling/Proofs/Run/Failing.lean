import EnsembleSampling.Proofs.Sweep.Search
import EnsembleSampling.Proofs.Sweep.Shape
import EnsembleSampling.Proofs.Tape
import EnsembleSampling.Run.Report
set_option autoImplicit false

/-!
# Whose failure it is

The checks that a sweep, a chain and a record make of their input cannot turn down what a sampler
hands them once it has been built from positions that passed.  A run that fails is then the
failure of a request to its host, or a search for companions that used up its limit
(`Host.Causes`), and never a refusal.  The proof follows the text of a sweep with the rules of
`Draw.Failing`.

A run that is asked for from outside has its sweeps counted in a machine word.  More sweeps than
that are turned down when the counting begins, before anything is asked of the host
(`built_run_too_long`).
-/

namespace EnsembleSampling

variable {σ ε α β V : Type}

/-- Where a failure of a sweep comes from, with the state that it leaves: a request that the host
did not answer, or as many blocks of coins as the limit allows, none with two heads. -/
inductive Host.Causes (h : Host σ ε α β V) (others limit : Nat) : SweepFailure ε → σ → Prop where
  | density {x : V} {w w' : σ} {f : ε} (hx : (h.logDensity x).outcome w = (.error f, w')) :
      Causes h others limit (.raised f) w'
  | coin {w w' : σ} {f : ε} (hx : h.coin.outcome w = (.error f, w')) :
      Causes h others limit (.raised f) w'
  | normal {w w' : σ} {f : ε} (hx : h.normal.outcome w = (.error f, w')) :
      Causes h others limit (.raised f) w'
  | uniform {w w' : σ} {f : ε} (hx : h.uniform.outcome w = (.error f, w')) :
      Causes h others limit (.raised f) w'
  | search {blocks : List (List Int)} {w w' : σ}
      (hblocks : (Draw.times limit (Draw.times others h.coin)).outcome w = (.ok blocks, w'))
      (hfew : ∀ block ∈ blocks, heads block ≤ 1) : Causes h others limit .stalled w'

/-! ## Companions -/

section

variable (h : Host σ ε α β V) (index : Int) (others : Nat)

/-- Companions are at least two, and each is one of the other walkers. -/
theorem always_drawCompanions (limit : Nat) :
    Draw.Always (fun is => 2 ≤ is.length ∧ ∀ i ∈ is, i < others + 1 ∧ (i : Int) ≠ index)
      (drawCompanions h index others limit) := by
  intro w is w' his
  obtain ⟨m, coins, -, hfirst, -, rfl⟩ := (drawCompanions_eq_ok_iff h index).mp his
  have hchoice := isChoice_selectedBy index (length_blockOf hfirst.length) hfirst.enough
  exact ⟨hchoice.enough, fun i hi => ⟨hchoice.below i hi, hchoice.others i hi⟩⟩

/-- A search for companions that fails met a coin that was not thrown, or all its blocks of
coins select too few. -/
theorem drawCompanions_eq_error {limit : Nat} {w w' : σ} {e : SweepFailure ε}
    (he : (drawCompanions h index others limit).outcome w = (.error e, w')) :
    (∃ f w₀, e = .raised f ∧ h.coin.outcome w₀ = (.error f, w')) ∨
      (e = .stalled ∧ ∃ blocks,
        (Draw.times limit (Draw.times others h.coin)).outcome w = (.ok blocks, w') ∧
        ∀ block ∈ blocks, heads block ≤ 1) := by
  induction limit generalizing w with
  | zero =>
    obtain ⟨rfl, rfl⟩ : .stalled = e ∧ w = w' := by simpa [drawCompanions] using he
    exact .inr ⟨rfl, [], rfl, by simp⟩
  | succ limit ih =>
    unfold drawCompanions at he
    rcases hcoins : (Draw.times others h.coin).outcome w with ⟨f | coins, w₁⟩
    · rw [Draw.outcome_bind_of_error (Draw.outcome_inSweep_of_error hcoins)] at he
      obtain ⟨rfl, rfl⟩ : .raised f = e ∧ w₁ = w' := by simpa using he
      have hcoin : Draw.Failing (fun f w' => ∃ w₀, h.coin.outcome w₀ = (.error f, w')) h.coin :=
        fun w₀ f w' hf => ⟨w₀, hf⟩
      obtain ⟨w₀, hw₀⟩ := hcoin.times others w f w₁ hcoins
      exact .inl ⟨f, w₀, rfl, hw₀⟩
    · rw [Draw.outcome_bind_of_ok (Draw.outcome_inSweep_of_ok hcoins)] at he
      dsimp only at he
      split at he
      · simp at he
      · rename_i hfew
        rcases ih he with hraised | ⟨rfl, blocks, hblocks, hrest⟩
        · exact .inl hraised
        · refine .inr ⟨rfl, coins :: blocks, ?_, List.forall_mem_cons.mpr ⟨?_, hrest⟩⟩
          · rw [Draw.times_succ, Draw.outcome_bind_of_ok hcoins, Draw.outcome_bind_of_ok hblocks]
            rfl
          · rw [← length_selectedBy index]
            exact Nat.le_of_lt_succ (Nat.lt_of_not_le fun h => hfew (decide_eq_true h))

end

/-- Members that are there are all selected. -/
theorem length_filterMap_getElem? {current : List V} {is : List Nat}
    (his : ∀ i ∈ is, i < current.length) :
    (is.filterMap (current[·]?)).length = is.length := by
  induction is with
  | nil => rfl
  | cons i is ih =>
    rw [List.forall_mem_cons] at his
    rw [List.filterMap_cons_some (List.getElem?_eq_getElem his.1), List.length_cons, ih his.2,
      List.length_cons]

/-! ## Sweeps -/

section

variable [LogScale β] (h : Host σ ε α β V) (limit : Nat)

theorem failing_noteIfUndefined (Q : SweepFailure ε → σ → Prop) (index : Nat) (l : β) :
    Draw.Failing Q (noteIfUndefined h index l) := by
  unfold noteIfUndefined
  split
  · exact .change _
  · exact .pure _

variable [LinearOps α V]

/-- A move fails only where a request fails or a search for companions is given up. -/
theorem failing_plainMove (current : List V) (index : Nat) (x : V) :
    Draw.Failing (h.Causes (current.length - 1) limit)
      (plainMove h limit current index x) := by
  unfold plainMove
  refine Draw.Failing.bind (.inSweep fun w f w' hf => .density hf) fun old => ?_
  refine Draw.Failing.bind ?_ fun companions => ?_
  · intro w e w' he
    rcases drawCompanions_eq_error h index _ he with ⟨f, w₀, rfl, hf⟩ | ⟨rfl, blocks, hb, hfew⟩
    · exact .coin hf
    · exact .search hb hfew
  refine Draw.Failing.bind (.inSweep (.times (fun w f w' hf => .normal hf) _)) fun deviates => ?_
  refine Draw.Failing.bind (.inSweep fun w f w' hf => .density hf) fun new => ?_
  refine (failing_noteIfUndefined h _ index new).bind fun _ => ?_
  refine Draw.Failing.bind (.inSweep fun w f w' hf => .uniform hf) fun u => ?_
  exact .pure _

theorem failing_plainMoves (current : List V) (index : Nat) (xs : List V) :
    Draw.Failing (h.Causes (current.length - 1) limit)
      (plainMoves h limit current index xs) := by
  induction xs generalizing index with
  | nil => exact .pure _
  | cons x xs ih =>
    rw [plainMoves]
    refine (failing_plainMove h limit current index x).bind fun a => ?_
    exact (ih (index + 1)).bind fun rest => .pure _

/-- Nor is a sweep from enough walkers refused. -/
theorem failing_plainSweep {xs : List V} (hxs : minWalkers ≤ xs.length) :
    Draw.Failing (h.Causes (xs.length - 1) limit) (plainSweep h limit xs) := by
  rw [plainSweep, if_neg (Nat.not_lt.mpr hxs)]
  exact failing_plainMoves h limit xs 0 xs

/-- Sweeps in a row leave as many walkers as there were, so none of them is refused. -/
theorem failing_plainSweeps (sweeps : Nat) {xs : List V} (hxs : minWalkers ≤ xs.length) :
    Draw.Failing (h.Causes (xs.length - 1) limit) (plainSweeps h limit sweeps xs) := by
  induction sweeps generalizing xs with
  | zero => exact .pure _
  | succ sweeps ih =>
    rw [plainSweeps]
    refine (failing_plainSweep h limit hxs).bind_always (length_plainSweep h limit xs)
      fun ws hws => ?_
    have hnext : (ws.map Walker.position).length = xs.length := by rw [List.length_map, hws]
    have hrest := ih (hnext ▸ hxs)
    rw [hnext] at hrest
    exact hrest.bind fun rest => .pure _

/-- A run that begins fails only where a request fails or a search for companions is given up. -/
theorem causes_of_run {e : Ensemble V β} (hsize : minWalkers ≤ e.size) (hdims : 0 < e.dims)
    {sweeps : Nat} {w w' : σ} {f : SweepFailure ε}
    (hrun : run h limit sweeps e w = (.error f, w')) : h.Causes (e.size - 1) limit f w' := by
  rw [run_eq_plainSweeps, Chain.start_eq_ok hsize hdims] at hrun
  rw [← e.length_positions] at hsize ⊢
  simp only [Draw.outcome_map] at hrun
  rcases hw : (plainSweeps h limit sweeps e.positions).outcome w with ⟨f₁ | ts, w₁⟩
  · obtain ⟨rfl, rfl⟩ : f₁ = f ∧ w₁ = w' := by simpa [hw, Except.map] using hrun
    exact failing_plainSweeps h limit sweeps hsize w f₁ w₁ hw
  · simp [hw, Except.map] at hrun

end

/-! ## Runs from arguments -/

/-- An ensemble that is read off an argument is one that a sampler can start from. -/
theorem Ensemble.regular_of_ofArguments {a : Argument} {e : Ensemble (Point Float) Float}
    (he : ofArguments a .absent .absent = .ok e) : e.Regular := by
  rw [ofArguments_absent] at he
  rcases ht : Tensor.ofArgument a with f | t
  · simp [ht, bind, Except.bind] at he
  · rcases hp : (ofPositions t : Except Rejection (Ensemble (Point Float) Float)) with r | e'
    · simp [ht, hp, bind, Except.bind, Except.mapError] at he
    · obtain rfl : e' = e := by simpa [ht, hp, bind, Except.bind, Except.mapError] using he
      exact (regular_of_ofPositions (Tensor.filled_ofArgument ht) hp).1

/-- A run whose arguments are in order is made. -/
theorem runOf_eq_runReported {density : Density} {positions sweeps seed : Argument}
    {generator : Option Random.Generator} {output : Option String}
    {e : Ensemble (Point Float) Float} {n : Nat} {g : Random.Generator}
    (he : Ensemble.ofArguments positions .absent .absent = .ok e) (hn : sweepCount sweeps = .ok n)
    (hg : generator.elim (Random.Generator.ofSeed seed) .ok = .ok g) :
    runOf density positions sweeps seed generator output =
      runReported e n (.start g density) output := by
  unfold runOf
  rw [hn, hg, he]
  rfl

/-- What the checks of a sweep and of a chain rely on: two buffers of the same shape, of enough
walkers in at least one dimension. -/
structure Sampler.Ready (n d : Nat) (s : Sampler (Point α) β) : Prop where
  walkers : minWalkers ≤ n
  dims : 0 < d
  current : s.current.Shaped n d
  next : s.next.Shaped n d

namespace Sampler.Ready

variable {n d : Nat} {s : Sampler (Point α) β}

/-- The check at the beginning of a sweep passes. -/
theorem checkBuffers_eq_ok (hs : s.Ready n d) :
    checkBuffers s.current.shape s.next.shape [s.next.logProbs.length]
      [s.next.acceptProbs.length] = .ok () := by
  rw [hs.current.shape, hs.next.shape, hs.next.logProbs, hs.next.acceptProbs]
  have hn : ¬ n < minWalkers := Nat.not_lt.mpr hs.walkers
  simp [checkBuffers, hn]

/-- The walkers can be recorded in a chain of their shape. -/
theorem record_eq_ok (hs : s.Ready n d) {c : Chain (Point α) β} (hsize : c.size = n)
    (hdims : c.dims = d) :
    c.record s.current = .ok { c with recorded := s.current :: c.recorded } := by
  have hfits : s.current.size = c.size ∧ s.current.dims = c.dims := by
    rw [hsize, hdims, ← hs.current.positions, Ensemble.length_positions]
    exact ⟨rfl, hs.current.dims⟩
  rw [Chain.record, if_pos hfits]

/-- Companions of a walker are at least two of the others, all of whom are there. -/
theorem always_drawCompanions (hs : s.Ready n d) (h : Host σ ε α β (Point α)) (limit : Nat)
    (index : Nat) :
    Draw.Always
      (fun is => 2 ≤ is.length ∧ (∀ i ∈ is, i < n ∧ i ≠ index) ∧
        (is.filterMap (s.current.positions[·]?)).length = is.length)
      (drawCompanions h index (s.current.positions.length - 1) limit) := by
  refine (EnsembleSampling.always_drawCompanions h index _ limit).mono ?_
  rintro is ⟨htwo, hothers⟩
  have hpositive : 0 < s.current.positions.length := by
    have hwalkers := hs.walkers
    rw [hs.current.positions]
    exact Nat.lt_of_lt_of_le (by decide : 0 < minWalkers) hwalkers
  have hbelow : ∀ i ∈ is, i < s.current.positions.length := fun i hi => by
    have hi' := (hothers i hi).1
    rwa [Nat.sub_add_cancel hpositive] at hi'
  refine ⟨htwo, fun i hi => ⟨hs.current.positions ▸ hbelow i hi, ?_⟩,
    length_filterMap_getElem? hbelow⟩
  exact fun h => (hothers i hi).2 (congrArg Nat.cast h)

end Sampler.Ready

variable [Zero α] [Add α] [Sub α] [Mul α] [Div α] [NatCast α] [LogScale β]

theorem Sampler.ready_afterCalls {e : Ensemble (Point α) β} (he : e.Regular)
    (calls : List (Call σ ε α β (Point α))) :
    ((start .walk e).afterCalls calls).Ready e.size e.dims :=
  ⟨he.size, he.dims, (shaped_afterCalls he calls).1, (shaped_afterCalls he calls).2⟩

/-- A run from arguments that are in order fails only by its host, save that its sweeps must be
countable. -/
theorem runOf_fails {density : Density} {positions sweeps seed : Argument}
    {generator : Option Random.Generator} {output : Option String}
    {e : Ensemble (Point Float) Float} {n : Nat} {g : Random.Generator}
    (he : Ensemble.ofArguments positions .absent .absent = .ok e) (hn : sweepCount sweeps = .ok n)
    (hg : generator.elim (Random.Generator.ofSeed seed) .ok = .ok g) :
    let r := runOf density positions sweeps seed generator output
    (countable < n → r.outcome = .error .tooLarge ∧ r.session = some (.start g density)) ∧
      (n ≤ countable → ∀ fault, r.outcome = .error fault →
        ∃ (f : SweepFailure Fault) (w' : Session), fault = f.toFault ∧ r.session = some w' ∧
          Session.host.Causes (e.size - 1) Session.patience f w') := by
  intro r
  have hr : r = runReported e n (.start g density) output := runOf_eq_runReported he hn hg
  have hregular := Ensemble.regular_of_ofArguments he
  refine ⟨fun hlong => ?_, fun hshort fault hfault => ?_⟩
  · rw [hr, runReported, chainOf, if_pos hlong]
    exact ⟨rfl, rfl⟩
  · rw [hr, runReported, chainOf, if_neg (Nat.not_lt.mpr hshort)] at hfault
    rw [hr, runReported, chainOf, if_neg (Nat.not_lt.mpr hshort)]
    rcases hrun : run Session.host Session.patience n e (.start g density) with ⟨f | c, w'⟩
    · rw [hrun] at hfault
      obtain rfl : f.toFault = fault := by simpa [Except.mapError] using hfault
      exact ⟨f, w', rfl, rfl, causes_of_run Session.host Session.patience hregular.size
        hregular.dims hrun⟩
    · rw [hrun] at hfault
      simp [Except.mapError] at hfault

/-- **Once a sampler is built, only its host can fail.**  Let a sampler start from a table of
positions that passed.

After any calls in a row, made with any hosts and each of which may have failed, it is ready for
the next: there are at least three walkers in at least one dimension, the same numbers as at the
start, and both buffers have their shape.  The checks of a sweep, of a search for companions and
of a chain all pass, and companions are at least two of the other walkers, whose positions are
all there to be averaged.

A run that fails, whatever its host and however many its sweeps, fails because of a request that
the host did not answer, or because a search for companions was given up.  So does a run that
arguments ask for, unless its sweeps are more than can be counted: then it fails before anything
is asked of the host. -/
theorem sampler_fails_only_by_host {t : Tensor α} {e : Ensemble (Point α) β} (ht : t.Filled)
    (he : Ensemble.ofPositions t = .ok e) :
    (∀ calls : List (Sampler.Call σ ε α β (Point α)),
      let s := (Sampler.start .walk e).afterCalls calls
      s.Ready e.size e.dims ∧
      checkBuffers s.current.shape s.next.shape [s.next.logProbs.length]
        [s.next.acceptProbs.length] = .ok () ∧
      companionCount (.integer s.current.positions.length) = .ok s.current.positions.length ∧
      (∃ c : Chain (Point α) β, Chain.start e.size e.dims = .ok c) ∧
      (∀ c : Chain (Point α) β, c.size = e.size → c.dims = e.dims →
        c.record s.current = .ok { c with recorded := s.current :: c.recorded }) ∧
      ∀ (h : Host σ ε α β (Point α)) (limit index : Nat),
        Draw.Always
          (fun is => 2 ≤ is.length ∧ (∀ i ∈ is, i < e.size ∧ i ≠ index) ∧
            (is.filterMap (s.current.positions[·]?)).length = is.length)
          (drawCompanions h index (s.current.positions.length - 1) limit)) ∧
    (∀ (h : Host σ ε α β (Point α)) (limit sweeps : Nat) (w w' : σ) (f : SweepFailure ε),
      run h limit sweeps e w = (.error f, w') → h.Causes (e.size - 1) limit f w') ∧
    ∀ (density : Density) (positions sweeps seed : Argument)
      (generator : Option Random.Generator) (output : Option String)
      (e' : Ensemble (Point Float) Float) (n : Nat) (g : Random.Generator),
      Ensemble.ofArguments positions .absent .absent = .ok e' → sweepCount sweeps = .ok n →
      generator.elim (Random.Generator.ofSeed seed) .ok = .ok g →
      let r := runOf density positions sweeps seed generator output
      (countable < n → r.outcome = .error .tooLarge ∧ r.session = some (.start g density)) ∧
        (n ≤ countable → ∀ fault, r.outcome = .error fault →
          ∃ (f : SweepFailure Fault) (w' : Session), fault = f.toFault ∧ r.session = some w' ∧
            Session.host.Causes (e'.size - 1) Session.patience f w') := by
  have hregular := (Ensemble.regular_of_ofPositions ht he).1
  refine ⟨fun calls => ?_, fun h limit sweeps w w' f hrun => ?_, ?_⟩
  · have hready := Sampler.ready_afterCalls hregular calls
    refine ⟨hready, hready.checkBuffers_eq_ok, ?_,
      ⟨_, Chain.start_eq_ok hready.walkers hready.dims⟩, fun c => hready.record_eq_ok,
      hready.always_drawCompanions⟩
    rw [hready.current.positions]
    exact companionCount_of_le hready.walkers
  · exact causes_of_run h limit hregular.size hregular.dims hrun
  · intro density positions sweeps seed generator output e' n g he' hn hg
    exact runOf_fails he' hn hg

/-- Three walkers on a line: after a sweep for which there was no coin to throw, and in a run that
fails by that coin; and a run from arguments that fails by its density. -/
theorem sampler_fails_only_by_host_line :
    let t : Tensor Float := ⟨[3, 1], [0, 1, 2]⟩
    let e : Ensemble (Point Float) Float := .start 1 [⟨[0]⟩, ⟨[1]⟩, ⟨[2]⟩]
    let h : Host (Tape Float Float) Unit Float Float (Point Float) := Tape.host fun _ => 0
    let source : Random.Generator := .script ⟨.ofList [], .ofList [], .ofList [], false⟩
    let r := runOf (.scripted [none]) (.ofRows [[0], [1], [2]]) (.integer 1) defaultSeed
      (some source) none
    t.Filled ∧ Ensemble.ofPositions t = .ok e ∧
      ((Sampler.start .walk e).afterCalls [⟨h, 1, ⟨[], [], []⟩⟩]).Ready 3 1 ∧
      (∃ f w', run h 1 1 e ⟨[], [], []⟩ = (.error f, w') ∧ h.Causes 2 1 f w') ∧
      r.outcome = .error .densityFailed ∧
      ∃ (f : SweepFailure Fault) (w' : Session), .densityFailed = f.toFault ∧
        r.session = some w' ∧ Session.host.Causes 2 Session.patience f w' := by
  intro t e h source r
  have ht : t.Filled := rfl
  have he : Ensemble.ofPositions t = .ok e := rfl
  obtain ⟨hcalls, hruns, harguments⟩ := sampler_fails_only_by_host ht he
  have hrun : run h 1 1 e ⟨[], [], []⟩ = (.error (.raised ()), ⟨[], [], []⟩) := rfl
  have houtcome : r.outcome = .error .densityFailed := rfl
  have hfails := harguments (.scripted [none]) (.ofRows [[0], [1], [2]]) (.integer 1) defaultSeed
    (some source) none _ 1 source rfl rfl rfl
  exact ⟨ht, he, (hcalls [⟨h, 1, ⟨[], [], []⟩⟩]).1, ⟨_, _, hrun, hruns h 1 1 _ _ _ hrun⟩,
    houtcome, hfails.2 (by decide) _ houtcome⟩

/-- A request to a session that fails is on record. -/
theorem Session.record_of_causes {others limit : Nat} {f : SweepFailure Fault} {w : Session}
    (hf : host.Causes others limit f w) : f = .stalled ∨ w.record ≠ [] := by
  cases hf with
  | density hx | coin hx | normal hx | uniform hx =>
    have hrecord := congrArg (fun r => r.2.record) hx
    exact .inr (hrecord ▸ List.cons_ne_nil _ _)
  | search => exact .inl rfl

/-- A run of `2 ^ 63` sweeps of three walkers is turned down although nothing was asked of its
host. -/
theorem built_run_too_long :
    let positions := Argument.ofRows [[0], [1], [2]]
    let source : Random.Generator := .script ⟨.ofList [], .ofList [], .ofList [], false⟩
    let r := runOf (.scripted [none]) positions (.integer 9223372036854775808) defaultSeed
      (some source) none
    (Ensemble.ofArguments positions .absent .absent).toOption.isSome ∧
      sweepCount (.integer 9223372036854775808) = .ok 9223372036854775808 ∧
      r.outcome = .error .tooLarge ∧
      ¬ ∃ (f : SweepFailure Fault) (w' : Session), r.session = some w' ∧ f.toFault = .tooLarge ∧
        Session.host.Causes 2 Session.patience f w' := by
  intro positions source r
  have hcount : sweepCount (.integer 9223372036854775808) = .ok 9223372036854775808 := rfl
  obtain ⟨e, he⟩ : ∃ e, Ensemble.ofArguments positions .absent .absent = .ok e := ⟨_, rfl⟩
  have hlong : countable < 9223372036854775808 → r.outcome = .error .tooLarge ∧
      r.session = some (.start source (.scripted [none])) := (runOf_fails he hcount rfl).1
  obtain ⟨houtcome, hsession⟩ := hlong (by decide)
  refine ⟨by rw [he]; rfl, hcount, houtcome, ?_⟩
  rintro ⟨f, w', hw, hf, hcauses⟩
  obtain rfl : .start source (.scripted [none]) = w' := Option.some.inj (hsession.symm.trans hw)
  rcases Session.record_of_causes hcauses with rfl | hrecord
  · exact absurd hf (by simp [SweepFailure.toFault])
  · exact hrecord rfl

end EnsembleSampling
