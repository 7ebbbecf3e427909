import EnsembleSampling.Proofs.Recorded
import EnsembleSampling.Proofs.Sweep.Exchange
set_option autoImplicit false

/-!
# The schedule of a run

A run consists of one exchange for each walker in each sweep, and the requests that it makes are
the events of these exchanges and no others.  How many coins and deviates an exchange takes is
decided by the coins themselves, so the schedule is a language and not a table;
`run_spells_schedule` says that every record of a run is a word of it, or the beginning of one
where the run fails.
-/

namespace EnsembleSampling

variable {σ ε α β V : Type}

/-- One exchange for each of so many walkers in each of so many sweeps. -/
structure Scheduled (size sweeps : Nat) (turns : List (List (Exchange α β))) : Prop where
  sweeps : turns.length = sweeps
  walkers : ∀ es ∈ turns, es.length = size
  valid : ∀ es ∈ turns, ∀ e ∈ es, e.Valid (size - 1)

theorem Scheduled.nil (size : Nat) : Scheduled size 0 ([] : List (List (Exchange α β))) :=
  ⟨rfl, by simp, by simp⟩

/-- One sweep in front of others. -/
theorem scheduled_cons_iff {size sweeps : Nat} {es : List (Exchange α β)}
    {turns : List (List (Exchange α β))} :
    Scheduled size (sweeps + 1) (es :: turns) ↔
      es.length = size ∧ (∀ e ∈ es, e.Valid (size - 1)) ∧ Scheduled size sweeps turns := by
  constructor
  · rintro ⟨hsweeps, hwalkers, hvalid⟩
    rw [List.forall_mem_cons] at hwalkers hvalid
    exact ⟨hwalkers.1, hvalid.1, by simpa using hsweeps, hwalkers.2, hvalid.2⟩
  · rintro ⟨hes, hvalid, hturns⟩
    refine ⟨by simp [hturns.sweeps], ?_, ?_⟩
    · exact List.forall_mem_cons.mpr ⟨hes, hturns.walkers⟩
    · exact List.forall_mem_cons.mpr ⟨hvalid, hturns.valid⟩

variable [LinearOps α V] [LogScale β]

/-- The walkers after each sweep of a run from given positions. -/
def runWalkers : List V → List (List (Exchange α β)) → List (List (Walker V β))
  | _, [] => []
  | xs, es :: turns =>
    sweepWalkers xs es :: runWalkers ((sweepWalkers xs es).map Walker.position) turns

/-- The events of a run from given positions. -/
def runEvents : List V → List (List (Exchange α β)) → List (Event α β V)
  | _, [] => []
  | xs, es :: turns =>
    sweepEvents xs es ++ runEvents ((sweepWalkers xs es).map Walker.position) turns

/-- A sweep leaves as many walkers as it finds. -/
theorem length_positions_sweepWalkers {xs : List V} {es : List (Exchange α β)} (h : es.length = xs.length) :
    ((sweepWalkers xs es).map Walker.position).length = xs.length := by
  simp [sweepWalkers, h]

/-! ## Kinds of requests -/

omit [LogScale β] in
theorem map_request_sweepEvents {xs : List V} {es : List (Exchange α β)}
    (hlength : es.length = xs.length) (hes : ∀ e ∈ es, e.Valid (xs.length - 1)) :
    (sweepEvents xs es).map Event.request = es.flatMap (Exchange.word (xs.length - 1)) := by
  have hplaces : ((xs.zip es).zipIdx.map Prod.fst).map Prod.snd = es := by
    rw [List.zipIdx_map_fst, List.map_snd_zip (Nat.le_of_eq hlength)]
  have hwords : ∀ p ∈ (xs.zip es).zipIdx, (p.1.2.events xs p.2 p.1.1).map Event.request =
      p.1.2.word (xs.length - 1) := by
    intro p hp
    refine Exchange.map_request_events xs p.2 p.1.1 (hes _ ?_)
    rw [← hplaces, List.map_map]
    exact List.mem_map_of_mem hp
  calc (sweepEvents xs es).map Event.request
    _ = (xs.zip es).zipIdx.flatMap fun p => (p.1.2.events xs p.2 p.1.1).map Event.request :=
        List.map_flatMap
    _ = (xs.zip es).zipIdx.flatMap fun p => p.1.2.word (xs.length - 1) :=
        congrArg List.flatten (List.map_congr_left hwords)
    _ = (((xs.zip es).zipIdx.map Prod.fst).map Prod.snd).flatMap
          (Exchange.word (xs.length - 1)) := by
        rw [List.map_map, List.flatMap_map]
        rfl
    _ = es.flatMap (Exchange.word (xs.length - 1)) := by rw [hplaces]

/-- The requests of a run are the words of its exchanges, one after the other. -/
theorem map_request_runEvents {sweeps : Nat} {xs : List V} {turns : List (List (Exchange α β))}
    (hturns : Scheduled xs.length sweeps turns) :
    (runEvents xs turns).map Event.request =
      turns.flatten.flatMap (Exchange.word (xs.length - 1)) := by
  induction turns generalizing xs sweeps with
  | nil => rfl
  | cons es turns ih =>
    obtain ⟨sweeps, rfl⟩ : ∃ n, sweeps = n + 1 := ⟨turns.length, hturns.sweeps.symm⟩
    obtain ⟨hlength, hes, hrest⟩ := scheduled_cons_iff.mp hturns
    have hnext := length_positions_sweepWalkers hlength
    rw [← hnext] at hrest
    have htail := ih hrest
    rw [hnext] at htail
    rw [runEvents, List.map_append, map_request_sweepEvents hlength hes, htail, List.flatten_cons,
      List.flatMap_append]

/-! ## Runs -/

variable [Inhabited α] (h : Host σ ε α β V) (limit : Nat)

/-- Sweeps in a row spell one exchange for each walker in each of them. -/
theorem spells_plainSweeps (sweeps : Nat) {xs : List V} (hxs : minWalkers ≤ xs.length) :
    Draw.Spells
      (fun ts t => ∃ turns : List (List (Exchange α β)), Scheduled xs.length sweeps turns ∧
        ts = runWalkers xs turns ∧ t = runEvents xs turns)
      (plainSweeps h.recorded limit sweeps xs) := by
  induction sweeps generalizing xs with
  | zero => exact Draw.Spells.pure ⟨[], .nil _, rfl, rfl⟩
  | succ sweeps ih =>
    rw [plainSweeps]
    refine (spells_plainSweep h limit hxs).bind fun ws s hsweep => ?_
    obtain ⟨es, hlength, hes, rfl, rfl⟩ := hsweep
    have hnext := length_positions_sweepWalkers hlength
    refine (ih (hnext ▸ hxs)).bind fun ts t hsweeps => ?_
    obtain ⟨turns, hturns, rfl, rfl⟩ := hsweeps
    rw [hnext] at hturns
    refine Draw.Spells.pure ⟨es :: turns, scheduled_cons_iff.mpr ⟨hlength, hes, hturns⟩, rfl, ?_⟩
    rw [runEvents, List.append_nil]

/-- **The schedule of a run.**  From three walkers on, the requests of a run are the
concatenation, over the sweeps and over the walkers in order, of the events of one exchange:
density at the walker's position, coins in blocks of one for each other walker, a normal for each
coin of the last block that is not zero, density at the proposal, uniform.  The last block has at
least two such coins and no other block has more than one.  If the host fails, the requests up
to the one that failed are the beginning of such a concatenation, and so are those of a run
whose search for companions is given up.  A run that is refused asks for nothing.  The run that is
not on record ends as the one on record, and leaves the host in the same state. -/
theorem run_spells_schedule (sweeps : Nat) (e : Ensemble V β) (w : σ) :
    run h limit sweeps e w =
      ((run h.recorded limit sweeps e (w, [])).1, (run h.recorded limit sweeps e (w, [])).2.1) ∧
    match run h.recorded limit sweeps e (w, []) with
    | (.ok c, (_, record)) =>
      ∃ turns : List (List (Exchange α β)), Scheduled e.size sweeps turns ∧
        c.sweeps = (runWalkers e.positions turns).map (Ensemble.mk e.dims) ∧
        record = runEvents e.positions turns ∧
        record.map Event.request = turns.flatten.flatMap (Exchange.word (e.size - 1))
    | (.error (.raised _), (_, record)) =>
      ∃ (turns : List (List (Exchange α β))) (front : List (Event α β V)) (event : Event α β V)
        (rest : List (Event α β V)), Scheduled e.size sweeps turns ∧
        runEvents e.positions turns = front ++ event :: rest ∧
        record = front ++ [event.unanswered] ∧
        record.map Event.request <+: turns.flatten.flatMap (Exchange.word (e.size - 1))
    | (.error .stalled, (_, record)) =>
      ∃ (turns : List (List (Exchange α β))) (rest : List (Event α β V)),
        Scheduled e.size sweeps turns ∧ runEvents e.positions turns = record ++ rest ∧
        record.map Event.request <+: turns.flatten.flatMap (Exchange.word (e.size - 1))
    | (.error (.refused _), (_, record)) =>
      (e.size < minWalkers ∨ e.dims = 0) ∧ record = [] := by
  have hlength := e.length_positions
  refine ⟨run_recorded_eq h limit sweeps e w [], ?_⟩
  rw [run_eq_plainSweeps]
  rcases hc : (Chain.start e.size e.dims : Except Fault (Chain V β)) with f | c
  · refine ⟨?_, rfl⟩
    by_contra hfits
    rw [not_or, Nat.not_lt] at hfits
    rw [Chain.start_eq_ok hfits.1 (Nat.pos_of_ne_zero hfits.2)] at hc
    contradiction
  · have hsize := (Chain.le_of_start_eq_ok hc).1
    rw [← hlength] at hsize
    obtain ⟨t, hrecord, hfollows⟩ := spells_plainSweeps h limit sweeps hsize w []
    simp only [Draw.outcome_map]
    rcases hout : (plainSweeps h.recorded limit sweeps e.positions).outcome (w, []) with
      ⟨e' | ts, w', record⟩
    · rw [hout] at hrecord hfollows
      obtain rfl : record = t := hrecord
      cases e' with
      | refused => exact hfollows.elim
      | raised =>
        obtain ⟨_, front, event, rest, ⟨turns, hturns, -, hword⟩, rfl⟩ := hfollows
        refine ⟨turns, front, event, rest, hlength ▸ hturns, hword.symm, rfl, ?_⟩
        rw [← hlength, ← map_request_runEvents hturns, ← hword]
        exact ⟨rest.map Event.request, by simp [Event.request_unanswered]⟩
      | stalled =>
        obtain ⟨_, rest, turns, hturns, -, hword⟩ := hfollows
        refine ⟨turns, rest, hlength ▸ hturns, hword.symm, ?_⟩
        rw [← hlength, ← map_request_runEvents hturns, ← hword]
        exact ⟨rest.map Event.request, by simp⟩
    · rw [hout] at hrecord hfollows
      obtain rfl : record = t := hrecord
      obtain ⟨turns, hturns, rfl, rfl⟩ := hfollows
      refine ⟨turns, hlength ▸ hturns, Chain.sweeps_ofSweeps _ _ _, rfl, ?_⟩
      rw [← hlength]
      exact map_request_runEvents hturns

end EnsembleSampling
