import EnsembleSampling.Proofs.Run.Faithful
import EnsembleSampling.Proofs.Sweep.Share
set_option autoImplicit false

/-!
# A sweep moves all walkers at once

A sweep moves one walker after the other, writes into one buffer and reads one source.
Nevertheless every walker makes a step of its own: it starts from the positions before the
sweep and takes its own share of the draws, and no other share has an influence on it.

To say so, the walkers may be moved in any order (`moveInOrder`), each into its own slot.  The
sweep is the case of ascending order (`moveWalkers_eq_moveInOrder`).  The invariant of the loop
is that the slots of the walkers already moved hold the steps of their shares, and that all
other slots are as they were; as the position of a walker is read before the sweep and no
walker comes twice, a slot once written is not touched again.
-/

namespace EnsembleSampling

variable {σ ε α β V : Type} {N : Nat}

/-! ## Moves in any order -/

/-- A program for one slot, in a buffer of several. -/
def atSlot (i : Fin N) (p : Draw (Desk σ V β) (SweepFailure ε) Unit) :
    Draw (σ × (Fin N → Walker V β)) (SweepFailure ε) Unit :=
  .ofOutcome fun (w, slots) =>
    let (r, (w, slot)) := p.outcome (w, slots i)
    (r, (w, Function.update slots i slot))

/-- Move walkers in a given order, each among all positions `X` before the sweep and into its
own slot. -/
def moveInOrder [LinearOps α V] [LogScale β] (h : Host σ ε α β V) (limit : Nat)
    (X : Fin N → V) : List (Fin N) → Draw (σ × (Fin N → Walker V β)) (SweepFailure ε) Unit
  | [] => pure ()
  | i :: is => do
    atSlot i (moveWalker h limit (List.ofFn X) i (X i))
    moveInOrder h limit X is

/-- The shares of walkers on a tape, in the order of the walkers. -/
def tapeOfShares (shares : Fin N → Share α β) : List (Fin N) → Tape α β
  | [] => ⟨[], [], []⟩
  | i :: is => (shares i).tape.append (tapeOfShares shares is)

/-- A program for a slot leaves there what the plain move answers, and fails where that
fails. -/
theorem outcome_atSlot_of_ok {p : Draw (Desk σ V β) (SweepFailure ε) Unit}
    {q : Draw σ (SweepFailure ε) (Walker V β)} (h : Fills p q) {w w' : σ} {a : Walker V β}
    (hq : q.outcome w = (.ok a, w')) (i : Fin N) (slots : Fin N → Walker V β) :
    (atSlot i p).outcome (w, slots) = (.ok (), (w', Function.update slots i a)) := by
  simp only [atSlot, Draw.outcome_ofOutcome, h.of_ok hq]

theorem outcome_atSlot_of_error {p : Draw (Desk σ V β) (SweepFailure ε) Unit}
    {q : Draw σ (SweepFailure ε) (Walker V β)} (h : Fills p q) {w w' : σ} {e : SweepFailure ε}
    (hq : q.outcome w = (.error e, w')) (i : Fin N) (slots : Fin N → Walker V β) :
    ∃ spoilt, (atSlot i p).outcome (w, slots) =
      (.error e, (w', Function.update slots i spoilt)) := by
  obtain ⟨spoilt, hp⟩ := h.of_error hq (slots i)
  refine ⟨spoilt, ?_⟩
  simp only [atSlot, Draw.outcome_ofOutcome, hp]

section

variable [LinearOps α V] [LogScale β] (h : Host σ ε α β V) (limit : Nat) (X : Fin N → V)

/-- Moving walkers touches no other slots, whatever becomes of the moves. -/
theorem slots_moveInOrder_of_notMem {i : Fin N} {is : List (Fin N)} (hi : i ∉ is) (w : σ)
    (slots : Fin N → Walker V β) :
    ((moveInOrder h limit X is).outcome (w, slots)).2.2 i = slots i := by
  induction is generalizing w slots with
  | nil => rfl
  | cons j is ih =>
    rw [List.mem_cons, not_or] at hi
    rw [moveInOrder, Draw.outcome_bind]
    simp only [atSlot, Draw.outcome_ofOutcome]
    rcases (moveWalker h limit (List.ofFn X) j (X j)).outcome (w, slots j) with ⟨e | _, w', a⟩
    · exact Function.update_of_ne hi.1 _ _
    · exact (ih hi.2 _ _).trans (Function.update_of_ne hi.1 _ _)

/-- The loop of a sweep moves consecutive walkers in ascending order. -/
theorem moveWalkers_eq_moveInOrder {is : List (Fin N)} {index : Nat}
    (his : is.map Fin.val = List.range' index is.length) (slots : Fin N → Walker V β) (w : σ) :
    moveWalkers h limit (List.ofFn X) index (is.map X) (is.map slots) w =
      let (r, (w', slots')) := (moveInOrder h limit X is).outcome (w, slots)
      (r, is.map slots', w') := by
  -- A walker knows its own number only through its place in the list of those to come.
  induction is generalizing index slots w with
  | nil => rfl
  | cons i is ih =>
    have hnodup : (i :: is).Nodup := by
      apply List.Nodup.of_map Fin.val
      rw [his]
      exact List.nodup_range'
    have hi : i ∉ is := (List.nodup_cons.mp hnodup).1
    have hrest (a : Walker V β) : is.map (Function.update slots i a) = is.map slots := by
      apply List.map_congr_left
      intro j hj
      apply Function.update_of_ne
      rintro rfl
      exact hi hj
    rw [List.map_cons, List.length_cons, List.range'_succ, List.cons.injEq] at his
    obtain ⟨rfl, his⟩ := his
    rw [List.map_cons, List.map_cons, moveWalkers, moveInOrder, Draw.outcome_bind]
    simp only [atSlot, Draw.outcome_ofOutcome]
    rcases (moveWalker h limit (List.ofFn X) i (X i)).outcome (w, slots i) with ⟨e | _, w', a⟩
    · simp only [List.map_cons, Function.update_self, hrest]
    · have hslot := slots_moveInOrder_of_notMem h limit X hi w' (Function.update slots i a)
      have hmoves := ih his (Function.update slots i a) w'
      rw [hrest] at hmoves
      simp only [hmoves, List.map_cons, hslot, Function.update_self]

/-- A sweep of a sampler with three walkers or more moves them in ascending order. -/
theorem transition_eq_moveInOrder (hN : minWalkers ≤ N) (before slots : Fin N → Walker V β)
    (dims sweeps : Nat) (w : σ) :
    (⟨.walk, ⟨dims, List.ofFn before⟩, ⟨dims, List.ofFn slots⟩, sweeps⟩ :
        Sampler V β).transition h limit w =
      match (moveInOrder h limit (fun i => (before i).position) (List.finRange N)).outcome
        (w, slots) with
      | (.ok (), (w', after)) =>
        (.ok (), ⟨.walk, ⟨dims, List.ofFn after⟩, ⟨dims, List.ofFn before⟩, sweeps + 1⟩, w')
      | (.error e, (w', spoilt)) =>
        (.error e, ⟨.walk, ⟨dims, List.ofFn before⟩, ⟨dims, List.ofFn spoilt⟩, sweeps⟩, w') := by
  have hpositions : (⟨dims, List.ofFn before⟩ : Ensemble V β).positions =
      List.ofFn fun i => (before i).position := List.map_ofFn
  have hcheck : checkBuffers (⟨dims, List.ofFn before⟩ : Ensemble V β).shape
      (⟨dims, List.ofFn slots⟩ : Ensemble V β).shape [(⟨dims, List.ofFn slots⟩ : Ensemble V β).size]
      [(⟨dims, List.ofFn slots⟩ : Ensemble V β).size] = .ok () := by
    have hnot : ¬ N < minWalkers := Nat.not_lt.mpr hN
    simp [checkBuffers, Ensemble.shape, Ensemble.size, hnot]
  have hindices : (List.finRange N).map Fin.val = List.range' 0 (List.finRange N).length := by
    rw [List.map_coe_finRange_eq_range, List.length_finRange, List.range_eq_range']
  have hmoves := moveWalkers_eq_moveInOrder h limit (fun i => (before i).position) hindices slots w
  rw [← List.ofFn_eq_map, ← List.ofFn_eq_map] at hmoves
  simp only [Sampler.transition, Kernel.sweepInto, sweepInto, hcheck, hpositions, hmoves]
  rcases (moveInOrder h limit (fun i => (before i).position) (List.finRange N)).outcome (w, slots)
    with ⟨e | _, w', after⟩
  · simp only [List.ofFn_eq_map]
  · simp only [List.ofFn_eq_map]

end

/-! ## Shares in any order -/

section

variable [LinearOps α V] [LogScale β] [LogScale.Ordered β] {f : V → β} {limit : Nat}
  {X : Fin N → V}

/-- Walkers that are moved with success have taken one share each from the source, in the order
of the moves, and each has made the step of its share. -/
theorem exists_shares_of_moveInOrder [Inhabited α] {h : Host σ ε α β V}
    (hdensity : ∀ y, Draw.Always (fun l => l = f y) (h.logDensity y)) (hN : minWalkers ≤ N)
    {order : List (Fin N)} (horder : order.Nodup) {w w' : σ} {record record' : List (Event α β V)}
    {slots slots' : Fin N → Walker V β}
    (hmoves : (moveInOrder h.recorded limit X order).outcome ((w, record), slots) =
      (.ok (), ((w', record'), slots'))) :
    ∃ shares : Fin N → Share α β, (∀ i ∈ order, (shares i).Valid (N - 1)) ∧
      record' = record ++ order.flatMap (fun i => (shares i).events f X i) ∧
      ∀ i ∈ order, slots' i = (shares i).walker f X i := by
  induction order generalizing w record slots with
  | nil =>
    obtain ⟨⟨-, rfl⟩, -⟩ : (w = w' ∧ record = record') ∧ slots = slots' := by
      simpa [moveInOrder] using hmoves
    exact ⟨fun _ => ⟨[], [], [], 0⟩, by simp, by simp, by simp⟩
  | cons i order ih =>
    obtain ⟨hi, horder⟩ := List.nodup_cons.mp horder
    have hfills := fills_moveWalker h.recorded limit (List.ofFn X) i (X i)
    obtain ⟨t, hrecord, hfollows⟩ :=
      spells_plainMove_share (X := X) (i := i) hdensity limit hN w record
    rw [moveInOrder] at hmoves
    rcases hmove : (plainMove h.recorded limit (List.ofFn X) i (X i)).outcome (w, record) with
      ⟨e | a, w₁, record₁⟩
    · obtain ⟨spoilt, hslot⟩ := outcome_atSlot_of_error hfills hmove i slots
      rw [Draw.outcome_bind_of_error hslot] at hmoves
      simp at hmoves
    · rw [hmove] at hrecord hfollows
      obtain ⟨s, hs, rfl, rfl⟩ := hfollows
      obtain rfl : record₁ = record ++ s.events f X i := hrecord
      rw [Draw.outcome_bind_of_ok (outcome_atSlot_of_ok hfills hmove i slots)] at hmoves
      obtain ⟨shares, hvalid, hrecord, hsteps⟩ := ih horder hmoves
      have hother : ∀ j ∈ order, Function.update shares i s j = shares j := by
        intro j hj
        apply Function.update_of_ne
        rintro rfl
        exact hi hj
      refine ⟨Function.update shares i s, ?_, ?_, ?_⟩
      · rw [List.forall_mem_cons]
        refine ⟨by rwa [Function.update_self], ?_⟩
        intro j hj
        rw [hother j hj]
        exact hvalid j hj
      · have hevents : order.flatMap (fun j => (Function.update shares i s j).events f X j) =
            order.flatMap fun j => (shares j).events f X j := by
          apply congrArg List.flatten
          apply List.map_congr_left
          intro j hj
          rw [hother j hj]
        rw [List.flatMap_cons, Function.update_self, hevents, hrecord, List.append_assoc]
      · rw [List.forall_mem_cons]
        constructor
        · have hslot := slots_moveInOrder_of_notMem h.recorded limit X hi
            (w₁, record ++ s.events f X i) (Function.update slots i (s.walker f X i))
          rw [hmoves] at hslot
          rw [Function.update_self, ← Function.update_self i (s.walker f X i) slots]
          exact hslot
        · intro j hj
          rw [hother j hj]
          exact hsteps j hj

/-- From a tape that holds the shares of walkers in the order of the moves, each walker takes
its own share. -/
theorem outcome_moveInOrder_tapeOfShares {shares : Fin N → Share α β} {order : List (Fin N)}
    (horder : order.Nodup) (hvalid : ∀ i ∈ order, (shares i).Valid (N - 1))
    (hlimit : ∀ i ∈ order, (shares i).idle.length < limit) (slots : Fin N → Walker V β) :
    (moveInOrder (Tape.host f) limit X order).outcome (tapeOfShares shares order, slots) =
      (.ok (),
        (⟨[], [], []⟩, fun i => if i ∈ order then (shares i).walker f X i else slots i)) := by
  induction order generalizing slots with
  | nil => simp [moveInOrder, tapeOfShares]
  | cons i order ih =>
    obtain ⟨hi, horder⟩ := List.nodup_cons.mp horder
    rw [List.forall_mem_cons] at hvalid hlimit
    have hfills := fills_moveWalker (Tape.host f) limit (List.ofFn X) i (X i)
    have hmove := outcome_plainMove_share (f := f) (X := X) (i := i) hvalid.1 hlimit.1
      (tapeOfShares shares order)
    rw [moveInOrder, tapeOfShares,
      Draw.outcome_bind_of_ok (outcome_atSlot_of_ok hfills hmove i slots),
      ih horder hvalid.2 hlimit.2]
    have hslots : (fun j => if j ∈ order then (shares j).walker f X j
        else Function.update slots i ((shares i).walker f X i) j) =
        fun j => if j ∈ i :: order then (shares j).walker f X j else slots j := by
      funext j
      by_cases hji : j = i
      · subst hji
        simp [hi]
      · simp [hji]
    rw [hslots]

/-- **A sweep is a simultaneous step of all walkers.**  A sampler walks from `before`, with the
walkers at `X` and any log-density `f` of the position.

* Whatever the source, a sweep that succeeds has taken from it one share for each walker, in
  ascending order, and asked it for nothing else.  Each walker makes the Metropolis step of its
  own share, and the walkers before the sweep are as they were.
* Every family of shares can come up: whatever the slots of the buffer hold, walkers that are
  moved in any order and find their shares in that order make the steps of their own shares.
  So the outcome does not depend on the order, and the step of a walker not on other shares.
* The sweep is the case of ascending order, also if it fails.
* A share brings at least two companions, none of which is the walker itself, and one deviate
  for each.  In exact arithmetic it proposes the position of the walker plus the sum of the
  deviates times the offsets of the companions from their mean. -/
theorem transition_simultaneous [Inhabited α] (hN : minWalkers ≤ N) (f : V → β)
    (before slots : Fin N → Walker V β) (dims sweeps limit : Nat) :
    let s : Sampler V β :=
      ⟨.walk, ⟨dims, List.ofFn before⟩, ⟨dims, List.ofFn slots⟩, sweeps⟩
    let X : Fin N → V := fun i => (before i).position
    (∀ {σ ε : Type} (h : Host σ ε α β V),
      (∀ y, Draw.Always (fun l => l = f y) (h.logDensity y)) →
      ∀ (w w' : σ) (record : List (Event α β V)) (t : Sampler V β),
        s.transition h.recorded limit (w, []) = (.ok (), t, (w', record)) →
        ∃ shares : Fin N → Share α β, (∀ i, (shares i).Valid (N - 1)) ∧
          record = (List.finRange N).flatMap (fun i => (shares i).events f X i) ∧
          t.current.walkers = List.ofFn (fun i => (shares i).walker f X i) ∧
          t.next = s.current) ∧
    (∀ shares : Fin N → Share α β, (∀ i, (shares i).Valid (N - 1)) →
      (∀ i, (shares i).idle.length < limit) →
      ∀ order : List (Fin N), order.Perm (List.finRange N) →
        (moveInOrder (Tape.host f) limit X order).outcome (tapeOfShares shares order, slots) =
          (.ok (), (⟨[], [], []⟩, fun i => (shares i).walker f X i))) ∧
    (∀ {σ ε : Type} (h : Host σ ε α β V) (w : σ),
      s.transition h limit w =
        match (moveInOrder h limit X (List.finRange N)).outcome (w, slots) with
        | (.ok (), (w', after)) =>
          (.ok (), ⟨.walk, ⟨dims, List.ofFn after⟩, s.current, sweeps + 1⟩, w')
        | (.error e, (w', spoilt)) =>
          (.error e, { s with next := ⟨dims, List.ofFn spoilt⟩ }, w')) ∧
    (∀ (i : Fin N) (share : Share α β), share.Valid (N - 1) → i ∉ share.companions i ∧
      2 ≤ (share.companions i).length ∧
      share.deviates.length = (share.companions i).length) ∧
    (∀ {K : Type} [Field K] {D : Nat} (P : Fin N → Fin D → K) (i : Fin N) (share : Share K β),
      share.proposed P i = P i + (((share.companions i).zip share.deviates).map fun (j, z) =>
        z • (P j - ((share.companions i).length : K)⁻¹ •
          ((share.companions i).map P).sum)).sum) := by
  intro s X
  refine ⟨?_, ?_, ?_, ?_, ?_⟩
  · intro σ ε h hdensity w w' record t ht
    have hsweep := transition_eq_moveInOrder h.recorded limit hN before slots dims sweeps (w, [])
    rw [ht] at hsweep
    rcases hmoves : (moveInOrder h.recorded limit X (List.finRange N)).outcome ((w, []), slots) with
      ⟨e | _, ⟨w₁, record₁⟩, after⟩
    · simp [X, hmoves] at hsweep
    · obtain ⟨rfl, rfl, rfl⟩ : t = ⟨.walk, ⟨dims, List.ofFn after⟩, s.current, sweeps + 1⟩ ∧
          w' = w₁ ∧ record = record₁ := by
        simpa [X, hmoves] using hsweep
      obtain ⟨shares, hvalid, hrecord, hsteps⟩ := exists_shares_of_moveInOrder hdensity hN
        (List.nodup_finRange N) hmoves
      refine ⟨shares, fun i => hvalid i (List.mem_finRange i), hrecord, ?_, rfl⟩
      apply congrArg List.ofFn
      funext i
      exact hsteps i (List.mem_finRange i)
  · intro shares hvalid hlimit order horder
    have hmoves := outcome_moveInOrder_tapeOfShares (f := f) (X := X)
      (horder.nodup_iff.mpr (List.nodup_finRange N)) (fun i _ => hvalid i) (fun i _ => hlimit i)
      slots
    have hall (i : Fin N) : i ∈ order := horder.mem_iff.mpr (List.mem_finRange i)
    simpa only [hall, if_true] using hmoves
  · intro σ ε h w
    have hsweep := transition_eq_moveInOrder h limit hN before slots dims sweeps w
    rcases hmoves : (moveInOrder h limit X (List.finRange N)).outcome (w, slots) with
      ⟨e | _, w', after⟩
    · simpa only [X, hmoves] using hsweep
    · simpa only [X, hmoves] using hsweep
  · intro i share hvalid
    exact ⟨Share.notMem_companions i share, hvalid.length_companions i⟩
  · intro K _ D P i share
    exact Share.proposed_eq_add_sum P i share

end

/-! ## Three walkers on a line -/

/-- Walkers at three points of the line. -/
def lineWalkers : Fin 3 → Walker (Point Float) (Double signExp) :=
  ![⟨⟨[0]⟩, (0 : Float), (0 : Float)⟩, ⟨⟨[1]⟩, (0 : Float), (0 : Float)⟩,
    ⟨⟨[2]⟩, (0 : Float), (0 : Float)⟩]

/-- Draws for them, of which only those of the first take their walker elsewhere, to where it
has no log-density. -/
def lineShares : Fin 3 → Share Float (Double signExp) :=
  ![⟨[[0, 1]], [1, 1], [1, 0.5], (0.5 : Float)⟩, ⟨[], [1, 1], [0, 0], (0.5 : Float)⟩,
    ⟨[], [1, 1], [1, 1], (0.5 : Float)⟩]

theorem valid_lineShares (i : Fin 3) : (lineShares i).Valid 2 := by
  fin_cases i
  · exact ⟨by decide, by decide, by decide, by decide⟩
  · exact ⟨by decide, by decide, by decide, by decide⟩
  · exact ⟨by decide, by decide, by decide, by decide⟩

/-- A sweep of these walkers, and the same moves in another order. -/
theorem transition_simultaneous_line :
    minWalkers ≤ 3 ∧
      (let f : Point Float → Double signExp := onThreePoints
      let s : Sampler (Point Float) (Double signExp) :=
        ⟨.walk, ⟨1, List.ofFn lineWalkers⟩, ⟨1, List.ofFn lineWalkers⟩, 0⟩
      let X : Fin 3 → Point Float := fun i => (lineWalkers i).position
      (∃ t rest record, s.transition (Tape.host f).recorded 2
            (tapeOfShares lineShares (List.finRange 3), []) = (.ok (), t, (rest, record)) ∧
          ∃ shares : Fin 3 → Share Float (Double signExp), (∀ i, (shares i).Valid 2) ∧
            record = (List.finRange 3).flatMap (fun i => (shares i).events f X i) ∧
            t.current.walkers = List.ofFn (fun i => (shares i).walker f X i) ∧
            t.next = s.current) ∧
        [2, 0, 1].Perm (List.finRange 3) ∧
        (moveInOrder (Tape.host f) 2 X [2, 0, 1]).outcome
            (tapeOfShares lineShares [2, 0, 1], lineWalkers) =
          (.ok (), (⟨[], [], []⟩, fun i => (lineShares i).walker f X i))) := by
  have hN : minWalkers ≤ 3 := by decide
  have horder : [2, 0, 1].Perm (List.finRange 3) := by decide
  refine ⟨hN, ?_⟩
  intro f s X
  obtain ⟨hsweep, hmoves, -⟩ :=
    transition_simultaneous (α := Float) hN f lineWalkers lineWalkers 1 0 2
  refine ⟨?_, horder, ?_⟩
  · have hends : (s.transition (Tape.host f).recorded 2
        (tapeOfShares lineShares (List.finRange 3), [])).1.toOption.any (fun _ => true) = true := by
      decide +kernel
    obtain ⟨_, ⟨t, rest, record⟩, ht, -⟩ := Draw.exists_ok_of_any hends
    exact ⟨t, rest, record, ht, hsweep _ (Tape.logDensity_host f) _ rest record t ht⟩
  · refine hmoves lineShares valid_lineShares ?_ [2, 0, 1] horder
    decide

end EnsembleSampling
