import EnsembleSampling.Ensemble.Sampler
import EnsembleSampling.Proofs.Draw
set_option autoImplicit false

/-!
# The plain sweep

A sweep writes its walkers into a buffer, slot by slot and each slot in three steps.
`plainSweep` is the same sweep without a buffer: a request whose answer is the list of
the walkers after the sweep, and which is given nothing but the positions before it.

The relation `Fills p q` ties the two together for one slot: `p` leaves in the slot what
`q` answers, whatever the slot held before.  It has one rule for each way in which a
program at a `Desk` is built, so `fills_moveWalker` follows the text of `moveWalker`.
`sweepInto_eq` carries this over to a whole sweep of either kernel.
-/

namespace EnsembleSampling

variable {σ ε α β V : Type}

/-! ## Sweeps without a buffer -/

/-- Take note of a log-density that is no number. -/
def noteIfUndefined [LogScale β] (h : Host σ ε α β V) (index : Nat) (l : β) :
    Draw σ (SweepFailure ε) Unit :=
  if LogScale.isUndefined l then .change (h.noteUndefined index) else pure ()

/-- The walker with a given index and position after its move, among all positions before
the sweep. -/
def plainMove [LinearOps α V] [LogScale β] (h : Host σ ε α β V) (limit : Nat)
    (current : List V) (index : Nat) (x : V) : Draw σ (SweepFailure ε) (Walker V β) := do
  let old ← (h.logDensity x).inSweep
  let companions ← drawCompanions h index (current.length - 1) limit
  let deviates ← (Draw.times companions.length h.normal).inSweep
  let y := proposal x (companions.filterMap (current[·]?)) deviates
  let new ← (h.logDensity y).inSweep
  noteIfUndefined h index new
  let u ← h.uniform.inSweep
  pure ((⟨x, old, y, regarded new⟩ : Move V β).settle u)

/-- The walkers at the given positions after their moves, the first of which has a given
index. -/
def plainMoves [LinearOps α V] [LogScale β] (h : Host σ ε α β V) (limit : Nat)
    (current : List V) : Nat → List V → Draw σ (SweepFailure ε) (List (Walker V β))
  | _, [] => pure []
  | index, x :: xs => do
    let a ← plainMove h limit current index x
    let rest ← plainMoves h limit current (index + 1) xs
    pure (a :: rest)

/-- The walkers after a sweep from given positions. -/
def plainSweep [LinearOps α V] [LogScale β] (h : Host σ ε α β V) (limit : Nat)
    (xs : List V) : Draw σ (SweepFailure ε) (List (Walker V β)) :=
  if xs.length < minWalkers then throw (.refused (.rejected (.degenerate (.integer xs.length))))
  else plainMoves h limit xs 0 xs

/-- The walkers at given positions when none of them moves. -/
def plainHold [One β] (h : Host σ ε α β V) :
    List V → Draw σ (SweepFailure ε) (List (Walker V β))
  | [] => pure []
  | x :: xs => do
    let l ← (h.logDensity x).inSweep
    let rest ← plainHold h xs
    pure (⟨x, l, 1⟩ :: rest)

/-- The walkers after a sweep with a given kernel from given positions. -/
def Kernel.plainSweep [LinearOps α V] [LogScale β] (k : Kernel) (h : Host σ ε α β V)
    (limit : Nat) (xs : List V) : Draw σ (SweepFailure ε) (List (Walker V β)) :=
  match k with
  | .walk => EnsembleSampling.plainSweep h limit xs
  | .hold => plainHold h xs

/-! ## One slot -/

/-- Whatever the slot held, `p` leaves in it what `q` answers; where `q` fails, so does
`p`, with the slot in some state. -/
def Fills (p : Draw (Desk σ V β) (SweepFailure ε) Unit)
    (q : Draw σ (SweepFailure ε) (Walker V β)) : Prop :=
  ∀ w slot, match q.outcome w with
    | (.ok a, w') => p.outcome (w, slot) = (.ok (), (w', a))
    | (.error e, w') => ∃ spoilt, p.outcome (w, slot) = (.error e, (w', spoilt))

namespace Fills

variable {γ : Type}

theorem of_ok {p : Draw (Desk σ V β) (SweepFailure ε) Unit}
    {q : Draw σ (SweepFailure ε) (Walker V β)} (h : Fills p q) {w w' : σ} {a : Walker V β}
    (hq : q.outcome w = (.ok a, w')) (slot : Walker V β) :
    p.outcome (w, slot) = (.ok (), (w', a)) := by
  have hw := h w slot
  rw [hq] at hw
  exact hw

theorem of_error {p : Draw (Desk σ V β) (SweepFailure ε) Unit}
    {q : Draw σ (SweepFailure ε) (Walker V β)} (h : Fills p q) {w w' : σ}
    {e : SweepFailure ε} (hq : q.outcome w = (.error e, w')) (slot : Walker V β) :
    ∃ spoilt, p.outcome (w, slot) = (.error e, (w', spoilt)) := by
  have hw := h w slot
  rw [hq] at hw
  exact hw

theorem outcome_consult (x : Draw σ (SweepFailure ε) γ) (w : σ) (slot : Walker V β) :
    (consult x).outcome (w, slot) = ((x.outcome w).1, ((x.outcome w).2, slot)) := rfl

/-- A request to the host is the same request on both sides. -/
theorem consult_bind {x : Draw σ (SweepFailure ε) γ}
    {k : γ → Draw (Desk σ V β) (SweepFailure ε) Unit}
    {l : γ → Draw σ (SweepFailure ε) (Walker V β)} (h : ∀ a, Fills (k a) (l a)) :
    Fills (consult x >>= k) (x >>= l) := by
  intro w slot
  rcases hx : x.outcome w with ⟨e | a, w'⟩
  · have hc : (consult x).outcome (w, slot) = (.error e, (w', slot)) := by
      rw [outcome_consult, hx]
    rw [Draw.outcome_bind_of_error hx]
    exact ⟨slot, Draw.outcome_bind_of_error hc⟩
  · have hc : (consult x).outcome (w, slot) = (.ok a, (w', slot)) := by
      rw [outcome_consult, hx]
    rw [Draw.outcome_bind_of_ok hx, Draw.outcome_bind_of_ok hc]
    exact h a w' slot

/-- What is written before the end does not matter, because the slot is overwritten. -/
theorem write_bind {f : Walker V β → Walker V β}
    {k : Unit → Draw (Desk σ V β) (SweepFailure ε) Unit}
    {q : Draw σ (SweepFailure ε) (Walker V β)} (h : Fills (k ()) q) :
    Fills (write f >>= k) q := by
  intro w slot
  have hf : (write f : Draw (Desk σ V β) (SweepFailure ε) Unit).outcome (w, slot) =
      (.ok (), (w, f slot)) := rfl
  rw [Draw.outcome_bind_of_ok hf]
  exact h w (f slot)

/-- The last thing written is the whole slot. -/
theorem write_const (a : Walker V β) :
    Fills (write fun _ => a : Draw (Desk σ V β) (SweepFailure ε) Unit) (pure a) :=
  fun _ _ => rfl

end Fills

section Walk

variable [LogScale β] (h : Host σ ε α β V) (limit : Nat)

/-- The end of a move, once both log-densities are known. -/
theorem fills_settle (m : Move V β) :
    Fills
      (write (fun slot => { slot with acceptProb := m.probability }) >>= fun _ =>
        consult h.uniform.inSweep >>= fun u => write fun _ => m.settle u)
      (h.uniform.inSweep >>= fun u => pure (m.settle u)) := by
  refine Fills.write_bind ?_
  refine Fills.consult_bind fun u => ?_
  exact Fills.write_const (m.settle u)

variable [LinearOps α V]

/-- A walker's move leaves in its slot the walker that the plain move answers. -/
theorem fills_moveWalker (current : List V) (index : Nat) (x : V) :
    Fills (moveWalker h limit current index x) (plainMove h limit current index x) := by
  unfold moveWalker plainMove
  refine Fills.consult_bind fun old => ?_
  refine Fills.consult_bind fun companions => ?_
  refine Fills.consult_bind fun deviates => ?_
  refine Fills.write_bind ?_
  refine Fills.consult_bind fun new => ?_
  unfold noteIfUndefined
  by_cases hu : LogScale.isUndefined new = true
  · simp only [hu, if_true]
    exact Fills.consult_bind fun _ => fills_settle h _
  · simp only [hu]
    exact fills_settle h _

/-- Moving walkers into slots leaves in them the walkers that the plain moves answer. -/
theorem moveWalkers_eq (current : List V) :
    ∀ (xs : List V) (slots : List (Walker V β)) (index : Nat) (w : σ),
      slots.length = xs.length →
      match (plainMoves h limit current index xs).outcome w with
      | (.ok ws, w') => moveWalkers h limit current index xs slots w = (.ok (), ws, w')
      | (.error e, w') => ∃ spoilt : List (Walker V β), spoilt.length = xs.length ∧
          moveWalkers h limit current index xs slots w = (.error e, spoilt, w') := by
  intro xs
  induction xs with
  | nil =>
    intro slots index w hlen
    obtain rfl : slots = [] := List.length_eq_zero_iff.mp hlen
    rfl
  | cons x xs ih =>
    intro slots index w hlen
    obtain ⟨slot, slots, rfl⟩ : ∃ s t, slots = s :: t :=
      List.exists_cons_of_length_eq_add_one hlen
    have hlen' : slots.length = xs.length := by simpa using hlen
    have hfill := fills_moveWalker h limit current index x
    rw [plainMoves, moveWalkers]
    rcases hx : (plainMove h limit current index x).outcome w with ⟨e | a, w'⟩
    · obtain ⟨spoilt, hp⟩ := hfill.of_error hx slot
      rw [Draw.outcome_bind_of_error hx, hp]
      exact ⟨spoilt :: slots, by simpa using hlen', rfl⟩
    · rw [Draw.outcome_bind_of_ok hx, hfill.of_ok hx slot]
      have hrest := ih slots (index + 1) w' hlen'
      rcases hxs : (plainMoves h limit current (index + 1) xs).outcome w' with ⟨e | ws, w''⟩
      · rw [hxs] at hrest
        obtain ⟨spoilt, hlen'', hp⟩ := hrest
        rw [Draw.outcome_bind_of_error hxs]
        refine ⟨a :: spoilt, by simpa using hlen'', ?_⟩
        simp only [hp]
      · rw [hxs] at hrest
        rw [Draw.outcome_bind_of_ok hxs]
        simp only [hrest]
        rfl

/-- What every move from a position with `I` leaves, several such moves leave. -/
theorem always_plainMoves {I : V → Prop} {P : Walker V β → Prop} {current : List V}
    (hP : ∀ index x, I x → Draw.Always P (plainMove h limit current index x)) (index : Nat)
    {xs : List V} (hxs : ∀ x ∈ xs, I x) :
    Draw.Always (fun ws => ∀ a ∈ ws, P a) (plainMoves h limit current index xs) := by
  induction xs generalizing index with
  | nil => exact .pure (by simp)
  | cons x xs ih =>
    rw [List.forall_mem_cons] at hxs
    rw [plainMoves]
    refine (hP index x hxs.1).bind fun a ha => ?_
    refine (ih (index + 1) hxs.2).bind fun rest hrest => ?_
    exact .pure (List.forall_mem_cons.mpr ⟨ha, hrest⟩)

/-- A plain sweep answers one walker for each position. -/
theorem length_plainMoves (current : List V) :
    ∀ (index : Nat) (xs : List V), Draw.Always (fun ws => ws.length = xs.length)
      (plainMoves h limit current index xs)
  | _, [] => .pure rfl
  | index, x :: xs => by
    rw [plainMoves]
    refine Draw.Always.bind_any fun a => ?_
    refine (length_plainMoves current (index + 1) xs).bind fun rest hrest => ?_
    exact .pure (by simpa using hrest)

end Walk

/-! ## Walkers that stay -/

section Hold

variable (h : Host σ ε α β V)

theorem length_plainHold [One β] : ∀ xs : List V,
    Draw.Always (fun ws => ws.length = xs.length) (plainHold h xs)
  | [] => .pure rfl
  | x :: xs => by
    rw [plainHold]
    refine Draw.Always.bind_any fun l => ?_
    refine (length_plainHold xs).bind fun rest hrest => ?_
    exact .pure (by simpa using hrest)

/-- Evaluating positions that stand in their slots, and counting every walker as accepted
after that, is holding the walkers. -/
theorem evaluateWalkers_eq [One β] :
    ∀ (xs : List V) (slots : List (Walker V β)) (w : σ), slots.length = xs.length →
      match (plainHold h xs).outcome w with
      | (.ok ws, w') => ∃ filled : List (Walker V β),
          filled.map (fun s => { s with acceptProb := 1 }) = ws ∧
          evaluateWalkers h xs
            (List.zipWith (fun x slot => { slot with position := x }) xs slots) w =
              (.ok (), filled, w')
      | (.error e, w') => ∃ (f : ε) (spoilt : List (Walker V β)),
          e = .raised f ∧ spoilt.length = xs.length ∧
          evaluateWalkers h xs
            (List.zipWith (fun x slot => { slot with position := x }) xs slots) w =
              (.error f, spoilt, w') := by
  intro xs
  induction xs with
  | nil =>
    intro slots w hlen
    exact ⟨[], rfl, rfl⟩
  | cons x xs ih =>
    intro slots w hlen
    obtain ⟨slot, slots, rfl⟩ : ∃ s t, slots = s :: t :=
      List.exists_cons_of_length_eq_add_one hlen
    have hlen' : slots.length = xs.length := by simpa using hlen
    rw [plainHold, List.zipWith_cons_cons, evaluateWalkers]
    rcases hx : (h.logDensity x).outcome w with ⟨f | l, w'⟩
    · rw [Draw.outcome_bind_of_error (Draw.outcome_inSweep_of_error hx)]
      exact ⟨f, _, rfl, by simp [hlen'], rfl⟩
    · rw [Draw.outcome_bind_of_ok (Draw.outcome_inSweep_of_ok hx)]
      have hrest := ih slots w' hlen'
      rcases hxs : (plainHold h xs).outcome w' with ⟨e | ws, w''⟩
      · rw [hxs] at hrest
        obtain ⟨f, spoilt, rfl, hlen'', hev⟩ := hrest
        rw [Draw.outcome_bind_of_error hxs]
        refine ⟨f, ⟨x, l, slot.acceptProb⟩ :: spoilt, rfl, by simpa using hlen'', ?_⟩
        simp only [hev]
      · rw [hxs] at hrest
        obtain ⟨filled, rfl, hev⟩ := hrest
        rw [Draw.outcome_bind_of_ok hxs]
        refine ⟨⟨x, l, slot.acceptProb⟩ :: filled, rfl, ?_⟩
        simp only [hev]

end Hold

/-! ## A whole sweep -/

/-- The shapes of two ensembles agree when their sizes and dimensions do. -/
theorem Ensemble.shape_eq_iff {a b : Ensemble V β} :
    a.shape = b.shape ↔ a.size = b.size ∧ a.dims = b.dims := by
  simp [Ensemble.shape]

theorem Ensemble.length_positions (e : Ensemble V β) : e.positions.length = e.size := by
  simp [Ensemble.positions, Ensemble.size]

section Sweep

variable [LogScale β] (h : Host σ ε α β V) (limit : Nat)

/-- A sweep that moves no walker fills a buffer of the right shape with the walkers held. -/
theorem holdInto_eq {current buffer : Ensemble V β} (hb : buffer.shape = current.shape) (w : σ) :
    match (plainHold h current.positions).outcome w with
    | (.ok ws, w') => holdInto h current buffer w = (.ok (), ⟨current.dims, ws⟩, w')
    | (.error e, w') => ∃ spoilt : Ensemble V β, spoilt.shape = current.shape ∧
        holdInto h current buffer w = (.error e, spoilt, w') := by
  obtain ⟨hsize, hdims⟩ := Ensemble.shape_eq_iff.mp hb
  have hlen := current.length_positions
  have hev := evaluateWalkers_eq h current.positions buffer.walkers w (hsize.trans hlen.symm)
  unfold holdInto
  rcases hx : (plainHold h current.positions).outcome w with ⟨e | ws, w'⟩
  · rw [hx] at hev
    obtain ⟨f, spoilt, rfl, hspoilt, hm⟩ := hev
    refine ⟨{ buffer with walkers := spoilt }, ?_, by simp only [hm]⟩
    exact Ensemble.shape_eq_iff.mpr ⟨hspoilt.trans hlen, hdims⟩
  · rw [hx] at hev
    obtain ⟨filled, rfl, hm⟩ := hev
    simp only [hm, hdims]

variable [LinearOps α V]

theorem length_plainSweep (xs : List V) :
    Draw.Always (fun ws => ws.length = xs.length) (plainSweep h limit xs) := by
  unfold plainSweep
  split
  · exact .throw _
  · exact length_plainMoves h limit xs 0 xs

theorem always_plainSweep {I : V → Prop} {P : Walker V β → Prop}
    (hP : ∀ current, (∀ y ∈ current, I y) → ∀ index x, I x →
      Draw.Always P (plainMove h limit current index x)) {xs : List V} (hxs : ∀ x ∈ xs, I x) :
    Draw.Always (fun ws => ∀ a ∈ ws, P a) (plainSweep h limit xs) := by
  unfold plainSweep
  split
  · exact .throw _
  · exact always_plainMoves h limit (hP xs hxs) 0 hxs

/-- A sweep answers one walker for each position. -/
theorem Kernel.length_plainSweep (k : Kernel) (xs : List V) :
    Draw.Always (fun ws => ws.length = xs.length) (k.plainSweep h limit xs) := by
  cases k with
  | walk => exact EnsembleSampling.length_plainSweep h limit xs
  | hold => exact length_plainHold h xs

/-- A walking sweep fills a buffer of the right shape with the walkers of the plain sweep. -/
theorem sweepInto_eq {current buffer : Ensemble V β} (hb : buffer.shape = current.shape) (w : σ) :
    match (plainSweep h limit current.positions).outcome w with
    | (.ok ws, w') => sweepInto h limit current buffer w = (.ok (), ⟨current.dims, ws⟩, w')
    | (.error e, w') => ∃ spoilt : Ensemble V β, spoilt.shape = current.shape ∧
        sweepInto h limit current buffer w = (.error e, spoilt, w') := by
  obtain ⟨hsize, hdims⟩ := Ensemble.shape_eq_iff.mp hb
  have hlen := current.length_positions
  unfold plainSweep sweepInto checkBuffers
  by_cases hn : current.size < minWalkers
  · have hhead : current.shape.headD 0 = current.size := rfl
    simp only [hlen, hhead, hn, if_true]
    exact ⟨buffer, hb, rfl⟩
  · have hhead : current.shape.headD 0 = current.size := rfl
    have hslots : buffer.walkers.length = current.positions.length := by
      rw [hlen]
      exact hsize
    have hmoves := moveWalkers_eq h limit current.positions current.positions buffer.walkers 0 w
      hslots
    simp only [hlen, hhead, hn, hb, hsize, if_false, ne_eq, not_true, or_self]
    rcases hx : (plainMoves h limit current.positions 0 current.positions).outcome w with
      ⟨e | ws, w'⟩
    · rw [hx] at hmoves
      obtain ⟨spoilt, hspoilt, hm⟩ := hmoves
      refine ⟨{ buffer with walkers := spoilt }, ?_, by simp only [hm]⟩
      exact Ensemble.shape_eq_iff.mpr ⟨hspoilt.trans hlen, hdims⟩
    · rw [hx] at hmoves
      simp only [hmoves, hdims]

/-- A sweep into a buffer of the right shape, whichever the kernel. -/
theorem Kernel.sweepInto_eq (k : Kernel) {current buffer : Ensemble V β}
    (hb : buffer.shape = current.shape) (w : σ) :
    match (k.plainSweep h limit current.positions).outcome w with
    | (.ok ws, w') => k.sweepInto h limit current buffer w = (.ok (), ⟨current.dims, ws⟩, w')
    | (.error e, w') => ∃ spoilt : Ensemble V β, spoilt.shape = current.shape ∧
        k.sweepInto h limit current buffer w = (.error e, spoilt, w') := by
  cases k with
  | walk => exact EnsembleSampling.sweepInto_eq h limit hb w
  | hold => exact holdInto_eq h hb w

end Sweep

end EnsembleSampling
