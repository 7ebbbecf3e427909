import EnsembleSampling.Proofs.Chain.Room
import EnsembleSampling.Proofs.Chain.Slices
set_option autoImplicit false

/-!
# Discarded sweeps

To discard the first sweeps of a chain is never to have recorded them
(`discarding_undoes_recording`).  A chain is described by way of its positions at a stride, of
all its positions, and of its acceptance probabilities.  Each of them is read off the sweeps that
one slice selects (`Chain.retained`), so that it is enough to know these: `Chain.EndsAs` says that
they are the same for two chains, from some sweep of the one and from the beginning of the other.

A call for a summary lays the positions out and stores their means, so that a chain without sweeps
need not fail for want of sweeps (`summary_not_laid_out`).
-/

namespace EnsembleSampling

namespace Chain

variable {V α β : Type}

/-- From `first` on, a chain has the sweeps that another one has from its beginning. -/
structure EndsAs (c : Chain V β) (first : Int) (b : Chain V β) : Prop where
  size : c.size = b.size
  dims : c.dims = b.dims
  retained : ∀ k : Int, 0 < k → c.retained ⟨some first, k⟩ = b.retained ⟨some 0, k⟩

/-- Behind sweeps that it has more. -/
theorem endsAs_front {c b : Chain V β} {front : List (Ensemble V β)}
    (hc : c.sweeps = front ++ b.sweeps) (hsize : c.size = b.size) (hdims : c.dims = b.dims) :
    c.EndsAs front.length b :=
  ⟨hsize, hdims, fun k hk => by rw [retained, retained, hc, Slice.select_append hk]⟩

/-- The same, counted from the end; but the end itself cannot be counted from there. -/
theorem endsAs_back {c b : Chain V β} {front : List (Ensemble V β)}
    (hc : c.sweeps = front ++ b.sweeps) (hsize : c.size = b.size) (hdims : c.dims = b.dims)
    (hb : b.sweeps ≠ []) : c.EndsAs (-(b.sweeps.length : Int)) b :=
  ⟨hsize, hdims, fun k hk => by rw [retained, retained, hc, Slice.select_append_back hk front hb]⟩

/-! ## Results -/

theorem retained_startingAt (c : Chain V β) (first : Option Int) :
    c.retained (.startingAt first) = c.sweeps.drop (Slice.skipped c.sweeps.length first) :=
  Slice.select_startingAt first c.sweeps

namespace EndsAs

theorem retained_startingAt {c b : Chain V β} {first : Int} (h : c.EndsAs first b) :
    c.retained (.startingAt (some first)) = b.retained (.startingAt (some 0)) :=
  h.retained 1 Int.one_pos

theorem meanAcceptance [Zero β] [Add β] [Div β] [NatCast β] {c b : Chain V β} {first : Int}
    (h : c.EndsAs first b) : c.meanAcceptance (some first) = b.meanAcceptance (some 0) := by
  rw [Chain.meanAcceptance, Chain.meanAcceptance, acceptProbs, acceptProbs, h.retained_startingAt]

theorem positions {c b : Chain V β} {first : Int} (h : c.EndsAs first b) {k : Int} (hk : 0 < k) :
    c.positions ⟨some first, k⟩ = b.positions ⟨some 0, k⟩ := by
  rw [Chain.positions, Chain.positions, h.retained k hk]

theorem requireSweeps {c b : Chain (Point α) β} {first : Int} (h : c.EndsAs first b) :
    c.requireSweeps (some first) = b.requireSweeps (some 0) := by
  rw [Chain.requireSweeps, Chain.requireSweeps, h.size, h.dims, Slice.startingAt,
    h.positions Int.one_pos]
  rfl

variable [Zero α] [One α] [Neg α] [Add α] [Sub α] [Mul α] [Div α] [NatCast α] [LE α]
  [DecidableLE α] [LT α] [DecidableLT α] [CircleFunctions α]

theorem autocorrelationTimes {c b : Chain (Point α) β} {first : Int} (h : c.EndsAs first b)
    (factor : α) :
    c.autocorrelationTimes factor (some first) = b.autocorrelationTimes factor (some 0) := by
  rw [Chain.autocorrelationTimes, Chain.autocorrelationTimes, h.requireSweeps, h.size, h.dims,
    Slice.startingAt, h.positions Int.one_pos]
  rfl

theorem summary [Elementary α] {c b : Chain (Point α) α} {first : Int} (h : c.EndsAs first b)
    {k : Int} (hk : 0 < k) : c.summary ⟨some first, k⟩ = b.summary ⟨some 0, k⟩ := by
  simp only [Chain.summary, h.positions hk, h.dims, h.autocorrelationTimes, h.meanAcceptance]

end EndsAs

/-! ## Chains without sweeps -/

theorem requireSweeps_of_nil {c : Chain (Point α) β} {first : Option Int}
    (hc : c.retained (.startingAt first) = []) :
    c.requireSweeps first = .error (.input (.trajectoryShape [0, c.size, c.dims])) := by
  simp [requireSweeps, positions, hc]

theorem requireSweeps_of_ne_nil {c : Chain (Point α) β} {first : Option Int}
    (hc : c.retained (.startingAt first) ≠ []) : c.requireSweeps first = .ok () := by
  rw [requireSweeps_eq_ok_iff, positions]
  exact fun h => hc (List.map_eq_nil_iff.mp h)

section

variable [Zero α] [One α] [Neg α] [Add α] [Sub α] [Mul α] [Div α] [NatCast α] [LE α]
  [DecidableLE α] [LT α] [DecidableLT α] [CircleFunctions α] [Elementary α]

/-- A chain of which nothing is left has no summary. -/
theorem summary_eq_error {c : Chain (Point α) α} {s : Slice}
    (hc : c.retained (.startingAt s.start) = []) :
    c.summary s = .error (.input (.trajectoryShape [0, c.size, c.dims])) := by
  simp only [summary, autocorrelationTimes, requireSweeps_of_nil hc]
  rfl

/-- Any other has one. -/
theorem exists_summary_eq_ok {c : Chain (Point α) α} {s : Slice}
    (hc : c.retained (.startingAt s.start) ≠ []) : ∃ r, c.summary s = .ok r := by
  simp only [summary, autocorrelationTimes, requireSweeps_of_ne_nil hc]
  exact ⟨_, rfl⟩

end

theorem meanAcceptance_of_nil [Zero β] [Add β] [Div β] [NatCast β] {c : Chain V β}
    {first : Option Int} (hc : c.retained (.startingAt first) = []) :
    c.meanAcceptance first = 0 := by
  simp [meanAcceptance, acceptProbs, hc]

/-! ## Calls -/

namespace Opened

variable {o : Opened} (memory : Memory)

theorem answer_autocorrelationTimes (ho : o.requireLayout = .ok ()) (first : Int)
    (factor : Argument) :
    o.answer memory (.autocorrelationTimes (.integer first) factor) =
      (o.chain.requireSweeps (some first)).mapError Fault.rejected >>= fun _ =>
        Answer.values <$> Autocorrelation.integratedTimesOf factor o.chain.size o.chain.dims
          ((o.chain.positions (.startingAt (some first))).map (·.map Point.coords)) := by
  rw [answer, ho]
  rfl

theorem answer_summary (ho : o.requireLayout = .ok ()) (first : Int) {thin : Int}
    (hthin : 1 ≤ thin) : o.answer memory (.summary (.integer first) (.integer thin)) =
      Layout.checkStored memory [o.chain.dims] >>= fun _ =>
        Answer.summary <$> (o.chain.summary ⟨some first, thin⟩).mapError Fault.rejected := by
  have hzero : thin ≠ 0 := by omega
  rw [answer, ho, Slice.ofArguments_integer first hzero]
  rfl

/-- If the positions cannot be laid out there is neither a summary nor are there times. -/
theorem answer_of_requireLayout_eq_error {f : Fault} (ho : o.requireLayout = .error f) :
    (∀ discard thin, o.answer memory (.summary discard thin) = .error f) ∧
      ∀ discard factor, o.answer memory (.autocorrelationTimes discard factor) = .error f := by
  constructor
  · intro discard thin
    rw [answer, ho]
    rfl
  · intro discard factor
    rw [answer, ho]
    rfl

/-- A chain whose positions can be laid out answers with its summary, if there is memory for the
means and deviations. -/
theorem answer_summary_ofChain {c : OfPoints}
    (hroom : Layout.span [c.length, c.size, c.dims] ≤ addressable) (first : Int) {thin : Int}
    (hthin : 1 ≤ thin) : (ofChain c).answer memory (.summary (.integer first) (.integer thin)) =
      if memory.holds (bytesPerDouble * c.dims) then
        Answer.summary <$> (c.summary ⟨some first, thin⟩).mapError Fault.rejected
      else .error .outOfMemory := by
  have hlayout : (ofChain c).requireLayout = .ok () := (requireLayout_eq rfl).trans (if_pos hroom)
  have hmeans : Layout.checkStored memory [(ofChain c).chain.dims] =
      if memory.holds (bytesPerDouble * c.dims) then .ok () else .error .outOfMemory :=
    Layout.checkStored_axis memory (by simp [ofChain]) hroom
  rw [answer_summary memory hlayout first hthin, hmeans]
  split <;> rfl

/-- What a chain of which nothing is left answers when it is asked for a summary. -/
theorem answer_summary_of_nil {c : OfPoints} {first thin : Int}
    (hroom : Layout.span [c.length, c.size, c.dims] ≤ addressable)
    (hnone : c.retained (.startingAt (some first)) = []) (hthin : 1 ≤ thin) :
    (ofChain c).answer memory (.summary (.integer first) (.integer thin)) =
      if memory.holds (bytesPerDouble * c.dims) then
        .error (.rejected (.input (.trajectoryShape [0, c.size, c.dims])))
      else .error .outOfMemory := by
  have hsummary := summary_eq_error (s := ⟨some first, thin⟩) hnone
  rw [answer_summary_ofChain memory hroom first hthin, hsummary]
  rfl

theorem answer_meanAcceptance_of_nil {c : OfPoints} {first : Int} (dims : Argument)
    (hnone : c.retained (.startingAt (some first)) = []) :
    (⟨c, dims⟩ : Opened).answer memory (.meanAcceptance (.integer first)) = .ok (.value 0) :=
  congrArg (fun p => Except.ok (Answer.value p)) (meanAcceptance_of_nil hnone)

end Opened

namespace EndsAs

variable {c b : OfPoints} {first : Int} (h : c.EndsAs first b) (memory : Memory) (dims : Argument)

include h

theorem answer_meanAcceptance :
    (⟨c, dims⟩ : Opened).answer memory (.meanAcceptance (.integer first)) =
      (⟨b, dims⟩ : Opened).answer memory (.meanAcceptance (.integer 0)) :=
  congrArg (fun p => Except.ok (Answer.value p)) h.meanAcceptance

variable {dims} (hlayout : (⟨c, dims⟩ : Opened).requireLayout = .ok ())
  (hlayout' : (⟨b, dims⟩ : Opened).requireLayout = .ok ())

include hlayout hlayout'

theorem answer_summary {thin : Int} (hthin : 1 ≤ thin) :
    (⟨c, dims⟩ : Opened).answer memory (.summary (.integer first) (.integer thin)) =
      (⟨b, dims⟩ : Opened).answer memory (.summary (.integer 0) (.integer thin)) := by
  rw [Opened.answer_summary memory hlayout first hthin,
    Opened.answer_summary memory hlayout' 0 hthin, h.summary (by omega), h.dims]

theorem answer_autocorrelationTimes (factor : Argument) :
    (⟨c, dims⟩ : Opened).answer memory (.autocorrelationTimes (.integer first) factor) =
      (⟨b, dims⟩ : Opened).answer memory (.autocorrelationTimes (.integer 0) factor) := by
  rw [Opened.answer_autocorrelationTimes memory hlayout,
    Opened.answer_autocorrelationTimes memory hlayout', h.requireSweeps, Slice.startingAt,
    h.positions Int.one_pos, h.size, h.dims]
  rfl

end EndsAs

/-- **To discard sweeps is never to have recorded them.**  Let the sweeps of `c` be some sweeps
`front` and then those of `b`.

With as many discarded as `front` has, or all but as many as `b` has, if it has any, `c` has the
summary of `b` with none discarded, at any stride, and with it the same means, deviations,
acceptance and times; it has the same times for any window factor, and the same mean acceptance.
The answers to calls are the same too, where the factor may be anything, but if the positions of
`c` cannot be laid out, then the calls for a summary and for times fail with the fault of that.
With the number of dimensions given as an integer they can be laid out just if the bytes of the axes
can be addressed, and with a truth value in its place they cannot.

If `b` has sweeps there is such a summary, and it is the answer if there is memory for the means.
If `b` has none, then both chains are turned down because of the shape of their positions, if there
is memory for the means, and both have a mean acceptance of zero. -/
theorem discarding_undoes_recording {c b : OfPoints} {front : List (Ensemble (Point Float) Float)}
    (hc : c.sweeps = front ++ b.sweeps) (hsize : c.size = b.size) (hdims : c.dims = b.dims)
    (memory : Memory) :
    (∀ first : Int, first = front.length ∨ (b.sweeps ≠ [] ∧ first = -(b.sweeps.length : Int)) →
      (∀ thin, 1 ≤ thin → c.summary ⟨some first, thin⟩ = b.summary ⟨some 0, thin⟩) ∧
      (∀ factor,
        c.autocorrelationTimes factor (some first) = b.autocorrelationTimes factor (some 0)) ∧
      c.meanAcceptance (some first) = b.meanAcceptance (some 0) ∧
      ∀ dims,
        (⟨c, dims⟩ : Opened).answer memory (.meanAcceptance (.integer first)) =
          (⟨b, dims⟩ : Opened).answer memory (.meanAcceptance (.integer 0)) ∧
        match (⟨c, dims⟩ : Opened).requireLayout with
        | .ok () =>
          (∀ thin, 1 ≤ thin →
            (⟨c, dims⟩ : Opened).answer memory (.summary (.integer first) (.integer thin)) =
              (⟨b, dims⟩ : Opened).answer memory (.summary (.integer 0) (.integer thin))) ∧
          ∀ factor,
            (⟨c, dims⟩ : Opened).answer memory (.autocorrelationTimes (.integer first) factor) =
              (⟨b, dims⟩ : Opened).answer memory (.autocorrelationTimes (.integer 0) factor)
        | .error f =>
          (∀ discard thin,
            (⟨c, dims⟩ : Opened).answer memory (.summary discard thin) = .error f) ∧
          ∀ discard factor,
            (⟨c, dims⟩ : Opened).answer memory (.autocorrelationTimes discard factor) = .error f) ∧
    ((Opened.ofChain c).requireLayout =
        if Layout.span [c.length, c.size, c.dims] ≤ addressable then .ok ()
        else .error .malformed) ∧
    (∀ flag, (⟨c, .flag flag⟩ : Opened).requireLayout =
        if c.size ≤ addressable then .error .unsupported else .error .malformed) ∧
    (b.sweeps ≠ [] → ∀ thin, ∃ s, b.summary ⟨some 0, thin⟩ = .ok s ∧
      (1 ≤ thin → Layout.span [c.length, c.size, c.dims] ≤ addressable →
        (Opened.ofChain b).answer memory (.summary (.integer 0) (.integer thin)) =
          if memory.holds (bytesPerDouble * b.dims) then .ok (.summary s)
          else .error .outOfMemory)) ∧
    (b.sweeps = [] →
      (∀ thin,
        c.summary ⟨some front.length, thin⟩ =
            .error (.input (.trajectoryShape [0, b.size, b.dims])) ∧
          b.summary ⟨some 0, thin⟩ = .error (.input (.trajectoryShape [0, b.size, b.dims])) ∧
        (1 ≤ thin → Layout.span [c.length, c.size, c.dims] ≤ addressable →
          let turnedDown : Except Fault Answer :=
            if memory.holds (bytesPerDouble * b.dims) then
              .error (.rejected (.input (.trajectoryShape [0, b.size, b.dims])))
            else .error .outOfMemory
          (Opened.ofChain c).answer memory (.summary (.integer front.length) (.integer thin)) =
              turnedDown ∧
            (Opened.ofChain b).answer memory (.summary (.integer 0) (.integer thin)) = turnedDown)) ∧
      c.meanAcceptance (some front.length) = 0 ∧ b.meanAcceptance (some 0) = 0 ∧
      ∀ dims,
        (⟨c, dims⟩ : Opened).answer memory (.meanAcceptance (.integer front.length)) =
            .ok (.value 0) ∧
          (⟨b, dims⟩ : Opened).answer memory (.meanAcceptance (.integer 0)) = .ok (.value 0)) := by
  have hfront := endsAs_front hc hsize hdims
  have hrest : b.retained (.startingAt (some 0)) = b.sweeps := by
    rw [retained_startingAt, Slice.skipped_zero, List.drop_zero]
  have hlength : b.length ≤ c.length := by
    rw [← length_sweeps, ← length_sweeps, hc, List.length_append]
    exact Nat.le_add_left _ _
  have hroom : Layout.span [c.length, c.size, c.dims] ≤ addressable →
      Layout.span [b.length, b.size, b.dims] ≤ addressable := by
    rw [hsize, hdims]
    exact (Layout.span_le_of_le hlength _).trans
  refine ⟨?_, Opened.requireLayout_eq rfl, Opened.requireLayout_flag c, fun hb thin => ?_,
    fun hb => ?_⟩
  · intro first hfirst
    have hends : c.EndsAs first b := by
      rcases hfirst with rfl | ⟨hb, rfl⟩
      · exact hfront
      · exact endsAs_back hc hsize hdims hb
    refine ⟨fun thin hthin => hends.summary (by omega), hends.autocorrelationTimes,
      hends.meanAcceptance, fun dims => ⟨hends.answer_meanAcceptance memory dims, ?_⟩⟩
    split
    · rename_i hlayout
      have hlayout' := Opened.requireLayout_of_length_le hsize hlength hlayout
      exact ⟨fun thin hthin => hends.answer_summary memory hlayout hlayout' hthin,
        hends.answer_autocorrelationTimes memory hlayout hlayout'⟩
    · rename_i f hlayout
      exact Opened.answer_of_requireLayout_eq_error memory hlayout
  · obtain ⟨s, hs⟩ := exists_summary_eq_ok (s := ⟨some 0, thin⟩) (hrest ▸ hb)
    refine ⟨s, hs, fun hthin hlaid => ?_⟩
    rw [Opened.answer_summary_ofChain memory (hroom hlaid) 0 hthin, hs]
    rfl
  · have hnone : b.retained (.startingAt (some 0)) = [] := hrest.trans hb
    have hnone' : c.retained (.startingAt (some front.length)) = [] :=
      hfront.retained_startingAt.trans hnone
    refine ⟨fun thin => ⟨?_, summary_eq_error hnone, fun hthin hlaid => ⟨?_, ?_⟩⟩,
      meanAcceptance_of_nil hnone', meanAcceptance_of_nil hnone, fun dims =>
      ⟨Opened.answer_meanAcceptance_of_nil memory dims hnone',
        Opened.answer_meanAcceptance_of_nil memory dims hnone⟩⟩
    · rw [summary_eq_error hnone', hsize, hdims]
    · rw [Opened.answer_summary_of_nil memory hlaid hnone' hthin, hsize, hdims]
    · exact Opened.answer_summary_of_nil memory (hroom hlaid) hnone hthin

/-- Three walkers on a line, recorded three times and then twice. -/
theorem discarding_undoes_recording_line :
    let at3 : Float → Float → Float → Ensemble (Point Float) Float := fun x y z =>
      ⟨1, [⟨⟨[x]⟩, 0, 1⟩, ⟨⟨[y]⟩, 0, 0.5⟩, ⟨⟨[z]⟩, 0, 0.25⟩]⟩
    let front := [at3 0 1 2, at3 0.5 1 2, at3 0.5 1 3]
    let b : OfPoints := ⟨3, 1, [at3 1 2 4, at3 1 2 3]⟩
    let c : OfPoints := ⟨3, 1, b.recorded ++ front.reverse⟩
    let memory : Memory := .upTo 1024
    c.sweeps = front ++ b.sweeps ∧ c.size = b.size ∧ c.dims = b.dims ∧
      (∃ s, b.summary ⟨some 0, 2⟩ = .ok s ∧ c.summary ⟨some 3, 2⟩ = .ok s ∧
        c.summary ⟨some (-2), 2⟩ = .ok s ∧
        (Opened.ofChain b).answer memory (.summary (.integer 0) (.integer 2)) = .ok (.summary s)) ∧
      (Opened.ofChain c).requireLayout = .ok () ∧
      (Opened.ofChain c).answer memory (.summary (.integer (-2)) (.integer 2)) =
        (Opened.ofChain b).answer memory (.summary (.integer 0) (.integer 2)) := by
  intro at3 front b c memory
  have hc : c.sweeps = front ++ b.sweeps := rfl
  have hroom : Layout.span [c.length, c.size, c.dims] ≤ addressable :=
    show Layout.span [5, 3, 1] ≤ addressable by decide +kernel
  have hholds : memory.holds (bytesPerDouble * b.dims) = true := by decide
  have hb : b.sweeps ≠ [] := List.cons_ne_nil _ _
  have hthin : (1 : Int) ≤ 2 := by decide
  obtain ⟨hsame, hlayout, -, hsome, -⟩ := discarding_undoes_recording hc rfl rfl memory
  rw [if_pos hroom] at hlayout
  obtain ⟨s, hs, hanswer⟩ := hsome hb 2
  have hsummary := hanswer hthin hroom
  rw [if_pos hholds] at hsummary
  obtain ⟨hfront, -⟩ := hsame 3 (.inl rfl)
  obtain ⟨hback, -, -, hcalls⟩ := hsame (-2) (.inr ⟨hb, rfl⟩)
  have hanswers := hcalls (.integer c.dims)
  have hlaid : (⟨c, .integer c.dims⟩ : Opened).requireLayout = .ok () := hlayout
  rw [hlaid] at hanswers
  exact ⟨hc, rfl, rfl, ⟨s, hs, (hfront 2 hthin).trans hs, (hback 2 hthin).trans hs, hsummary⟩,
    hlayout, hanswers.2.1 2 hthin⟩

/-- Chains without sweeps that are not turned down because of the shape of their positions: one has
too many walkers, of another the number of dimensions was given as a truth value, and of the third
it is too large for the means to be stored in a given memory. -/
theorem summary_not_laid_out :
    (∃ o : Opened, Opened.ofCounts (.integer 4611686018427387904) (.integer 4) = .ok o ∧
      o.chain.sweeps = [] ∧ ∀ memory,
        o.answer memory (.summary (.integer 0) (.integer 1)) = .error .malformed) ∧
    (∃ o : Opened, Opened.ofCounts (.integer 3) (.flag true) = .ok o ∧
      o.chain.sweeps = [] ∧ ∀ memory,
        o.answer memory (.summary (.integer 0) (.integer 1)) = .error .unsupported) ∧
    ∃ o : Opened, Opened.ofCounts (.integer 3) (.integer 288230376151711744) = .ok o ∧
      o.chain.sweeps = [] ∧
        o.answer (.upTo (pow2 60)) (.summary (.integer 0) (.integer 1)) = .error .outOfMemory := by
  refine ⟨⟨⟨⟨4611686018427387904, 4, []⟩, .integer 4⟩, rfl, rfl, fun memory => ?_⟩,
    ⟨⟨⟨3, 1, []⟩, .flag true⟩, rfl, rfl, fun memory => ?_⟩,
    ⟨⟨⟨3, 288230376151711744, []⟩, .integer 288230376151711744⟩, rfl, rfl, ?_⟩⟩
  · have hroom : ¬ Layout.span [0, 4611686018427387904, 4] ≤ addressable := by decide +kernel
    let o : Opened := ⟨⟨4611686018427387904, 4, []⟩, .integer 4⟩
    have hlayout : o.requireLayout = _ := (Opened.requireLayout_eq rfl).trans (if_neg hroom)
    exact (Opened.answer_of_requireLayout_eq_error memory hlayout).1 _ _
  · have hsize : 3 ≤ addressable := by decide +kernel
    have hlayout := (Opened.requireLayout_flag ⟨3, 1, []⟩ true).trans (if_pos hsize)
    exact (Opened.answer_of_requireLayout_eq_error memory hlayout).1 _ _
  · have hroom : Layout.span [0, 3, 288230376151711744] ≤ addressable := by decide +kernel
    have hholds : ¬ (Memory.upTo (pow2 60)).holds (bytesPerDouble * 288230376151711744) = true := by
      decide +kernel
    exact (Opened.answer_summary_ofChain (c := ⟨3, 288230376151711744, []⟩) _ hroom 0
      (by decide)).trans (if_neg hholds)

end Chain

end EnsembleSampling
