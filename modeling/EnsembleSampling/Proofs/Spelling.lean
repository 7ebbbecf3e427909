import EnsembleSampling.Proofs.Recorded
set_option autoImplicit false

/-!
# What a record spells

A language `W` says for each answer of a request which words of events may go with it.
`Draw.Spells W x` says of a request `x` to a host that keeps a record that it adds a word of the
language to the record: the whole of it if the request succeeds, and the beginning of one if it
does not.  Where the host failed, the beginning ends with the request that had no answer.

There is one rule for each way in which a request is built, as for `Draw.Always`; a sequence of
requests spells the concatenations.
-/

namespace EnsembleSampling

variable {σ ε α β γ δ V : Type}

/-- The same request without its answer. -/
def Event.unanswered : Event α β V → Event α β V
  | .density x _ => .density x none
  | .coin _ => .coin none
  | .normal _ => .normal none
  | .uniform _ => .uniform none

/-- How the events `t` on record fit an outcome, if the words for an answer `a` are `W a`.
Nothing that is refused has a word. -/
def Follows (W : γ → List (Event α β V) → Prop) :
    Except (SweepFailure ε) γ → List (Event α β V) → Prop
  | .ok a, t => W a t
  | .error (.raised _), t =>
      ∃ a front event rest, W a (front ++ event :: rest) ∧ t = front ++ [event.unanswered]
  | .error .stalled, t => ∃ a rest, W a (t ++ rest)
  | .error (.refused _), _ => False

/-- In every state a request adds to the record what fits its outcome. -/
def Draw.Spells (W : γ → List (Event α β V) → Prop)
    (x : Draw (σ × List (Event α β V)) (SweepFailure ε) γ) : Prop :=
  ∀ w record, ∃ t, (x.outcome (w, record)).2.2 = record ++ t ∧
    Follows W (x.outcome (w, record)).1 t

namespace Follows

variable {W W' : γ → List (Event α β V) → Prop} {r : Except (SweepFailure ε) γ}
  {t : List (Event α β V)}

theorem mono (hW : ∀ a t, W a t → W' a t) (h : Follows W r t) : Follows W' r t := by
  cases r with
  | ok a => exact hW a t h
  | error e =>
    cases e with
    | refused => exact h
    | raised =>
      obtain ⟨a, front, event, rest, hword, rfl⟩ := h
      exact ⟨a, front, event, rest, hW a _ hword, rfl⟩
    | stalled =>
      obtain ⟨a, rest, hword⟩ := h
      exact ⟨a, rest, hW a _ hword⟩

/-- Whatever the outcome, some answer has a word. -/
theorem exists_word (h : Follows W r t) : ∃ a s, W a s := by
  cases r with
  | ok a => exact ⟨a, t, h⟩
  | error e =>
    cases e with
    | refused => exact h.elim
    | raised =>
      obtain ⟨a, front, event, rest, hword, -⟩ := h
      exact ⟨a, _, hword⟩
    | stalled =>
      obtain ⟨a, rest, hword⟩ := h
      exact ⟨a, _, hword⟩

/-- Events that fit after others fit together with these. -/
theorem append {s : List (Event α β V)} (h : Follows (fun a t => W a (s ++ t)) r t) :
    Follows W r (s ++ t) := by
  cases r with
  | ok a => exact h
  | error e =>
    cases e with
    | refused => exact h
    | raised =>
      obtain ⟨a, front, event, rest, hword, rfl⟩ := h
      refine ⟨a, s ++ front, event, rest, ?_, ?_⟩
      · rwa [List.append_assoc]
      · rw [List.append_assoc]
    | stalled =>
      obtain ⟨a, rest, hword⟩ := h
      refine ⟨a, rest, ?_⟩
      rwa [List.append_assoc]

/-- Events that fit a failure still fit it if every word goes on to a word. -/
theorem of_error {W' : δ → List (Event α β V) → Prop} {e : SweepFailure ε}
    (h : Follows W (.error e) t) (hW : ∀ a s, W a s → ∃ b u, W' b (s ++ u)) :
    Follows W' (.error e) t := by
  cases e with
  | refused => exact h
  | raised =>
    obtain ⟨a, front, event, rest, hword, rfl⟩ := h
    obtain ⟨b, u, hword'⟩ := hW a _ hword
    refine ⟨b, front, event, rest ++ u, ?_, rfl⟩
    rwa [List.append_assoc, List.cons_append] at hword'
  | stalled =>
    obtain ⟨a, rest, hword⟩ := h
    obtain ⟨b, u, hword'⟩ := hW a _ hword
    refine ⟨b, rest ++ u, ?_⟩
    rwa [List.append_assoc] at hword'

end Follows

namespace Draw.Spells

variable {W W' : γ → List (Event α β V) → Prop}

theorem mono {x : Draw (σ × List (Event α β V)) (SweepFailure ε) γ} (h : Spells W x)
    (hW : ∀ a t, W a t → W' a t) : Spells W' x := by
  intro w record
  obtain ⟨t, hrecord, hfollows⟩ := h w record
  exact ⟨t, hrecord, hfollows.mono hW⟩

protected theorem pure {a : γ} (h : W a []) :
    Spells W (pure a : Draw (σ × List (Event α β V)) (SweepFailure ε) γ) :=
  fun _ record => ⟨[], (List.append_nil record).symm, h⟩

/-- A search may be given up wherever a word can begin. -/
theorem stall {a : γ} {t : List (Event α β V)} (h : W a t) :
    Spells W (throw .stalled : Draw (σ × List (Event α β V)) (SweepFailure ε) γ) :=
  fun _ record => ⟨[], (List.append_nil record).symm, a, t, h⟩

/-- What follows a request spells what is left of the words that begin with those of the
request.  If the request fails, what it left unsaid may be said in any way. -/
protected theorem bind {W' : δ → List (Event α β V) → Prop}
    {x : Draw (σ × List (Event α β V)) (SweepFailure ε) γ}
    {k : γ → Draw (σ × List (Event α β V)) (SweepFailure ε) δ} (hx : Spells W x)
    (hk : ∀ a s, W a s → Spells (fun b t => W' b (s ++ t)) (k a)) : Spells W' (x >>= k) := by
  intro w record
  obtain ⟨s, hrecord, hfollows⟩ := hx w record
  rcases hout : x.outcome (w, record) with ⟨e | a, w', record'⟩
  · rw [hout] at hrecord hfollows
    rw [outcome_bind_of_error hout]
    refine ⟨s, hrecord, hfollows.of_error fun a s' hword => ?_⟩
    -- Had `x` gone on to the answer `a`, the next request would have found some word.
    obtain ⟨t, -, hnext⟩ := hk a s' hword w' record'
    exact hnext.exists_word
  · rw [hout] at hrecord hfollows
    rw [outcome_bind_of_ok hout]
    obtain ⟨t, hrecord', hnext⟩ := hk a s hfollows w' record'
    refine ⟨s ++ t, ?_, hnext.append⟩
    have hrecord : record' = record ++ s := hrecord
    rw [hrecord', hrecord, List.append_assoc]

/-- A request on record spells itself with its answer, which has every property that all
answers have. -/
theorem recorded_of_always {P : γ → Prop} {x : Draw σ ε γ} (hx : Always P x) (a₀ : γ) (ha₀ : P a₀)
    {event : Option γ → Event α β V} (hevent : ∀ a, event none = (event (some a)).unanswered) :
    Spells (fun a t => P a ∧ t = [event (some a)]) (x.recorded event).inSweep := by
  intro w record
  rcases hout : x.outcome w with ⟨e | a, w'⟩
  · have hfails : (x.recorded event).outcome (w, record) =
        (.error e, (w', record ++ [event none])) := by
      simp only [Draw.recorded, outcome_ofOutcome, hout]
    rw [outcome_inSweep_of_error hfails]
    exact ⟨[event none], rfl, a₀, [], event (some a₀), [], ⟨ha₀, rfl⟩, by
      rw [hevent a₀]
      rfl⟩
  · have hanswers : (x.recorded event).outcome (w, record) =
        (.ok a, (w', record ++ [event (some a)])) := by
      simp only [Draw.recorded, outcome_ofOutcome, hout]
    rw [outcome_inSweep_of_ok hanswers]
    exact ⟨[event (some a)], rfl, hx w a w' hout, rfl⟩

/-- A request on record spells itself with its answer. -/
theorem recorded [Inhabited γ] (x : Draw σ ε γ) {event : Option γ → Event α β V}
    (hevent : ∀ a, event none = (event (some a)).unanswered) :
    Spells (fun a t => t = [event (some a)]) (x.recorded event).inSweep :=
  (recorded_of_always (.trivially x) default trivial hevent).mono fun _ _ h => h.2

/-- The same request several times. -/
theorem times [Inhabited γ] (x : Draw σ ε γ) {event : Option γ → Event α β V}
    (hevent : ∀ a, event none = (event (some a)).unanswered) (n : Nat) :
    Spells (fun as t => as.length = n ∧ t = as.map fun a => event (some a))
      (Draw.times n (x.recorded event)).inSweep := by
  induction n with
  | zero => exact .pure ⟨rfl, rfl⟩
  | succ n ih =>
    rw [times_succ, inSweep_bind]
    refine (recorded x hevent).bind fun a s hs => ?_
    rw [inSweep_bind]
    refine ih.bind fun as t has => ?_
    refine .pure ⟨by rw [List.length_cons, has.1], ?_⟩
    rw [hs, has.2, List.append_nil]
    rfl

/-- Changes that leave the record alone go without saying. -/
theorem change {f : σ × List (Event α β V) → σ × List (Event α β V)}
    (hf : ∀ w record, (f (w, record)).2 = record) :
    Spells (fun _ t => t = [])
      (change f : Draw (σ × List (Event α β V)) (SweepFailure ε) Unit) :=
  fun w record => ⟨[], by rw [outcome_change, hf, List.append_nil], rfl⟩

end Draw.Spells

end EnsembleSampling
