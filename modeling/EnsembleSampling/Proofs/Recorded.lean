import EnsembleSampling.Proofs.Sweep.Carried
set_option autoImplicit false

/-!
# Requests on record

`Host.recorded` is a host that puts every request on record together with its answer, in
the order in which they are made; a request that fails is on record without an answer.
The record changes nothing else (`run_recorded_eq`), so what is proved of recorded runs
holds of runs.
-/

namespace EnsembleSampling

variable {σ ε α β γ V W : Type}

/-- A request with its answer, if it got one. -/
inductive Event (α β V : Type) where
  | density (x : V) (answer : Option β)
  | coin (answer : Option Int)
  | normal (answer : Option α)
  | uniform (answer : Option β)

/-- The same request for the image of a position. -/
def Event.mapPosition (T : V → W) : Event α β V → Event α β W
  | .density x answer => .density (T x) answer
  | .coin answer => .coin answer
  | .normal answer => .normal answer
  | .uniform answer => .uniform answer

/-- A request that is put on record. -/
def Draw.recorded (x : Draw σ ε γ) (event : Option γ → Event α β V) :
    Draw (σ × List (Event α β V)) ε γ :=
  .ofOutcome fun (w, record) =>
    match x.outcome w with
    | (.ok a, w) => (.ok a, (w, record ++ [event (some a)]))
    | (.error e, w) => (.error e, (w, record ++ [event none]))

/-- The host that puts all requests on record. -/
def Host.recorded (h : Host σ ε α β V) : Host (σ × List (Event α β V)) ε α β V where
  logDensity x := (h.logDensity x).recorded (.density x)
  coin := h.coin.recorded .coin
  normal := h.normal.recorded .normal
  uniform := h.uniform.recorded .uniform
  noteUndefined i := fun (w, record) => (h.noteUndefined i w, record)

/-- A request does the same when it is not put on record. -/
theorem Draw.carried_recorded (x : Draw σ ε γ) (event : Option γ → Event α β V) :
    Draw.Carried Prod.fst id (fun _ => True) (x.recorded event) x := by
  refine ⟨.trivially _, fun (w, record) => ?_⟩
  rcases hx : x.outcome w with ⟨e | a, w'⟩ <;> simp [Draw.recorded, hx, Except.map]

/-- Two requests for corresponding positions leave corresponding records. -/
theorem Draw.recorded_carried (T : V → W) (x : Draw σ ε γ) {event : Option γ → Event α β V}
    {event' : Option γ → Event α β W} (h : ∀ a, event' a = (event a).mapPosition T) :
    Draw.Carried (Prod.map id (List.map (Event.mapPosition T))) id (fun _ => True)
      (x.recorded event) (x.recorded event') := by
  refine ⟨.trivially _, fun (w, record) => ?_⟩
  rcases hx : x.outcome w with ⟨e | a, w'⟩ <;> simp [Draw.recorded, hx, h, Except.map]

/-- A host that keeps a record answers as it does without. -/
theorem Host.carried_recorded (h : Host σ ε α β V) :
    h.recorded.Carried id (fun _ => True) Prod.fst h where
  logDensity _ _ := Draw.carried_recorded _ _
  coin := Draw.carried_recorded _ _
  normal := Draw.carried_recorded _ _
  uniform := Draw.carried_recorded _ _
  noteUndefined _ _ := rfl

section

variable [LinearOps α V] [LogScale β]

/-- A run on record is the run, with a record beside it. -/
theorem run_recorded_eq (h : Host σ ε α β V) (limit sweeps : Nat) (e : Ensemble V β)
    (w : σ) (record : List (Event α β V)) :
    run h limit sweeps e w =
      ((run h.recorded limit sweeps e (w, record)).1,
        (run h.recorded limit sweeps e (w, record)).2.1) := by
  have hT : CarriesProposals (α := α) (id : V → V) (fun _ => True) :=
    ⟨fun _ _ _ _ _ => trivial, fun _ _ _ _ _ => by simp⟩
  have hgood : ∀ x ∈ e.positions, (fun _ => True) x := fun _ _ => trivial
  have hsweeps := (h.carried_recorded.plainSweeps hT limit sweeps hgood).outcome_eq (w, record)
  have hid : (Walker.mapPosition id : Walker V β → Walker V β) = id := rfl
  rw [List.map_id, hid, List.map_id_fun, List.map_id_fun] at hsweeps
  rw [run_eq_plainSweeps h, run_eq_plainSweeps h.recorded]
  rcases (Chain.start e.size e.dims : Except Fault (Chain V β)) with f | c
  · rfl
  · simp only [Draw.outcome_map, hsweeps]
    rcases (plainSweeps h.recorded limit sweeps e.positions).outcome (w, record) with
      ⟨f | ts, w'⟩ <;> rfl

end

end EnsembleSampling
