import EnsembleSampling.Autocorrelation.Time
import EnsembleSampling.Tensor.Broadcast
set_option autoImplicit false

/-!
# Autocorrelation of arrays

The estimators of autocorrelation applied to arrays as callers hand them over: the
axes are checked, and a window factor is taken as an argument, which may be a number,
an array of numbers beside the times, or turn out to be neither.  That is found out
only when it is first used, after the correlations.
-/

namespace EnsembleSampling.Autocorrelation

/-- The window factor that is used when none is given. -/
def defaultFactor : Argument := .real 5.0

/-- The least power of two that is at least an argument.  Nothing is at least an
infinite one, and what is no number is at most anything. -/
def nextPowTwoOf : Argument → Except Fault Nat
  | .real x =>
    match Binary64.content x with
    | .undefined => .ok 1
    | .infinite true => .ok 1
    | .infinite false => .error .stalled
    | .finite .. => .ok (nextPowTwo ((Binary64.ceil? x).getD 0))
  | a => a.index.map nextPowTwo

/-- The autocorrelation of an array that must be a vector or a single value,
normalised or not. -/
def ofArray (normalize : Bool) (x : Tensor Float) : Except Fault (List Float) :=
  let x := x.atLeastVector
  if x.rank = 1 then
    if normalize then
      match autocorrelation? x.entries with
      | some cs => .ok cs
      | none => .error .outOfRange
    else .ok (autocovariance x.entries)
  else .error (.rejected (.input .sequenceNotVector))

/-! ## Windows -/

/-- A window factor. -/
inductive Factor where
  | single (c : Float)
  /-- One factor for every place beside which its entry comes to stand. -/
  | array (cs : Tensor Argument)
  deriving Inhabited

/-- The factor that an argument stands for.  A text is none, and neither is an array of
texts; in an array that keeps its members, each is looked at when it is used. -/
def factorOf : Argument → Except Fault Factor
  | .absent => .ok (.array (.scalar .absent))
  | .list cs => do
    let t ← Tensor.ofNested (.list cs)
    if t.entries.any Argument.isText && !t.entries.any Argument.keepsMembers then
      throw .unsupported
    pure (.array t)
  | c => c.operand.map .single

/-- Times multiplied by the factors beside them. -/
def scaledTimes (cs : Tensor Argument) (taus : Tensor Float) : Except Fault (Tensor Float) :=
  match Tensor.zip? Prod.mk cs taus with
  | none => .error .malformed
  | some pairs => do
    let entries ← pairs.entries.mapM fun (c, tau) => c.operand.map (· * tau)
    pure ⟨pairs.shape, entries⟩

/-- The window of times that have been multiplied by their factors already.  The indices
of the first `n` places run along the last axis; the window is the first place that is
not above its index, else the last index. -/
def windowAmong (n : Nat) (scaled : Tensor Float) : Except Fault Int :=
  let indices := Tensor.vector ((List.range n).map fun (i : Nat) => (i : Float))
  match Tensor.zip? (fun i x => decide (i < x)) indices scaled with
  | none => .error .malformed
  | some below =>
    match below.entries.idxOf? false with
    | some i => .ok i
    | none => .ok ((n : Int) - 1)

/-- The window of an array of times. -/
def windowOf (c : Argument) (taus : Tensor Float) : Except Fault Int := do
  if taus.rank = 0 then throw .unsupported
  let n := taus.shape.headD 0
  match ← factorOf c with
  | .single c =>
    if taus.rank = 1 then pure (window c taus.entries) else windowAmong n (taus.map (c * ·))
  | .array cs => windowAmong n (← scaledTimes cs taus)

/-- The time that the window selects. -/
def timeAt (c : Argument) (taus : List Float) : Except Fault Float := do
  let i ← windowOf c (.vector taus)
  match taus[i.toNat]? with
  | some t => pure t
  | none => throw .outOfRange

/-! ## Times -/

/-- The times summed up to every lag of an array of walkers' sequences. -/
def timesOf (y : Tensor Float) : Except Fault (List Float) := do
  if y.rank = 0 then throw .unsupported
  let rows ← y.subs.mapM (ofArray true)
  pure (cumulativeTimes (averaged rows))

/-- The autocorrelation time of one parameter from an array of walkers'
sequences. -/
def walkerTimeOf (c : Argument) (y : Tensor Float) : Except Fault Float := do
  timeAt c (← timesOf y)

/-- The autocorrelation time of every coordinate, with a factor that may turn out not to
be one if there is a coordinate to use it for. -/
def integratedTimesOf (c : Argument) (walkers dims : Nat) (steps : List (List (List Float))) :
    Except Fault (List Float) := do
  if dims = 0 then return []
  match ← factorOf c with
  | .single c => orOutOfRange (integratedTimes? c walkers dims steps)
  | .array _ =>
    (List.range dims).mapM fun d => do
      timeAt c (← orOutOfRange (walkerTimes? (coordinateSeries walkers d steps)))
where
  /-- A result that is missing where there is nothing to index. -/
  orOutOfRange {β : Type} (r : Option β) : Except Fault β := r.elim (.error .outOfRange) .ok

/-- The positions after every step, by step, walker and coordinate. -/
def trajectory (chain : Tensor Float) : List (List (List Float)) :=
  chain.subs.map fun s => s.slabs

/-- The autocorrelation time of every coordinate of an array of steps, walkers and
coordinates. -/
def integratedTimeOf (c : Argument) (chain : Tensor Float) : Except Fault (List Float) :=
  match chain.shape with
  | [steps, walkers, dims] =>
    if steps = 0 then .error (.rejected (.input (.trajectoryShape chain.shape)))
    else integratedTimesOf c walkers dims (trajectory chain)
  | s => .error (.rejected (.input (.trajectoryShape s)))

end EnsembleSampling.Autocorrelation
