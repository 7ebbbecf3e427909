import EnsembleSampling.Chain.Call
import EnsembleSampling.Ensemble.Sampler
import EnsembleSampling.Ensemble.Selection
import EnsembleSampling.Session.Arrays
set_option autoImplicit false

/-!
# Workbenches

A workbench has a sampler on it, the session that answers its requests, a chain of the
same size to record its sweeps in, and a text stream for its reports, which may be
missing.  `Workbench.perform` carries out one operation.  An operation that fails
leaves behind what it had done before: requests on record, a buffer partly written,
never a changed ensemble.
-/

namespace EnsembleSampling

/-- A sampler at work. -/
structure Workbench where
  sampler : Sampler (Point Float) Float
  session : Session
  chain : Chain.Opened
  /-- The text written to the stream, if there is one. -/
  output : Option String
  deriving Inhabited

namespace Workbench

open Session (Walkers Buffers)

/-- A workbench with walkers at given positions. -/
def start (kernel : Kernel) (session : Session) (positions : Argument)
    (output : Option String) : Except Fault Workbench := do
  let e ← Ensemble.ofArguments positions .absent .absent
  let c ← Chain.start e.size e.dims
  pure ⟨.start kernel e, session, .ofChain c, output⟩

/-! ## Operations -/

/-- An operation on a workbench. -/
inductive Call where
  | transition
  | state
  /-- Make a sweep and record it. -/
  | record
  | onChain (c : Chain.Call)
  | description
  | name
  | sweeps
  | meanPosition
  | meanAcceptProb
  | companions (index n : Argument)
  | meanOfSelected (selection rows : Argument)
  | logDensity (x : Argument)
  | draw (c : Random.Call)
  /-- Report the tuning parameters to the workbench's stream. -/
  | report
  /-- Report the tuning parameters to a stream of the caller's. -/
  | reportAside
  /-- A sweep between arrays: positions, and arrays of zeros of given shapes. -/
  | sweepArrays (positions newShape logProbShape acceptProbShape : Argument)
  deriving Inhabited

/-- What an operation on a workbench answers. -/
inductive Answer where
  | ensemble (e : Walkers)
  | chain (a : Chain.Answer)
  | integer (n : Int)
  | places (is : List Nat)
  | draw (a : Random.Answer)
  | value (x : Float)
  | table (t : Tensor Float)
  | text (s : String)
  | nothing
  /-- Arrays after a sweep, and why it ended early if it did. -/
  | buffers (b : Buffers) (f : Option Fault)
  deriving Inhabited

/-! ## Sweeps -/

/-- Make a sweep. -/
def transition (b : Workbench) : Except Fault Walkers × Workbench :=
  match b.sampler.transition Session.host Session.patience b.session with
  | (.ok (), s, w) => (.ok s.current, { b with sampler := s, session := w })
  | (.error e, s, w) => (.error e.toFault, { b with sampler := s, session := w })

/-- Make a sweep and record it. -/
def record (b : Workbench) : Except Fault Nat × Workbench :=
  match b.transition with
  | (.ok e, b) =>
    match b.chain.chain.record e with
    | .ok c => (.ok c.length, { b with chain := { b.chain with chain := c } })
    | .error r => (.error (.rejected r), b)
  | (.error f, b) => (.error f, b)

/-! ## Carrying out an operation -/

/-- Text at the end of the stream. -/
def writing (b : Workbench) (text : String) : Workbench :=
  { b with output := b.output.map (· ++ text) }

/-- The answer of a request to the session. -/
def asking {γ : Type} (b : Workbench) (answer : γ → Answer) (x : Draw Session Fault γ) :
    Except Fault Answer × Workbench :=
  let (r, w) := x.outcome b.session
  (r.map answer, { b with session := w })

/-- The log-density at a position given by an argument. -/
def logDensityAt (x : Argument) : Draw Session Fault Float := do
  Session.densityAt (← Draw.ofExcept (Tensor.ofArgument x))

/-- Companions, which only walkers that walk have. -/
def companionsOf (kernel : Kernel) (index n : Argument) : Draw Session Fault (List Nat) :=
  match kernel with
  | .walk => EnsembleSampling.companionsOf Session.host Session.patience index n
  | .hold => throw .noSuchOperation

/-- The mean of selected rows, which only walkers that walk have. -/
def meanOfRows (kernel : Kernel) (selection rows : Argument) : Except Fault (Tensor Float) :=
  match kernel with
  | .walk => do EnsembleSampling.meanOfSelected selection (← Tensor.ofArgument rows)
  | .hold => .error .noSuchOperation

/-- The answer of an operation, and the workbench after it, on a machine with a given
memory. -/
def perform (memory : Memory) (b : Workbench) : Call → Except Fault Answer × Workbench
  | .transition =>
    let (r, b) := b.transition
    (r.map .ensemble, b)
  | .state => (.ok (.ensemble b.sampler.current), b)
  | .record =>
    let (r, b) := b.record
    (r.map fun n => .chain (.count n), b)
  | .onChain c =>
    let (r, chain) := b.chain.perform memory c
    (r.map .chain, { b with chain })
  | .description => (.ok (.text b.sampler.description), b)
  | .name => (.ok (.text b.sampler.kernel.name), b)
  | .sweeps => (.ok (.integer b.sampler.sweeps), b)
  | .meanPosition => (.ok (.table (.vector b.sampler.meanPosition.coords)), b)
  | .meanAcceptProb => (.ok (.value b.sampler.meanAcceptProb), b)
  | .companions index n => b.asking .places (companionsOf b.sampler.kernel index n)
  | .meanOfSelected selection rows =>
    ((meanOfRows b.sampler.kernel selection rows).map .table, b)
  | .logDensity x => b.asking .value (logDensityAt x)
  | .draw c => b.asking .draw (Session.draw memory c)
  | .report => (.ok .nothing, b.writing b.sampler.kernel.metric)
  | .reportAside => (.ok (.text b.sampler.kernel.metric), b)
  | .sweepArrays positions newShape logProbShape acceptProbShape =>
    let arrays : Except Fault (Tensor Float × Buffers) := do
      let positions ← Tensor.ofArgument positions
      let zeros := Buffers.zeros (← Layout.shapeOf memory newShape)
        (← Layout.shapeOf memory logProbShape) (← Layout.shapeOf memory acceptProbShape)
      pure (positions, zeros)
    match arrays with
    | .error f => (.error f, b)
    | .ok (positions, zeros) =>
      let (buffers, f, w) := Session.sweepArrays b.sampler.kernel positions zeros b.session
      (.ok (.buffers buffers f), { b with session := w })

end Workbench

end EnsembleSampling
