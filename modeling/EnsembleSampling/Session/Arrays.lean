import EnsembleSampling.Ensemble.Sampler
import EnsembleSampling.Session
import EnsembleSampling.Tensor.Broadcast
import EnsembleSampling.Tensor.Layout
set_option autoImplicit false

/-!
# Sweeps between arrays

A caller may have a sweep made from an array of positions into arrays of zeros, without
an ensemble around them.  The walk checks the shapes first and is then the sweep of an
ensemble.  The sweep that moves no walker checks nothing: it writes what it can, one
array after the other, and fails where an array has no place for what is written.
Whatever was written before a failure stays written.
-/

namespace EnsembleSampling.Session

/-- Walkers on doubles. -/
abbrev Walkers : Type := Ensemble (Point Float) Float

/-- Arrays that a sweep is written into. -/
structure Buffers where
  positions : Tensor Float
  logProb : Tensor Float
  acceptProb : Tensor Float
  deriving Inhabited

/-- Arrays of zeros of given shapes. -/
def Buffers.zeros (positions logProb acceptProb : List Nat) : Buffers :=
  ⟨.constant positions 0.0, .constant logProb 0.0, .constant acceptProb 0.0⟩

/-- The arrays of an ensemble. -/
def Buffers.ofEnsemble (e : Walkers) : Buffers :=
  ⟨e.positionTable, .vector e.logProbs, .vector e.acceptProbs⟩

/-! ## Positions -/

/-- The log-density at what lies at a place of an array's first axis.  Only a vector is a
position; anything else is found not to be one after the request. -/
def densityAt (x : Tensor Float) : Draw Session Fault Float :=
  match x.shape with
  | [_] => Session.logDensity ⟨x.entries⟩
  | _ => do
    .change (·.noting .density)
    throw .unsupported

/-! ## Sweeps -/

/-- A walking sweep from an array of positions into arrays of zeros, which the walk states
what it finds wrong with. -/
def walkArrays (positions : Tensor Float) (zeros : Buffers) (w : Session) :
    Buffers × Option Fault × Session :=
  if positions.rank = 0 then (zeros, some .unsupported, w)
  else
    match checkBuffers positions.shape zeros.positions.shape zeros.logProb.shape
      zeros.acceptProb.shape with
    | .error r => (zeros, some (.rejected r), w)
    | .ok () =>
      match positions.shape with
      | [n, d] =>
        let walkerAt (x : Point Float) : Walker (Point Float) Float := ⟨x, 0.0, 0.0⟩
        let current : Walkers := ⟨d, positions.slabs.map fun xs => walkerAt ⟨xs⟩⟩
        let buffer : Walkers := ⟨d, List.replicate n (walkerAt ⟨List.replicate d 0.0⟩)⟩
        match sweepInto Session.host Session.patience current buffer w with
        | (.ok (), filled, w) => (.ofEnsemble filled, none, w)
        | (.error e, spoilt, w) => (.ofEnsemble spoilt, some e.toFault, w)
      | _ => (zeros, some .unsupported, w.noting .density)

/-- An array with a value written to all entries at a place of its first axis. -/
def writeAt (place : Nat) (value : Float) (t : Tensor Float) : Except Fault (Tensor Float) :=
  match t.shape with
  | [] => .error .outOfRange
  | n :: rest =>
    if place < n then
      let size := Tensor.count rest
      .ok ⟨t.shape, t.entries.take (place * size) ++ List.replicate size value
        ++ t.entries.drop ((place + 1) * size)⟩
    else .error .outOfRange

/-- Write the log-densities at some positions, the first of which has a given place. -/
def writeDensities : Nat → List (Tensor Float) → Tensor Float → Session →
    Tensor Float × Option Fault × Session
  | _, [], logProb, w => (logProb, none, w)
  | place, x :: xs, logProb, w =>
    match (densityAt x).outcome w with
    | (.error f, w) => (logProb, some f, w)
    | (.ok l, w) =>
      match writeAt place l logProb with
      | .ok logProb => writeDensities (place + 1) xs logProb w
      | .error f => (logProb, some f, w)

/-- A sweep that moves no walker, from an array of positions into arrays of zeros, which
need only be large enough.  The positions are spread over their array, which must have
an axis, then the log-densities are written one by one, and at last ones are spread over
the array of probabilities, which must have an axis too. -/
def holdArrays (positions : Tensor Float) (zeros : Buffers) (w : Session) :
    Buffers × Option Fault × Session :=
  if zeros.positions.rank = 0 then (zeros, some .outOfRange, w)
  else
    match positions.fitInto? zeros.positions.shape with
    | none => (zeros, some .malformed, w)
    | some copied =>
      let b := { zeros with positions := copied }
      if positions.rank = 0 then (b, some .unsupported, w)
      else
        let (logProb, f, w) := writeDensities 0 positions.subs b.logProb w
        let b := { b with logProb }
        match f with
        | some f => (b, some f, w)
        | none =>
          if b.acceptProb.rank = 0 then (b, some .outOfRange, w)
          else ({ b with acceptProb := .constant b.acceptProb.shape 1.0 }, none, w)

/-- A sweep with a given kernel from an array of positions into arrays of zeros. -/
def sweepArrays (kernel : Kernel) (positions : Tensor Float) (zeros : Buffers) (w : Session) :
    Buffers × Option Fault × Session :=
  match kernel with
  | .walk => walkArrays positions zeros w
  | .hold => holdArrays positions zeros w

end EnsembleSampling.Session
