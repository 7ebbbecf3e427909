import EnsembleSampling.Autocorrelation.Lag
set_option autoImplicit false

/-!
# Integrated autocorrelation time

The normalised autocorrelations of the walkers are averaged lag by lag and summed
up to a window.  The window is the first lag `i` that is at least `c` times the
time summed up to it; when there is none, the last lag.
-/

namespace EnsembleSampling.Autocorrelation

variable {α : Type}

/-- The first index `i` at which `i < c * taus[i]` fails, or the last index. -/
def window [Mul α] [NatCast α] [LT α] [DecidableLT α] (c : α) (taus : List α) : Int :=
  match taus.zipIdx.find? fun (tau, i) => !decide ((i : α) < c * tau) with
  | some (_, i) => i
  | none => (taus.length : Int) - 1

/-- The time summed up to every lag: twice the running sum of the correlations,
less one. -/
def cumulativeTimes [One α] [Add α] [Sub α] [Mul α] [NatCast α] (correlations : List α) :
    List α :=
  (runningSums correlations).map fun s => ((2 : Nat) : α) * s - 1

section

variable [Zero α] [One α] [Neg α] [Add α] [Sub α] [Mul α] [Div α] [NatCast α] [LE α]
  [DecidableLE α] [LT α] [DecidableLT α] [CircleFunctions α]

/-- Correlations averaged over the walkers; of no walkers, a single value that is
the mean of nothing. -/
def averaged (rows : List (List α)) : List α :=
  if rows.isEmpty then [mean []] else meanRows rows

/-- The times summed up to every lag, from the walkers' sequences; nothing when a
sequence is empty. -/
def walkerTimes? (ys : List (List α)) : Option (List α) :=
  (ys.mapM autocorrelation?).map fun rows => cumulativeTimes (averaged rows)

/-- The entry of the times that the window selects. -/
def timeAtWindow? (c : α) (taus : List α) : Option α := taus[(window c taus).toNat]?

/-- The autocorrelation time of one parameter from its sequence for every
walker. -/
def walkerTime? (c : α) (ys : List (List α)) : Option α :=
  (walkerTimes? ys).bind (timeAtWindow? c)

end

/-- The sequence of one coordinate for every walker, from the positions after
every step. -/
def coordinateSeries (walkers dimension : Nat) (steps : List (List (List α))) :
    List (List α) :=
  (List.range walkers).map fun w => steps.filterMap fun s => (s[w]?).bind (·[dimension]?)

section

variable [Zero α] [One α] [Neg α] [Add α] [Sub α] [Mul α] [Div α] [NatCast α] [LE α]
  [DecidableLE α] [LT α] [DecidableLT α] [CircleFunctions α]

/-- The autocorrelation time of every coordinate. -/
def integratedTimes? (c : α) (walkers dims : Nat) (steps : List (List (List α))) :
    Option (List α) :=
  (List.range dims).mapM fun d => walkerTime? c (coordinateSeries walkers d steps)

end

end EnsembleSampling.Autocorrelation
