import EnsembleSampling.Number.Elementary
set_option autoImplicit false

/-!
# Log-densities and probabilities

Log-densities, acceptance probabilities and uniforms are values of one type with
an order, an exponential, a positive infinity, and a value that is no number and
is on neither side of anything.  `LogScale` collects what a sweep needs of it.
-/

namespace EnsembleSampling

/-- Values on the scale of log-densities. -/
class LogScale (β : Type) where
  [zero : Zero β]
  [one : One β]
  [sub : Sub β]
  [le : LE β]
  [lt : LT β]
  exp : β → β
  infinity : β
  /-- A value that is no number. -/
  undefined : β
  isUndefined : β → Bool
  [decideLE : DecidableLE β]
  [decideLT : DecidableLT β]

/-! The operations of a scale yield to those a type already has. -/

section Operations

variable {β : Type} [LogScale β]

instance (priority := 100) instZeroOfLogScale : Zero β := LogScale.zero

instance (priority := 100) instOneOfLogScale : One β := LogScale.one

instance (priority := 100) instSubOfLogScale : Sub β := LogScale.sub

instance (priority := 100) instLEOfLogScale : LE β := LogScale.le

instance (priority := 100) instLTOfLogScale : LT β := LogScale.lt

instance (priority := 100) instDecidableLEOfLogScale : DecidableLE β := LogScale.decideLE

instance (priority := 100) instDecidableLTOfLogScale : DecidableLT β := LogScale.decideLT

end Operations

instance : LogScale Float where
  exp := Float.exp
  infinity := 1.0 / 0.0
  undefined := 0.0 / 0.0
  isUndefined := Float.isNaN

/-- The probability of accepting a move between two log-densities: the ratio of the
densities, at most one.  A ratio that is no number counts as one. -/
def acceptance {β : Type} [LogScale β] (old new : β) : β :=
  let ratio := LogScale.exp (new - old)
  if ratio ≤ 1 then ratio else 1

end EnsembleSampling
