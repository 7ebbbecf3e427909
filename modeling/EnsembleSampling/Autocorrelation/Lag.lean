import EnsembleSampling.Autocorrelation.Fourier
import EnsembleSampling.Number.Summation
set_option autoImplicit false

/-!
# Autocorrelation of a sequence

The lag products of a sequence are read off a Fourier transform: padded with zeros
to at least twice its length, so that nothing wraps around, the sequence is
transformed, every entry multiplied by its conjugate, and the product
transformed back (`lagProducts`).

A sequence that is constant has no correlations to normalise by; its normalised
autocorrelation is one at lag zero and zero elsewhere.
-/

namespace EnsembleSampling.Autocorrelation

/-! ## Padding to a power of two -/

/-- Double `i`, which is positive, until it is at least `n`. -/
def doubleUntil (n i : Nat) (h : 0 < i) : Nat :=
  if i < n then doubleUntil n (2 * i) (by omega) else i
termination_by n - i

/-- The least power of two that is at least an integer; one for what is below. -/
def nextPowTwo (n : Int) : Nat := doubleUntil n.toNat 1 Nat.one_pos

/-- A list filled up with a value to `n` entries. -/
def padTo {β : Type} (n : Nat) (b : β) (xs : List β) : List β :=
  xs ++ List.replicate (n - xs.length) b

/-! ## Lag products -/

variable {α : Type}

/-- A sequence less its mean. -/
def centered [Zero α] [Add α] [Sub α] [Div α] [NatCast α] (xs : List α) : List α :=
  let m := mean xs
  xs.map (· - m)

section

variable [Zero α] [Neg α] [Add α] [Sub α] [Mul α] [Div α] [NatCast α] [CircleFunctions α]

/-- For every lag the sum of the products of entries that far apart. -/
def lagProducts (ds : List α) : List α :=
  let half := nextPowTwo ds.length
  let depth := half.log2 + 1
  let spectrum := Fourier.forward depth (padTo (2 * half) (.ofReal 0) (ds.map .ofReal))
  let power := spectrum.map fun z => z * z.conj
  ((Fourier.backward depth power).take ds.length).map (·.re)

/-- The autocovariances of a sequence: the lag products of the centred sequence,
divided by four times the power of two that it was padded to. -/
def autocovariance (xs : List α) : List α :=
  let scale : α := ((4 * nextPowTwo xs.length : Nat) : α)
  (lagProducts (centered xs)).map (· / scale)

/-- Whether a quantity is zero. -/
def isZero [LE α] [DecidableLE α] (x : α) : Bool := decide (x ≤ 0) && decide (0 ≤ x)

/-- Values divided by the first of them; a spike at lag zero when that is zero,
and nothing when there is none. -/
def normalized? [One α] [LE α] [DecidableLE α] : List α → Option (List α)
  | [] => none
  | c :: cs =>
    if isZero c then some (1 :: cs.map fun _ => 0) else some ((c :: cs).map (· / c))

/-- The normalised autocorrelation of a sequence; an empty one has none. -/
def autocorrelation? [One α] [LE α] [DecidableLE α] (xs : List α) : Option (List α) :=
  normalized? (autocovariance xs)

end

/-! ## Small facts -/

theorem doubleUntil_of_lt {n i : Nat} (h : 0 < i) (hi : i < n) :
    doubleUntil n i h = doubleUntil n (2 * i) (by omega) := by
  rw [doubleUntil, if_pos hi]

theorem doubleUntil_of_le {n i : Nat} (h : 0 < i) (hi : n ≤ i) : doubleUntil n i h = i := by
  rw [doubleUntil, if_neg (by omega)]

theorem le_doubleUntil (n i : Nat) (h : 0 < i) : n ≤ doubleUntil n i h := by
  fun_induction doubleUntil n i h with
  | case1 i h hi ih => exact ih
  | case2 i h hi => omega

theorem length_padTo {β : Type} (n : Nat) (b : β) (xs : List β) (h : xs.length ≤ n) :
    (padTo n b xs).length = n := by
  simp [padTo]; omega

theorem length_centered [Zero α] [Add α] [Sub α] [Div α] [NatCast α] (xs : List α) :
    (centered xs).length = xs.length := by
  simp [centered]

end EnsembleSampling.Autocorrelation
