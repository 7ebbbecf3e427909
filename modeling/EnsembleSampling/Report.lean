import EnsembleSampling.Decimal.Shortest
set_option autoImplicit false

/-!
# The written forms of a double

Three forms serve three purposes.

* `exact` reads back as the same double: the fewest digits that do, positional
  while the power of ten is within `ShortestForm.positional`, with `.0` after a
  whole number.
* `significant` has ten significant digits and a power of ten.
* `coarse` has nine places after the point below ten, and is `significant` from
  ten on, so that it shows neither more than nine places nor more than ten
  digits.

Infinities and what is no number have the same text in all of them.
-/

namespace EnsembleSampling.Report

/-- A text with a minus in front when `negative`. -/
def signed (negative : Bool) (cs : List Char) : List Char :=
  if negative then '-' :: cs else cs

/-- Text of an infinity. -/
def infinityText (negative : Bool) : String := if negative then "-inf" else "inf"

/-- Text of what is no number. -/
def undefinedText : String := "nan"

/-! ## The exact form -/

/-- Which powers of ten of the leading digit are written positionally. -/
structure ShortestForm where
  least : Int
  beyond : Int
  deriving DecidableEq, Repr, Inhabited

/-- Positional from a ten-thousandth up to below ten to the sixteenth. -/
def ShortestForm.positional : ShortestForm := ⟨-4, 16⟩

/-- Digits of a decimal with the leading digit at `10^top`, written with a point
and at least one digit on either side of it. -/
def positionalText (ds : List Char) (top : Int) : List Char :=
  if top < 0 then
    '0' :: '.' :: List.replicate (-top - 1).toNat '0' ++ ds
  else
    let whole := top.toNat + 1
    let ds := ds ++ List.replicate (whole - ds.length) '0'
    let part := ds.drop whole
    ds.take whole ++ '.' :: (if part.isEmpty then ['0'] else part)

/-- A positive decimal in the exact form. -/
def shortestText (form : ShortestForm) (s : Decimal.Scaled) : List Char :=
  let ds := Decimal.digits s.coefficient
  let top := s.exponent + ds.length - 1
  if form.least ≤ top ∧ top < form.beyond then positionalText ds top
  else Decimal.scientificText ds top

/-- The exact form of a double. -/
def exact (x : Float) : String :=
  match Binary64.content x with
  | .undefined => undefinedText
  | .infinite negative => infinityText negative
  | .finite negative m e =>
    if m = 0 then String.ofList (signed negative ['0', '.', '0'])
    else String.ofList (signed negative (shortestText .positional (Decimal.shortest m e)))

/-! ## Ten digits and nine places -/

/-- Number of significant digits of the form with a power of ten. -/
def significantDigits : Nat := 10

/-- Number of places of the coarse form below ten. -/
def coarsePlaces : Nat := 9

/-- The form with ten significant digits; zeros keep their sign. -/
def significant (x : Float) : String :=
  match Binary64.content x with
  | .undefined => undefinedText
  | .infinite negative => infinityText negative
  | .finite negative m e =>
    if m = 0 then String.ofList (signed negative ['0', '.', '0'])
    else
      let (n, d) := Binary64.ratio m e
      let s := Decimal.significant significantDigits n d
      String.ofList (signed negative
        (Decimal.scientificText (Decimal.digits s.coefficient)
          (s.exponent + (significantDigits - 1))))

/-- A double with so many places after the point. -/
def fixed (places : Nat) (x : Float) : String :=
  match Binary64.content x with
  | .undefined => undefinedText
  | .infinite negative => infinityText negative
  | .finite negative m e =>
    let (n, d) := Binary64.ratio m e
    String.ofList (signed negative (Decimal.fixed places n d))

/-- The coarse form; a result that shows only zeros has no sign. -/
def coarse (x : Float) : String :=
  match Binary64.content x with
  | .finite negative m e =>
    let (n, d) := Binary64.ratio m e
    if n < 10 * d then
      let ds := Decimal.fixed coarsePlaces n d
      let zero := ds.all fun c => c = '0' || c = '.'
      String.ofList (signed (negative && !zero) ds)
    else significant x
  | _ => significant x

end EnsembleSampling.Report
