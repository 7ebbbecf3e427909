import EnsembleSampling.Decimal.Rounded
import EnsembleSampling.Text.Blank
import EnsembleSampling.Text.Digit
set_option autoImplicit false

/-!
# Reading a numeral

A numeral is an optional sign and then `inf`, `infinity` or `nan` in any case,
or decimal digits with an optional point and an optional power of ten.  Blanks
may surround it, a single underscore may stand between two digits, and digits of
any script count.

`Numeral.read` is the grammar, `Numeral.toFloat` the double nearest to what was
read.
-/

namespace EnsembleSampling

/-- What a numeral says. -/
inductive Numeral where
  /-- `coefficient * 10^exponent`, with a sign, or as good as that for the nearest
  double. -/
  | decimal (negative : Bool) (coefficient : Nat) (exponent : Int)
  | infinity (negative : Bool)
  | undefined
  deriving DecidableEq, Repr, Inhabited

namespace Numeral

/-! ## Grammar -/

/-- Digits and underscores after digits that have been read already, the latest first.  An
underscore between two digits is passed over. -/
def takeDigitsAfter (before : List Nat) : List Char → List Nat × List Char
  | [] => (before.reverse, [])
  | [c] =>
    match Text.digitValue? c with
    | some d => ((d :: before).reverse, [])
    | none => (before.reverse, [c])
  | c :: c' :: rest =>
    match Text.digitValue? c, Text.digitValue? c' with
    | some d, _ => takeDigitsAfter (d :: before) (c' :: rest)
    | none, some d =>
      if c = '_' && !before.isEmpty then takeDigitsAfter (d :: before) rest
      else (before.reverse, c :: c' :: rest)
    | none, none => (before.reverse, c :: c' :: rest)

/-- Digits and single underscores between them. -/
def takeDigits (cs : List Char) : List Nat × List Char := takeDigitsAfter [] cs

/-- The value of decimal digits, most significant first. -/
def valueOf (ds : List Nat) : Nat := ds.foldl (fun n d => 10 * n + d) 0

/-- How many significant digits of a numeral count one by one.  No number halfway between
two doubles has as many, so that of the digits behind them it matters only whether they
are zeros. -/
def significant : Nat := 800

/-- The value of decimal digits, divided by a power of ten, which is the second part.  Only
so many digits count; the others leave a one behind, unless they are zeros. -/
def shortened (ds : List Nat) : Nat × Nat :=
  let ds := ds.dropWhile (· == 0)
  if ds.length ≤ significant then (valueOf ds, 0)
  else
    let rest := ds.drop significant
    let mark := if rest.all (· == 0) then 0 else 1
    (10 * valueOf (ds.take significant) + mark, rest.length - 1)

/-- A power of ten beyond which no text is long enough to make up for it. -/
def exponentLimit : Nat := pow10 20

/-- The power of ten that digits stand for, if it is below the limit, and the limit
otherwise. -/
def exponentOf (ds : List Nat) : Nat :=
  let ds := ds.dropWhile (· == 0)
  if ds.length ≤ 20 then valueOf ds else exponentLimit

/-- An optional sign: whether it is a minus, and what follows. -/
def takeSign : List Char → Bool × List Char
  | '-' :: rest => (true, rest)
  | '+' :: rest => (false, rest)
  | cs => (false, cs)

/-- An optional power of ten, up to the end. -/
def readExponent : List Char → Option Int
  | [] => some 0
  | c :: rest =>
    if c = 'e' ∨ c = 'E' then
      let (negative, rest) := takeSign rest
      match takeDigits rest with
      | (d :: ds, []) =>
        let e : Int := exponentOf (d :: ds)
        some (if negative then -e else e)
      | _ => none
    else none

/-- Digits with an optional point and an optional power of ten. -/
def readDecimal (negative : Bool) (cs : List Char) : Option Numeral :=
  let (whole, rest) := takeDigits cs
  let (part, rest) :=
    match rest with
    | '.' :: rest => takeDigits rest
    | _ => ([], rest)
  if whole.isEmpty && part.isEmpty then none
  else
    (readExponent rest).map fun e =>
      let (coefficient, shift) := shortened (whole ++ part)
      .decimal negative coefficient (e - part.length + shift)

/-- Read a text as a numeral. -/
def read (s : String) : Option Numeral :=
  let (negative, cs) := takeSign (Text.trimBlanks s.toList)
  let word := String.ofList (cs.map Char.toLower)
  if word = "inf" ∨ word = "infinity" then some (.infinity negative)
  else if word = "nan" then some .undefined
  else readDecimal negative cs

/-! ## Value -/

/-- The double nearest to a numeral.  Beyond 330 places on either side of the
point the answer is infinity or zero whatever the digits. -/
def toFloat : Numeral → Float
  | .undefined => 0.0 / 0.0
  | .infinity negative => if negative then -(1.0 / 0.0) else 1.0 / 0.0
  | .decimal negative c e =>
    if c = 0 then Binary64.ofRatio negative 0 1
    else
      let top : Int := (Decimal.digits c).length + e
      if 330 < top then (if negative then -(1.0 / 0.0) else 1.0 / 0.0)
      else if top < -330 then Binary64.ofRatio negative 0 1
      else
        let (n, d) := Decimal.scaleTen c 1 e
        Binary64.ofRatio negative n d

/-- The double that a text denotes, if it is a numeral. -/
def toFloat? (s : String) : Option Float := (read s).map toFloat

/-! ## Small facts -/

example : takeDigits "1_23__4".toList = ([1, 2, 3], "__4".toList) := by decide +kernel
example : takeDigits "_1".toList = ([], "_1".toList) := by decide +kernel
example : shortened [0, 1, 2, 0] = (120, 0) := by decide +kernel

end Numeral

end EnsembleSampling
