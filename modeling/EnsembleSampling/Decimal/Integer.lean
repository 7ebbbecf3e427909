import EnsembleSampling.Decimal.Numeral
set_option autoImplicit false

/-!
# Reading an integer

An integer is written as an optional sign and digits, between blanks.  Digits of any
script count, and in a base above ten Latin letters after them; a single underscore may
stand between two digits.  Sixteen has a mark of its own, `0x`, which may be left out.

A number in base ten has a limit on its digits (`digitLimit`), because converting it
takes time that grows with the square of their number.
-/

namespace EnsembleSampling

/-- The base that an integer is written in. -/
inductive Base where
  | ten
  | sixteen
  deriving DecidableEq, Repr, Inhabited

namespace Base

/-- The base as a number. -/
def value : Base → Nat
  | .ten => 10
  | .sixteen => 16

/-- The most digits that are read. -/
def digitLimit? : Base → Option Nat
  | .ten => some 4300
  | .sixteen => none

end Base

namespace Numeral

/-- The value of a digit: a decimal digit of any script, or a Latin letter. -/
def digitOrLetter? (c : Char) : Option Nat :=
  match Text.digitValue? c with
  | some d => some d
  | none =>
    if 'a' ≤ c ∧ c ≤ 'z' then some (c.toNat - 'a'.toNat + 10)
    else if 'A' ≤ c ∧ c ≤ 'Z' then some (c.toNat - 'A'.toNat + 10)
    else none

/-- The values of digits in a base, with single underscores between them.  `pending` says
that a digit must follow. -/
def digitsIn? (base : Nat) : (pending : Bool) → List Char → Option (List Nat)
  | pending, [] => if pending then none else some []
  | pending, c :: cs =>
    if c = '_' then
      if pending then none else digitsIn? base true cs
    else
      match digitOrLetter? c with
      | some d =>
        if d < base then (digitsIn? base false cs).map (d :: ·) else none
      | none => none

/-- A text without the mark of its base and an underscore behind it. -/
def withoutMark : Base → List Char → List Char
  | .sixteen, '0' :: 'x' :: '_' :: cs | .sixteen, '0' :: 'X' :: '_' :: cs => cs
  | .sixteen, '0' :: 'x' :: cs | .sixteen, '0' :: 'X' :: cs => cs
  | _, cs => cs

/-- Whether a base admits so many digits. -/
def admits (base : Base) (digits : Nat) : Bool :=
  match base.digitLimit? with
  | some limit => decide (digits ≤ limit)
  | none => true

/-- The integer that a text denotes in a base, if it denotes one. -/
def toInt? (base : Base) (s : String) : Option Int :=
  let (negative, cs) := takeSign (Text.trimBlanks s.toList)
  match digitsIn? base.value true (withoutMark base cs) with
  | none => none
  | some ds =>
    if admits base ds.length then
      let n : Int := (ds.foldl (fun n d => base.value * n + d) 0 : Nat)
      some (if negative then -n else n)
    else none

example : toInt? .ten " -1_000 " = some (-1000) := by decide +kernel
example : toInt? .ten "1__0" = none := by decide +kernel
example : toInt? .ten "1.0" = none := by decide +kernel
example : toInt? .sixteen "0x_1F" = some 31 := by decide +kernel
example : toInt? .sixteen "0x" = none := by decide +kernel

end Numeral

end EnsembleSampling
