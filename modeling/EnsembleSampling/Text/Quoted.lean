import EnsembleSampling.Text.Printable
import EnsembleSampling.Decimal.Rounded
set_option autoImplicit false

/-!
# Quoted text

A text is quoted with apostrophes, or with double quotes when it holds an
apostrophe and no double quote.  The quote in use and the backslash are escaped
by a backslash; line feed, carriage return and tab by their letters; any other
character that is not shown by its code in hexadecimal.
-/

namespace EnsembleSampling.Text

/-- The lower-case hexadecimal digits of `n`, filled up with zeros to `width`. -/
def hexDigits (width n : Nat) : List Char :=
  let ds := Nat.toDigits 16 n
  List.replicate (width - ds.length) '0' ++ ds

/-- The quote that a text is written in. -/
def quoteOf (cs : List Char) : Char :=
  if cs.contains '\'' && !cs.contains '"' then '"' else '\''

/-- One character as written between quotes `q`. -/
def quoteChar (q c : Char) : List Char :=
  if c = q then ['\\', c]
  else if c = '\\' then ['\\', '\\']
  else if c = '\n' then ['\\', 'n']
  else if c = '\r' then ['\\', 'r']
  else if c = '\t' then ['\\', 't']
  else if isShown c then [c]
  else if c.toNat < 0x100 then '\\' :: 'x' :: hexDigits 2 c.toNat
  else if c.toNat < 0x10000 then '\\' :: 'u' :: hexDigits 4 c.toNat
  else '\\' :: 'U' :: hexDigits 8 c.toNat

/-- A text in quotes. -/
def quoted (s : String) : String :=
  let cs := s.toList
  let q := quoteOf cs
  String.ofList (q :: cs.flatMap (quoteChar q) ++ [q])

end EnsembleSampling.Text
