set_option autoImplicit false

/-!
# Blank characters

The characters that may surround a numeral: white space of every script.
-/

namespace EnsembleSampling.Text

/-- Code points of the blank characters, ascending. -/
def blankCodes : List Nat :=
  [0x09, 0x0a, 0x0b, 0x0c, 0x0d, 0x20, 0x85, 0xa0, 0x1680,
   0x2000, 0x2001, 0x2002, 0x2003, 0x2004, 0x2005, 0x2006, 0x2007, 0x2008, 0x2009,
   0x200a, 0x2028, 0x2029, 0x202f, 0x205f, 0x3000]

/-- Whether a character is blank. -/
def isBlank (c : Char) : Bool := blankCodes.contains c.toNat

/-- A text without the blanks at its two ends. -/
def trimBlanks (cs : List Char) : List Char :=
  ((cs.dropWhile isBlank).reverse.dropWhile isBlank).reverse

example : blankCodes.length = 25 := rfl

example : blankCodes.Pairwise (· < ·) := by decide

end EnsembleSampling.Text
