import EnsembleSampling.Report
import EnsembleSampling.Text.Quoted
set_option autoImplicit false

/-!
# Arguments

What a caller may hand over: integers of any size, integers held in a machine
word, doubles, truth values, texts, nothing at all, and sequences of these.  A
calculation with a sequence may also give an array.  Which of them an operation
takes is the operation's business; here is what they are and how they are written,
in two ways: `shown` as inside a message about a value (texts in quotes), `plain` as
inside running text.
-/

namespace EnsembleSampling

/-- A value handed over by a caller. -/
inductive Argument where
  /-- An integer of any size. -/
  | integer (n : Int)
  /-- An integer held in a machine word of 64 bits. -/
  | word (n : Int)
  /-- A double. -/
  | real (x : Float)
  /-- A double taken out of an array. -/
  | entry (x : Float)
  | flag (b : Bool)
  | text (s : String)
  /-- No value. -/
  | absent
  | list (xs : List Argument)
  | tuple (xs : List Argument)
  /-- Values in a rectangular layout, the last axis running fastest. -/
  | array (shape : List Nat) (xs : List Argument)
  deriving Inhabited

namespace Argument

/-- Texts with a comma and a blank between them. -/
def joined (parts : List String) : String := ", ".intercalate parts

/-- The written form of a truth value. -/
def flagText (b : Bool) : String := if b then "True" else "False"

mutual

/-- An argument as written inside a message about a value. -/
def shown : Argument → String
  | .integer n => toString n
  | .word n => "np.int64(" ++ toString n ++ ")"
  | .real x => Report.exact x
  | .entry x => "np.float64(" ++ Report.exact x ++ ")"
  | .flag b => flagText b
  | .text s => Text.quoted s
  | .absent => "None"
  | .list xs => "[" ++ joined (shownAll xs) ++ "]"
  | .tuple [x] => "(" ++ x.shown ++ ",)"
  | .tuple xs => "(" ++ joined (shownAll xs) ++ ")"
  | .array _ xs => "array([" ++ joined (shownAll xs) ++ "])"

/-- The members of a sequence, each as `shown` writes it. -/
def shownAll : List Argument → List String
  | [] => []
  | x :: xs => x.shown :: shownAll xs

end

/-- An argument as written in running text. -/
def plain : Argument → String
  | .word n => toString n
  | .entry x => Report.exact x
  | .text s => s
  | a => a.shown

/-- A shape as a tuple of its lengths. -/
def ofShape (shape : List Nat) : Argument :=
  .tuple (shape.map fun n => .integer (Int.ofNat n))

/-- A row of doubles as a list. -/
def ofRow (xs : List Float) : Argument := .list (xs.map .real)

/-- Rows of doubles as a list of lists. -/
def ofRows (rows : List (List Float)) : Argument := .list (rows.map ofRow)

/-- Whether an argument counts as true. -/
def isTrue : Argument → Bool
  | .integer n | .word n => n != 0
  | .real x | .entry x => !(x == 0.0)
  | .flag b => b
  | .text s => !s.isEmpty
  | .absent => false
  | .list xs | .tuple xs | .array _ xs => !xs.isEmpty

/-- The integer that an argument stands for, if it is one of the integral kinds. -/
def integral? : Argument → Option Int
  | .integer n | .word n => some n
  | .flag b => some (if b then 1 else 0)
  | _ => none

/-- Whether an argument is a truth value. -/
def isFlag : Argument → Bool
  | .flag _ => true
  | _ => false

example : (Argument.tuple [.integer 3]).shown = "(3,)" := by decide +kernel
example : (Argument.list [.flag true, .absent]).shown = "[True, None]" := by decide +kernel

end Argument

end EnsembleSampling
