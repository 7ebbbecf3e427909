import EnsembleSampling.Argument.Order
import EnsembleSampling.Decimal.Numeral
import EnsembleSampling.Number.Capacity
set_option autoImplicit false

/-!
# Arithmetic on arguments

Integers are exact among themselves.  A calculation that mixes them with doubles
converts the integer, after both are known to be numbers.  Machine words wrap around,
and with a machine word or an array entry on one side a division by zero has the
value that doubles give it.

Texts and sequences can be joined, and can be repeated if there is memory for it.  The
sum of a machine word or an array entry and a sequence is an array, whose members are
summed one by one; other sums and products of sequences there are not.
-/

namespace EnsembleSampling.Argument

/-! ## As a double -/

/-- An integer as a double. -/
def realOfInt (n : Int) : Except Fault Float :=
  match Binary64.ofInt? n with
  | some x => .ok x
  | none => .error .tooLarge

/-- An argument as an operand beside a double. -/
def operand : Argument → Except Fault Float
  | .real x | .entry x => .ok x
  | .integer n | .word n => realOfInt n
  | .flag b => .ok (if b then 1.0 else 0.0)
  | _ => .error .unsupported

/-- Whether an argument is a number. -/
def isNumber : Argument → Bool
  | .real _ | .entry _ => true
  | a => a.integral?.isSome

/-- The integer that an argument stands for as a count or an index. -/
def index (a : Argument) : Except Fault Int :=
  match a.integral? with
  | some n => .ok n
  | none => .error .unsupported

/-- An argument as a double; a text is read as a numeral. -/
def toReal : Argument → Except Fault Float
  | .text s =>
    match Numeral.toFloat? s with
    | some x => .ok x
    | none => .error .malformed
  | a => a.operand

/-- An argument as the operand of a function on doubles: an integer must fit a
machine word, with or without a sign. -/
def functionOperand : Argument → Except Fault Float
  | .integer n =>
    if -(pow2 63 : Int) ≤ n ∧ n < pow2 64 then realOfInt n else .error .unsupported
  | a => a.operand

/-- An argument as one side of a comparison with a number between zero and one: an
integer too large for a double is as good as infinite. -/
def comparable (a : Argument) : Except Fault Float :=
  match a.integral? with
  | some n => .ok (Binary64.ofRatio (n < 0) n.natAbs 1)
  | none => a.operand

/-! ## Machine words -/

/-- An integer wrapped around to a machine word. -/
def wrap (n : Int) : Int := n.bmod (pow2 64)

/-- Whether an integer fits a machine word. -/
def fitsWord (n : Int) : Bool := decide (-(pow2 63 : Int) ≤ n ∧ n < pow2 63)

/-- Whether an array that holds this argument keeps its members as they are, where other
arrays turn them into values of one kind: no value, or an integer that no machine word
holds with or without a sign. -/
def keepsMembers : Argument → Bool
  | .absent => true
  | .integer n => decide (n < -(pow2 63 : Int) ∨ (pow2 64 : Int) ≤ n)
  | _ => false

/-- Whether a calculation with this argument is one of machine words or array
entries, which has a value even where a division by zero has none. -/
def isNative : Argument → Bool
  | .word _ | .entry _ => true
  | _ => false

/-! ## Numbers -/

/-- An operation on two integers; beside a machine word both must be one. -/
def combineIntegral (f : Int → Int → Int) (native : Bool) (m n : Int) :
    Except Fault Argument :=
  if native then
    if fitsWord m && fitsWord n then .ok (.word (wrap (f m n))) else .error .tooLarge
  else .ok (.integer (f m n))

/-- Two arguments as operands of doubles.  Both are known to be numbers before one is
converted. -/
def operands (a b : Argument) : Except Fault (Float × Float) :=
  if a.isNumber && b.isNumber then do pure (← a.operand, ← b.operand) else .error .unsupported

/-- An operation on two numbers: on integers if both are integral, else on doubles. -/
def combine (f : Int → Int → Int) (g : Float → Float → Float) (a b : Argument) :
    Except Fault Argument :=
  let native := a.isNative || b.isNative
  match a.integral?, b.integral? with
  | some m, some n => combineIntegral f native m n
  | _, _ => do
    let (x, y) ← operands a b
    pure (if native then .entry (g x y) else .real (g x y))

/-- The difference of two arguments. -/
def sub (a b : Argument) : Except Fault Argument := combine (· - ·) (· - ·) a b

/-! ## Sums -/

/-- The sum of two numbers. -/
def addNumbers (a b : Argument) : Except Fault Argument := combine (· + ·) (· + ·) a b

/-- A number taken out of an array that keeps its members as they are. -/
def released : Argument → Argument
  | .word n => .integer n
  | .entry x => .real x
  | a => a

/-- Whether an argument is an integer that fits a machine word only without a sign. -/
def isUnsigned : Argument → Bool
  | .integer n => decide ((pow2 63 : Int) ≤ n ∧ n < pow2 64)
  | _ => false

/-- Whether an argument is a double. -/
def isReal : Argument → Bool
  | .real _ | .entry _ => true
  | _ => false

/-- The members of a sequence as they are summed with a number: as they are if one of them
must be kept so, else as entries if one of the summands is a double or too large for a
machine word, else as machine words. -/
def summands (members : List Argument) (a : Argument) :
    Except Fault (List Argument × Argument) :=
  if members.any keepsMembers then .ok (members, a.released)
  else if members.any isText then .error .unsupported
  else if (a :: members).any fun b => b.isReal || b.isUnsigned then do
    pure ((← members.mapM operand).map .entry, a)
  else do
    pure ((← members.mapM index).map .word, a)

/-- The array of the sums of the members of a sequence and a number. -/
def addToMembers (xs : List Argument) (a : Argument) : Except Fault Argument := do
  let shape ← arrayShape (.list xs)
  let (members, a) ← summands (leavesAll xs) a
  pure (.array shape (← members.mapM (addNumbers · a)))

/-- The array of the sums of the entries of an array and a number. -/
def addToEntries (shape : List Nat) (xs : List Argument) (a : Argument) :
    Except Fault Argument := do
  let a := if xs.all isNative then a else a.released
  pure (.array shape (← xs.mapM (addNumbers · a)))

/-- The sum of two arguments; texts and sequences are joined. -/
def add : Argument → Argument → Except Fault Argument
  | .text s, .text t => .ok (.text (s ++ t))
  | .list xs, .list ys => .ok (.list (xs ++ ys))
  | .list xs, .word n => addToMembers xs (.word n)
  | .list xs, .entry y => addToMembers xs (.entry y)
  | .word n, .list ys => addToMembers ys (.word n)
  | .entry x, .list ys => addToMembers ys (.entry x)
  | .array shape xs, b => addToEntries shape xs b
  | a, b => addNumbers a b

/-! ## Products and quotients -/

/-- A list an integral number of times over; a negative number counts as none.  Every member
takes a byte at least.  `unlisted` is the fault of a list whose length is no machine word. -/
def repeated {β : Type} (memory : Memory) (unlisted : Fault) (times : Argument) (xs : List β) :
    Except Fault (List β) :=
  match times.integral? with
  | none => .error .unsupported
  | some n =>
    if !fitsWord n then .error .tooLarge
    else if addressable < n.toNat * xs.length then .error unlisted
    else if xs.isEmpty then .ok []
    else if !memory.holds (n.toNat * xs.length) then .error .outOfMemory
    else .ok (List.replicate n.toNat xs).flatten

/-- A text an integral number of times over. -/
def repeatedText (memory : Memory) (times : Argument) (s : String) : Except Fault Argument :=
  (repeated memory .tooLarge times s.toList).map fun cs => .text (String.ofList cs)

/-- A sequence an integral number of times over. -/
def repeatedList (memory : Memory) (times : Argument) (xs : List Argument) :
    Except Fault Argument :=
  (repeated memory .outOfMemory times xs).map .list

/-- The product of two numbers. -/
def mulNumbers (a b : Argument) : Except Fault Argument := combine (· * ·) (· * ·) a b

/-- The product of two arguments; a text or a sequence is repeated. -/
def mul (memory : Memory) : Argument → Argument → Except Fault Argument
  | .text s, b => repeatedText memory b s
  | a, .text t => repeatedText memory a t
  | .list xs, b => repeatedList memory b xs
  | a, .list ys => repeatedList memory a ys
  | a, b => mulNumbers a b

/-- The quotient of two arguments; of two integers it is the double nearest to
the exact quotient, unless one of them is a machine word. -/
def div (a b : Argument) : Except Fault Argument :=
  if a.isNative || b.isNative then do
    let (x, y) ← operands a b
    pure (.entry (x / y))
  else
    match a.integral?, b.integral? with
    | some m, some n =>
      if n = 0 then .error .divisionByZero
      else
        match Binary64.quotient? m n with
        | some x => .ok (.real x)
        | none => .error .tooLarge
    | _, _ => do
      let (x, y) ← operands a b
      if y == 0.0 then .error .divisionByZero else pure (.real (x / y))

end EnsembleSampling.Argument
