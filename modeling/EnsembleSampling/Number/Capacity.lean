import EnsembleSampling.Number.Power
set_option autoImplicit false

/-!
# Capacity

How large a table may be.  Beyond `addressable` a table cannot even be laid out.  Up to
there it can, but whether there is memory for it is for the machine to say, and nothing
is taken for granted of what a machine's memory holds.
-/

namespace EnsembleSampling

/-- The largest number of bytes that can be addressed. -/
def addressable : Nat := pow2 63 - 1

/-- The memory of a machine. -/
structure Memory where
  /-- Whether there is memory for so many bytes. -/
  holds : Nat → Bool

/-- A memory of so many bytes. -/
def Memory.upTo (bytes : Nat) : Memory := ⟨fun n => decide (n ≤ bytes)⟩

/-- The number of bytes of a double. -/
def bytesPerDouble : Nat := 8

end EnsembleSampling
