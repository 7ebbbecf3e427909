set_option autoImplicit false

/-!
# Powers of two and of ten

The powers of the two bases in which doubles are held and written.
-/

namespace EnsembleSampling

/-- Two to the power of `n`. -/
def pow2 (n : Nat) : Nat := Nat.pow 2 n

/-- Ten to the power of `n`. -/
def pow10 (n : Nat) : Nat := Nat.pow 10 n

theorem pow2_zero : pow2 0 = 1 := rfl

theorem pow2_succ (n : Nat) : pow2 (n + 1) = 2 * pow2 n := by
  rw [Nat.mul_comm]; rfl

theorem pow2_pos (n : Nat) : 0 < pow2 n := by
  induction n with
  | zero => rw [pow2_zero]; omega
  | succ n ih => rw [pow2_succ]; omega

end EnsembleSampling
