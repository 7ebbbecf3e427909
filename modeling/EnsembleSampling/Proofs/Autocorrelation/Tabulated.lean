import EnsembleSampling.Autocorrelation.Fourier
import EnsembleSampling.Proofs.Table
set_option autoImplicit false

/-!
# Lists by their entries

The steps of a transform as they act on the entries of a list: `tabulate n f` has the entry
`f k` at the place `k`, and cutting into pieces, transposing, taking every other entry and
joining again each lead from one list of this kind to another.
-/

namespace EnsembleSampling.Fourier

variable {β γ δ : Type}

/-- The values of a function at the first `n` numbers. -/
def tabulate (n : Nat) (f : Nat → β) : List β := (List.range n).map f

theorem length_tabulate (n : Nat) (f : Nat → β) : (tabulate n f).length = n := by
  simp [tabulate]

theorem tabulate_congr {n : Nat} {f g : Nat → β} (h : ∀ k < n, f k = g k) :
    tabulate n f = tabulate n g :=
  List.map_congr_left fun k hk => h k (List.mem_range.mp hk)

theorem tabulate_succ (n : Nat) (f : Nat → β) :
    tabulate (n + 1) f = f 0 :: tabulate n fun k => f (k + 1) := by
  simp [tabulate, List.range_succ_eq_map, Function.comp_def]

theorem tabulate_add (n m : Nat) (f : Nat → β) :
    tabulate (n + m) f = tabulate n f ++ tabulate m fun k => f (n + k) := by
  simp [tabulate, List.range_add, Function.comp_def]

theorem map_tabulate (g : β → γ) (n : Nat) (f : Nat → β) :
    (tabulate n f).map g = tabulate n fun k => g (f k) := by
  simp [tabulate, Function.comp_def]

theorem take_tabulate {n m : Nat} (f : Nat → β) (h : m ≤ n) :
    (tabulate n f).take m = tabulate m f := by
  obtain ⟨d, rfl⟩ := Nat.exists_eq_add_of_le h
  rw [tabulate_add, List.take_left' (length_tabulate m f)]

theorem zipWith_tabulate (g : β → γ → δ) (n : Nat) (f : Nat → β) (f' : Nat → γ) :
    List.zipWith g (tabulate n f) (tabulate n f') = tabulate n fun k => g (f k) (f' k) := by
  apply List.ext_getElem (by simp [tabulate])
  intro k hk hk'
  simp [tabulate]

theorem zipIdx_tabulate (n : Nat) (f : Nat → β) :
    (tabulate n f).zipIdx = tabulate n fun k => (f k, k) := by
  apply List.ext_getElem (by simp [tabulate])
  intro k hk hk'
  simp [tabulate]

theorem evens_tabulate (n : Nat) (f : Nat → β) :
    evens (tabulate (2 * n) f) = tabulate n fun k => f (2 * k) := by
  induction n generalizing f with
  | zero => rfl
  | succ n ih =>
    rw [Nat.mul_succ, tabulate_succ, tabulate_succ, evens, ih, tabulate_succ]
    rfl

theorem odds_tabulate (n : Nat) (f : Nat → β) :
    odds (tabulate (2 * n) f) = tabulate n fun k => f (2 * k + 1) := by
  induction n generalizing f with
  | zero => rfl
  | succ n ih =>
    rw [Nat.mul_succ, tabulate_succ, tabulate_succ, odds, ih, tabulate_succ]
    rfl

/-! ## Tables -/

theorem pieces_tabulate (n m : Nat) (f : Nat → β) :
    Tensor.pieces m n (tabulate (n * m) f) =
      tabulate n fun r => tabulate m fun i => f (r * m + i) := by
  induction n generalizing f with
  | zero => rfl
  | succ n ih =>
    have hlength : (tabulate m f).length = m := length_tabulate m f
    have hrest : ∀ r i, f (m + (r * m + i)) = f ((r + 1) * m + i) := fun r i => by
      rw [Nat.succ_mul]
      congr 1
      omega
    rw [Nat.succ_mul, Nat.add_comm (n * m) m, tabulate_add, Tensor.pieces, List.take_left' hlength,
      List.drop_left' hlength, ih, tabulate_succ]
    simp only [hrest, Nat.zero_mul, Nat.zero_add]

theorem flatten_tabulate (n : Nat) {m : Nat} (hm : 0 < m) (f : Nat → Nat → β) :
    (tabulate n fun r => tabulate m (f r)).flatten =
      tabulate (n * m) fun k => f (k / m) (k % m) := by
  have hpieces : (tabulate n fun r => tabulate m (f r)) =
      Tensor.pieces m n (tabulate (n * m) fun k => f (k / m) (k % m)) := by
    rw [pieces_tabulate]
    refine tabulate_congr fun r _ => tabulate_congr fun i hi => ?_
    rw [Nat.mul_comm r m, Nat.mul_add_div hm, Nat.div_eq_of_lt hi, Nat.mul_add_mod,
      Nat.mod_eq_of_lt hi, Nat.add_zero]
  rw [hpieces, Tensor.flatten_pieces (length_tabulate _ _)]

theorem transposed_tabulate (n m : Nat) (f : Nat → Nat → β) :
    transposed m (tabulate n fun r => tabulate m (f r)) =
      tabulate m fun i => tabulate n fun r => f r i := by
  induction n generalizing f with
  | zero => simp [transposed, tabulate, List.map_const']
  | succ n ih =>
    have hrest : (tabulate n fun r => tabulate m (f (r + 1))).foldr (List.zipWith (· :: ·))
        (List.replicate m []) = tabulate m fun i => tabulate n fun r => f (r + 1) i :=
      ih fun r => f (r + 1)
    rw [tabulate_succ, transposed, List.foldr_cons, hrest, zipWith_tabulate]
    simp only [tabulate_succ]

end EnsembleSampling.Fourier
