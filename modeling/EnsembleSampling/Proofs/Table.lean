import EnsembleSampling.Tensor
import Mathlib.Tactic.Common
set_option autoImplicit false

/-!
# Tables and their entries

A table is `Filled` when it has an entry for each place of its shape.  Whatever an argument
is, a table that is read off it is filled (`Tensor.filled_ofArgument`).
-/

namespace EnsembleSampling

/-! ## Steps that end well -/

section

variable {β γ ε ε' : Type}

theorem bind_eq_ok_iff {x : Except ε β} {f : β → Except ε γ} {c : γ} :
    (x >>= f) = .ok c ↔ ∃ b, x = .ok b ∧ f b = .ok c := by
  cases x <;> simp [bind, Except.bind]

theorem map_eq_ok_iff {f : β → γ} {x : Except ε β} {c : γ} :
    x.map f = .ok c ↔ ∃ b, x = .ok b ∧ f b = c := by
  cases x <;> simp [Except.map]

theorem mapError_eq_ok_iff {f : ε → ε'} {x : Except ε β} {b : β} :
    x.mapError f = .ok b ↔ x = .ok b := by
  cases x <;> simp [Except.mapError]

end

/-! ## Members of nested lists -/

namespace Argument

/-- Lists side by side have a common shape if all of them have that of the first. -/
theorem commonShape_cons_eq_ok {x : Argument} {xs : List Argument} {shape : List Nat}
    (h : (do let s ← commonShape x; sameShape s xs; pure ((xs.length + 1) :: s)) =
      (.ok shape : Except Fault (List Nat))) :
    ∃ s, commonShape x = .ok s ∧ sameShape s xs = .ok () ∧ shape = (xs.length + 1) :: s := by
  cases hx : commonShape x with
  | error f => simp [hx, bind, Except.bind] at h
  | ok s =>
    cases hxs : sameShape s xs with
    | error f => simp [hx, hxs, bind, Except.bind] at h
    | ok u =>
      refine ⟨s, rfl, hxs, ?_⟩
      simpa [hx, hxs, bind, Except.bind, pure, Except.pure, eq_comm] using h

theorem sameShape_cons_eq_ok {s : List Nat} {x : Argument} {xs : List Argument}
    (h : sameShape s (x :: xs) = .ok ()) : commonShape x = .ok s ∧ sameShape s xs = .ok () := by
  simp only [sameShape] at h
  cases hx : commonShape x with
  | error f => simp [hx, bind, Except.bind] at h
  | ok s' =>
    by_cases hs : s' = s
    · subst hs
      exact ⟨rfl, by simpa [hx, bind, Except.bind] using h⟩
    · simp [hx, hs, bind, Except.bind] at h

mutual

/-- Nested lists have a member for each place of their common shape. -/
theorem length_leaves : ∀ (a : Argument) {shape : List Nat}, commonShape a = .ok shape →
    a.leaves.length = Tensor.count shape
  | .list [], _, h | .tuple [], _, h => by
    cases h
    rfl
  | .list (x :: xs), shape, h | .tuple (x :: xs), shape, h => by
    simp only [commonShape] at h
    obtain ⟨s, hx, hxs, rfl⟩ := commonShape_cons_eq_ok h
    have hfirst := length_leaves x hx
    have hrest := length_leavesAll xs hxs
    rw [leaves, leavesAll, List.length_append, hfirst, hrest, Tensor.count_cons, Nat.succ_mul,
      Nat.add_comm]
  | .array s xs, shape, h => by
    simp only [commonShape] at h
    split at h
    · cases h
      assumption
    · cases h
  | .integer _, _, h | .word _, _, h | .real _, _, h | .entry _, _, h | .flag _, _, h
  | .text _, _, h | .absent, _, h => by
    cases h
    rfl

/-- Lists of one shape side by side have as many members as there are lists times places. -/
theorem length_leavesAll : ∀ (xs : List Argument) {s : List Nat}, sameShape s xs = .ok () →
    (leavesAll xs).length = xs.length * Tensor.count s
  | [], s, _ => by simp [leavesAll]
  | x :: xs, s, h => by
    obtain ⟨hx, hxs⟩ := sameShape_cons_eq_ok h
    have hfirst := length_leaves x hx
    have hrest := length_leavesAll xs hxs
    rw [leavesAll, List.length_append, hfirst, hrest, List.length_cons, Nat.succ_mul, Nat.add_comm]

end

theorem length_leaves_of_arrayShape {a : Argument} {shape : List Nat}
    (h : a.arrayShape = .ok shape) : a.leaves.length = Tensor.count shape := by
  apply length_leaves
  unfold arrayShape at h
  cases hs : commonShape a with
  | error f => simp [hs, bind, Except.bind] at h
  | ok s =>
    by_cases hrank : maxRank < s.length
    · simp [hs, hrank, bind, Except.bind] at h
    · simpa [hs, hrank, bind, Except.bind, pure, Except.pure] using h

end Argument

/-! ## Tables -/

namespace Tensor

variable {α : Type}

/-- The entries of a table are as many as its shape has places. -/
def Filled (t : Tensor α) : Prop := t.entries.length = count t.shape

/-- Of rows of one length, one after the other, the entry `r` is in the row `r / n`. -/
theorem getElem?_flatten {n : Nat} (hn : 0 < n) {rows : List (List α)}
    (h : ∀ row ∈ rows, row.length = n) (r : Nat) :
    rows.flatten[r]? = (rows[r / n]?).bind (·[r % n]?) := by
  induction rows generalizing r with
  | nil => rfl
  | cons row rows ih =>
    obtain ⟨hrow, hrows⟩ := List.forall_mem_cons.mp h
    rw [List.flatten_cons]
    rcases Nat.lt_or_ge r n with hr | hr
    · rw [List.getElem?_append_left (hrow ▸ hr), Nat.div_eq_of_lt hr, Nat.mod_eq_of_lt hr]
      rfl
    · obtain ⟨k, rfl⟩ := Nat.exists_eq_add_of_le hr
      rw [List.getElem?_append_right (hrow ▸ hr), hrow, Nat.add_sub_cancel_left, ih hrows k,
        Nat.add_div_left k hn, Nat.add_mod_left]
      rfl

theorem length_of_mem_pieces {size n : Nat} {xs : List α} (h : xs.length = n * size) :
    ∀ piece ∈ pieces size n xs, piece.length = size := by
  induction n generalizing xs with
  | zero => simp [pieces]
  | succ n ih =>
    rw [Nat.succ_mul] at h
    refine List.forall_mem_cons.mpr ⟨?_, ih ?_⟩
    · rw [List.length_take]
      omega
    · rw [List.length_drop]
      omega

theorem mem_of_mem_pieces {size n : Nat} {xs piece : List α} {a : α}
    (hpiece : piece ∈ pieces size n xs) (ha : a ∈ piece) : a ∈ xs := by
  induction n generalizing xs with
  | zero => exact absurd hpiece List.not_mem_nil
  | succ n ih =>
    rcases List.mem_cons.mp hpiece with rfl | hrest
    · exact List.mem_of_mem_take ha
    · exact List.mem_of_mem_drop (ih hrest)

/-- Pieces that use a list up are joined to it again. -/
theorem flatten_pieces {size n : Nat} {xs : List α} (h : xs.length = n * size) :
    (pieces size n xs).flatten = xs := by
  induction n generalizing xs with
  | zero =>
    obtain rfl := List.length_eq_zero_iff.mp (h.trans (Nat.zero_mul size))
    rfl
  | succ n ih =>
    rw [Nat.succ_mul] at h
    have hrest : (xs.drop size).length = n * size := by
      rw [List.length_drop]
      omega
    rw [pieces, List.flatten_cons, ih hrest, List.take_append_drop]

/-- A filled table with one axis is the vector of its entries. -/
theorem vector_entries {t : Tensor α} (ht : t.Filled) (hrank : t.rank = 1) :
    vector t.entries = t := by
  obtain ⟨shape, entries⟩ := t
  obtain ⟨n, rfl⟩ := List.length_eq_one_iff.mp hrank
  have hlength : entries.length = n := ht.trans (Nat.mul_one n)
  rw [vector, hlength]

/-- A filled table with two axes consists of its rows. -/
theorem ofRows_slabs {t : Tensor α} (ht : t.Filled) {n m : Nat} (hshape : t.shape = [n, m]) :
    ofRows m t.slabs = t := by
  obtain ⟨shape, entries⟩ := t
  subst hshape
  have hentries : entries.length = n * (m * 1) := ht
  change ofRows m (pieces (m * 1) n entries) = _
  rw [ofRows, length_pieces, flatten_pieces hentries]

theorem pieces_map {β : Type} (f : α → β) (size n : Nat) (xs : List α) :
    pieces size n (xs.map f) = (pieces size n xs).map (List.map f) := by
  induction n generalizing xs with
  | zero => rfl
  | succ n ih => rw [pieces, pieces, List.map_cons, List.map_take, ← List.map_drop, ih]

theorem slabs_map {β : Type} (f : α → β) (t : Tensor α) :
    (t.map f).slabs = t.slabs.map (List.map f) := by
  obtain ⟨shape, entries⟩ := t
  cases shape with
  | nil => rfl
  | cons n rest => exact pieces_map f (count rest) n entries

/-- Reading one member after the other leaves as many as there were. -/
theorem length_of_mapM {β γ ε : Type} {f : β → Except ε γ} {xs : List β} {ys : List γ}
    (h : xs.mapM f = .ok ys) : ys.length = xs.length := by
  induction xs generalizing ys with
  | nil =>
    obtain rfl : [] = ys := by simpa [pure, Except.pure] using h
    rfl
  | cons x xs ih =>
    rw [List.mapM_cons] at h
    cases hx : f x with
    | error e => simp [hx, bind, Except.bind] at h
    | ok y =>
      cases hxs : xs.mapM f with
      | error e => simp [hx, hxs, bind, Except.bind] at h
      | ok zs =>
        obtain rfl : y :: zs = ys := by
          simpa [hx, hxs, bind, Except.bind, pure, Except.pure] using h
        exact congrArg (· + 1) (ih hxs)

theorem ofArgument_eq_ok {a : Argument} {t : Tensor Float} (h : ofArgument a = .ok t) :
    a.arrayShape = .ok t.shape ∧ t.entries.length = a.leaves.length := by
  unfold ofArgument ofNested at h
  cases hshape : a.arrayShape with
  | error f => simp [hshape, Except.map, bind, Except.bind] at h
  | ok shape =>
    cases hentries : a.leaves.mapM entryOf with
    | error f => simp [hshape, hentries, Except.map, bind, Except.bind] at h
    | ok entries =>
      obtain rfl : ⟨shape, entries⟩ = t := by
        simpa [hshape, hentries, Except.map, bind, Except.bind, pure, Except.pure] using h
      exact ⟨rfl, length_of_mapM hentries⟩

/-- A table that is read off an argument is filled. -/
theorem filled_ofArgument {a : Argument} {t : Tensor Float} (h : ofArgument a = .ok t) :
    t.Filled := by
  obtain ⟨hshape, hentries⟩ := ofArgument_eq_ok h
  exact hentries.trans (Argument.length_leaves_of_arrayShape hshape)

end Tensor

end EnsembleSampling
