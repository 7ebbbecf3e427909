import EnsembleSampling.Proofs.Autocorrelation.Window
import Mathlib.Data.List.MinMax
set_option autoImplicit false

/-!
# The search for a window

The window is the first lag where the search stops, and the last lag if it stops nowhere
(`exists_window`).  With a larger factor the search goes on wherever it went on before, as long as
no time is negative, so that the window can only move to a later lag (`window_monotone`).

Whether the search goes on is a truth value for every lag (`goesOn`).  The least of these are where
it stops, and the first of the least is the window; only if all are true they do not tell, and the
window is the last lag (`window_eq_argLeast`).
-/

namespace EnsembleSampling.Autocorrelation

/-! ## Where the search stops -/

variable {c c' : ℝ} {taus : List ℝ} {i : Nat}

theorem stops_iff_getElem : Stops c taus i ↔ ∃ h : i < taus.length, c * taus[i] ≤ i := by
  constructor
  · rintro ⟨tau, htau, hle⟩
    obtain ⟨hi, rfl⟩ := List.getElem?_eq_some_iff.mp htau
    exact ⟨hi, hle⟩
  · rintro ⟨hi, hle⟩
    exact ⟨taus[i], List.getElem?_eq_getElem hi, hle⟩

/-- If the search stops nowhere, the window is the last lag. -/
theorem window_of_not_stops (h : ∀ i, ¬ Stops c taus i) :
    window c taus = (taus.length : Int) - 1 := by
  rw [window]
  split
  · rename_i tau i hfind
    have hstops := List.find?_some hfind
    have hmem := List.mem_zipIdx_iff_getElem?.mp (List.mem_of_find?_eq_some hfind)
    simp only [Bool.not_eq_true', decide_eq_false_iff_not, not_lt] at hstops
    exact absurd ⟨tau, hmem, hstops⟩ (h i)
  · rfl

/-- The window is the first lag where the search stops, and the last lag if it stops nowhere. -/
theorem exists_window (c : ℝ) (hne : taus ≠ []) :
    ∃ w : Nat, window c taus = w ∧ w < taus.length ∧
      ((∃ i, Stops c taus i) → IsLeast {i | Stops c taus i} w) ∧
      ((¬ ∃ i, Stops c taus i) → w = taus.length - 1) := by
  by_cases h : ∃ i, Stops c taus i
  · obtain ⟨w, hwindow, hleast⟩ := exists_window_eq h
    obtain ⟨hw, -⟩ := stops_iff_getElem.mp hleast.1
    exact ⟨w, hwindow, hw, fun _ => hleast, fun hnever => absurd h hnever⟩
  · have hlength : 0 < taus.length := List.length_pos_of_ne_nil hne
    refine ⟨taus.length - 1, ?_, Nat.sub_one_lt hlength.ne', fun hstops => absurd hstops h,
      fun _ => rfl⟩
    rw [window_of_not_stops (not_exists.mp h)]
    omega

/-! ## Larger factors -/

/-- Where the search stops with a factor, it stops with any that is less. -/
theorem Stops.of_le (hc : c ≤ c') (hnonneg : ∀ tau ∈ taus, 0 ≤ tau) (h : Stops c' taus i) :
    Stops c taus i := by
  obtain ⟨tau, htau, hle⟩ := h
  have hle' : c * tau ≤ c' * tau :=
    mul_le_mul_of_nonneg_right hc (hnonneg tau (List.mem_of_getElem? htau))
  exact ⟨tau, htau, hle'.trans hle⟩

theorem window_le_last (c : ℝ) (taus : List ℝ) : window c taus ≤ (taus.length : Int) - 1 := by
  by_cases h : ∃ i, Stops c taus i
  · obtain ⟨w, hwindow, hstops, -⟩ := exists_window_eq h
    obtain ⟨hw, -⟩ := stops_iff_getElem.mp hstops
    omega
  · exact (window_of_not_stops (not_exists.mp h)).le

/-- If no time is negative, a larger factor has a later window. -/
theorem window_monotone (hnonneg : ∀ tau ∈ taus, 0 ≤ tau) : Monotone fun c => window c taus := by
  intro c c' hc
  have hsubset : {i | Stops c' taus i} ⊆ {i | Stops c taus i} := fun i => Stops.of_le hc hnonneg
  dsimp only
  by_cases h : ∃ i, Stops c' taus i
  · obtain ⟨w', hwindow', hleast'⟩ := exists_window_eq h
    obtain ⟨w, hwindow, hleast⟩ := exists_window_eq (h.imp hsubset)
    rw [hwindow, hwindow']
    exact Int.ofNat_le.mpr (hleast'.mono hleast hsubset)
  · rw [window_of_not_stops (not_exists.mp h)]
    exact window_le_last c taus

-- of negative times a larger factor can have an earlier window
example : window (-1 : Int) [-1, -1] = 1 ∧ window (1 : Int) [-1, -1] = 0 := by decide

/-! ## The least of some truth values -/

/-- The place of the least of some truth values, and of the first of them if there are several. -/
def argLeast (bs : List Bool) : Option Nat :=
  (List.range bs.length).argmin fun i => bs.getD i true

theorem idxOf_range {n i : Nat} (hi : i < n) : (List.range n).idxOf i = i := by
  have hplace := (List.nodup_range (n := n)).idxOf_getElem i (by rwa [List.length_range])
  rwa [List.getElem_range] at hplace

/-- If one of them is false, it is the place of the first that is. -/
theorem argLeast_eq_some {bs : List Bool} {w : Nat} (h : IsLeast {i | bs[i]? = some false} w) :
    argLeast bs = some w := by
  obtain ⟨hw, hleast⟩ := h
  have hlength : w < bs.length := (List.getElem?_eq_some_iff.mp hw).1
  have hfalse : bs.getD w true = false := by
    rw [List.getD_eq_getElem?_getD, hw, Option.getD_some]
  refine List.argmin_eq_some_iff.mpr ⟨List.mem_range.mpr hlength, fun i _ => ?_, fun i hi hle => ?_⟩
  · rw [hfalse]
    exact Bool.false_le _
  · have hi := List.mem_range.mp hi
    rw [hfalse, List.getD_eq_getElem?_getD, List.getElem?_eq_getElem hi, Option.getD_some] at hle
    rw [idxOf_range hlength, idxOf_range hi]
    exact hleast (List.getElem?_eq_some_iff.mpr ⟨hi, le_bot_iff.mp hle⟩)

/-- Whether the search goes on, for every lag. -/
noncomputable def goesOn (c : ℝ) (taus : List ℝ) : List Bool :=
  taus.zipIdx.map fun (tau, i) => decide ((i : ℝ) < c * tau)

theorem getElem?_goesOn_eq_false_iff : (goesOn c taus)[i]? = some false ↔ Stops c taus i := by
  rw [stops_iff_getElem, List.getElem?_eq_some_iff]
  simp [goesOn]

theorem all_goesOn_iff : (goesOn c taus).all id = true ↔ ¬ ∃ i, Stops c taus i := by
  simp only [← getElem?_goesOn_eq_false_iff, ← List.mem_iff_getElem?]
  simp

/-- The window is the place of the least truth value if the search does not go on everywhere. -/
theorem window_eq_argLeast (c : ℝ) (taus : List ℝ) :
    window c taus =
      if (goesOn c taus).all id then (taus.length : Int) - 1
      else (argLeast (goesOn c taus)).getD 0 := by
  split
  · rename_i hall
    exact window_of_not_stops (not_exists.mp (all_goesOn_iff.mp hall))
  · rename_i hall
    obtain ⟨w, hwindow, hleast⟩ := exists_window_eq (not_not.mp (mt all_goesOn_iff.mpr hall))
    simp only [← getElem?_goesOn_eq_false_iff] at hleast
    rw [hwindow, argLeast_eq_some hleast, Option.getD_some]

/-- **The window is the first lag where the search stops, and moves on with the factor.**  Of times
summed up to at least one lag, the window for any factor `c` is one of the lags: the first that is
at least `c` times the time summed up to it, and the last one if there is none.  It is found as the
place of the least of the truth values whether the search goes on, the first of them, unless it
goes on everywhere.

If no time is negative, a factor that is not less has a window that is not before. -/
theorem window_first_stop_and_monotone (taus : List ℝ) :
    (taus ≠ [] → ∀ c, ∃ w : Nat, window c taus = w ∧ w < taus.length ∧
      ((∃ i, Stops c taus i) → IsLeast {i | Stops c taus i} w) ∧
      ((¬ ∃ i, Stops c taus i) → w = taus.length - 1)) ∧
    (∀ c, window c taus =
      if (goesOn c taus).all id then (taus.length : Int) - 1
      else (argLeast (goesOn c taus)).getD 0) ∧
    ((∀ tau ∈ taus, 0 ≤ tau) → Monotone fun c => window c taus) := by
  refine ⟨?_, ?_, ?_⟩
  · intro hne c
    exact exists_window c hne
  · intro c
    exact window_eq_argLeast c taus
  · intro hnonneg
    exact window_monotone hnonneg

/-- With factor one the search stops at lag one, and with factor forty nowhere. -/
theorem window_first_stop_and_monotone_four :
    (∀ tau ∈ [2, 2 / 5, 3, (1 / 10 : ℝ)], 0 ≤ tau) ∧
      window 1 [2, 2 / 5, 3, (1 / 10 : ℝ)] = 1 ∧ window 40 [2, 2 / 5, 3, (1 / 10 : ℝ)] = 3 ∧
      window 1 [2, 2 / 5, 3, (1 / 10 : ℝ)] ≤ window 40 [2, 2 / 5, 3, (1 / 10 : ℝ)] := by
  set taus := [2, 2 / 5, 3, (1 / 10 : ℝ)] with htaus
  obtain ⟨hfirst, -, hmonotone⟩ := window_first_stop_and_monotone taus
  have hnonneg : ∀ tau ∈ taus, 0 ≤ tau := by
    rw [htaus]
    norm_num
  have hone : IsLeast {i | Stops 1 taus i} 1 := by
    refine ⟨stops_iff_getElem.mpr ⟨by decide, by norm_num [htaus]⟩, fun i hi => ?_⟩
    obtain ⟨hlt, hle⟩ := stops_iff_getElem.mp hi
    by_contra hbefore
    obtain rfl : i = 0 := by omega
    norm_num [htaus] at hle
  have hforty : ¬ ∃ i, Stops 40 taus i := by
    rintro ⟨i, hi⟩
    obtain ⟨hlt, hle⟩ := stops_iff_getElem.mp hi
    have hlt' : i < 4 := hlt
    obtain rfl | rfl | rfl | rfl : i = 0 ∨ i = 1 ∨ i = 2 ∨ i = 3 := by omega
    all_goals norm_num [htaus] at hle
  obtain ⟨w, hw, -, hleast, -⟩ := hfirst (List.cons_ne_nil _ _) 1
  obtain ⟨w', hw', -, -, hlast⟩ := hfirst (List.cons_ne_nil _ _) 40
  obtain rfl : w = 1 := (hleast ⟨1, hone.1⟩).unique hone
  obtain rfl : w' = 3 := hlast hforty
  exact ⟨hnonneg, hw, hw', hmonotone hnonneg (by norm_num)⟩

end EnsembleSampling.Autocorrelation
