import EnsembleSampling.Proofs.Scale.Extended
import EnsembleSampling.Proofs.Sweep.Search
import EnsembleSampling.Proofs.Sweep.Share
import Mathlib.Data.Fintype.Basic
set_option autoImplicit false

/-!
# Sweeps turn by turn

What one walker draws in a sweep is its turn: a set of companions and a deviate for each of
them.  `tapeOf` writes turns on a tape, the companions as the block of coins that selects
them, and `sweptPositions_tapeOf` says what a sweep makes of such a tape when the
log-density is zero on a finite set of positions and minus infinity outside it: each walker
goes where its own turn says, if that is in the set.
-/

namespace EnsembleSampling

/-- What one of `N` walkers draws in a sweep. -/
structure Turn (N : Nat) where
  companions : Finset (Fin N)
  deviates : List ℚ

/-- The log-density that is zero on a finite set of positions and minus infinity elsewhere. -/
noncomputable def onSet {V : Type} [DecidableEq V] (A : Finset V) (x : V) : Extended :=
  if x ∈ A then .number 0 else .number ⊥

namespace Turn

variable {N : Nat} {V : Type}

/-- The companions in order. -/
def companionList (t : Turn N) : List (Fin N) := (List.finRange N).filter (· ∈ t.companions)

/-- The block of coins that selects the companions of the walker `i`. -/
def coins (i : Fin N) (t : Turn N) : List Int :=
  (List.range (N - 1)).map fun k => if ∃ j ∈ t.companions, j.val = skipOver i k then 1 else 0

/-- A tape that holds one turn, of the walker `i`, and a uniform. -/
noncomputable def tape (i : Fin N) (u : ℝ) (t : Turn N) : Tape ℚ Extended :=
  ⟨t.coins i, t.deviates, [.number u]⟩

/-- A turn of the walker `i` and a uniform as a share of the draws. -/
noncomputable def share (i : Fin N) (u : ℝ) (t : Turn N) : Share ℚ Extended :=
  ⟨[], t.coins i, t.deviates, .number u⟩

/-- A turn that the walker `i` can have. -/
structure Valid (i : Fin N) (t : Turn N) : Prop where
  notMem : i ∉ t.companions
  enough : 2 ≤ t.companions.card
  deviates : t.deviates.length = t.companions.card

/-- Where a turn takes the walker `i`: to the proposal, or nowhere if that is outside the
set. -/
def jump [LinearOps ℚ V] [DecidableEq V] (A : Finset V) (X : Fin N → V) (i : Fin N)
    (t : Turn N) : V :=
  if proposal (X i) (t.companionList.map X) t.deviates ∈ A then
    proposal (X i) (t.companionList.map X) t.deviates
  else X i

end Turn

/-- A tape that holds the turns of some walkers, one after the other, each with its
uniform. -/
noncomputable def tapeOf {N : Nat} (u : Fin N → ℝ) :
    List (Fin N) → List (Turn N) → Tape ℚ Extended
  | i :: is, t :: ts => (t.tape i (u i)).append (tapeOf u is ts)
  | _, _ => ⟨[], [], []⟩

/-! ## Companions from coins -/

namespace Turn

variable {N : Nat} {V : Type} {i : Fin N} {t : Turn N}

theorem mem_companionList {j : Fin N} : j ∈ t.companionList ↔ j ∈ t.companions :=
  mem_membersOf

theorem length_coins : (t.coins i).length = N - 1 :=
  length_blockFor i t.companions

/-- The block of coins selects the companions and no other walkers. -/
theorem selectedBy_coins (ht : t.Valid i) :
    selectedBy i (t.coins i) = t.companionList.map Fin.val :=
  selectedBy_blockFor ht.notMem

/-- A turn that the walker can have is a share that it can take, with the same companions. -/
theorem valid_share (ht : t.Valid i) (u : ℝ) :
    (t.share i u).Valid (N - 1) ∧ (t.share i u).companions i = t.companionList := by
  have hcoins : (t.share i u).coins.length = N - 1 := length_coins
  have hheads : heads (t.share i u).coins = t.companions.card := heads_blockFor ht.notMem
  refine ⟨⟨by simp [share], hcoins, ?_, ?_⟩, ?_⟩
  · rw [hheads]
    exact ht.enough
  · rw [hheads]
    exact ht.deviates
  · apply List.map_injective_iff.mpr Fin.val_injective
    rw [Share.map_val_companions hcoins]
    exact selectedBy_coins ht

/-- Where a walker is has no influence on where its companions are. -/
theorem map_update_companionList {X : Fin N → V} (hi : i ∉ t.companions) (x : V) :
    t.companionList.map (Function.update X i x) = t.companionList.map X := by
  refine List.map_congr_left fun j hj => Function.update_of_ne ?_ _ _
  rintro rfl
  exact hi (mem_companionList.mp hj)

end Turn

/-! ## Sweeps from a tape of turns -/

section

variable {N : Nat} {V : Type} [DecidableEq V] {A : Finset V} {i : Fin N} {t : Turn N}

theorem onSet_of_mem {x : V} (hx : x ∈ A) : onSet A x = .number 0 := if_pos hx

theorem onSet_of_notMem {x : V} (hx : x ∉ A) : onSet A x = .number ⊥ := if_neg hx

theorem isUndefined_onSet (x : V) : LogScale.isUndefined (onSet A x) = false := by
  unfold onSet
  split <;> rfl

/-- A proposal is accepted if it is in the set and rejected if not, whatever the uniform
between zero and one. -/
theorem position_settle_onSet {x y : V} (hx : x ∈ A) {u : ℝ} (hu : 0 < u ∧ u < 1) :
    ((⟨x, onSet A x, y, regarded (onSet A y)⟩ : Move V Extended).settle (.number u)).position =
      if y ∈ A then y else x := by
  have hprobability : (⟨x, onSet A x, y, regarded (onSet A y)⟩ : Move V Extended).probability =
      acceptance (onSet A x) (onSet A y) := by
    rw [Move.probability, regarded_of_defined (isUndefined_onSet y)]
  rw [onSet_of_mem hx] at hprobability ⊢
  by_cases hy : y ∈ A
  · rw [onSet_of_mem hy, Extended.acceptance_zero_zero] at hprobability
    rw [Move.settle_of_not_lt, if_pos hy]
    rw [onSet_of_mem hy, hprobability, Extended.number_lt_iff, not_lt]
    exact_mod_cast hu.2.le
  · rw [onSet_of_notMem hy, Extended.acceptance_zero_bot] at hprobability
    rw [Move.settle_of_lt, if_neg hy]
    rw [onSet_of_notMem hy, hprobability, Extended.number_lt_iff]
    exact_mod_cast hu.1

variable [LinearOps ℚ V] {X : Fin N → V} {u : Fin N → ℝ}

/-- A move that reads a turn off a tape goes where the turn says. -/
theorem outcome_plainMove_tape (hX : X i ∈ A) (hu : 0 < u i ∧ u i < 1) (ht : t.Valid i)
    (limit : Nat) (rest : Tape ℚ Extended) :
    ∃ a, (plainMove (Tape.host (onSet A)) (limit + 1) (List.ofFn X) i (X i)).outcome
        ((t.tape i (u i)).append rest) = (.ok a, rest) ∧ a.position = t.jump A X i := by
  obtain ⟨hvalid, hcompanions⟩ := Turn.valid_share ht (u i)
  have hlimit : (t.share i (u i)).idle.length < limit + 1 := Nat.succ_pos limit
  have hproposed : (t.share i (u i)).proposed X i =
      proposal (X i) (t.companionList.map X) t.deviates := by
    rw [← Share.proposal_eq_proposed X i hvalid.coins, ← Share.map_val_companions hvalid.coins,
      Share.filterMap_getElem?_ofFn, hcompanions]
    rfl
  refine ⟨_, outcome_plainMove_share hvalid hlimit rest, ?_⟩
  rw [Share.walker, hproposed, ← Move.settle_eq_metropolis]
  exact position_settle_onSet hX hu

/-- Moves of consecutive walkers that read their turns off a tape go where the turns say. -/
theorem outcome_plainMoves_tape (hX : ∀ i, X i ∈ A) (hu : ∀ i, 0 < u i ∧ u i < 1) (limit : Nat)
    {is : List (Fin N)} {ts : List (Turn N)} (hts : List.Forall₂ Turn.Valid is ts) (index : Nat)
    (his : is.map Fin.val = List.range' index is.length) :
    ∃ ws, (plainMoves (Tape.host (onSet A)) (limit + 1) (List.ofFn X) index (is.map X)).outcome
        (tapeOf u is ts) = (.ok ws, ⟨[], [], []⟩) ∧
      ws.map Walker.position = List.zipWith (Turn.jump A X) is ts := by
  -- A walker knows its own number only through its place in the list of those to come.
  induction hts generalizing index with
  | nil => exact ⟨[], rfl, rfl⟩
  | @cons i t is ts ht hts ih =>
    rw [List.map_cons, List.length_cons, List.range'_succ, List.cons.injEq] at his
    obtain ⟨rfl, his⟩ := his
    obtain ⟨a, ha, hposition⟩ := outcome_plainMove_tape (hX i) (hu i) ht limit (tapeOf u is ts)
    obtain ⟨ws, hws, hpositions⟩ := ih (i.val + 1) his
    refine ⟨a :: ws, ?_, ?_⟩
    · rw [List.map_cons, plainMoves, tapeOf, Draw.outcome_bind_of_ok ha,
        Draw.outcome_bind_of_ok hws]
      rfl
    · rw [List.map_cons, List.zipWith_cons_cons, hposition, hpositions]

/-- The positions after a sweep from given positions with the density of a finite set. -/
noncomputable def sweptPositions (A : Finset V) (limit dims : Nat) (X : Fin N → V)
    (tape : Tape ℚ Extended) : Except (SweepFailure Unit) (List V) :=
  let current : Ensemble V Extended := .start dims (List.ofFn X)
  let (r, next, _) := sweepInto (Tape.host (onSet A)) limit current current.emptyLike tape
  r.map fun _ => next.positions

/-- A sweep that reads its turns off a tape takes each walker where its turn says. -/
theorem sweptPositions_tapeOf (hN : minWalkers ≤ N) (hX : ∀ i, X i ∈ A)
    (hu : ∀ i, 0 < u i ∧ u i < 1) (limit dims : Nat) {ts : List (Turn N)}
    (hts : List.Forall₂ Turn.Valid (List.finRange N) ts) :
    sweptPositions A (limit + 1) dims X (tapeOf u (List.finRange N) ts) =
      .ok (List.zipWith (Turn.jump A X) (List.finRange N) ts) := by
  have hindices : (List.finRange N).map Fin.val = List.range' 0 (List.finRange N).length := by
    rw [List.map_coe_finRange_eq_range, List.length_finRange, List.range_eq_range']
  obtain ⟨ws, hws, hpositions⟩ := outcome_plainMoves_tape hX hu limit hts 0 hindices
  rw [← List.ofFn_eq_map] at hws
  have hplain : (plainSweep (Tape.host (onSet A)) (limit + 1) (List.ofFn X)).outcome
      (tapeOf u (List.finRange N) ts) = (.ok ws, ⟨[], [], []⟩) := by
    rw [plainSweep, List.length_ofFn, if_neg (Nat.not_lt.mpr hN)]
    exact hws
  have hsweep := sweepInto_eq (Tape.host (onSet A)) (limit + 1)
    (Ensemble.shape_emptyLike (Ensemble.start dims (List.ofFn X)))
    (tapeOf u (List.finRange N) ts)
  rw [Ensemble.positions_start, hplain] at hsweep
  simp only [sweptPositions, hsweep]
  exact congrArg Except.ok hpositions

end

end EnsembleSampling
