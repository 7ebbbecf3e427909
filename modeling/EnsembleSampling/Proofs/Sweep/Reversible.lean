import EnsembleSampling.Proofs.Scale.Arithmetic
import EnsembleSampling.Proofs.Sweep.Plain
import EnsembleSampling.Proofs.Sweep.Search
import EnsembleSampling.Proofs.Sweep.Share
set_option autoImplicit false

/-!
# Moves and their way back

A move of one walker is reversible.  The search for companions asks for coins and for nothing
else, so the same coins choose the same companions wherever the walker is; the offsets of the
companions from their mean do not depend on the walker, which is none of them, so the opposite
deviates lead back (`proposedFrom_neg`); and the probabilities of the two moves balance the
densities of their ends (`exp_mul_min_exp_sub`).

The offsets add up to zero, so a constant that is added to all deviates changes nothing
(`proposedFrom_add_const`).
-/

namespace EnsembleSampling

/-! ## Proposals by sets of companions -/

section

variable {α : Type} [Field α] {N D : Nat} (v : Fin N → Fin D → α) (i : Fin N) (S : Finset (Fin N))
  (z : Fin N → α)

/-- What each of a set of companions is away from their mean. -/
def offset (j : Fin N) : Fin D → α := v j - (S.card : α)⁻¹ • ∑ k ∈ S, v k

/-- Where the walker `i` of walkers at `v` is proposed to go with a set of companions, each with
a deviate. -/
def proposedFrom : Fin D → α := v i + ∑ j ∈ S, z j • offset v S j

variable {v i S z}

theorem sum_offset [CharZero α] (hS : S.Nonempty) : ∑ j ∈ S, offset v S j = 0 := by
  have hcard : (S.card : α) ≠ 0 := Nat.cast_ne_zero.mpr (Finset.card_ne_zero.mpr hS)
  simp only [offset]
  rw [Finset.sum_sub_distrib, Finset.sum_const, ← Nat.cast_smul_eq_nsmul α, smul_smul,
    mul_inv_cancel₀ hcard, one_smul, sub_self]

/-- The same constant added to all deviates leaves the proposal where it is. -/
theorem proposedFrom_add_const [CharZero α] (hS : S.Nonempty) (c : α) :
    proposedFrom v i S (fun j => z j + c) = proposedFrom v i S z := by
  have hsum : ∑ j ∈ S, (z j + c) • offset v S j = ∑ j ∈ S, z j • offset v S j := by
    calc ∑ j ∈ S, (z j + c) • offset v S j
        = ∑ j ∈ S, z j • offset v S j + c • ∑ j ∈ S, offset v S j := by
          rw [Finset.smul_sum, ← Finset.sum_add_distrib]
          exact Finset.sum_congr rfl fun j _ => add_smul _ _ _
      _ = ∑ j ∈ S, z j • offset v S j := by rw [sum_offset hS, smul_zero, add_zero]
  rw [proposedFrom, hsum, proposedFrom]

/-- Where a walker is has no influence on the offsets of its companions. -/
theorem offset_update (hi : i ∉ S) (y : Fin D → α) {j : Fin N} (hj : j ∈ S) :
    offset (Function.update v i y) S j = offset v S j := by
  have hother {k : Fin N} (hk : k ∈ S) : Function.update v i y k = v k :=
    Function.update_of_ne (ne_of_mem_of_not_mem hk hi) y v
  rw [offset, offset, hother hj, Finset.sum_congr rfl fun k hk => hother hk]

/-- From the proposal the opposite deviates lead back. -/
theorem proposedFrom_neg (hi : i ∉ S) :
    proposedFrom (Function.update v i (proposedFrom v i S z)) i S (fun j => -z j) = v i := by
  have hback : ∑ j ∈ S, (-z j) • offset (Function.update v i (proposedFrom v i S z)) S j =
      -∑ j ∈ S, z j • offset v S j := by
    rw [← Finset.sum_neg_distrib]
    refine Finset.sum_congr rfl fun j hj => ?_
    rw [offset_update hi _ hj, neg_smul]
  rw [proposedFrom, Function.update_self, hback, proposedFrom, add_neg_cancel_right]

end

/-! ## Proposals of shares -/

section

variable {N D : Nat}

theorem sum_map_membersOf {M : Type} [AddCommMonoid M] (S : Finset (Fin N)) (g : Fin N → M) :
    ((membersOf S).map g).sum = ∑ j ∈ S, g j := by
  rw [← List.sum_toFinset g (nodup_membersOf S), toFinset_membersOf]

/-- A share that brings a set of companions, each with its deviate, proposes where they lead. -/
theorem Share.proposed_eq_proposedFrom {α β : Type} [Field α] {v : Fin N → Fin D → α} {i : Fin N}
    {S : Finset (Fin N)} {z : Fin N → α} {s : Share α β}
    (hcompanions : s.companions i = membersOf S) (hdeviates : s.deviates = (membersOf S).map z) :
    s.proposed (fun j => Point.ofVector (v j)) i = Point.ofVector (proposedFrom v i S z) := by
  have hpoints : (membersOf S).map (fun j => Point.ofVector (v j)) =
      ((membersOf S).map v).map Point.ofVector := by
    rw [List.map_map]
    rfl
  have hvectors : proposal (v i) ((s.companions i).map v) s.deviates = proposedFrom v i S z := by
    have hpairs : (membersOf S).zip ((membersOf S).map z) =
        (membersOf S).map fun j => (j, z j) := by
      simpa using List.zip_map' (f := id) (g := z) (l := membersOf S)
    rw [← proposed_eq_proposal, proposed_eq_add_sum, hcompanions, hdeviates, hpairs, List.map_map,
      sum_map_membersOf, sum_map_membersOf, length_membersOf]
    rfl
  rw [proposed_eq_proposal, hcompanions, hpoints, Point.proposal_ofVector, ← hcompanions, hvectors]

end

/-! ## Acceptance -/

section

theorem probabilityOfRatio_real (r : ℝ) :
    probabilityOfRatio (Extended.real r) = .real (min 1 r) := by
  have hdefined : LogScale.isUndefined (Extended.real r) = false := rfl
  rw [probabilityOfRatio, hdefined, ← Extended.real_one]
  simp only [Bool.false_eq_true, if_false, Extended.real_lt_real]
  split
  · rename_i hlt
    rw [min_eq_left hlt.le]
  · rename_i hle
    rw [min_eq_right (not_lt.mp hle)]

variable {D : Nat} (f : (Fin D → ℝ) → ℝ)

/-- A finite log-density of vectors as one of points. -/
noncomputable def pointDensity (p : Point ℝ) : Extended := .real (f (p.toVector D))

/-- A Metropolis step between points of finite log-density. -/
theorem metropolis_pointDensity (x y : Fin D → ℝ) (u : Extended) :
    metropolis (pointDensity f) (Point.ofVector x) (Point.ofVector y) u =
      if Extended.real (min 1 (Real.exp (f y - f x))) < u then
        ⟨Point.ofVector x, .real (f x), .real (min 1 (Real.exp (f y - f x)))⟩
      else ⟨Point.ofVector y, .real (f y), .real (min 1 (Real.exp (f y - f x)))⟩ := by
  have hdefined : LogScale.isUndefined (Extended.real (f y)) = false := rfl
  have hratio : LogScale.exp (Extended.real (f y) - .real (f x)) =
      .real (Real.exp (f y - f x)) := by
    rw [Extended.real_sub_real]
    exact Extended.exp_real _
  simp only [metropolis, pointDensity, Point.toVector_ofVector, hdefined, Bool.false_eq_true,
    if_false, hratio, probabilityOfRatio_real]

theorem acceptProb_metropolis_pointDensity (x y : Fin D → ℝ) (u : Extended) :
    (metropolis (pointDensity f) (Point.ofVector x) (Point.ofVector y) u).acceptProb =
      .real (min 1 (Real.exp (f y - f x))) := by
  rw [metropolis_pointDensity]
  split
  · rfl
  · rfl

/-- The densities of two positions are in balance with the probabilities of moving between
them. -/
theorem exp_mul_min_exp_sub (a b : ℝ) :
    Real.exp a * min 1 (Real.exp (b - a)) = Real.exp b * min 1 (Real.exp (a - b)) := by
  have hflow (a b : ℝ) : Real.exp a * min 1 (Real.exp (b - a)) = min (Real.exp a) (Real.exp b) := by
    rw [mul_min_of_nonneg _ _ (Real.exp_pos a).le, mul_one, ← Real.exp_add, add_sub_cancel]
  rw [hflow, hflow, min_comm]

end

/-! ## Coins on a tape -/

section

variable {N : Nat} {α β V : Type}

/-- A tape throws the coins in front of its queue. -/
theorem Tape.throws_iff {f : V → β} {t t' : Tape α β} {coins : List Int} :
    (Tape.host f : Host (Tape α β) Unit α β V).Throws t coins t' ↔
      t = ⟨coins ++ t'.coins, t'.normals, t'.uniforms⟩ := by
  induction coins generalizing t with
  | nil => exact Host.throws_nil_iff
  | cons c coins ih =>
    obtain ⟨coins₀, normals, uniforms⟩ := t
    simp only [Host.throws_cons_iff, ih]
    constructor
    · rintro ⟨_, hcoin, rfl⟩
      cases coins₀ with
      | nil => simp [host, next] at hcoin
      | cons c₀ coins₀ =>
        obtain ⟨rfl, rfl, rfl, rfl⟩ : c₀ = c ∧ coins₀ = coins ++ t'.coins ∧
            normals = t'.normals ∧ uniforms = t'.uniforms := by
          simpa [host, next] using hcoin
        rfl
    · intro htape
      obtain ⟨rfl, rfl, rfl⟩ : coins₀ = c :: coins ++ t'.coins ∧ normals = t'.normals ∧
          uniforms = t'.uniforms := by simpa using htape
      exact ⟨_, rfl, rfl⟩

end

/-! ## There and back -/

section

variable {N D : Nat} (f : (Fin D → ℝ) → ℝ) (limit : Nat) (i : Fin N) (S : Finset (Fin N))
  (coins : List Int)

/-- With these coins, of which none is left over, a search chooses the companions of a walker. -/
def Chooses : Prop :=
  (drawCompanions (Tape.host (pointDensity f) : Host (Tape ℝ Extended) Unit ℝ Extended _) i (N - 1)
    limit).outcome ⟨coins, [], []⟩ = (.ok ((membersOf S).map Fin.val), ⟨[], [], []⟩)

/-- The outcome of a move of a walker among walkers at `v`, from a tape with these coins, the
deviates of the members of a set, and a uniform. -/
noncomputable def moveOnTape (v : Fin N → Fin D → ℝ) (z : Fin N → ℝ) (u : Extended)
    (slot : Walker (Point ℝ) Extended) :
    Except (SweepFailure Unit) Unit × Tape ℝ Extended × Walker (Point ℝ) Extended :=
  (moveWalker (Tape.host (pointDensity f)) limit (List.ofFn fun j => Point.ofVector (v j)) i
    (Point.ofVector (v i))).outcome (⟨coins, (membersOf S).map z, [u]⟩, slot)

variable {f limit i S coins}

/-- Only sets of at least two of the other walkers are chosen. -/
theorem Chooses.isChoice (hchooses : Chooses f limit i S coins) : i ∉ S ∧ 2 ≤ S.card := by
  obtain ⟨m, thrown, -, hfirst, -, hselected⟩ := (drawCompanions_eq_ok_iff _ _).mp hchooses
  have hchoice := isChoice_selectedBy i (length_blockOf hfirst.length) hfirst.enough
  rw [← hselected] at hchoice
  refine ⟨fun hi => ?_, ?_⟩
  · exact hchoice.others i.val (List.mem_map_of_mem (mem_membersOf.mpr hi)) rfl
  · simpa [length_membersOf] using hchoice.enough

/-- Every set of at least two of the other walkers is chosen by some coins. -/
theorem chooses_blockFor (hi : i ∉ S) (hS : 2 ≤ S.card) (hlimit : 0 < limit) :
    Chooses f limit i S (blockFor i S) := by
  refine (drawCompanions_eq_ok_iff _ _).mpr ⟨0, blockFor i S, hlimit, ?_, ?_, ?_⟩
  · exact firstEnough_zero_iff.mpr ⟨length_blockFor i S, (heads_blockFor hi).symm ▸ hS⟩
  · exact Tape.throws_iff.mpr (by rw [List.append_nil])
  · rw [blockOf_zero (length_blockFor i S), selectedBy_blockFor hi]

theorem exists_chooses_iff (hlimit : 0 < limit) :
    (∃ coins, Chooses f limit i S coins) ↔ i ∉ S ∧ 2 ≤ S.card := by
  constructor
  · rintro ⟨coins, hchooses⟩
    exact hchooses.isChoice
  · rintro ⟨hi, hS⟩
    exact ⟨_, chooses_blockFor hi hS hlimit⟩

/-- A move whose coins choose a set of companions is a Metropolis step to where these lead. -/
theorem moveOnTape_of_chooses (hchooses : Chooses f limit i S coins) (v : Fin N → Fin D → ℝ)
    (z : Fin N → ℝ) (u : Extended) (slot : Walker (Point ℝ) Extended) :
    moveOnTape f limit i S coins v z u slot =
      (.ok (), ⟨[], [], []⟩, metropolis (pointDensity f) (Point.ofVector (v i))
        (Point.ofVector (proposedFrom v i S z)) u) := by
  obtain ⟨m, thrown, hm, hfirst, hthrows, hselected⟩ := (drawCompanions_eq_ok_iff _ _).mp hchooses
  obtain rfl : coins = thrown := by simpa using Tape.throws_iff.mp hthrows
  obtain ⟨idle, rfl, hidle, hcoins⟩ := hfirst.exists_idle
  let s : Share ℝ Extended :=
    ⟨idle, blockOf (N - 1) idle.length coins, (membersOf S).map z, u⟩
  have hlength : s.coins.length = N - 1 := length_blockOf hfirst.length
  have hcompanions : s.companions i = membersOf S := by
    apply List.map_injective_iff.mpr Fin.val_injective
    rw [Share.map_val_companions hlength, hselected]
  have hheads : heads s.coins = S.card := by
    rw [← length_selectedBy i, ← hselected, List.length_map, length_membersOf]
  have hvalid : s.Valid (N - 1) := by
    refine ⟨hidle, hlength, hheads ▸ hchooses.isChoice.2, ?_⟩
    rw [hheads, List.length_map, length_membersOf]
  have htape : s.tape.append ⟨[], [], []⟩ = ⟨coins, (membersOf S).map z, [u]⟩ := by
    simp only [Share.tape, Tape.append, s, List.append_nil, ← hcoins]
  have hmove := outcome_plainMove_share (f := pointDensity f)
    (X := fun j => Point.ofVector (v j)) (i := i) hvalid hm ⟨[], [], []⟩
  rw [htape, Share.walker, Share.proposed_eq_proposedFrom hcompanions rfl] at hmove
  exact (fills_moveWalker _ _ _ _ _).of_ok hmove slot

/-- **A move of one walker is reversible.**  In exact arithmetic let walkers be at `v`, with any
finite log-density, and let the walker `i` be moved with the companions `S` and a deviate `z j` for
each of them.  It is proposed to go to `y`: from where it is, by the sum of the deviates times the
offsets of the companions from their mean.

Some coins choose these companions exactly if they are at least two, and the walker is none of them.
With any coins that do, and whatever the uniform and the slot, the move is a Metropolis step towards
`y`.  If the walker is at `y` instead and the others are where they were, then with the same coins
and the opposite deviates it is a Metropolis step towards `v i`, exactly.  A constant added to all
deviates changes nothing.

The probabilities of the two steps are real numbers, and they balance the densities. -/
theorem moveOnTape_reversible (f : (Fin D → ℝ) → ℝ) (v : Fin N → Fin D → ℝ) (i : Fin N)
    (S : Finset (Fin N)) (z : Fin N → ℝ) {limit : Nat} (hlimit : 0 < limit) :
    ((∃ coins, Chooses f limit i S coins) ↔ i ∉ S ∧ 2 ≤ S.card) ∧
    let y := v i + ∑ j ∈ S, z j • (v j - (S.card : ℝ)⁻¹ • ∑ k ∈ S, v k)
    let there := metropolis (pointDensity f) (Point.ofVector (v i)) (Point.ofVector y)
    let back := metropolis (pointDensity f) (Point.ofVector y) (Point.ofVector (v i))
    (∀ coins, Chooses f limit i S coins → ∀ u slot,
      moveOnTape f limit i S coins v z u slot = (.ok (), ⟨[], [], []⟩, there u) ∧
      moveOnTape f limit i S coins (Function.update v i y) (fun j => -z j) u slot =
        (.ok (), ⟨[], [], []⟩, back u) ∧
      ∀ c, moveOnTape f limit i S coins v (fun j => z j + c) u slot =
        (.ok (), ⟨[], [], []⟩, there u)) ∧
    ∃ p q : ℝ, (∀ u, (there u).acceptProb = .real p) ∧ (∀ u, (back u).acceptProb = .real q) ∧
      p = min 1 (Real.exp (f y - f (v i))) ∧ Real.exp (f (v i)) * p = Real.exp (f y) * q := by
  refine ⟨exists_chooses_iff hlimit, ?_⟩
  intro y there back
  have hproposed : proposedFrom v i S z = y := rfl
  constructor
  · intro coins hchooses u slot
    obtain ⟨hi, hS⟩ := hchooses.isChoice
    refine ⟨moveOnTape_of_chooses hchooses v z u slot, ?_, fun c => ?_⟩
    · have hmove := moveOnTape_of_chooses hchooses (Function.update v i y) (fun j => -z j) u slot
      rwa [← hproposed, proposedFrom_neg hi, Function.update_self] at hmove
    · have hnonempty : S.Nonempty := Finset.card_pos.mp (Nat.lt_of_lt_of_le Nat.zero_lt_two hS)
      have hmove := moveOnTape_of_chooses hchooses v (fun j => z j + c) u slot
      rwa [proposedFrom_add_const hnonempty] at hmove
  · exact ⟨_, _, acceptProb_metropolis_pointDensity f _ _,
      acceptProb_metropolis_pointDensity f _ _, rfl, exp_mul_min_exp_sub _ _⟩

/-- Of walkers at 0, 1 and 2 on a line the first is moved by the other two, with the deviates 1
and 2: to 1/2, and back. -/
theorem moveOnTape_reversible_line :
    let v : Fin 3 → Fin 1 → ℝ := fun j _ => j
    let z : Fin 3 → ℝ := fun j => j
    let f : (Fin 1 → ℝ) → ℝ := fun x => -x 0 ^ 2
    let S : Finset (Fin 3) := {1, 2}
    let half : Fin 1 → ℝ := fun _ => 1 / 2
    0 ∉ S ∧ 2 ≤ S.card ∧ ∃ coins, Chooses f 1 0 S coins ∧ ∀ u slot,
      moveOnTape f 1 0 S coins v z u slot = (.ok (), ⟨[], [], []⟩,
        metropolis (pointDensity f) (Point.ofVector (v 0)) (Point.ofVector half) u) ∧
      moveOnTape f 1 0 S coins (Function.update v 0 half) (fun j => -z j) u slot =
        (.ok (), ⟨[], [], []⟩,
          metropolis (pointDensity f) (Point.ofVector half) (Point.ofVector (v 0)) u) := by
  intro v z f S half
  have hi : (0 : Fin 3) ∉ S := by decide
  have hS : 2 ≤ S.card := by decide
  have hhalf : v 0 + ∑ j ∈ S, z j • (v j - (S.card : ℝ)⁻¹ • ∑ k ∈ S, v k) = half := by
    funext d
    simp [v, z, S, half]
    norm_num
  obtain ⟨hcoins, hmoves, -⟩ := moveOnTape_reversible f v 0 S z Nat.one_pos
  rw [hhalf] at hmoves
  obtain ⟨coins, hchooses⟩ := hcoins.mpr ⟨hi, hS⟩
  refine ⟨hi, hS, coins, hchooses, fun u slot => ?_⟩
  obtain ⟨hthere, hback, -⟩ := hmoves coins hchooses u slot
  exact ⟨hthere, hback⟩

end

end EnsembleSampling
