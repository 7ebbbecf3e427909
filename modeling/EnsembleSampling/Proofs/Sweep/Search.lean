import EnsembleSampling.Ensemble.Selection
import EnsembleSampling.Proofs.Sweep.Exchange
import Mathlib.Data.Finset.Card
import Mathlib.Data.Fintype.Basic
import Mathlib.Data.List.Sort
import Mathlib.Data.Set.Function
import Mathlib.Order.Monotone.Basic
set_option autoImplicit false

/-!
# The search for companions

Coins are thrown in blocks, with one coin for each of the other walkers, and the first block
with two heads selects the companions (`FirstEnough`).  A search that is answered threw the
coins up to the end of that block and no others (`drawCompanions_eq_ok_iff`), and a search is
answered within some limit exactly if there is such a block among the coins
(`exists_drawCompanions_iff`).

What a block selects says which of its coins are zero and nothing else (`selectedBy_eq_iff`),
and every set of at least two of the other walkers is selected by some block
(`toFinset_selectedBy_surjOn`).
-/

namespace EnsembleSampling

section

variable {σ ε α β V : Type}

/-- The host throws these coins one after the other, from one state to the next. -/
inductive Host.Throws (h : Host σ ε α β V) : σ → List Int → σ → Prop where
  | nil (w : σ) : Throws h w [] w
  | cons {w w' w'' : σ} {c : Int} {coins : List Int} (hcoin : h.coin.outcome w = (.ok c, w'))
      (hrest : Throws h w' coins w'') : Throws h w (c :: coins) w''

namespace Host

variable {h : Host σ ε α β V}

theorem throws_nil_iff {w w' : σ} : h.Throws w [] w' ↔ w = w' := by
  constructor
  · intro hthrows
    cases hthrows
    rfl
  · rintro rfl
    exact .nil w

theorem throws_cons_iff {w w'' : σ} {c : Int} {coins : List Int} :
    h.Throws w (c :: coins) w'' ↔
      ∃ w', h.coin.outcome w = (.ok c, w') ∧ h.Throws w' coins w'' := by
  constructor
  · intro hthrows
    cases hthrows with
    | cons hcoin hrest => exact ⟨_, hcoin, hrest⟩
  · rintro ⟨w', hcoin, hrest⟩
    exact .cons hcoin hrest

theorem throws_append_iff {w w'' : σ} {coins coins' : List Int} :
    h.Throws w (coins ++ coins') w'' ↔
      ∃ w', h.Throws w coins w' ∧ h.Throws w' coins' w'' := by
  induction coins generalizing w with
  | nil => simp [throws_nil_iff]
  | cons c coins ih =>
    simp only [List.cons_append, throws_cons_iff, ih]
    constructor
    · rintro ⟨w₁, hcoin, w', hcoins, hcoins'⟩
      exact ⟨w', ⟨w₁, hcoin, hcoins⟩, hcoins'⟩
    · rintro ⟨w', ⟨w₁, hcoin, hcoins⟩, hcoins'⟩
      exact ⟨w₁, hcoin, w', hcoins, hcoins'⟩

/-- A request for so many coins is answered with that many, thrown one after the other. -/
theorem outcome_times_coin_eq_ok_iff {n : Nat} {w w' : σ} {coins : List Int} :
    (Draw.times n h.coin).outcome w = (.ok coins, w') ↔ coins.length = n ∧ h.Throws w coins w' := by
  induction n generalizing w coins with
  | zero =>
    rw [List.length_eq_zero_iff]
    constructor
    · intro htimes
      obtain ⟨rfl, rfl⟩ : [] = coins ∧ w = w' := by simpa [Draw.times] using htimes
      exact ⟨rfl, .nil w⟩
    · rintro ⟨rfl, hthrows⟩
      obtain rfl := throws_nil_iff.mp hthrows
      rfl
  | succ n ih =>
    rw [Draw.times_succ, Draw.outcome_bind_eq_ok_iff]
    constructor
    · rintro ⟨c, w₁, hcoin, hrest⟩
      obtain ⟨rest, w₂, htimes, hpure⟩ := Draw.outcome_bind_eq_ok_iff.mp hrest
      obtain ⟨rfl, rfl⟩ : c :: rest = coins ∧ w₂ = w' := by simpa using hpure
      obtain ⟨hlength, hthrows⟩ := ih.mp htimes
      exact ⟨congrArg (· + 1) hlength, .cons hcoin hthrows⟩
    · rintro ⟨hlength, hthrows⟩
      cases hthrows with
      | nil => simp at hlength
      | cons hcoin hrest =>
        refine ⟨_, _, hcoin, ?_⟩
        have htimes := ih.mpr ⟨Nat.succ.inj hlength, hrest⟩
        rw [Draw.outcome_bind_of_ok htimes, Draw.outcome_pure]

end Host

/-! ## Blocks of coins -/

/-- One block of a row of coins, the first being block zero. -/
def blockOf (others m : Nat) (coins : List Int) : List Int :=
  (coins.drop (m * others)).take others

/-- The coins up to the end of block `m`, which is the first with two heads. -/
structure FirstEnough (others m : Nat) (coins : List Int) : Prop where
  length : coins.length = (m + 1) * others
  idle : ∀ k < m, heads (blockOf others k coins) < 2
  enough : 2 ≤ heads (blockOf others m coins)

section

variable {others : Nat} {block : List Int}

theorem blockOf_append_zero (hblock : block.length = others) (coins : List Int) :
    blockOf others 0 (block ++ coins) = block := by
  rw [blockOf, Nat.zero_mul, List.drop_zero, ← hblock, List.take_left]

theorem blockOf_append_succ (hblock : block.length = others) (m : Nat) (coins : List Int) :
    blockOf others (m + 1) (block ++ coins) = blockOf others m coins := by
  rw [blockOf, Nat.succ_mul, Nat.add_comm, ← List.drop_drop, ← hblock, List.drop_left]
  rfl

theorem blockOf_zero (hblock : block.length = others) : blockOf others 0 block = block := by
  simpa using blockOf_append_zero hblock []

theorem length_blockOf {m : Nat} {coins : List Int} (hcoins : coins.length = (m + 1) * others) :
    (blockOf others m coins).length = others := by
  rw [blockOf, List.length_take, List.length_drop, hcoins, Nat.succ_mul]
  omega

theorem firstEnough_zero_iff {coins : List Int} :
    FirstEnough others 0 coins ↔ coins.length = others ∧ 2 ≤ heads coins := by
  constructor
  · intro hfirst
    have hlength : coins.length = others := by simpa using hfirst.length
    have henough := hfirst.enough
    rw [blockOf_zero hlength] at henough
    exact ⟨hlength, henough⟩
  · rintro ⟨hlength, henough⟩
    refine ⟨by simpa using hlength, by simp, ?_⟩
    rwa [blockOf_zero hlength]

theorem firstEnough_append_succ_iff (hblock : block.length = others) {m : Nat} {coins : List Int} :
    FirstEnough others (m + 1) (block ++ coins) ↔
      heads block < 2 ∧ FirstEnough others m coins := by
  have hlength : (block ++ coins).length = (m + 1 + 1) * others ↔
      coins.length = (m + 1) * others := by
    rw [List.length_append, hblock, Nat.succ_mul (m + 1)]
    omega
  constructor
  · intro hfirst
    have hidle := hfirst.idle 0 (Nat.succ_pos m)
    have henough := hfirst.enough
    rw [blockOf_append_zero hblock] at hidle
    rw [blockOf_append_succ hblock] at henough
    refine ⟨hidle, hlength.mp hfirst.length, fun k hk => ?_, henough⟩
    have := hfirst.idle (k + 1) (Nat.succ_lt_succ hk)
    rwa [blockOf_append_succ hblock] at this
  · rintro ⟨hidle, hfirst⟩
    refine ⟨hlength.mpr hfirst.length, fun k hk => ?_, ?_⟩
    · cases k with
      | zero => rwa [blockOf_append_zero hblock]
      | succ k =>
        rw [blockOf_append_succ hblock]
        exact hfirst.idle k (Nat.lt_of_succ_lt_succ hk)
    · rw [blockOf_append_succ hblock]
      exact hfirst.enough

/-- A row of blocks is its first block with the others behind it. -/
theorem exists_block_append {m : Nat} {coins : List Int}
    (hcoins : coins.length = (m + 1) * others) :
    ∃ block rest, coins = block ++ rest ∧ block.length = others ∧ rest.length = m * others := by
  rw [Nat.succ_mul] at hcoins
  refine ⟨coins.take others, coins.drop others, (List.take_append_drop others coins).symm, ?_, ?_⟩
  · rw [List.length_take]
    omega
  · rw [List.length_drop]
    omega

/-- The coins up to the end of the first block with two heads, block by block. -/
theorem FirstEnough.exists_idle {m : Nat} {coins : List Int}
    (hfirst : FirstEnough others m coins) :
    ∃ idle : List (List Int), idle.length = m ∧
      (∀ block ∈ idle, block.length = others ∧ heads block ≤ 1) ∧
      coins = idle.flatten ++ blockOf others m coins := by
  induction m generalizing coins with
  | zero =>
    obtain ⟨hlength, -⟩ := firstEnough_zero_iff.mp hfirst
    exact ⟨[], rfl, by simp, by rw [blockOf_zero hlength, List.flatten_nil, List.nil_append]⟩
  | succ m ih =>
    obtain ⟨block, rest, rfl, hblock, -⟩ := exists_block_append hfirst.length
    obtain ⟨hfew, hrest⟩ := (firstEnough_append_succ_iff hblock).mp hfirst
    obtain ⟨idle, hlength, hidle, hcoins⟩ := ih hrest
    refine ⟨block :: idle, congrArg (· + 1) hlength, ?_, ?_⟩
    · exact List.forall_mem_cons.mpr ⟨⟨hblock, Nat.le_of_lt_succ hfew⟩, hidle⟩
    · rw [blockOf_append_succ hblock, List.flatten_cons, List.append_assoc, ← hcoins]

/-- If some block of a row of coins has two heads, then a first one has. -/
theorem exists_firstEnough {m : Nat} {coins : List Int} (hcoins : coins.length = (m + 1) * others)
    (henough : 2 ≤ heads (blockOf others m coins)) :
    ∃ k first rest, coins = first ++ rest ∧ FirstEnough others k first := by
  induction m generalizing coins with
  | zero =>
    have hlength : coins.length = others := by simpa using hcoins
    rw [blockOf_zero hlength] at henough
    exact ⟨0, coins, [], (List.append_nil coins).symm, firstEnough_zero_iff.mpr ⟨hlength, henough⟩⟩
  | succ m ih =>
    obtain ⟨block, rest, rfl, hblock, hrest⟩ := exists_block_append hcoins
    rcases Nat.lt_or_ge (heads block) 2 with hfew | htwo
    · rw [blockOf_append_succ hblock] at henough
      obtain ⟨k, first, behind, rfl, hfirst⟩ := ih hrest henough
      refine ⟨k + 1, block ++ first, behind, (List.append_assoc _ _ _).symm, ?_⟩
      exact (firstEnough_append_succ_iff hblock).mpr ⟨hfew, hfirst⟩
    · exact ⟨0, block, rest, rfl, firstEnough_zero_iff.mpr ⟨hblock, htwo⟩⟩

end

/-! ## The search -/

section

variable (h : Host σ ε α β V) (index : Int) {others : Nat}

theorem isEnough_selectedBy_iff (coins : List Int) :
    isEnough (selectedBy index coins) = true ↔ 2 ≤ heads coins := by
  rw [isEnough, decide_eq_true_iff, length_selectedBy]

/-- A search within a limit is answered with what the first block with two heads selects, if that
block is below the limit, and it throws the coins up to the end of that block. -/
theorem drawCompanions_eq_ok_iff {limit : Nat} {w w' : σ} {companions : List Nat} :
    (drawCompanions h index others limit).outcome w = (.ok companions, w') ↔
      ∃ m coins, m < limit ∧ FirstEnough others m coins ∧ h.Throws w coins w' ∧
        companions = selectedBy index (blockOf others m coins) := by
  induction limit generalizing w with
  | zero => simp [drawCompanions]
  | succ limit ih =>
    rw [drawCompanions, Draw.outcome_bind_eq_ok_iff]
    simp only [Draw.outcome_inSweep_eq_ok_iff, Host.outcome_times_coin_eq_ok_iff]
    constructor
    · rintro ⟨block, w₁, ⟨hblock, hthrows⟩, hrest⟩
      split at hrest
      · rename_i henough
        obtain ⟨rfl, rfl⟩ : selectedBy index block = companions ∧ w₁ = w' := by simpa using hrest
        refine ⟨0, block, Nat.succ_pos limit, ?_, hthrows, by rw [blockOf_zero hblock]⟩
        exact firstEnough_zero_iff.mpr ⟨hblock, (isEnough_selectedBy_iff index block).mp henough⟩
      · rename_i hfew
        rw [isEnough_selectedBy_iff, Nat.not_le] at hfew
        obtain ⟨m, coins, hm, hfirst, hcoins, rfl⟩ := ih.mp hrest
        refine ⟨m + 1, block ++ coins, Nat.succ_lt_succ hm, ?_, ?_, ?_⟩
        · exact (firstEnough_append_succ_iff hblock).mpr ⟨hfew, hfirst⟩
        · exact Host.throws_append_iff.mpr ⟨w₁, hthrows, hcoins⟩
        · rw [blockOf_append_succ hblock]
    · rintro ⟨m, coins, hm, hfirst, hthrows, rfl⟩
      cases m with
      | zero =>
        obtain ⟨hlength, henough⟩ := firstEnough_zero_iff.mp hfirst
        refine ⟨coins, w', ⟨hlength, hthrows⟩, ?_⟩
        rw [if_pos ((isEnough_selectedBy_iff index coins).mpr henough), blockOf_zero hlength,
          Draw.outcome_pure]
      | succ m =>
        obtain ⟨block, rest, rfl, hblock, -⟩ := exists_block_append hfirst.length
        obtain ⟨hfew, hrest⟩ := (firstEnough_append_succ_iff hblock).mp hfirst
        obtain ⟨w₁, hthrows₁, hthrows₂⟩ := Host.throws_append_iff.mp hthrows
        refine ⟨block, w₁, ⟨hblock, hthrows₁⟩, ?_⟩
        rw [if_neg]
        · refine ih.mpr ⟨m, rest, Nat.lt_of_succ_lt_succ hm, hrest, hthrows₂, ?_⟩
          rw [blockOf_append_succ hblock]
        · rw [isEnough_selectedBy_iff]
          omega

/-- A search is answered within some limit exactly if some block of the coins has two heads. -/
theorem exists_drawCompanions_iff {w : σ} :
    (∃ limit companions w',
      (drawCompanions h index others limit).outcome w = (.ok companions, w')) ↔
      ∃ m coins w', coins.length = (m + 1) * others ∧ h.Throws w coins w' ∧
        2 ≤ heads (blockOf others m coins) := by
  simp only [drawCompanions_eq_ok_iff]
  constructor
  · rintro ⟨limit, companions, w', m, coins, -, hfirst, hthrows, -⟩
    exact ⟨m, coins, w', hfirst.length, hthrows, hfirst.enough⟩
  · rintro ⟨m, coins, w', hlength, hthrows, henough⟩
    obtain ⟨k, first, rest, rfl, hfirst⟩ := exists_firstEnough hlength henough
    obtain ⟨w₁, hthrows₁, -⟩ := Host.throws_append_iff.mp hthrows
    exact ⟨k + 1, _, w₁, k, first, Nat.lt_succ_self k, hfirst, hthrows₁, rfl⟩

end

/-! ## What a block selects -/

section

variable (index : Int)

theorem skipOver_injective : Function.Injective (skipOver index) :=
  (strictMono_nat_of_lt_succ fun k => skipOver_lt (Nat.lt_succ_self k)).injective

/-- A selected walker is the image of a place whose coin shows heads. -/
theorem mem_selectedBy_iff_getElem? {block : List Int} {i : Nat} :
    i ∈ selectedBy index block ↔
      ∃ k, (block.map (· != 0))[k]? = some true ∧ skipOver index k = i := by
  rw [mem_selectedBy]
  simp only [List.getElem?_map, Option.map_eq_some_iff, bne_iff_ne]
  constructor
  · rintro ⟨k, c, hc, hne, hk⟩
    exact ⟨k, ⟨c, hc, hne⟩, hk⟩
  · rintro ⟨k, ⟨c, hc, hne⟩, hk⟩
    exact ⟨k, c, hc, hne, hk⟩

/-- Whether a walker is selected is up to the coin at its place. -/
theorem skipOver_mem_selectedBy_iff (block : List Int) (k : Nat) :
    skipOver index k ∈ selectedBy index block ↔ (block.map (· != 0))[k]? = some true := by
  rw [mem_selectedBy_iff_getElem?]
  constructor
  · rintro ⟨j, hj, hjk⟩
    rwa [← skipOver_injective index hjk]
  · intro hk
    exact ⟨k, hk, rfl⟩

/-- Blocks select the same walkers exactly if the same of their coins are zero. -/
theorem selectedBy_eq_iff {block block' : List Int} (hlength : block.length = block'.length) :
    selectedBy index block = selectedBy index block' ↔
      block.map (· != 0) = block'.map (· != 0) := by
  constructor
  · intro hselected
    refine List.ext_getElem (by simpa using hlength) fun k hk hk' => ?_
    have hmem := skipOver_mem_selectedBy_iff index block k
    rw [hselected, skipOver_mem_selectedBy_iff, List.getElem?_eq_getElem hk,
      List.getElem?_eq_getElem hk', Option.some_inj, Option.some_inj] at hmem
    exact Bool.eq_iff_iff.mpr hmem.symm
  · intro hcoins
    refine (pairwise_selectedBy _ _).eq_of_mem_iff (pairwise_selectedBy _ _) fun i => ?_
    rw [mem_selectedBy_iff_getElem?, mem_selectedBy_iff_getElem?, hcoins]

/-- The block of coins that shows heads at the places of the walkers with a property selects
those of them that have a place. -/
theorem mem_selectedBy_range_iff {others : Nat} {p : Nat → Prop} [DecidablePred p] {i : Nat} :
    i ∈ selectedBy index ((List.range others).map fun k => if p (skipOver index k) then 1 else 0) ↔
      p i ∧ ∃ k < others, skipOver index k = i := by
  rw [mem_selectedBy_iff_getElem?]
  constructor
  · rintro ⟨k, hk, rfl⟩
    obtain ⟨hlt, hcoin⟩ := List.getElem?_eq_some_iff.mp hk
    simp only [List.length_map, List.length_range] at hlt
    refine ⟨?_, k, hlt, rfl⟩
    by_contra hnot
    simp [hnot] at hcoin
  · rintro ⟨hp, k, hk, rfl⟩
    exact ⟨k, by simp [hk, hp], rfl⟩

/-- At least two of `n` walkers in ascending order, all of them other than the one with a given
index. -/
structure IsChoice (n : Nat) (companions : List Nat) : Prop where
  ascending : companions.Pairwise (· < ·)
  below : ∀ i ∈ companions, i < n
  others : ∀ i ∈ companions, (i : Int) ≠ index
  enough : 2 ≤ companions.length

/-- The blocks of so many fair coins with two heads. -/
def richBlocks (others : Nat) : Set (List Int) :=
  {block | block.length = others ∧ (∀ c ∈ block, c = 0 ∨ c = 1) ∧ 2 ≤ heads block}

/-- The sets of at least two of `n` walkers without the one with a given index. -/
def companionships (n : Nat) : Set (Finset Nat) :=
  {S | (∀ i ∈ S, i < n ∧ (i : Int) ≠ index) ∧ 2 ≤ S.card}

theorem isChoice_selectedBy {others : Nat} {block : List Int} (hblock : block.length = others)
    (henough : 2 ≤ heads block) : IsChoice index (others + 1) (selectedBy index block) := by
  refine ⟨pairwise_selectedBy index block, fun i hi => ?_, fun i hi => ?_, ?_⟩
  · obtain ⟨k, c, hk, -, rfl⟩ := mem_selectedBy.mp hi
    have hlt : k < others := hblock ▸ (List.getElem?_eq_some_iff.mp hk).1
    exact Nat.lt_succ_of_le (Nat.le_trans (skipOver_le index k) hlt)
  · obtain ⟨k, c, -, -, rfl⟩ := mem_selectedBy.mp hi
    exact skipOver_ne index k
  · rwa [length_selectedBy]

theorem card_toFinset_selectedBy (block : List Int) :
    (selectedBy index block).toFinset.card = heads block := by
  have hnodup : (selectedBy index block).Nodup :=
    (pairwise_selectedBy index block).imp fun hlt => Nat.ne_of_lt hlt
  rw [List.toFinset_card_of_nodup hnodup, length_selectedBy]

/-- Fair coins are told apart by which of them are zero. -/
theorem map_ite_of_fair {block : List Int} (hfair : ∀ c ∈ block, c = 0 ∨ c = 1) :
    (block.map (· != 0)).map (fun b => if b then (1 : Int) else 0) = block := by
  rw [List.map_map]
  refine (List.map_congr_left fun c hc => ?_).trans (List.map_id block)
  rcases hfair c hc with rfl | rfl <;> rfl

theorem toFinset_selectedBy_injOn (others : Nat) :
    Set.InjOn (fun block => (selectedBy index block).toFinset) (richBlocks others) := by
  rintro block ⟨hblock, hfair, -⟩ block' ⟨hblock', hfair', -⟩ hselected
  have hlists : selectedBy index block = selectedBy index block' := by
    refine (pairwise_selectedBy _ _).eq_of_mem_iff (pairwise_selectedBy _ _) fun i => ?_
    rw [← List.mem_toFinset, ← List.mem_toFinset]
    exact Iff.of_eq (congrArg (i ∈ ·) hselected)
  have hcoins := (selectedBy_eq_iff index (hblock.trans hblock'.symm)).mp hlists
  rw [← map_ite_of_fair hfair, hcoins, map_ite_of_fair hfair']

theorem toFinset_selectedBy_surjOn {n : Nat} (hlow : 0 ≤ index) (hhigh : index < n) :
    Set.SurjOn (fun block => (selectedBy index block).toFinset) (richBlocks (n - 1))
      (companionships index n) := by
  obtain ⟨place, rfl⟩ := Int.eq_ofNat_of_zero_le hlow
  rintro S ⟨hothers, hcard⟩
  have hplaces (i : Nat) (hi : i ∈ S) : ∃ k < n - 1, skipOver place k = i := by
    obtain ⟨hlt, hne⟩ := hothers i hi
    exact exists_skipOver hlt (Int.ofNat_lt.mp hhigh) fun h => hne (congrArg Nat.cast h)
  have hselected : (selectedBy place ((List.range (n - 1)).map fun k =>
      if skipOver place k ∈ S then 1 else 0)).toFinset = S := by
    ext i
    rw [List.mem_toFinset, mem_selectedBy_range_iff]
    exact and_iff_left_of_imp (hplaces i)
  refine ⟨_, ⟨by simp, fun c hc => ?_, ?_⟩, hselected⟩
  · obtain ⟨k, -, rfl⟩ := List.mem_map.mp hc
    split <;> simp
  · rw [← card_toFinset_selectedBy place, hselected]
    exact hcard

/-- The blocks with two heads are the sets of companions. -/
theorem toFinset_selectedBy_bijOn {n : Nat} (hlow : 0 ≤ index) (hhigh : index < n) :
    Set.BijOn (fun block => (selectedBy index block).toFinset) (richBlocks (n - 1))
      (companionships index n) := by
  refine ⟨?_, toFinset_selectedBy_injOn index (n - 1), toFinset_selectedBy_surjOn index hlow hhigh⟩
  rintro block ⟨hblock, -, henough⟩
  have hchoice := isChoice_selectedBy index hblock henough
  rw [Nat.sub_add_cancel (by omega)] at hchoice
  refine ⟨fun i hi => ?_, ?_⟩
  · have hmem := List.mem_toFinset.mp hi
    exact ⟨hchoice.below i hmem, hchoice.others i hmem⟩
  · rw [card_toFinset_selectedBy]
    exact henough

end

end

/-! ## Sets of walkers -/

section

variable {N : Nat}

/-- The members of a set of walkers in ascending order. -/
def membersOf (S : Finset (Fin N)) : List (Fin N) := (List.finRange N).filter (· ∈ S)

/-- The block of coins that selects a set of companions of the walker `i`. -/
def blockFor (i : Fin N) (S : Finset (Fin N)) : List Int :=
  (List.range (N - 1)).map fun k => if ∃ j ∈ S, j.val = skipOver i k then 1 else 0

theorem mem_membersOf {S : Finset (Fin N)} {j : Fin N} : j ∈ membersOf S ↔ j ∈ S := by
  simp [membersOf]

theorem nodup_membersOf (S : Finset (Fin N)) : (membersOf S).Nodup :=
  (List.nodup_finRange N).filter _

theorem toFinset_membersOf (S : Finset (Fin N)) : (membersOf S).toFinset = S := by
  ext j
  rw [List.mem_toFinset, mem_membersOf]

theorem length_membersOf (S : Finset (Fin N)) : (membersOf S).length = S.card := by
  rw [← List.toFinset_card_of_nodup (nodup_membersOf S), toFinset_membersOf]

theorem pairwise_membersOf (S : Finset (Fin N)) :
    ((membersOf S).map Fin.val).Pairwise (· < ·) := by
  apply List.pairwise_map.mpr
  exact (List.pairwise_lt_finRange N).filter _

theorem length_blockFor (i : Fin N) (S : Finset (Fin N)) : (blockFor i S).length = N - 1 := by
  simp [blockFor]

/-- The block of coins for a set of companions selects these and no other walkers. -/
theorem selectedBy_blockFor {i : Fin N} {S : Finset (Fin N)} (hi : i ∉ S) :
    selectedBy i (blockFor i S) = (membersOf S).map Fin.val := by
  refine (pairwise_selectedBy _ _).eq_of_mem_iff (pairwise_membersOf S) fun j => ?_
  rw [blockFor, mem_selectedBy_range_iff (p := fun k => ∃ j ∈ S, j.val = k), List.mem_map]
  constructor
  · rintro ⟨⟨j, hj, rfl⟩, -⟩
    exact ⟨j, mem_membersOf.mpr hj, rfl⟩
  · rintro ⟨j, hj, rfl⟩
    have hmem := mem_membersOf.mp hj
    have hne : j.val ≠ i.val := fun h => hi (Fin.ext h ▸ hmem)
    exact ⟨⟨j, hmem, rfl⟩, exists_skipOver j.isLt i.isLt hne⟩

theorem heads_blockFor {i : Fin N} {S : Finset (Fin N)} (hi : i ∉ S) :
    heads (blockFor i S) = S.card := by
  rw [← length_selectedBy i, selectedBy_blockFor hi, List.length_map, length_membersOf]

end

/-! ## Searches that are asked for -/

section

variable {σ α β V : Type} (h : Host σ Fault α β V) (index : Int) {n : Nat}

/-- Companions among enough walkers are searched for as a sweep does. -/
theorem outcome_companionsOf_eq_ok_iff (hn : minWalkers ≤ n) {limit : Nat} {w w' : σ}
    {companions : List Nat} :
    (companionsOf h limit (.integer index) (.integer n)).outcome w = (.ok companions, w') ↔
      (drawCompanions h index (n - 1) limit).outcome w = (.ok companions, w') := by
  have hindex : indexOf? n (.integer index) = some index := rfl
  rw [companionsOf, companionCount_of_le hn, Draw.outcome_bind, Draw.outcome_ofExcept]
  simp only [hindex, Draw.outcome_ofOutcome]
  rcases (drawCompanions h index (n - 1) limit).outcome w with ⟨_ | _, _⟩ <;>
    simp [Except.mapError]

/-- **A search for companions is the exact rejection sampler.**  Let companions of an index,
which may be any integer, be searched for among at least three walkers, `n` of them.

A search within a limit is answered exactly if the host throws coins of which one of the first
`limit` blocks has two heads.  The answer is then what the first such block `m`, counted from zero,
selects, whatever the blocks before it were, and the coins that were thrown are the
`(m + 1) * (n - 1)` coins up to its end.  Some limit is enough exactly if the host throws coins of
which some block has two heads.

An answer is in ascending order and consists of at least two of the `n` walkers, never the one
with the index.  Two blocks select the same walkers only if the same of their coins are zero; and
for the index of one of the walkers the blocks of fair coins with two heads stand for the sets of
at least two of the others, one for each. -/
theorem companionsOf_exact_rejection (hn : minWalkers ≤ n) :
    (∀ (limit : Nat) (w w' : σ) (companions : List Nat),
      (companionsOf h limit (.integer index) (.integer n)).outcome w = (.ok companions, w') ↔
        ∃ m coins, m < limit ∧ FirstEnough (n - 1) m coins ∧ h.Throws w coins w' ∧
          companions = selectedBy index (blockOf (n - 1) m coins)) ∧
    (∀ w : σ,
      (∃ limit companions w',
        (companionsOf h limit (.integer index) (.integer n)).outcome w = (.ok companions, w')) ↔
        ∃ m coins w', coins.length = (m + 1) * (n - 1) ∧ h.Throws w coins w' ∧
          2 ≤ heads (blockOf (n - 1) m coins)) ∧
    (∀ (limit : Nat) (w w' : σ) (companions : List Nat),
      (companionsOf h limit (.integer index) (.integer n)).outcome w = (.ok companions, w') →
        IsChoice index n companions) ∧
    (∀ block block' : List Int, block.length = n - 1 → block'.length = n - 1 →
      (selectedBy index block = selectedBy index block' ↔
        block.map (· != 0) = block'.map (· != 0))) ∧
    (0 ≤ index → index < n →
      Set.BijOn (fun block => (selectedBy index block).toFinset) (richBlocks (n - 1))
        (companionships index n)) := by
  have hpositive : n - 1 + 1 = n :=
    Nat.sub_add_cancel (Nat.le_trans (by decide : 1 ≤ minWalkers) hn)
  simp only [outcome_companionsOf_eq_ok_iff h index hn]
  refine ⟨?_, ?_, ?_, ?_, ?_⟩
  · intro limit w w' companions
    exact drawCompanions_eq_ok_iff h index
  · intro w
    exact exists_drawCompanions_iff h index
  · intro limit w w' companions hanswer
    obtain ⟨m, coins, -, hfirst, -, rfl⟩ := (drawCompanions_eq_ok_iff h index).mp hanswer
    have hchoice := isChoice_selectedBy index (length_blockOf hfirst.length) hfirst.enough
    rwa [hpositive] at hchoice
  · intro block block' hblock hblock'
    exact selectedBy_eq_iff index (hblock.trans hblock'.symm)
  · intro hlow hhigh
    exact toFinset_selectedBy_bijOn index hlow hhigh

end

/-- A host whose coins are written down, and whose state is the number of coins thrown. -/
def Host.ofStream {ε : Type} (stream : Nat → Int) : Host Nat ε Unit Unit Unit where
  logDensity _ := pure ()
  coin := .ofOutcome fun k => (.ok (stream k), k + 1)
  normal := pure ()
  uniform := pure ()
  noteUndefined _ k := k

/-- Companions of the middle one of three walkers: tails and heads are not enough, two heads are,
and the fifth coin is not thrown. -/
theorem companionsOf_exact_rejection_middle :
    let h : Host Nat Fault Unit Unit Unit := .ofStream fun k => if k = 0 then 0 else 1
    minWalkers ≤ 3 ∧
      (companionsOf h 2 (.integer 1) (.integer 3)).outcome 0 = (.ok [0, 2], 4) ∧
      IsChoice 1 3 [0, 2] ∧
      Set.BijOn (fun block => (selectedBy 1 block).toFinset) (richBlocks 2)
        (companionships 1 3) := by
  intro h
  have hn : minWalkers ≤ 3 := Nat.le_refl 3
  obtain ⟨hanswer, -, hchoice, -, hbij⟩ := companionsOf_exact_rejection h 1 hn
  have hthrows : h.Throws 0 [0, 1, 1, 1] 4 := .cons rfl (.cons rfl (.cons rfl (.cons rfl (.nil 4))))
  have hfirst : FirstEnough 2 1 [0, 1, 1, 1] := ⟨by decide, by decide, by decide⟩
  have hsearch : (companionsOf h 2 (.integer 1) (.integer 3)).outcome 0 = (.ok [0, 2], 4) :=
    (hanswer 2 0 4 [0, 2]).mpr ⟨1, [0, 1, 1, 1], Nat.lt_succ_self 1, hfirst, hthrows, rfl⟩
  exact ⟨hn, hsearch, hchoice 2 0 4 [0, 2] hsearch, hbij Int.one_nonneg (by decide)⟩

end EnsembleSampling
