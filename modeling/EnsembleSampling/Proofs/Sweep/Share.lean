import EnsembleSampling.Proofs.Position.Exact
import EnsembleSampling.Proofs.Scale.Laws
import EnsembleSampling.Proofs.Sweep.Exchange
import EnsembleSampling.Proofs.Tape
import Mathlib.Data.List.Sort
set_option autoImplicit false

/-!
# What one walker draws

A share is what one of `N` walkers draws in a sweep: blocks of coins of which only the last
selects enough companions, a deviate for each of these, and a uniform.  Where the log-density
is a function of the position, nothing else decides what becomes of the walker:
`Share.walker` is one Metropolis step, from the position of the walker to a position that
its own share proposes.

Two lemmas tie shares to the moves of the sampler.  A move that succeeds has taken one share
from its source and made that step (`spells_plainMove_share`), and from a tape that begins with
a share a move takes this share and succeeds (`outcome_plainMove_share`).
-/

namespace EnsembleSampling

variable {σ ε α β V : Type} {N : Nat}

/-! ## Metropolis steps -/

/-- A step from `x` towards `y` with a uniform `u`.  A log-density of `y` that is no number
counts as infinitely large; the step is turned down if the uniform exceeds the probability
that the ratio of the densities stands for. -/
def metropolis [LogScale β] (f : V → β) (x y : V) (u : β) : Walker V β :=
  let old := f x
  let new := if LogScale.isUndefined (f y) then LogScale.infinity else f y
  let p := probabilityOfRatio (LogScale.exp (new - old))
  if p < u then ⟨x, old, p⟩ else ⟨y, new, p⟩

/-- A move whose log-densities are those of its positions is settled by a Metropolis step. -/
theorem Move.settle_eq_metropolis [LogScale β] [LogScale.Ordered β] (f : V → β) (x y : V) (u : β) :
    (⟨x, f x, y, regarded (f y)⟩ : Move V β).settle u = metropolis f x y u := by
  have hprobability : (⟨x, f x, y, regarded (f y)⟩ : Move V β).probability =
      probabilityOfRatio (LogScale.exp (regarded (f y) - f x)) :=
    acceptance_eq_probabilityOfRatio _ _
  rw [settle, hprobability]
  rfl

/-! ## Shares -/

/-- What a walker draws in a sweep. -/
structure Share (α β : Type) where
  /-- Blocks of coins that select too few companions. -/
  idle : List (List Int)
  /-- The block of coins that selects the companions. -/
  coins : List Int
  deviates : List α
  uniform : β

/-- The draws among the answers of an exchange. -/
def Exchange.share (e : Exchange α β) : Share α β := ⟨e.idle, e.coins, e.deviates, e.uniform⟩

namespace Share

/-- A share of a walker among so many others. -/
structure Valid (others : Nat) (s : Share α β) : Prop where
  idle : ∀ block ∈ s.idle, block.length = others ∧ heads block ≤ 1
  coins : s.coins.length = others
  enough : 2 ≤ heads s.coins
  deviates : s.deviates.length = heads s.coins

/-- The companions of the walker `i`, in ascending order. -/
def companions (i : Fin N) (s : Share α β) : List (Fin N) :=
  (List.finRange N).filter fun j => j.val ∈ selectedBy i s.coins

/-- Where the walker `i` of walkers at `X` is proposed to go: from its position, the offset of
each companion from the mean of the companions is added, times the deviate of this companion. -/
def proposed [LinearOps α V] (X : Fin N → V) (i : Fin N) (s : Share α β) : V :=
  let center : V := LinearOps.mean ((s.companions i).map X)
  ((s.companions i).zip s.deviates).foldl
    (fun y (j, z) => LinearOps.add y (LinearOps.scale z (LinearOps.sub (X j) center))) (X i)

/-- What becomes of the walker `i` of walkers at `X`. -/
def walker [LinearOps α V] [LogScale β] (f : V → β) (X : Fin N → V) (i : Fin N)
    (s : Share α β) : Walker V β :=
  metropolis f (X i) (s.proposed X i) s.uniform

/-- The draws of a share, with the log-densities that are asked for in between. -/
def events [LinearOps α V] (f : V → β) (X : Fin N → V) (i : Fin N) (s : Share α β) :
    List (Event α β V) :=
  .density (X i) (some (f (X i))) :: ((s.idle.flatten ++ s.coins).map fun c => .coin (some c)) ++
    (s.deviates.map fun z => .normal (some z)) ++
    [.density (s.proposed X i) (some (f (s.proposed X i))), .uniform (some s.uniform)]

/-- A share in the queues of a tape. -/
def tape (s : Share α β) : Tape α β := ⟨s.idle.flatten ++ s.coins, s.deviates, [s.uniform]⟩

/-! ## Companions -/

/-- A block of coins selects the companions and no other walkers. -/
theorem map_val_companions {s : Share α β} (hs : s.coins.length = N - 1) (i : Fin N) :
    (s.companions i).map Fin.val = selectedBy i s.coins := by
  have hcompanions : ((s.companions i).map Fin.val).Pairwise (· < ·) := by
    apply List.pairwise_map.mpr
    exact (List.pairwise_lt_finRange N).filter _
  apply hcompanions.eq_of_mem_iff (pairwise_selectedBy _ _)
  intro j
  constructor
  · intro hj
    obtain ⟨k, hk, rfl⟩ := List.mem_map.mp hj
    exact of_decide_eq_true (List.mem_filter.mp hk).2
  · intro hj
    obtain ⟨k, c, hk, -, hplace⟩ := mem_selectedBy.mp hj
    have hk : k < s.coins.length := (List.getElem?_eq_some_iff.mp hk).1
    have hle := skipOver_le i k
    have hlt : j < N := by omega
    refine List.mem_map.mpr ⟨⟨j, hlt⟩, ?_, rfl⟩
    exact List.mem_filter.mpr ⟨List.mem_finRange _, decide_eq_true hj⟩

/-- A walker is no companion of itself. -/
theorem notMem_companions (i : Fin N) (s : Share α β) : i ∉ s.companions i := by
  intro hi
  have hselected : i.val ∈ selectedBy i s.coins := of_decide_eq_true (List.mem_filter.mp hi).2
  obtain ⟨k, c, -, -, hk⟩ := mem_selectedBy.mp hselected
  apply skipOver_ne i k
  rw [hk]

/-- There are at least two companions, and a deviate for each of them. -/
theorem Valid.length_companions {s : Share α β} (hs : s.Valid (N - 1)) (i : Fin N) :
    2 ≤ (s.companions i).length ∧ s.deviates.length = (s.companions i).length := by
  have hlength : (s.companions i).length = heads s.coins := by
    rw [← length_selectedBy i, ← map_val_companions hs.coins, List.length_map]
  rw [hlength]
  exact ⟨hs.enough, hs.deviates⟩

/-- The members of a family at given places. -/
theorem filterMap_getElem?_ofFn (X : Fin N → V) (places : List (Fin N)) :
    (places.map Fin.val).filterMap ((List.ofFn X)[·]?) = places.map X := by
  rw [List.filterMap_map, ← List.filterMap_eq_map]
  congr 1
  funext j
  simp

section

variable [LinearOps α V] (X : Fin N → V) (i : Fin N)

/-- The proposal of a share is the proposal with the positions of its companions. -/
theorem proposed_eq_proposal (s : Share α β) :
    s.proposed X i = proposal (X i) ((s.companions i).map X) s.deviates := by
  rw [proposal, List.zip_map_left, List.foldl_map]
  rfl

/-- The companions of a share are those that its last block of coins selects. -/
theorem proposal_eq_proposed {s : Share α β} (hs : s.coins.length = N - 1) :
    proposal (X i) ((selectedBy i s.coins).filterMap ((List.ofFn X)[·]?)) s.deviates =
      s.proposed X i := by
  rw [← map_val_companions hs, filterMap_getElem?_ofFn, proposed_eq_proposal]

end

/-- In exact arithmetic the proposal is the position and the sum of the multiples of the
offsets. -/
theorem proposed_eq_add_sum [Field α] {D : Nat} (X : Fin N → Fin D → α) (i : Fin N)
    (s : Share α β) :
    s.proposed X i = X i + (((s.companions i).zip s.deviates).map fun (j, z) =>
      z • (X j - ((s.companions i).length : α)⁻¹ • ((s.companions i).map X).sum)).sum := by
  have hmean : (LinearOps.mean ((s.companions i).map X) : Fin D → α) =
      ((s.companions i).length : α)⁻¹ • ((s.companions i).map X).sum := by
    rw [← List.length_map (f := X)]
    rfl
  rw [← hmean, proposed, ← List.foldl_map
    (f := fun pair : Fin N × α => (X pair.1, pair.2))
    (g := fun y (pair : (Fin D → α) × α) => LinearOps.add y (LinearOps.scale pair.2
      (LinearOps.sub pair.1 (LinearOps.mean ((s.companions i).map X)))))]
  rw [foldl_offsets_eq, List.map_map]
  rfl

end Share

/-! ## Moves that succeed -/

section

variable [LinearOps α V] [LogScale β] {f : V → β} {X : Fin N → V} {i : Fin N}

omit [LogScale β] in
theorem Exchange.proposed_eq_share {e : Exchange α β} (he : e.Valid (N - 1)) :
    e.proposed (List.ofFn X) i (X i) = e.share.proposed X i :=
  Share.proposal_eq_proposed X i (s := e.share) he.coins

/-- The draws of an exchange whose log-densities are those of its positions say where the
walker goes. -/
theorem Exchange.walker_eq_share [LogScale.Ordered β] {e : Exchange α β} (he : e.Valid (N - 1))
    (hold : e.old = f (X i)) (hnew : e.new = f (e.proposed (List.ofFn X) i (X i))) :
    e.walker (List.ofFn X) i (X i) = e.share.walker f X i := by
  rw [walker, hold, hnew, Move.settle_eq_metropolis, proposed_eq_share he]
  rfl

omit [LogScale β] in
theorem Exchange.events_eq_share {e : Exchange α β} (he : e.Valid (N - 1))
    (hold : e.old = f (X i)) (hnew : e.new = f (e.proposed (List.ofFn X) i (X i))) :
    e.events (List.ofFn X) i (X i) = e.share.events f X i := by
  rw [events, hold, hnew, proposed_eq_share he]
  rfl

variable [Inhabited α] [LogScale.Ordered β] {h : Host σ ε α β V}

/-- A move with a log-density that is a function of the position spells a share, which says
what becomes of the walker. -/
theorem spells_plainMove_share (hdensity : ∀ y, Draw.Always (fun l => l = f y) (h.logDensity y))
    (limit : Nat) (hN : minWalkers ≤ N) :
    Draw.Spells
      (fun a t => ∃ s : Share α β, s.Valid (N - 1) ∧ a = s.walker f X i ∧ t = s.events f X i)
      (plainMove h.recorded limit (List.ofFn X) i (X i)) := by
  have hcurrent : minWalkers ≤ (List.ofFn X).length := by rwa [List.length_ofFn]
  have hspells :=
    spells_plainMove_of_density h limit hdensity (fun y => ⟨f y, rfl⟩) hcurrent i (X i)
  rw [List.length_ofFn] at hspells
  apply hspells.mono
  rintro a t ⟨e, hvalid, hold, hnew, rfl, rfl⟩
  refine ⟨e.share, ⟨hvalid.idle, hvalid.coins, hvalid.enough, hvalid.deviates⟩, ?_, ?_⟩
  · exact Exchange.walker_eq_share hvalid hold hnew
  · exact Exchange.events_eq_share hvalid hold hnew

end

/-! ## Moves from a tape -/

section

variable {f : V → β}

/-- A search for companions takes blocks of coins off a tape up to the first that selects
enough of them. -/
theorem outcome_drawCompanions_tape (index : Int) {others : Nat} {idle : List (List Int)}
    (hidle : ∀ block ∈ idle, block.length = others ∧ heads block ≤ 1) {coins : List Int}
    (hcoins : coins.length = others) (henough : 2 ≤ heads coins) {limit : Nat}
    (hlimit : idle.length < limit) (cs : List Int) (zs : List α) (us : List β) :
    (drawCompanions (Tape.host f) index others limit).outcome
        ⟨(idle.flatten ++ coins) ++ cs, zs, us⟩ =
      (.ok (selectedBy index coins), ⟨cs, zs, us⟩) := by
  induction idle generalizing limit with
  | nil =>
    obtain ⟨limit, rfl⟩ : ∃ n, limit = n + 1 := ⟨limit - 1, by omega⟩
    have hdraw := Tape.outcome_times_coin (f := f) coins cs zs us
    rw [hcoins] at hdraw
    have hselects : isEnough (selectedBy index coins) = true := by
      apply decide_eq_true
      rwa [length_selectedBy]
    rw [List.flatten_nil, List.nil_append, drawCompanions,
      Draw.outcome_bind_of_ok (Draw.outcome_inSweep_of_ok hdraw)]
    simp only [hselects, if_true]
    rfl
  | cons block idle ih =>
    obtain ⟨limit, rfl⟩ : ∃ n, limit = n + 1 := ⟨limit - 1, by omega⟩
    rw [List.forall_mem_cons] at hidle
    obtain ⟨⟨hlength, hheads⟩, hidle⟩ := hidle
    have hdraw := Tape.outcome_times_coin (f := f) block ((idle.flatten ++ coins) ++ cs) zs us
    rw [hlength] at hdraw
    have hselects : isEnough (selectedBy index block) = false := by
      apply decide_eq_false
      rw [length_selectedBy]
      omega
    have htape : ((block :: idle).flatten ++ coins) ++ cs =
        block ++ ((idle.flatten ++ coins) ++ cs) := by
      simp
    rw [htape, drawCompanions, Draw.outcome_bind_of_ok (Draw.outcome_inSweep_of_ok hdraw)]
    simp only [hselects]
    exact ih hidle (by simpa using hlimit)

variable [LinearOps α V] [LogScale β] [LogScale.Ordered β] {X : Fin N → V} {i : Fin N}

/-- A move that finds a share on its tape makes the step of this share. -/
theorem outcome_plainMove_share {s : Share α β} (hs : s.Valid (N - 1)) {limit : Nat}
    (hlimit : s.idle.length < limit) (rest : Tape α β) :
    (plainMove (Tape.host f) limit (List.ofFn X) i (X i)).outcome (s.tape.append rest) =
      (.ok (s.walker f X i), rest) := by
  have happend : s.tape.append rest = ⟨(s.idle.flatten ++ s.coins) ++ rest.coins,
      s.deviates ++ rest.normals, s.uniform :: rest.uniforms⟩ := rfl
  have hdensity (y : V) (w : Tape α β) :
      ((Tape.host f).logDensity y).inSweep.outcome w = (.ok (f y), w) := rfl
  have hcompanions := outcome_drawCompanions_tape (f := f) i hs.idle hs.coins hs.enough hlimit
    rest.coins (s.deviates ++ rest.normals) (s.uniform :: rest.uniforms)
  have hdeviates := Tape.outcome_times_normal (f := f) rest.coins s.deviates rest.normals
    (s.uniform :: rest.uniforms)
  rw [hs.deviates, ← length_selectedBy i] at hdeviates
  have hnote (y : V) (w : Tape α β) :
      (noteIfUndefined (Tape.host f) i (f y)).outcome w = (.ok (), w) := by
    unfold noteIfUndefined
    split <;> rfl
  have huniform : (Tape.host f).uniform.inSweep.outcome
      ⟨rest.coins, rest.normals, s.uniform :: rest.uniforms⟩ = (.ok s.uniform, rest) := rfl
  rw [plainMove, happend, List.length_ofFn, Draw.outcome_bind_of_ok (hdensity _ _),
    Draw.outcome_bind_of_ok hcompanions,
    Draw.outcome_bind_of_ok (Draw.outcome_inSweep_of_ok hdeviates),
    Draw.outcome_bind_of_ok (hdensity _ _), Draw.outcome_bind_of_ok (hnote _ _),
    Draw.outcome_bind_of_ok huniform, Share.proposal_eq_proposed X i hs.coins,
    Move.settle_eq_metropolis]
  rfl

end

end EnsembleSampling
