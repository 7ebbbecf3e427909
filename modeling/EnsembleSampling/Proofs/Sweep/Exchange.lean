import EnsembleSampling.Proofs.Spelling
import EnsembleSampling.Session
set_option autoImplicit false

/-!
# What is said in the course of a sweep

An exchange is what a host answers while one walker is moved: the log-density at its position,
blocks of coins of which only the last selects enough companions, a deviate for each of these,
the log-density at the proposal, and a uniform.  The answers determine the requests
(`Exchange.events`) and where the walker goes (`Exchange.walker`).

A sweep consists of one exchange for each walker, in the order of the walkers
(`spells_plainSweep`).
-/

namespace EnsembleSampling

variable {σ ε α β V : Type}

/-- Number of coins that are not zero. -/
def heads (coins : List Int) : Nat := coins.countP (· != 0)

theorem length_selectedBy (index : Int) (coins : List Int) :
    (selectedBy index coins).length = heads coins := by
  have hplaces : heads coins = heads (coins.zipIdx.map Prod.fst) := by rw [List.zipIdx_map_fst]
  rw [hplaces, heads, List.countP_map, selectedBy, List.length_map, ← List.countP_eq_length_filter]
  rfl

/-- The kind of a request. -/
def Event.request : Event α β V → Request
  | .density _ _ => .density
  | .coin _ => .coin
  | .normal _ => .normal
  | .uniform _ => .uniform

theorem Event.request_unanswered (event : Event α β V) :
    event.unanswered.request = event.request := by
  cases event <;> rfl

/-! ## Exchanges -/

/-- What a host answers while a walker is moved. -/
structure Exchange (α β : Type) where
  /-- The log-density at the position of the walker. -/
  old : β
  /-- Blocks of coins that select too few companions. -/
  idle : List (List Int)
  /-- The block of coins that selects the companions. -/
  coins : List Int
  deviates : List α
  /-- The log-density at the proposal. -/
  new : β
  uniform : β

namespace Exchange

/-- An exchange that moves a walker among so many others. -/
structure Valid (others : Nat) (e : Exchange α β) : Prop where
  idle : ∀ block ∈ e.idle, block.length = others ∧ heads block ≤ 1
  coins : e.coins.length = others
  enough : 2 ≤ heads e.coins
  deviates : e.deviates.length = heads e.coins

/-- The kinds of the requests, with so many coins to a block. -/
def word (others : Nat) (e : Exchange α β) : List Request :=
  .density :: (List.replicate (others * (e.idle.length + 1)) .coin ++
    List.replicate (heads e.coins) .normal ++ [.density, .uniform])

section

variable [LinearOps α V] (current : List V) (index : Nat) (x : V)

/-- The proposal for the walker with a given index and position, among all positions before
the sweep. -/
def proposed (e : Exchange α β) : V :=
  proposal x ((selectedBy index e.coins).filterMap (current[·]?)) e.deviates

/-- The walker after its move. -/
def walker [LogScale β] (e : Exchange α β) : Walker V β :=
  (⟨x, e.old, e.proposed current index x, regarded e.new⟩ : Move V β).settle e.uniform

/-- The requests of the move with their answers. -/
def events (e : Exchange α β) : List (Event α β V) :=
  .density x (some e.old) :: ((e.idle.flatten ++ e.coins).map fun c => .coin (some c)) ++
    (e.deviates.map fun z => .normal (some z)) ++
    [.density (e.proposed current index x) (some e.new), .uniform (some e.uniform)]

/-- The requests of a move come in the order density, coins, normals, density, uniform. -/
theorem map_request_events {others : Nat} {e : Exchange α β} (he : e.Valid others) :
    (e.events current index x).map Event.request = e.word others := by
  have hidle : e.idle.flatten.length = others * e.idle.length := by
    rw [List.length_flatten, List.map_congr_left fun block hblock => (he.idle block hblock).1,
      List.map_const', List.sum_replicate_nat, Nat.mul_comm]
  have hcoins : ((e.idle.flatten ++ e.coins).map fun c => (.coin (some c) : Event α β V)).map
      Event.request = List.replicate (others * (e.idle.length + 1)) .coin := by
    rw [List.eq_replicate_iff]
    constructor
    · rw [List.length_map, List.length_map, List.length_append, hidle, he.coins, Nat.mul_succ]
    · simp only [List.map_map, List.forall_mem_map]
      exact fun _ _ => rfl
  have hnormals : (e.deviates.map fun z => (.normal (some z) : Event α β V)).map Event.request =
      List.replicate (heads e.coins) .normal := by
    rw [List.eq_replicate_iff]
    constructor
    · rw [List.length_map, List.length_map, he.deviates]
    · simp only [List.map_map, List.forall_mem_map]
      exact fun _ _ => rfl
  rw [events, List.map_append, List.map_append, List.map_cons, hcoins, hnormals]
  rfl

end

/-- Two other walkers, of which the first block of coins selects only one. -/
example : ((⟨0, [[0, 1]], [1, 1], [3, 4], 0, 0⟩ : Exchange Nat Nat).word 2).map Request.letter =
    "LbbbbnnLu".toList := by
  decide

end Exchange

/-! ## One move -/

section

variable (h : Host σ ε α β V) (limit : Nat)

/-- A search for companions spells blocks of coins, the last of which selects enough of them,
and none of the others does. -/
theorem spells_drawCompanions (index : Int) {others : Nat} (hothers : 2 ≤ others) :
    Draw.Spells
      (fun companions t => ∃ (idle : List (List Int)) (coins : List Int),
        (∀ block ∈ idle, block.length = others ∧ heads block ≤ 1) ∧ coins.length = others ∧
        2 ≤ heads coins ∧ companions = selectedBy index coins ∧
        t = (idle.flatten ++ coins).map fun c => .coin (some c))
      (drawCompanions h.recorded index others limit) := by
  induction limit with
  | zero =>
    -- There is a word to come: coins that all fall heads would be enough.
    refine Draw.Spells.stall ⟨[], List.replicate others 1, by simp, List.length_replicate, ?_, rfl,
      rfl⟩
    simpa [heads, List.countP_replicate] using hothers
  | succ limit ih =>
    rw [drawCompanions]
    refine (Draw.Spells.times h.coin (fun _ => rfl) others).bind fun coins s hcoins => ?_
    obtain ⟨hlength, rfl⟩ := hcoins
    by_cases henough : isEnough (selectedBy index coins) = true
    · have hheads : 2 ≤ heads coins := by
        rw [← length_selectedBy index]
        exact of_decide_eq_true henough
      simp only [henough, if_true]
      exact Draw.Spells.pure ⟨[], coins, by simp, hlength, hheads, rfl, by simp⟩
    · have hheads : heads coins ≤ 1 := by
        rw [← length_selectedBy index]
        have := of_decide_eq_false (Bool.eq_false_iff.mpr henough)
        omega
      simp only [henough]
      refine ih.mono ?_
      rintro companions t ⟨idle, last, hidle, hlast, hlastHeads, hcompanions, rfl⟩
      refine ⟨coins :: idle, last, ?_, hlast, hlastHeads, hcompanions, ?_⟩
      · exact List.forall_mem_cons.mpr ⟨⟨hlength, hheads⟩, hidle⟩
      · simp

variable [LogScale β]

theorem spells_noteIfUndefined (index : Nat) (l : β) :
    Draw.Spells (fun _ t => t = []) (noteIfUndefined h.recorded index l) := by
  unfold noteIfUndefined
  split
  · exact Draw.Spells.change fun _ _ => rfl
  · exact Draw.Spells.pure rfl

variable [LinearOps α V] [Inhabited α]

/-- A move spells the events of an exchange, which says where the walker goes.  What all answers
of the host for the log-density at a position have, the log-densities of the exchange have. -/
theorem spells_plainMove_of_density {D : V → β → Prop}
    (hdensity : ∀ y, Draw.Always (D y) (h.logDensity y)) (hsome : ∀ y, ∃ l, D y l)
    {current : List V} (hcurrent : minWalkers ≤ current.length) (index : Nat) (x : V) :
    Draw.Spells
      (fun a t => ∃ e : Exchange α β, e.Valid (current.length - 1) ∧ D x e.old ∧
        D (e.proposed current index x) e.new ∧ a = e.walker current index x ∧
        t = e.events current index x)
      (plainMove h.recorded limit current index x) := by
  have hothers : 2 ≤ current.length - 1 := Nat.le_sub_one_of_lt hcurrent
  have : Inhabited β := ⟨0⟩
  have hspells (y : V) : Draw.Spells (fun l t => D y l ∧ t = [.density y (some l)])
      (h.recorded.logDensity y).inSweep := by
    obtain ⟨l, hl⟩ := hsome y
    exact Draw.Spells.recorded_of_always (hdensity y) _ hl fun _ => rfl
  unfold plainMove
  refine (hspells x).bind fun old _ hold => ?_
  refine (spells_drawCompanions h limit index hothers).bind fun companions _ hcompanions => ?_
  obtain ⟨idle, coins, hidle, hcoins, henough, rfl, hsaid⟩ := hcompanions
  refine (Draw.Spells.times h.normal (fun _ => rfl) _).bind fun deviates _ hdeviates => ?_
  refine (hspells _).bind fun new _ hnew => ?_
  refine (spells_noteIfUndefined h index new).bind fun _ _ hnote => ?_
  refine (Draw.Spells.recorded h.uniform fun _ => rfl).bind fun u _ hu => ?_
  have hlength : deviates.length = heads coins := by
    rw [hdeviates.1, length_selectedBy]
  refine Draw.Spells.pure ⟨⟨old, idle, coins, deviates, new, u⟩, ⟨hidle, hcoins, henough, hlength⟩,
    hold.1, hnew.1, rfl, ?_⟩
  obtain ⟨-, rfl⟩ := hold
  obtain ⟨-, rfl⟩ := hnew
  subst hsaid hnote hu
  rw [hdeviates.2]
  simp [Exchange.events, Exchange.proposed]

/-- A move spells the events of an exchange, which says where the walker goes. -/
theorem spells_plainMove {current : List V} (hcurrent : minWalkers ≤ current.length) (index : Nat)
    (x : V) :
    Draw.Spells
      (fun a t => ∃ e : Exchange α β, e.Valid (current.length - 1) ∧ a = e.walker current index x ∧
        t = e.events current index x)
      (plainMove h.recorded limit current index x) := by
  have hany : ∀ y, Draw.Always (fun _ => True) (h.logDensity y) := fun y => .trivially _
  refine (spells_plainMove_of_density h limit hany (fun _ => ⟨0, trivial⟩) hcurrent index x).mono ?_
  rintro a t ⟨e, hvalid, -, -, hwalker, hevents⟩
  exact ⟨e, hvalid, hwalker, hevents⟩

end

/-! ## Sweeps -/

section

variable [LinearOps α V]

/-- The events of a sweep from given positions. -/
def sweepEvents (xs : List V) (es : List (Exchange α β)) : List (Event α β V) :=
  (xs.zip es).zipIdx.flatMap fun ((x, e), i) => e.events xs i x

variable [LogScale β]

/-- The walkers after a sweep from given positions. -/
def sweepWalkers (xs : List V) (es : List (Exchange α β)) : List (Walker V β) :=
  (xs.zip es).zipIdx.map fun ((x, e), i) => e.walker xs i x

variable [Inhabited α] (h : Host σ ε α β V) (limit : Nat)

/-- Moves of walkers spell the events of one exchange for each of them. -/
theorem spells_plainMoves {current : List V} (hcurrent : minWalkers ≤ current.length)
    (index : Nat) (xs : List V) :
    Draw.Spells
      (fun ws t => ∃ es : List (Exchange α β), es.length = xs.length ∧
        (∀ e ∈ es, e.Valid (current.length - 1)) ∧
        ws = ((xs.zip es).zipIdx index).map (fun ((x, e), i) => e.walker current i x) ∧
        t = ((xs.zip es).zipIdx index).flatMap fun ((x, e), i) => e.events current i x)
      (plainMoves h.recorded limit current index xs) := by
  induction xs generalizing index with
  | nil => exact Draw.Spells.pure ⟨[], rfl, by simp, rfl, rfl⟩
  | cons x xs ih =>
    rw [plainMoves]
    refine (spells_plainMove h limit hcurrent index x).bind fun a s hmove => ?_
    obtain ⟨e, he, rfl, rfl⟩ := hmove
    refine (ih (index + 1)).bind fun ws t hmoves => ?_
    obtain ⟨es, hlength, hes, rfl, rfl⟩ := hmoves
    refine Draw.Spells.pure ⟨e :: es, by simp [hlength], ?_, rfl, ?_⟩
    · exact List.forall_mem_cons.mpr ⟨he, hes⟩
    · simp

/-- A sweep spells the events of one exchange for each walker. -/
theorem spells_plainSweep {xs : List V} (hxs : minWalkers ≤ xs.length) :
    Draw.Spells
      (fun ws t => ∃ es : List (Exchange α β), es.length = xs.length ∧
        (∀ e ∈ es, e.Valid (xs.length - 1)) ∧ ws = sweepWalkers xs es ∧ t = sweepEvents xs es)
      (plainSweep h.recorded limit xs) := by
  rw [plainSweep, if_neg (Nat.not_lt.mpr hxs)]
  exact spells_plainMoves h limit hxs 0 xs

end

end EnsembleSampling
