import EnsembleSampling.Proofs.Run.Trajectory
set_option autoImplicit false

/-!
# Sweeps that correspond

Two samplers in two spaces, with two hosts.  If a map of positions carries proposals to
proposals, and the hosts answer corresponding requests alike, then the sweeps correspond
request by request: one lemma for each part of a sweep, and `Host.Carried.run_eq` for a
whole run.
-/

namespace EnsembleSampling

variable {σ τ ε α β V W : Type}

/-! ## Walkers and chains in another space -/

/-- The walker at the image of its position. -/
def Walker.mapPosition (T : V → W) (a : Walker V β) : Walker W β :=
  ⟨T a.position, a.logProb, a.acceptProb⟩

/-- The ensemble at the images of its positions, in a space of given dimension. -/
def Ensemble.mapPositions (T : V → W) (dims : Nat) (e : Ensemble V β) : Ensemble W β :=
  ⟨dims, e.walkers.map (Walker.mapPosition T)⟩

/-- The chain at the images of its positions, in a space of given dimension. -/
def Chain.mapPositions (T : V → W) (dims : Nat) (c : Chain V β) : Chain W β :=
  ⟨c.size, dims, c.recorded.map (Ensemble.mapPositions T dims)⟩

theorem Chain.mapPositions_ofSweeps (T : V → W) (size dims dims' : Nat)
    (ts : List (List (Walker V β))) :
    (Chain.ofSweeps size dims ts).mapPositions T dims' =
      Chain.ofSweeps size dims' (ts.map (List.map (Walker.mapPosition T))) := by
  simp [Chain.mapPositions, Chain.ofSweeps, Ensemble.mapPositions, Function.comp_def]

/-! ## Correspondence -/

/-- On good positions, answers to corresponding requests are alike, and the states that
they leave correspond. -/
structure Host.Carried (T : V → W) (good : V → Prop) (φ : σ → τ) (h : Host σ ε α β V)
    (h' : Host τ ε α β W) : Prop where
  logDensity : ∀ x, good x →
    Draw.Carried φ id (fun _ => True) (h.logDensity x) (h'.logDensity (T x))
  coin : Draw.Carried φ id (fun _ => True) h.coin h'.coin
  normal : Draw.Carried φ id (fun _ => True) h.normal h'.normal
  uniform : Draw.Carried φ id (fun _ => True) h.uniform h'.uniform
  noteUndefined : ∀ i w, h'.noteUndefined i (φ w) = φ (h.noteUndefined i w)

/-- A host corresponds to itself. -/
theorem Host.carried_id (h : Host σ ε α β V) (good : V → Prop) : h.Carried id good id h where
  logDensity _ _ := .refl _
  coin := .refl _
  normal := .refl _
  uniform := .refl _
  noteUndefined _ _ := rfl

/-- Among good positions, proposals go over to proposals, and are good. -/
structure CarriesProposals [LinearOps α V] [LinearOps α W] (T : V → W) (good : V → Prop) :
    Prop where
  good_proposal : ∀ (x : V) (ys : List V) (zs : List α), good x → (∀ y ∈ ys, good y) →
    good (proposal x ys zs)
  map_proposal : ∀ (x : V) (ys : List V) (zs : List α), good x → (∀ y ∈ ys, good y) →
    T (proposal x ys zs) = proposal (T x) (ys.map T) zs

/-- Selected members of a list of images are the images of the members. -/
theorem filterMap_getElem?_map (T : V → W) (current : List V) (is : List Nat) :
    is.filterMap ((current.map T)[·]?) = (is.filterMap (current[·]?)).map T := by
  rw [List.map_filterMap]
  congr 1
  funext i
  rw [List.getElem?_map]

/-- A member of a list that is selected from another is a member of that. -/
theorem mem_of_mem_filterMap_getElem? {current : List V} {is : List Nat} {y : V}
    (hy : y ∈ is.filterMap (current[·]?)) : y ∈ current := by
  obtain ⟨i, -, hi⟩ := List.mem_filterMap.mp hy
  exact List.mem_of_getElem? hi

namespace Host.Carried

variable {T : V → W} {good : V → Prop} {φ : σ → τ} {h : Host σ ε α β V} {h' : Host τ ε α β W}

/-- Companions are chosen alike. -/
theorem drawCompanions (hh : h.Carried T good φ h') (index : Int) (others limit : Nat) :
    Draw.Carried φ id (fun _ => True) (drawCompanions h index others limit)
      (drawCompanions h' index others limit) := by
  induction limit with
  | zero => exact .throw _
  | succ limit ih =>
    unfold EnsembleSampling.drawCompanions
    refine (hh.coin.times others).inSweep.bind fun coins _ => ?_
    simp only [id_eq]
    split
    · exact .pure trivial
    · exact ih

variable [LogScale β]

theorem noteIfUndefined (hh : h.Carried T good φ h') (index : Nat) (l : β) :
    Draw.Carried φ id (fun _ => True) (noteIfUndefined h index l)
      (noteIfUndefined h' index l) := by
  unfold EnsembleSampling.noteIfUndefined
  split
  · exact .change (hh.noteUndefined index)
  · exact .pure trivial

theorem settle_mapPosition (m : Move V β) (u : β) :
    (⟨T m.position, m.logProb, T m.proposed, m.proposedLogProb⟩ : Move W β).settle u =
      (m.settle u).mapPosition T := by
  unfold Move.settle Move.probability
  split <;> rfl

/-- A walker's move stays among given positions if its position and the proposal do. -/
theorem position_settle {m : Move V β} {u : β} (hx : good m.position) (hy : good m.proposed) :
    good (m.settle u).position := by
  unfold Move.settle
  split
  · exact hx
  · exact hy

variable [LinearOps α V] [LinearOps α W]

/-- Walkers at corresponding positions make corresponding moves. -/
theorem plainMove (hh : h.Carried T good φ h') (hT : CarriesProposals (α := α) T good)
    (limit : Nat) {current : List V} (hcurrent : ∀ y ∈ current, good y) (index : Nat) {x : V}
    (hx : good x) :
    Draw.Carried φ (Walker.mapPosition T) (fun a => good a.position)
      (plainMove h limit current index x) (plainMove h' limit (current.map T) index (T x)) := by
  unfold EnsembleSampling.plainMove
  refine (hh.logDensity x hx).inSweep.bind fun old _ => ?_
  rw [List.length_map]
  refine (hh.drawCompanions index (current.length - 1) limit).bind fun companions _ => ?_
  simp only [id_eq, filterMap_getElem?_map]
  refine (hh.normal.times companions.length).inSweep.bind fun deviates _ => ?_
  have hselected : ∀ y ∈ companions.filterMap (current[·]?), good y :=
    fun y hy => hcurrent y (mem_of_mem_filterMap_getElem? hy)
  have hy := hT.good_proposal x _ deviates hx hselected
  simp only [id_eq, ← hT.map_proposal x _ deviates hx hselected]
  refine (hh.logDensity _ hy).inSweep.bind fun new _ => ?_
  refine (hh.noteIfUndefined index new).bind fun _ _ => ?_
  refine hh.uniform.inSweep.bind fun u _ => ?_
  simp only [id_eq, settle_mapPosition ⟨x, old, _, regarded new⟩ u]
  exact .pure (position_settle hx hy)

theorem plainMoves (hh : h.Carried T good φ h') (hT : CarriesProposals (α := α) T good)
    (limit : Nat) {current : List V} (hcurrent : ∀ y ∈ current, good y) :
    ∀ (index : Nat) (xs : List V), (∀ x ∈ xs, good x) →
      Draw.Carried φ (List.map (Walker.mapPosition T)) (fun ws => ∀ a ∈ ws, good a.position)
        (plainMoves h limit current index xs)
        (plainMoves h' limit (current.map T) index (xs.map T)) := by
  intro index xs
  induction xs generalizing index with
  | nil => intro _; exact .pure (by simp)
  | cons x xs ih =>
    intro hxs
    rw [List.forall_mem_cons] at hxs
    rw [List.map_cons, EnsembleSampling.plainMoves, EnsembleSampling.plainMoves]
    refine (hh.plainMove hT limit hcurrent index hxs.1).bind fun a ha => ?_
    refine (ih (index + 1) hxs.2).bind fun rest hrest => ?_
    exact .pure (f := List.map (Walker.mapPosition T)) (List.forall_mem_cons.mpr ⟨ha, hrest⟩)

theorem plainSweep (hh : h.Carried T good φ h') (hT : CarriesProposals (α := α) T good)
    (limit : Nat) {xs : List V} (hxs : ∀ x ∈ xs, good x) :
    Draw.Carried φ (List.map (Walker.mapPosition T)) (fun ws => ∀ a ∈ ws, good a.position)
      (plainSweep h limit xs) (plainSweep h' limit (xs.map T)) := by
  unfold EnsembleSampling.plainSweep
  rw [List.length_map]
  split
  · exact .throw _
  · exact hh.plainMoves hT limit hxs 0 xs hxs

/-- Sweeps in a row correspond, since each starts where the one before it ended. -/
theorem plainSweeps (hh : h.Carried T good φ h') (hT : CarriesProposals (α := α) T good)
    (limit sweeps : Nat) {xs : List V} (hxs : ∀ x ∈ xs, good x) :
    Draw.Carried φ (List.map (List.map (Walker.mapPosition T))) (fun _ => True)
      (plainSweeps h limit sweeps xs) (plainSweeps h' limit sweeps (xs.map T)) := by
  induction sweeps generalizing xs with
  | zero => exact .pure trivial
  | succ sweeps ih =>
    rw [EnsembleSampling.plainSweeps, EnsembleSampling.plainSweeps]
    refine (hh.plainSweep hT limit hxs).bind fun ws hws => ?_
    have hnext : ∀ x ∈ ws.map Walker.position, good x := by simpa using hws
    have hmap : (ws.map (Walker.mapPosition T)).map Walker.position =
        (ws.map Walker.position).map T := by
      simp [Walker.mapPosition, Function.comp_def]
    rw [hmap]
    refine (ih hnext).bind fun rest _ => ?_
    exact .pure (f := List.map (List.map (Walker.mapPosition T))) trivial

/-- Runs from corresponding ensembles correspond: they end alike, with chains that differ
in nothing but the positions, or fail alike, and leave corresponding hosts. -/
theorem run_eq (hh : h.Carried T good φ h') (hT : CarriesProposals (α := α) T good)
    (limit sweeps : Nat) {e : Ensemble V β} (he : ∀ x ∈ e.positions, good x) {dims : Nat}
    (hdims : e.dims = 0 ↔ dims = 0) (w : σ) :
    run h' limit sweeps (e.mapPositions T dims) (φ w) =
      ((run h limit sweeps e w).1.map (Chain.mapPositions T dims),
        φ (run h limit sweeps e w).2) := by
  have hsize : (e.mapPositions T dims).size = e.size := by
    simp [Ensemble.mapPositions, Ensemble.size]
  have hpos : (e.mapPositions T dims).positions = e.positions.map T := by
    simp [Ensemble.mapPositions, Ensemble.positions, Walker.mapPosition, Function.comp_def]
  have hdims' : (e.mapPositions T dims).dims = dims := rfl
  rw [run_eq_plainSweeps h', run_eq_plainSweeps h, hpos, hsize, hdims']
  by_cases hs : e.size < minWalkers
  · simp [Chain.start, hs, Except.map]
  · by_cases hd : dims = 0
    · simp [Chain.start, hs, hd, hdims.mpr hd, Except.map]
    · have hd' : e.dims ≠ 0 := fun h₀ => hd (hdims.mp h₀)
      simp only [Chain.start, hs, hd, hd', if_false, Draw.outcome_map,
        (hh.plainSweeps hT limit sweeps he).outcome_eq w]
      rcases (EnsembleSampling.plainSweeps h limit sweeps e.positions).outcome w with
        ⟨f | ts, w'⟩
      · rfl
      · simp only [Except.map, Chain.mapPositions_ofSweeps]

end Host.Carried

/-! ## Positions that are not left -/

section

variable [LinearOps α V]

/-- Among good positions, proposals are good. -/
def ProposalClosed (good : V → Prop) : Prop :=
  ∀ (x : V) (ys : List V) (zs : List α), good x → (∀ y ∈ ys, good y) → good (proposal x ys zs)

/-- If proposals do not lead out of the good positions, moves do not. -/
theorem ProposalClosed.position_plainMove [LogScale β] {good : V → Prop}
    (hgood : ProposalClosed good) (h : Host σ ε α β V) (limit : Nat) {current : List V}
    (hcurrent : ∀ y ∈ current, good y) (index : Nat) {x : V} (hx : good x) :
    Draw.Always (fun a => good a.position) (plainMove h limit current index x) := by
  have hT : CarriesProposals (α := α) (id : V → V) good :=
    ⟨hgood, fun _ _ _ _ _ => by rw [List.map_id, id, id]⟩
  exact ((h.carried_id good).plainMove hT limit hcurrent index hx).answers

end

end EnsembleSampling
