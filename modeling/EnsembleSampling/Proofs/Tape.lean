import EnsembleSampling.Proofs.Draw
set_option autoImplicit false

/-!
# Tapes

A tape is a host whose draws are written down beforehand, in a queue for each kind of
draw; a draw from an empty queue fails.  Its log-density is a function of the position.
-/

namespace EnsembleSampling

variable {α β γ V : Type}

/-- Draws that are still to come. -/
structure Tape (α β : Type) where
  coins : List Int
  normals : List α
  uniforms : List β

namespace Tape

/-- The next draw of a queue, which fails when the queue is empty. -/
def next (queue : Tape α β → List γ) (rest : Tape α β → List γ → Tape α β) :
    Draw (Tape α β) Unit γ :=
  .ofOutcome fun t =>
    match queue t with
    | a :: as => (.ok a, rest t as)
    | [] => (.error (), t)

/-- A tape in the role of a host, with a log-density. -/
def host (f : V → β) : Host (Tape α β) Unit α β V where
  logDensity x := pure (f x)
  coin := next coins fun t as => { t with coins := as }
  normal := next normals fun t as => { t with normals := as }
  uniform := next uniforms fun t as => { t with uniforms := as }
  noteUndefined _ t := t

theorem logDensity_host (f : V → β) (x : V) :
    Draw.Always (fun l => l = f x) ((host f : Host (Tape α β) Unit α β V).logDensity x) :=
  .pure rfl

/-- The same host with the same uniform every time. -/
def steady (f : V → β) (u : β) : Host (Tape α β) Unit α β V :=
  { host f with uniform := pure u }

theorem logDensity_steady (f : V → β) (u : β) (x : V) :
    Draw.Always (fun l => l = f x) ((steady f u : Host (Tape α β) Unit α β V).logDensity x) :=
  .pure rfl

theorem uniform_steady (f : V → β) {P : β → Prop} {u : β} (hu : P u) :
    Draw.Always P (steady f u : Host (Tape α β) Unit α β V).uniform :=
  .pure hu

/-- One tape after another. -/
def append (t t' : Tape α β) : Tape α β :=
  ⟨t.coins ++ t'.coins, t.normals ++ t'.normals, t.uniforms ++ t'.uniforms⟩

/-! ## Several draws from the front of a queue -/

/-- Drawing as often as a queue has members before others takes these members. -/
theorem outcome_times_next (queue : Tape α β → List γ)
    (rest : Tape α β → List γ → Tape α β) (hself : ∀ t, rest t (queue t) = t)
    (hqueue : ∀ t as, queue (rest t as) = as) (hrest : ∀ t as bs, rest (rest t as) bs = rest t bs)
    (as bs : List γ) (t : Tape α β) (ht : queue t = as ++ bs) :
    (Draw.times as.length (next queue rest)).outcome t = (.ok as, rest t bs) := by
  induction as generalizing t with
  | nil =>
    have hbs : queue t = bs := ht
    rw [← hbs, hself]
    rfl
  | cons a as ih =>
    have hnext : (next queue rest).outcome t = (.ok a, rest t (as ++ bs)) := by
      rw [next, Draw.outcome_ofOutcome, ht]
      rfl
    rw [List.length_cons, Draw.times_succ, Draw.outcome_bind_of_ok hnext,
      Draw.outcome_bind_of_ok (ih _ (hqueue t _)), hrest]
    rfl

variable {f : V → β} (cs cs' : List Int) (zs zs' : List α) (us : List β)

theorem outcome_times_coin :
    (Draw.times cs.length (host (V := V) (α := α) f).coin).outcome ⟨cs ++ cs', zs, us⟩ =
      (.ok cs, ⟨cs', zs, us⟩) :=
  outcome_times_next coins (fun t as => { t with coins := as }) (fun _ => rfl)
    (fun _ _ => rfl) (fun _ _ _ => rfl) cs cs' _ rfl

theorem outcome_times_normal :
    (Draw.times zs.length (host (V := V) f).normal).outcome ⟨cs, zs ++ zs', us⟩ =
      (.ok zs, ⟨cs, zs', us⟩) :=
  outcome_times_next normals (fun t as => { t with normals := as }) (fun _ => rfl)
    (fun _ _ => rfl) (fun _ _ _ => rfl) zs zs' _ rfl

end Tape

end EnsembleSampling
