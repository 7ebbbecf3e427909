import EnsembleSampling.Ensemble.Host
import Mathlib.Tactic.Common
set_option autoImplicit false

/-!
# Rules for requests

Five ways to reason about a `Draw` without opening the monad it lives in.

* `Draw.ext`: a request is the function from states to outcomes that it stands for.
* `Draw.Always P x`: whatever state `x` is made in, an answer of `x` has `P`.
* `Draw.Failing Q x`: whatever state `x` is made in, a failure of `x` and the state that it
  leaves have `Q`.
* `Draw.Beside R x y`: in one state `x` and `y` fail alike or have answers in `R`.
* `Draw.Carried φ f P x y`: `y` does in the state `φ w` what `x` does in the state `w`.
  Answers go over by `f`, failures as they are, and every answer of `x` has `P`.

Each predicate has one rule for each way of building a request, so that a proof
about a sweep follows the text of the sweep.
-/

namespace EnsembleSampling.Draw

variable {σ τ ε γ δ : Type}

/-- A request is determined by its outcomes. -/
theorem ext {x y : Draw σ ε γ} (h : ∀ w, x.outcome w = y.outcome w) : x = y :=
  funext h

@[simp] theorem outcome_change (f : σ → σ) (w : σ) :
    (change f : Draw σ ε Unit).outcome w = (.ok (), f w) := rfl

theorem outcome_map (f : γ → δ) (x : Draw σ ε γ) (w : σ) :
    (f <$> x).outcome w = ((x.outcome w).1.map f, (x.outcome w).2) := by
  rw [map_eq_pure_bind, outcome_bind]
  rcases x.outcome w with ⟨_ | _, _⟩ <;> rfl

/-- A request that fails in a state still fails there when something follows it. -/
theorem outcome_bind_of_error {x : Draw σ ε γ} {f : γ → Draw σ ε δ} {w w' : σ} {e : ε}
    (h : x.outcome w = (.error e, w')) : (x >>= f).outcome w = (.error e, w') := by
  rw [outcome_bind, h]

theorem outcome_bind_of_ok {x : Draw σ ε γ} {f : γ → Draw σ ε δ} {w w' : σ} {a : γ}
    (h : x.outcome w = (.ok a, w')) : (x >>= f).outcome w = (f a).outcome w' := by
  rw [outcome_bind, h]

/-- A sequence that succeeds consists of two requests that succeed. -/
theorem outcome_bind_eq_ok_iff {x : Draw σ ε γ} {f : γ → Draw σ ε δ} {w w'' : σ} {b : δ} :
    (x >>= f).outcome w = (.ok b, w'') ↔
      ∃ a w', x.outcome w = (.ok a, w') ∧ (f a).outcome w' = (.ok b, w'') := by
  rw [outcome_bind]
  rcases x.outcome w with ⟨_ | a, w'⟩ <;> simp

/-- One answer in front of several others. -/
theorem outcome_cons_eq_ok_iff {x : Draw σ ε (List γ)} {w : σ} {a b : γ} {bs : List γ} :
    ((x >>= fun rest => pure (a :: rest)).outcome w).1 = .ok (b :: bs) ↔
      a = b ∧ (x.outcome w).1 = .ok bs := by
  rw [← map_eq_pure_bind, outcome_map]
  rcases x.outcome w with ⟨e | rest, w'⟩
  · simp [Except.map]
  · simp [Except.map]

theorem outcome_inSweep_of_ok {x : Draw σ ε γ} {w w' : σ} {a : γ}
    (h : x.outcome w = (.ok a, w')) : x.inSweep.outcome w = (.ok a, w') := by
  rw [inSweep, outcome_ofOutcome, h]

theorem outcome_inSweep_of_error {x : Draw σ ε γ} {w w' : σ} {e : ε}
    (h : x.outcome w = (.error e, w')) :
    x.inSweep.outcome w = (.error (.raised e), w') := by
  rw [inSweep, outcome_ofOutcome, h]

theorem outcome_inSweep_eq_ok_iff {x : Draw σ ε γ} {w w' : σ} {a : γ} :
    x.inSweep.outcome w = (.ok a, w') ↔ x.outcome w = (.ok a, w') := by
  rw [inSweep, outcome_ofOutcome]
  rcases x.outcome w with ⟨_ | _, _⟩ <;> simp

theorem inSweep_pure (a : γ) : (pure a : Draw σ ε γ).inSweep = pure a := rfl

theorem inSweep_bind (x : Draw σ ε γ) (f : γ → Draw σ ε δ) :
    (x >>= f).inSweep = x.inSweep >>= fun a => (f a).inSweep := by
  apply ext
  intro w
  rcases hx : x.outcome w with ⟨e | a, w'⟩
  · rw [outcome_bind_of_error (outcome_inSweep_of_error hx)]
    exact outcome_inSweep_of_error (outcome_bind_of_error hx)
  · rw [outcome_bind_of_ok (outcome_inSweep_of_ok hx)]
    simp only [inSweep, outcome_ofOutcome, outcome_bind_of_ok hx]

/-- An outcome that passes a test of answers is an answer that passes it. -/
theorem exists_ok_of_any {r : Except ε γ × σ} {p : γ → Bool}
    (h : r.1.toOption.any p = true) : ∃ a w, r = (.ok a, w) ∧ p a = true := by
  obtain ⟨e | a, w⟩ := r
  · simp [Except.toOption] at h
  · exact ⟨a, w, rfl, by simpa [Except.toOption] using h⟩

theorem times_succ (n : Nat) (x : Draw σ ε γ) :
    times (n + 1) x = x >>= fun a => times n x >>= fun rest => pure (a :: rest) := rfl

/-! ## What every answer has -/

/-- Every answer of a request has a property. -/
def Always (P : γ → Prop) (x : Draw σ ε γ) : Prop :=
  ∀ w a w', x.outcome w = (.ok a, w') → P a

namespace Always

variable {P : γ → Prop} {Q : δ → Prop}

theorem trivially (x : Draw σ ε γ) : Always (fun _ => True) x :=
  fun _ _ _ _ => trivial

theorem mono {P' : γ → Prop} {x : Draw σ ε γ} (h : Always P x) (hP : ∀ a, P a → P' a) :
    Always P' x :=
  fun w a w' hx => hP a (h w a w' hx)

protected theorem pure {a : γ} (h : P a) : Always P (pure a : Draw σ ε γ) := by
  intro w b w' hb
  rw [outcome_pure] at hb
  obtain ⟨rfl, -⟩ : a = b ∧ w = w' := by simpa using hb
  exact h

protected theorem throw (e : ε) : Always P (throw e : Draw σ ε γ) := by
  intro w a w' h
  simp at h

protected theorem bind {x : Draw σ ε γ} {f : γ → Draw σ ε δ} (hx : Always P x)
    (hf : ∀ a, P a → Always Q (f a)) : Always Q (x >>= f) := by
  intro w b w'' h
  obtain ⟨a, w', ha, hb⟩ := outcome_bind_eq_ok_iff.mp h
  exact hf a (hx w a w' ha) w' b w'' hb

/-- Nothing need be known of a first request whose answer does not matter. -/
theorem bind_any {x : Draw σ ε γ} {f : γ → Draw σ ε δ} (hf : ∀ a, Always Q (f a)) :
    Always Q (x >>= f) :=
  (trivially x).bind fun a _ => hf a

protected theorem and {P' : γ → Prop} {x : Draw σ ε γ} (h : Always P x) (h' : Always P' x) :
    Always (fun a => P a ∧ P' a) x :=
  fun w a w' hx => ⟨h w a w' hx, h' w a w' hx⟩

/-- What follows a request need only be known for its answers. -/
theorem bind_congr {x : Draw σ ε γ} {f g : γ → Draw σ ε δ} (h : Always P x)
    (hfg : ∀ a, P a → f a = g a) : x >>= f = x >>= g := by
  apply ext
  intro w
  rcases hx : x.outcome w with ⟨e | a, w'⟩
  · rw [outcome_bind_of_error hx, outcome_bind_of_error hx]
  · rw [outcome_bind_of_ok hx, outcome_bind_of_ok hx, hfg a (h w a w' hx)]

theorem inSweep {x : Draw σ ε γ} (h : Always P x) : Always P x.inSweep := by
  intro w a w' ha
  rcases hx : x.outcome w with ⟨e | b, w₁⟩
  · rw [outcome_inSweep_of_error hx] at ha
    simp at ha
  · rw [outcome_inSweep_of_ok hx] at ha
    obtain ⟨rfl, -⟩ : b = a ∧ w₁ = w' := by simpa using ha
    exact h w b w₁ hx

end Always

/-! ## What every failure has -/

/-- Every failure of a request has a property, together with the state that it leaves. -/
def Failing (Q : ε → σ → Prop) (x : Draw σ ε γ) : Prop :=
  ∀ w e w', x.outcome w = (.error e, w') → Q e w'

namespace Failing

variable {P : γ → Prop} {Q : ε → σ → Prop}

protected theorem pure (a : γ) : Failing Q (pure a : Draw σ ε γ) := by
  intro w e w' h
  simp at h

theorem change (f : σ → σ) : Failing Q (change f : Draw σ ε Unit) := by
  intro w e w' h
  simp at h

/-- What follows a request need only be known for its answers. -/
theorem bind_always {x : Draw σ ε γ} {f : γ → Draw σ ε δ} (hx : Failing Q x) (hP : Always P x)
    (hf : ∀ a, P a → Failing Q (f a)) : Failing Q (x >>= f) := by
  intro w e w' h
  rcases hw : x.outcome w with ⟨e₁ | a, w₁⟩
  · rw [outcome_bind_of_error hw] at h
    obtain ⟨rfl, rfl⟩ : e₁ = e ∧ w₁ = w' := by simpa using h
    exact hx w e₁ w₁ hw
  · rw [outcome_bind_of_ok hw] at h
    exact hf a (hP w a w₁ hw) w₁ e w' h

protected theorem bind {x : Draw σ ε γ} {f : γ → Draw σ ε δ} (hx : Failing Q x)
    (hf : ∀ a, Failing Q (f a)) : Failing Q (x >>= f) :=
  hx.bind_always (Always.trivially x) fun a _ => hf a

/-- A request repeated fails as the request does. -/
theorem times {x : Draw σ ε γ} (hx : Failing Q x) (n : Nat) : Failing Q (times n x) := by
  induction n with
  | zero => exact .pure _
  | succ n ih =>
    rw [times_succ]
    exact hx.bind fun a => ih.bind fun rest => .pure _

/-- In a sweep the failures of a request are those that the host raised. -/
theorem inSweep {Q : SweepFailure ε → σ → Prop} {x : Draw σ ε γ}
    (hx : Failing (fun e w => Q (.raised e) w) x) : Failing Q x.inSweep := by
  intro w e w' h
  rcases hw : x.outcome w with ⟨f | a, w₁⟩
  · rw [outcome_inSweep_of_error hw] at h
    obtain ⟨rfl, rfl⟩ : .raised f = e ∧ w₁ = w' := by simpa using h
    exact hx w f w₁ hw
  · rw [outcome_inSweep_of_ok hw] at h
    simp at h

end Failing

/-! ## Requests side by side -/

/-- In every state two requests fail alike, or succeed with answers in a relation, and they
leave the same state. -/
def Beside (R : γ → δ → Prop) (x : Draw σ ε γ) (y : Draw σ ε δ) : Prop :=
  ∀ w, match x.outcome w with
    | (.ok a, w') => ∃ b, y.outcome w = (.ok b, w') ∧ R a b
    | (.error e, w') => y.outcome w = (.error e, w')

namespace Beside

variable {γ' δ' : Type} {R : γ → δ → Prop} {S : γ' → δ' → Prop}

theorem of_ok {x : Draw σ ε γ} {y : Draw σ ε δ} (h : Beside R x y) {w w' : σ} {a : γ}
    (hx : x.outcome w = (.ok a, w')) : ∃ b, y.outcome w = (.ok b, w') ∧ R a b := by
  have hw := h w
  rw [hx] at hw
  exact hw

theorem of_error {x : Draw σ ε γ} {y : Draw σ ε δ} (h : Beside R x y) {w w' : σ} {e : ε}
    (hx : x.outcome w = (.error e, w')) : y.outcome w = (.error e, w') := by
  have hw := h w
  rw [hx] at hw
  exact hw

protected theorem pure {a : γ} {b : δ} (h : R a b) :
    Beside R (pure a : Draw σ ε γ) (pure b : Draw σ ε δ) :=
  fun _ => ⟨b, rfl, h⟩

protected theorem throw (e : ε) :
    Beside R (throw e : Draw σ ε γ) (throw e : Draw σ ε δ) :=
  fun _ => rfl

protected theorem bind {x : Draw σ ε γ} {y : Draw σ ε δ} {k : γ → Draw σ ε γ'}
    {l : δ → Draw σ ε δ'} (h : Beside R x y) (hk : ∀ a b, R a b → Beside S (k a) (l b)) :
    Beside S (x >>= k) (y >>= l) := by
  intro w
  rcases hx : x.outcome w with ⟨e | a, w'⟩
  · rw [outcome_bind_of_error hx]
    exact outcome_bind_of_error (h.of_error hx)
  · obtain ⟨b, hy, hab⟩ := h.of_ok hx
    rw [outcome_bind_of_ok hx, outcome_bind_of_ok hy]
    exact hk a b hab w'

/-- The same request on both sides has the same answer. -/
theorem bind_same {P : γ → Prop} {x : Draw σ ε γ} {k : γ → Draw σ ε γ'} {l : γ → Draw σ ε δ'}
    (hx : Always P x) (hk : ∀ a, P a → Beside S (k a) (l a)) : Beside S (x >>= k) (x >>= l) := by
  intro w
  rcases hw : x.outcome w with ⟨e | a, w'⟩
  · rw [outcome_bind_of_error hw]
    exact outcome_bind_of_error hw
  · rw [outcome_bind_of_ok hw, outcome_bind_of_ok hw]
    exact hk a (hx w a w' hw) w'

/-- Requests that have the same answers are the same. -/
theorem eq {R : γ → γ → Prop} {x y : Draw σ ε γ} (h : Beside R x y)
    (hR : ∀ a b, R a b → b = a) : y = x := by
  apply ext
  intro w
  rcases hx : x.outcome w with ⟨e | a, w'⟩
  · exact h.of_error hx
  · obtain ⟨b, hy, hab⟩ := h.of_ok hx
    rw [hy, hR a b hab]

end Beside

/-! ## Requests that correspond -/

/-- From corresponding states two requests have corresponding outcomes, and every answer
of the first has a property. -/
structure Carried (φ : σ → τ) (f : γ → δ) (P : γ → Prop) (x : Draw σ ε γ) (y : Draw τ ε δ) :
    Prop where
  answers : Always P x
  outcome_eq : ∀ w, y.outcome (φ w) = ((x.outcome w).1.map f, φ (x.outcome w).2)

namespace Carried

variable {γ' δ' : Type} {φ : σ → τ} {f : γ → δ} {g : γ' → δ'} {P : γ → Prop} {Q : γ' → Prop}

theorem outcome_of_ok {x : Draw σ ε γ} {y : Draw τ ε δ} (h : Carried φ f P x y) {w w' : σ}
    {a : γ} (hx : x.outcome w = (.ok a, w')) : y.outcome (φ w) = (.ok (f a), φ w') := by
  rw [h.outcome_eq, hx]
  rfl

theorem outcome_of_error {x : Draw σ ε γ} {y : Draw τ ε δ} (h : Carried φ f P x y) {w w' : σ}
    {e : ε} (hx : x.outcome w = (.error e, w')) : y.outcome (φ w) = (.error e, φ w') := by
  rw [h.outcome_eq, hx]
  rfl

protected theorem refl (x : Draw σ ε γ) : Carried id id (fun _ => True) x x := by
  refine ⟨.trivially x, fun w => ?_⟩
  rcases hx : x.outcome w with ⟨_ | _, _⟩ <;> simp [hx, Except.map]

protected theorem pure {a : γ} (h : P a) :
    Carried φ f P (pure a : Draw σ ε γ) (pure (f a) : Draw τ ε δ) :=
  ⟨.pure h, fun _ => rfl⟩

protected theorem throw (e : ε) :
    Carried φ f P (throw e : Draw σ ε γ) (throw e : Draw τ ε δ) :=
  ⟨.throw e, fun _ => rfl⟩

protected theorem bind {x : Draw σ ε γ} {y : Draw τ ε δ} {k : γ → Draw σ ε γ'}
    {l : δ → Draw τ ε δ'} (hx : Carried φ f P x y)
    (hk : ∀ a, P a → Carried φ g Q (k a) (l (f a))) :
    Carried φ g Q (x >>= k) (y >>= l) := by
  refine ⟨hx.answers.bind fun a ha => (hk a ha).answers, fun w => ?_⟩
  rcases hw : x.outcome w with ⟨e | a, w'⟩
  · rw [outcome_bind_of_error hw, outcome_bind_of_error (hx.outcome_of_error hw)]
    rfl
  · rw [outcome_bind_of_ok hw, outcome_bind_of_ok (hx.outcome_of_ok hw)]
    exact (hk a (hx.answers w a w' hw)).outcome_eq w'

theorem inSweep {x : Draw σ ε γ} {y : Draw τ ε δ} (h : Carried φ f P x y) :
    Carried φ f P x.inSweep y.inSweep := by
  refine ⟨h.answers.inSweep, fun w => ?_⟩
  rcases hw : x.outcome w with ⟨e | a, w'⟩
  · rw [outcome_inSweep_of_error hw, outcome_inSweep_of_error (h.outcome_of_error hw)]
    rfl
  · rw [outcome_inSweep_of_ok hw, outcome_inSweep_of_ok (h.outcome_of_ok hw)]
    rfl

theorem change {k : σ → σ} {l : τ → τ} (h : ∀ w, l (φ w) = φ (k w)) :
    Carried φ id (fun _ => True) (change k : Draw σ ε Unit) (change l : Draw τ ε Unit) := by
  refine ⟨.trivially _, fun w => ?_⟩
  rw [outcome_change, outcome_change, h]
  rfl

/-- A corresponding request repeated. -/
theorem times {x : Draw σ ε γ} {y : Draw τ ε γ} (h : Carried φ id (fun _ => True) x y) (n : Nat) :
    Carried φ id (fun _ => True) (times n x) (times n y) := by
  induction n with
  | zero => exact .pure trivial
  | succ n ih =>
    rw [times_succ, times_succ]
    refine h.bind fun a _ => ?_
    refine ih.bind fun rest _ => ?_
    exact .pure trivial

end Carried

end EnsembleSampling.Draw
