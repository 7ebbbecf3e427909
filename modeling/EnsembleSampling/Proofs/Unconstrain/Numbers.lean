import EnsembleSampling.Proofs.Unconstrain.Exact
set_option autoImplicit false

/-!
# Whether what is written is a number

A value at the end of its constraint is written as an infinity, which is as it should be.  From
finite arguments nothing worse is written, with one exception: a simplex whose last entry is
zero, beside another entry that is zero.  The two logarithms are equal infinities then, and have
no difference (`Call.undefined_mem_output_iff`).
-/

namespace EnsembleSampling

open Extended (real)

namespace Extended

/-! ## Values at the ends of a domain -/

theorem log_ne_undefined {a : ℝ} (ha : 0 ≤ a) : Elementary.log (real a) ≠ undefined := by
  rcases ha.eq_or_lt with rfl | hpos
  · rw [log_real_zero]
    exact nofun
  · rw [log_real hpos]
    exact nofun

theorem atanh_ne_undefined {a : ℝ} (h : -1 ≤ a) (h' : a ≤ 1) :
    Elementary.atanh (real a) ≠ undefined := by
  rcases h.eq_or_lt with rfl | hlower
  · rw [atanh_real_neg_one]
    exact nofun
  · rcases h'.eq_or_lt with rfl | hupper
    · rw [atanh_real_one]
      exact nofun
    · rw [atanh_real hlower hupper]
      exact nofun

theorem logit_ne_undefined {a : ℝ} (h : 0 ≤ a) (h' : a ≤ 1) :
    Elementary.logit (real a) ≠ undefined := by
  rcases h.eq_or_lt with rfl | hlower
  · rw [logit_real_zero]
    exact nofun
  · rcases h'.eq_or_lt with rfl | hupper
    · rw [logit_real_one]
      exact nofun
    · rw [logit_real hlower hupper]
      exact nofun

theorem number_sub_number_eq_undefined_iff {x y : EReal} :
    number x - number y = undefined ↔ x = y ∧ (x = ⊤ ∨ x = ⊥) := by
  change (if x = y ∧ (x = ⊤ ∨ x = ⊥) then undefined else number (x - y)) = undefined ↔ _
  split
  · rename_i h
    exact iff_of_true rfl h
  · rename_i h
    exact iff_of_false nofun h

/-- The logarithms of two numbers have no difference just if both numbers are zero. -/
theorem log_sub_log_eq_undefined_iff {a b : ℝ} (ha : 0 ≤ a) (hb : 0 ≤ b) :
    Elementary.log (real a) - Elementary.log (real b) = undefined ↔ a = 0 ∧ b = 0 := by
  rcases ha.eq_or_lt with rfl | hapos <;> rcases hb.eq_or_lt with rfl | hbpos
  · simp [log_real_zero, number_sub_number_eq_undefined_iff]
  · rw [log_real_zero, log_real hbpos, real, number_sub_number_eq_undefined_iff]
    simp [hbpos.ne']
  · rw [log_real_zero, log_real hapos, real, number_sub_number_eq_undefined_iff]
    simp [hapos.ne']
  · rw [log_real hapos, log_real hbpos, real_sub_real]
    simp [real, hapos.ne']

end Extended

namespace Unconstrain

/-! ## What is no number -/

theorem atanh_partials_ne_undefined {zs : List ℝ} (h : ∀ z ∈ zs, |z| < 1) :
    ∀ v ∈ (zs.map real).map Elementary.atanh, v ≠ Extended.undefined := by
  rw [List.map_map]
  refine List.forall_mem_map.mpr fun z hz => ?_
  obtain ⟨hlower, hupper⟩ := abs_lt.mp (h z hz)
  exact Extended.atanh_ne_undefined hlower.le hupper.le

theorem log_scales_ne_undefined {scales : List ℝ} (h : ∀ s ∈ scales, 0 < s) :
    ∀ v ∈ (scales.map real).map Elementary.log, v ≠ Extended.undefined := by
  rw [List.map_map]
  exact List.forall_mem_map.mpr fun s hs => Extended.log_ne_undefined (h s hs).le

/-- The logarithms of a simplex against its last entry are numbers or infinities, unless the
last entry is zero and not the only one that is. -/
theorem undefined_mem_logRatios_iff {rest : List ℝ} {last : ℝ} (hrest : ∀ x ∈ rest, 0 ≤ x)
    (hlast : 0 ≤ last) :
    Extended.undefined ∈ rest.map (fun x => Elementary.log (real x) - Elementary.log (real last)) ↔
      last = 0 ∧ 0 ∈ rest := by
  rw [List.mem_map]
  constructor
  · rintro ⟨x, hx, hundefined⟩
    obtain ⟨rfl, rfl⟩ :=
      (Extended.log_sub_log_eq_undefined_iff (hrest x hx) hlast).mp hundefined
    exact ⟨rfl, hx⟩
  · rintro ⟨rfl, hx⟩
    exact ⟨0, hx, (Extended.log_sub_log_eq_undefined_iff le_rfl le_rfl).mpr ⟨rfl, rfl⟩⟩

/-- From finite arguments that are accepted only numbers and infinities are written, unless
they are the entries of a simplex whose last entry is zero and not the only one that is. -/
theorem Call.undefined_mem_output_iff {c : Call Exact Extended} (hc : c.IsFinite)
    {o : Output Extended} (h : c.output = .ok o) :
    Extended.undefined ∈ o.reals ↔
      ∃ y, c = .simplex y ∧ y.entries.getLast? = some 0 ∧ 0 ∈ y.entries.dropLast := by
  have hwrites := Call.writes_of_output hc h
  revert hwrites
  generalize o.reals = vs
  intro hwrites
  cases hwrites with
  | integer n => simp
  | unbounded hy => simp [real]
  | positive hy nonneg => simp [(Extended.log_ne_undefined nonneg).symm]
  | lowerBounded hlb hy above => simp [(Extended.log_ne_undefined (sub_nonneg.mpr above)).symm]
  | upperBounded hub hy below => simp [(Extended.log_ne_undefined (sub_nonneg.mpr below)).symm]
  | @doublyBounded lb ub y p q r hlb hub hy ordered above below =>
    have hne := Extended.logit_ne_undefined
      (div_nonneg (sub_nonneg.mpr above) (sub_nonneg.mpr ordered.le))
      (div_le_one_of_le₀ (sub_le_sub_right below p) (sub_nonneg.mpr ordered.le))
    simp [hne.symm]
  | correlation hy above below => simp [(Extended.atanh_ne_undefined above below).symm]
  | probability hy above below => simp [(Extended.logit_ne_undefined above below).symm]
  | positiveOrdered rank nonneg =>
    refine iff_of_false ?_ (by rintro ⟨_, ⟨⟩, -⟩)
    rw [List.mem_map]
    rintro ⟨d, hd, hundefined⟩
    exact Extended.log_ne_undefined (nonneg d hd) hundefined
  | @simplex t rest last rank entries nonneg =>
    have hmapped : (t.map real).entries = rest.map real ++ [real last] := by
      rw [Tensor.map, entries, List.map_append]
      rfl
    rw [entries, List.forall_mem_append, List.forall_mem_singleton] at nonneg
    rw [undefined_mem_logRatios_iff nonneg.1 nonneg.2]
    constructor
    · rintro ⟨rfl, hzero⟩
      refine ⟨_, rfl, ?_, ?_⟩
      · rw [hmapped, List.getLast?_concat, Extended.real_zero]
      · rw [hmapped, List.dropLast_concat]
        exact List.mem_map_of_mem hzero
    · rintro ⟨y, hy, hlast, hzero⟩
      obtain rfl := Call.simplex.inj hy
      rw [hmapped, List.getLast?_concat, Option.some.injEq] at hlast
      rw [hmapped, List.dropLast_concat, List.mem_map] at hzero
      obtain ⟨x, hx, hxzero⟩ := hzero
      rw [← Extended.real_zero, Extended.real_inj] at hlast hxzero
      exact ⟨hlast, hxzero ▸ hx⟩
  | correlationMatrix shape square factored =>
    refine iff_of_false ?_ (by rintro ⟨_, ⟨⟩, -⟩)
    exact fun hmem => atanh_partials_ne_undefined factored.abs_lt_one _ hmem rfl
  | covarianceMatrix shape square factored =>
    refine iff_of_false ?_ (by rintro ⟨_, ⟨⟩, -⟩)
    rw [List.mem_append]
    rintro (hmem | hmem)
    · exact atanh_partials_ne_undefined factored.abs_lt_one _ hmem rfl
    · exact log_scales_ne_undefined factored.pos _ hmem rfl

/-- The first vertex of a simplex, whose last entry is zero and not the only one that is. -/
noncomputable def firstVertex : Call Exact Extended := .simplex ⟨[3], [1, 0, 0]⟩

/-- At a vertex that is finite and accepted, something is written that is no number. -/
theorem firstVertex_writes_undefined :
    firstVertex.IsFinite ∧ firstVertex.output = .ok ⟨[.number ⊤, .undefined], []⟩ := by
  refine ⟨⟨by simp [firstVertex, Call.scalars], ?_, ?_⟩, ?_⟩
  · intro y hy
    obtain rfl := Option.some.inj hy
    simp [← Extended.real_zero, ← Extended.real_one]
  · intro y hy
    obtain rfl := Option.some.inj hy
    rfl
  · have hsum : blockSum [(1 : Extended), 0, 0] = 1 := by
      rw [blockSum, pairedSum, if_neg (by simp)]
      simp [sumLanes, sumLeft, ← Extended.real_zero, ← Extended.real_one]
    have haccepted := simplex_of_blockSum (y := ⟨[3], [1, 0, 0]⟩) rfl (by simp) hsum
      (by simp [← Extended.real_zero, ← Extended.real_one])
    have hfirst : Elementary.log (1 : Extended) - Elementary.log 0 = .number ⊤ := by
      rw [← Extended.real_one, ← Extended.real_zero, Extended.log_real zero_lt_one,
        Extended.log_real_zero, Extended.real_sub_bot]
    have hsecond : Elementary.log (0 : Extended) - Elementary.log 0 = .undefined :=
      (Extended.log_sub_log_eq_undefined_iff le_rfl le_rfl).mpr ⟨rfl, rfl⟩
    have hratios : logRatios [(1 : Extended), 0, 0] = [.number ⊤, .undefined] := by
      simp [logRatios, hfirst, hsecond]
    change (simplex ⟨[3], [1, 0, 0]⟩).map Output.ofReals = _
    rw [haccepted, hratios]
    rfl

/-- Zero as a positive scalar is at the end of its constraint, and is written as an infinity. -/
theorem undefined_mem_output_iff_zero :
    (Call.positive (.integer 0) : Call Exact Extended).IsFinite ∧
    (Call.positive (.integer 0) : Call Exact Extended).output = .ok (.real (.number ⊥)) ∧
    (Extended.undefined ∈ [Extended.number ⊥] ↔
      ∃ y, (Call.positive (.integer 0) : Call Exact Extended) = .simplex y ∧
        y.entries.getLast? = some 0 ∧ 0 ∈ y.entries.dropLast) := by
  have hfinite : (Call.positive (.integer 0) : Call Exact Extended).IsFinite := by
    refine Call.isFinite_of_scalars rfl ?_
    simp [Call.scalars, Exact.value]
  have hvalue : (Exact.integer 0).value = real 0 := congrArg real Int.cast_zero
  have houtput : (Call.positive (.integer 0) : Call Exact Extended).output =
      .ok (.real (.number ⊥)) := by
    have hle := (atMost_eq_ok_true (value_ofInt 0) hvalue).mpr (by simp)
    have hpositive : positive (Exact.integer 0) = .ok (Elementary.log (Exact.integer 0).value) :=
      positive_eq_ok_iff.mpr ⟨hle, rfl⟩
    rw [Call.output, hpositive, hvalue, Extended.log_real_zero]
    rfl
  exact ⟨hfinite, houtput, Call.undefined_mem_output_iff hfinite houtput⟩

end Unconstrain

end EnsembleSampling
