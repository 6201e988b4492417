import FrequencySampling.Search.Params

/-!
What the checks of the search parameters accept, in any arithmetic.
-/

namespace FrequencySampling

variable {α β : Type}

theorem Outcome.bind_eq_ok_iff {γ : Type} {x : Outcome α β} {k : β → Outcome α γ} {r : γ} :
    (x >>= k) = .ok r ↔ ∃ a, x = .ok a ∧ k a = .ok r := by
  cases x with
  | error e =>
      refine iff_of_false (fun h => ?_) fun ⟨_, hx, _⟩ => nomatch hx
      cases h
  | ok a =>
      refine ⟨fun h => ⟨a, rfl, h⟩, ?_⟩
      rintro ⟨_, hx, h⟩
      cases hx
      exact h

theorem Outcome.guard_eq_ok_iff {c : Prop} [Decidable c] {e : DesignError α}
    {k : PUnit → Outcome α β} {r : β} :
    (if c then throw e >>= k else k ⟨⟩) = .ok r ↔ ¬ c ∧ k ⟨⟩ = .ok r := by
  by_cases hc : c
  · rw [if_pos hc]
    constructor
    · intro h
      cases h
    · intro h
      exact absurd hc h.1
  · rw [if_neg hc]
    exact (and_iff_right hc).symm

/-- The last guard of a check. -/
theorem Outcome.throw_if_eq_ok_iff {c : Prop} [Decidable c] {e : DesignError α} {u : Unit} :
    (if c then throw e else pure () : Outcome α Unit) = .ok u ↔ ¬ c := by
  by_cases hc : c
  · rw [if_pos hc]
    constructor
    · intro h
      cases h
    · intro h
      exact absurd hc h
  · rw [if_neg hc]
    exact iff_of_true rfl hc

variable [Scalar α]

theorem LineSearchParams.accepts_iff {params : LineSearchParams α} :
    params.check = .ok () ↔ ¬ (!Scalar.isFinite params.tol ∨ params.tol ≤ 0) ∧
      params.maxIterations ≠ 0 ∧ params.maxBracketSteps ≠ 0 := by
  unfold check
  rw [Outcome.guard_eq_ok_iff]
  refine and_congr_right fun _ => ?_
  rw [Outcome.guard_eq_ok_iff]
  exact and_congr_right fun _ => Outcome.throw_if_eq_ok_iff

theorem PlaneSearchParams.accepts_iff {direction : PlaneSearchParams α} :
    direction.check = .ok () ↔
      ¬ (Scalar.isNaN direction.tweakFactor ∨ direction.tweakFactor ≤ 0 ∨
        1 ≤ direction.tweakFactor) ∧
      ¬ (Scalar.isNaN direction.startLevel ∨ direction.startLevel ≤ 0 ∨
        1 < direction.startLevel) ∧
      (∀ tol, direction.rippleTol = some tol → ¬ (!Scalar.isFinite tol ∨ tol ≤ 0)) ∧
      direction.maxOuterIterations ≠ 0 ∧
      ¬ (Scalar.isNaN direction.minLineSeparation ∨ direction.minLineSeparation < 0) := by
  unfold check
  rw [Outcome.guard_eq_ok_iff]
  refine and_congr_right fun _ => ?_
  rw [Outcome.guard_eq_ok_iff]
  refine and_congr_right fun _ => ?_
  cases direction.rippleTol with
  | none =>
      simp only [reduceCtorEq, false_implies, implies_true, true_and]
      rw [Outcome.guard_eq_ok_iff]
      exact and_congr_right fun _ => Outcome.throw_if_eq_ok_iff
  | some tol =>
      simp only [Option.some.injEq, forall_eq']
      rw [Outcome.guard_eq_ok_iff]
      refine and_congr_right fun _ => ?_
      rw [Outcome.guard_eq_ok_iff]
      exact and_congr_right fun _ => Outcome.throw_if_eq_ok_iff

theorem DesignParams.accepts_iff {params : DesignParams α} :
    params.check = .ok () ↔
      params.line.check = .ok () ∧ params.direction.check = .ok () ∧ params.points ≠ 0 := by
  unfold check
  simp only [Outcome.bind_eq_ok_iff, Outcome.throw_if_eq_ok_iff]
  constructor
  · rintro ⟨⟨⟩, hline, ⟨⟩, hdirection, hpoints⟩
    exact ⟨hline, hdirection, hpoints⟩
  · rintro ⟨hline, hdirection, hpoints⟩
    exact ⟨(), hline, (), hdirection, hpoints⟩

end FrequencySampling
