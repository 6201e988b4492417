import FrequencySampling.HalfSpectrum.SlotLine
import FrequencySampling.Proofs.ExactArithmetic

/-!
The part of a line inside the unit cube, in exact arithmetic. The parameters at which a slot that
moves takes the values zero and one enclose exactly those at which it is in between, so the bounds
gathered over all slots are exact: nothing inside is cut off, and nothing outside is let in.
-/

namespace FrequencySampling

theorem LineSlot.value_mem_iff {s : LineSlot ℝ} (hs : s.slope ≠ 0) (rho : ℝ) :
    s.value rho ∈ Set.Icc 0 1 ↔ min s.atZero s.atOne ≤ rho ∧ rho ≤ max s.atZero s.atOne := by
  unfold LineSlot.value LineSlot.atZero LineSlot.atOne
  rcases hs.lt_or_gt with hneg | hpos
  · have horder : (1 - s.origin) / s.slope ≤ -s.origin / s.slope :=
      (div_le_div_right_of_neg hneg).mpr (by linarith)
    rw [min_eq_right horder, max_eq_left horder, div_le_iff_of_neg hneg, le_div_iff_of_neg hneg]
    constructor
    · rintro ⟨h0, h1⟩
      exact ⟨by linarith, by linarith⟩
    · rintro ⟨h1, h0⟩
      exact ⟨by linarith, by linarith⟩
  · have horder : -s.origin / s.slope ≤ (1 - s.origin) / s.slope :=
      (div_le_div_iff_of_pos_right hpos).mpr (by linarith)
    rw [min_eq_left horder, max_eq_right horder, div_le_iff₀ hpos, le_div_iff₀ hpos]
    constructor
    · rintro ⟨h0, h1⟩
      exact ⟨by linarith, by linarith⟩
    · rintro ⟨h0, h1⟩
      exact ⟨by linarith, by linarith⟩

theorem LineSlot.value_of_not_moving {s : LineSlot ℝ} (hs : s.slope = 0) (rho : ℝ) :
    s.value rho = s.origin := by
  rw [LineSlot.value, hs, mul_zero, add_zero]

namespace SlotLine

/-- Every slot is within the unit interval at the parameter. -/
def InUnitCube (slots : List (LineSlot ℝ)) (rho : ℝ) : Prop :=
  ∀ s ∈ slots, s.value rho ∈ Set.Icc 0 1

namespace Bounds

/-- The parameter keeps to both bounds, as far as there are any. -/
def Allows (b : Bounds ℝ) (rho : ℝ) : Prop :=
  (∀ lo, b.lo = some lo → lo ≤ rho) ∧ ∀ hi, b.hi = some hi → rho ≤ hi

theorem allows_none (rho : ℝ) : (⟨none, none⟩ : Bounds ℝ).Allows rho := by
  simp [Allows]

theorem allows_some (lo hi rho : ℝ) :
    (⟨some lo, some hi⟩ : Bounds ℝ).Allows rho ↔ lo ≤ rho ∧ rho ≤ hi := by
  simp [Allows]

theorem allows_restrict (b : Bounds ℝ) {s : LineSlot ℝ} (hs : s.slope ≠ 0) (rho : ℝ) :
    (b.restrict s).Allows rho ↔ b.Allows rho ∧ s.value rho ∈ Set.Icc 0 1 := by
  rw [LineSlot.value_mem_iff hs]
  obtain ⟨lo, hi⟩ := b
  cases lo <;> cases hi <;>
    simp only [Allows, restrict, tighten, Scalar.isNaN_real, Scalar.larger_real,
      Scalar.smaller_real, Bool.false_eq_true, if_false, Option.some.injEq, forall_eq',
      reduceCtorEq, false_implies, implies_true, max_le_iff, le_min_iff, true_and]
  all_goals tauto

theorem ofSlots_moving {s : LineSlot ℝ} (hs : s.slope ≠ 0) (rest : List (LineSlot ℝ))
    (b : Bounds ℝ) : ofSlots (s :: rest) b = ofSlots rest (b.restrict s) := by
  simp [ofSlots, hs]

theorem ofSlots_fixed {s : LineSlot ℝ} (hs : s.slope = 0) (rest : List (LineSlot ℝ))
    (b : Bounds ℝ) :
    ofSlots (s :: rest) b = if s.origin ∈ Set.Icc (0 : ℝ) 1 then ofSlots rest b else none := by
  simp [ofSlots, hs]

/-- The bounds gathered over some slots allow exactly the parameters that were allowed before and
keep those slots inside. -/
theorem allows_ofSlots {slots : List (LineSlot ℝ)} {b c : Bounds ℝ}
    (h : ofSlots slots b = some c) (rho : ℝ) :
    c.Allows rho ↔ b.Allows rho ∧ InUnitCube slots rho := by
  induction slots generalizing b with
  | nil =>
      cases h
      simp [InUnitCube]
  | cons s rest ih =>
      rw [InUnitCube, List.forall_mem_cons]
      by_cases hs : s.slope = 0
      · rw [ofSlots_fixed hs] at h
        split at h
        · rename_i horigin
          rw [ih h, LineSlot.value_of_not_moving hs]
          simp only [horigin, true_and]
          rfl
        · cases h
      · rw [ofSlots_moving hs] at h
        rw [ih h, allows_restrict b hs, and_assoc]
        rfl

end Bounds

/-- Between the ends of its domain a line is inside the unit cube, and nowhere else. -/
theorem unitDomain_exact {line : SlotLine ℝ} {lo hi : ℝ} (h : line.unitDomain? = some (lo, hi))
    (rho : ℝ) : lo ≤ rho ∧ rho ≤ hi ↔ InUnitCube line.slots rho := by
  unfold unitDomain? at h
  split at h
  · rename_i lo' hi' hbounds
    split at h
    · cases h
      rw [← Bounds.allows_some, Bounds.allows_ofSlots hbounds]
      exact and_iff_right (Bounds.allows_none rho)
    · cases h
  · cases h

end SlotLine
end FrequencySampling
