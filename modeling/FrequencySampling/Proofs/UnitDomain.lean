import FrequencySampling.Proofs.RationalArithmetic
import FrequencySampling.Proofs.SlotLine

/-!
When a line has a domain in the unit cube, in exact arithmetic. It has one as soon as a slot moves
and some parameter keeps all slots inside: the moving slot bounds the parameter on both sides, and
the parameter that keeps them inside is between the bounds. Rational lines are read as real ones:
every step of the computation commutes with the reading, so their domains are the same.
-/

namespace FrequencySampling
namespace SlotLine

namespace Bounds

/-- The bounds leave a finite interval. -/
def Closed {α : Type} (b : Bounds α) : Prop :=
  ∃ lo hi, b = ⟨some lo, some hi⟩

theorem not_closed_none {α : Type} : ¬ (⟨none, none⟩ : Bounds α).Closed := by
  rintro ⟨lo, hi, h⟩
  cases h

theorem closed_restrict (b : Bounds ℝ) (s : LineSlot ℝ) : (b.restrict s).Closed := by
  obtain ⟨lo, hi⟩ := b
  cases lo <;> cases hi <;> exact ⟨_, _, rfl⟩

/-- The bounds gathered over some slots are closed exactly if they were before or a slot moves. -/
theorem closed_ofSlots {slots : List (LineSlot ℝ)} {b c : Bounds ℝ}
    (h : ofSlots slots b = some c) : c.Closed ↔ b.Closed ∨ ∃ s ∈ slots, s.slope ≠ 0 := by
  induction slots generalizing b with
  | nil =>
      cases h
      simp
  | cons s rest ih =>
      by_cases hs : s.slope = 0
      · rw [ofSlots_fixed hs] at h
        split at h
        · rw [ih h, List.exists_mem_cons_iff]
          simp [hs]
        · cases h
      · rw [ofSlots_moving hs] at h
        have hclosed : c.Closed := (ih h).mpr (.inl (b.closed_restrict s))
        exact iff_of_true hclosed (.inr ⟨s, List.mem_cons_self, hs⟩)

/-- A parameter that keeps all slots inside shows that no slot is in the way of the bounds. -/
theorem exists_ofSlots {slots : List (LineSlot ℝ)} {rho : ℝ} (h : InUnitCube slots rho)
    (b : Bounds ℝ) : ∃ c, ofSlots slots b = some c := by
  induction slots generalizing b with
  | nil => exact ⟨b, rfl⟩
  | cons s rest ih =>
      obtain ⟨hvalue, hrest⟩ := List.forall_mem_cons.mp h
      by_cases hs : s.slope = 0
      · rw [LineSlot.value_of_not_moving hs] at hvalue
        rw [ofSlots_fixed hs, if_pos hvalue]
        exact ih hrest b
      · rw [ofSlots_moving hs]
        exact ih hrest (b.restrict s)

end Bounds

theorem unitDomain_eq_some_iff {line : SlotLine ℝ} {lo hi : ℝ} :
    line.unitDomain? = some (lo, hi) ↔
      Bounds.ofSlots line.slots ⟨none, none⟩ = some ⟨some lo, some hi⟩ ∧ lo ≤ hi := by
  unfold unitDomain?
  constructor
  · intro h
    split at h
    · rename_i lo' hi' hbounds
      split at h
      · rename_i hord
        cases h
        exact ⟨hbounds, hord.2.2⟩
      · cases h
    · cases h
  · rintro ⟨hbounds, hle⟩
    rw [hbounds]
    simp [hle]

theorem unitDomain_isSome_iff (line : SlotLine ℝ) :
    line.unitDomain?.isSome ↔
      (∃ s ∈ line.slots, s.slope ≠ 0) ∧ ∃ rho, InUnitCube line.slots rho := by
  constructor
  · intro h
    obtain ⟨⟨lo, hi⟩, hdomain⟩ := Option.isSome_iff_exists.mp h
    obtain ⟨hbounds, hle⟩ := unitDomain_eq_some_iff.mp hdomain
    have hmoves : ∃ s ∈ line.slots, s.slope ≠ 0 :=
      ((Bounds.closed_ofSlots hbounds).mp ⟨lo, hi, rfl⟩).resolve_left Bounds.not_closed_none
    exact ⟨hmoves, lo, (unitDomain_exact hdomain lo).mp ⟨le_rfl, hle⟩⟩
  · rintro ⟨hmoves, rho, hrho⟩
    obtain ⟨c, hbounds⟩ := Bounds.exists_ofSlots hrho ⟨none, none⟩
    obtain ⟨lo, hi, rfl⟩ := (Bounds.closed_ofSlots hbounds).mpr (.inr hmoves)
    have hwithin : lo ≤ rho ∧ rho ≤ hi :=
      (Bounds.allows_some lo hi rho).mp
        ((Bounds.allows_ofSlots hbounds rho).mpr ⟨Bounds.allows_none rho, hrho⟩)
    have hdomain : line.unitDomain? = some (lo, hi) :=
      unitDomain_eq_some_iff.mpr ⟨hbounds, hwithin.1.trans hwithin.2⟩
    rw [hdomain, Option.isSome_some]

end SlotLine

section Rational

theorem Scalar.larger_cast (a b : ℚ) :
    ((Scalar.larger a b : ℚ) : ℝ) = Scalar.larger (a : ℝ) (b : ℝ) := by
  unfold Scalar.larger
  simp only [Rat.cast_lt]
  split <;> rfl

theorem Scalar.smaller_cast (a b : ℚ) :
    ((Scalar.smaller a b : ℚ) : ℝ) = Scalar.smaller (a : ℝ) (b : ℝ) := by
  unfold Scalar.smaller
  simp only [Rat.cast_lt]
  split <;> rfl

namespace LineSlot

/-- A rational slot read as a real one. -/
noncomputable def toReal (s : LineSlot ℚ) : LineSlot ℝ :=
  ⟨s.origin, s.slope⟩

theorem value_toReal (s : LineSlot ℚ) (rho : ℚ) : s.toReal.value rho = (s.value rho : ℚ) := by
  simp [toReal, value]

theorem value_toReal_mem_iff (s : LineSlot ℚ) (rho : ℚ) :
    s.toReal.value rho ∈ Set.Icc (0 : ℝ) 1 ↔ 0 ≤ s.value rho ∧ s.value rho ≤ 1 := by
  rw [value_toReal, Set.mem_Icc, Rat.cast_nonneg, ← Rat.cast_one, Rat.cast_le]

theorem atZero_toReal (s : LineSlot ℚ) : s.toReal.atZero = (s.atZero : ℚ) := by
  simp [toReal, atZero]

theorem atOne_toReal (s : LineSlot ℚ) : s.toReal.atOne = (s.atOne : ℚ) := by
  simp [toReal, atOne]

end LineSlot

namespace SlotLine

/-- A rational line read as a real one. -/
noncomputable def toReal (line : SlotLine ℚ) : SlotLine ℝ :=
  ⟨line.slots.map LineSlot.toReal⟩

namespace Bounds

/-- Rational bounds read as real ones. -/
noncomputable def toReal (b : Bounds ℚ) : Bounds ℝ :=
  ⟨b.lo.map (↑), b.hi.map (↑)⟩

theorem restrict_toReal (b : Bounds ℚ) (s : LineSlot ℚ) :
    b.toReal.restrict s.toReal = (b.restrict s).toReal := by
  obtain ⟨lo, hi⟩ := b
  unfold restrict
  rw [LineSlot.atZero_toReal, LineSlot.atOne_toReal, ← Scalar.smaller_cast, ← Scalar.larger_cast]
  cases lo <;> cases hi <;> simp [toReal, tighten, Scalar.smaller_cast, Scalar.larger_cast]

/-- Gathering bounds commutes with the reading, for slots that move and for those that do not. -/
theorem ofSlots_toReal (slots : List (LineSlot ℚ)) (b : Bounds ℚ) :
    ofSlots (slots.map LineSlot.toReal) b.toReal = (ofSlots slots b).map toReal := by
  induction slots generalizing b with
  | nil => rfl
  | cons s rest ih =>
      rw [List.map_cons]
      by_cases hs : s.slope = 0
      · have hreal : s.toReal.slope = 0 := by rw [LineSlot.toReal, hs, Rat.cast_zero]
        have hrange : s.toReal.origin ∈ Set.Icc (0 : ℝ) 1 ↔ 0 ≤ s.origin ∧ s.origin ≤ 1 := by
          rw [LineSlot.toReal, Set.mem_Icc, Rat.cast_nonneg, ← Rat.cast_one, Rat.cast_le]
        have hfixed : ofSlots (s :: rest) b =
            if 0 ≤ s.origin ∧ s.origin ≤ 1 then ofSlots rest b else none := by
          simp [ofSlots, hs]
        rw [ofSlots_fixed hreal, hfixed, if_congr hrange (ih b) rfl]
        split <;> rfl
      · have hreal : s.toReal.slope ≠ 0 := by simpa [LineSlot.toReal] using hs
        have hmoving : ofSlots (s :: rest) b = ofSlots rest (b.restrict s) := by
          simp [ofSlots, hs]
        rw [ofSlots_moving hreal, hmoving, restrict_toReal, ih]

end Bounds

theorem unitDomain_toReal (line : SlotLine ℚ) :
    line.toReal.unitDomain? = line.unitDomain?.map (Prod.map (↑) (↑)) := by
  have hbounds : Bounds.ofSlots line.toReal.slots ⟨none, none⟩ =
      (Bounds.ofSlots line.slots ⟨none, none⟩).map Bounds.toReal :=
    Bounds.ofSlots_toReal line.slots ⟨none, none⟩
  unfold unitDomain?
  rw [hbounds]
  rcases Bounds.ofSlots line.slots ⟨none, none⟩ with _ | ⟨_ | lo, _ | hi⟩
  case some.some.some =>
    have hguard : (Scalar.isFinite (lo : ℝ) ∧ Scalar.isFinite (hi : ℝ) ∧ (lo : ℝ) ≤ hi) ↔
        (Scalar.isFinite lo ∧ Scalar.isFinite hi ∧ lo ≤ hi) := by
      rw [Rat.cast_le]
      rfl
    simp only [Bounds.toReal, Option.map_some, hguard]
    split <;> rfl
  all_goals rfl

theorem unitDomain_toReal_of_some {line : SlotLine ℚ} {lo hi : ℚ}
    (h : line.unitDomain? = some (lo, hi)) :
    line.toReal.unitDomain? = some ((lo : ℝ), (hi : ℝ)) := by
  rw [unitDomain_toReal, h]
  rfl

theorem le_of_unitDomain_rat {line : SlotLine ℚ} {lo hi : ℚ}
    (h : line.unitDomain? = some (lo, hi)) : lo ≤ hi :=
  Rat.cast_le.mp (unitDomain_eq_some_iff.mp (unitDomain_toReal_of_some h)).2

theorem isSome_unitDomain_toReal (line : SlotLine ℚ) :
    line.toReal.unitDomain?.isSome = line.unitDomain?.isSome := by
  rw [unitDomain_toReal, Option.isSome_map]

theorem moves_toReal (line : SlotLine ℚ) :
    (∃ s ∈ line.toReal.slots, s.slope ≠ 0) ↔ ∃ s ∈ line.slots, s.slope ≠ 0 := by
  simp [toReal, LineSlot.toReal]

theorem inUnitCube_toReal (line : SlotLine ℚ) (rho : ℚ) :
    InUnitCube line.toReal.slots rho ↔
      ∀ s ∈ line.slots, 0 ≤ s.value rho ∧ s.value rho ≤ 1 := by
  simp only [InUnitCube, toReal, List.forall_mem_map, LineSlot.value_toReal_mem_iff]

end SlotLine
end Rational

namespace SlotLine

variable {α : Type} [Scalar α]

/-- The domain of a line is all of its part in the unit cube, and it is missing only where no slot
moves or nothing is inside. -/
structure HasExactDomain (line : SlotLine α) : Prop where
  isSome_iff : line.unitDomain?.isSome ↔
    (∃ s ∈ line.slots, s.slope ≠ 0) ∧
      ∃ rho, ∀ s ∈ line.slots, 0 ≤ s.origin + rho * s.slope ∧ s.origin + rho * s.slope ≤ 1
  mem_iff : ∀ lo hi, line.unitDomain? = some (lo, hi) → ∀ rho, lo ≤ rho ∧ rho ≤ hi ↔
    ∀ s ∈ line.slots, 0 ≤ s.origin + rho * s.slope ∧ s.origin + rho * s.slope ≤ 1

theorem hasExactDomain_real (line : SlotLine ℝ) : line.HasExactDomain :=
  ⟨unitDomain_isSome_iff line, fun _ _ hdomain rho => unitDomain_exact hdomain rho⟩

theorem hasExactDomain_rat (line : SlotLine ℚ) : line.HasExactDomain := by
  have hmem : ∀ lo hi, line.unitDomain? = some (lo, hi) → ∀ rho, lo ≤ rho ∧ rho ≤ hi ↔
      ∀ s ∈ line.slots, 0 ≤ s.value rho ∧ s.value rho ≤ 1 := by
    intro lo hi hdomain rho
    rw [← inUnitCube_toReal, ← unitDomain_exact (unitDomain_toReal_of_some hdomain),
      Rat.cast_le, Rat.cast_le]
  refine ⟨⟨fun hsome => ⟨?_, ?_⟩, ?_⟩, hmem⟩
  · rw [← isSome_unitDomain_toReal, unitDomain_isSome_iff, moves_toReal] at hsome
    exact hsome.1
  · -- The ends of a rational line's domain are rational.
    obtain ⟨⟨lo, hi⟩, hdomain⟩ := Option.isSome_iff_exists.mp hsome
    exact ⟨lo, (hmem lo hi hdomain lo).mp ⟨le_rfl, le_of_unitDomain_rat hdomain⟩⟩
  · rintro ⟨hmoves, rho, hrho⟩
    rw [← isSome_unitDomain_toReal, unitDomain_isSome_iff, moves_toReal]
    exact ⟨hmoves, rho, (inUnitCube_toReal line rho).mpr hrho⟩

/-- In exact arithmetic every line has an exact domain. -/
theorem hasExactDomain :
    (∀ line : SlotLine ℝ, line.HasExactDomain) ∧ ∀ line : SlotLine ℚ, line.HasExactDomain :=
  ⟨hasExactDomain_real, hasExactDomain_rat⟩

example : (⟨[⟨0, 1⟩, ⟨mkRat 3 2, -2⟩, ⟨1, 0⟩]⟩ : SlotLine ℚ).unitDomain? =
    some (mkRat 1 4, mkRat 3 4) := by
  decide +kernel

end SlotLine
end FrequencySampling
