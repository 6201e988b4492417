import FrequencySampling.Proofs.Placement

/-!
Whether the cutoff expected of a placement could be asked for. It lies below the folding frequency,
as it is not above the cutoff that was asked for. In odd lengths the crossing lies past the edge, so
it is positive too, and cutoffs below the crossing of the first sample are refused. In even lengths
the crossing does not lie past the edge, nothing is refused, and of a passband that is one sample
wide a cutoff at zero or below it is expected.
-/

namespace FrequencySampling

namespace Cutoff

variable {α : Type} [Scalar α]

/-- A cutoff that one of the two checked ways to give one leads to. -/
def Accepted (c : Cutoff α) : Prop :=
  (∃ numerator denominator, ofRatio numerator denominator c.level = .ok c) ∨
    ∃ frequency rate, ofHertz frequency rate c.level = .ok c

theorem between_of_checked {c c' : Cutoff α} (h : c.checked = .ok c') :
    0 < c'.fraction ∧ c'.fraction < 1 := by
  unfold checked at h
  split at h
  · rename_i hbetween
    cases h
    exact hbetween
  · cases h

/-- Over the reals every cutoff that is positive and below the folding frequency is accepted, and no
other one. -/
theorem accepted_iff {c : Cutoff ℝ} : c.Accepted ↔ 0 < c.fraction ∧ c.fraction < 1 := by
  constructor
  · rintro (⟨numerator, denominator, h⟩ | ⟨frequency, rate, h⟩)
    · unfold ofRatio at h
      split at h
      · cases h
      · exact between_of_checked h
    · unfold ofHertz at h
      split at h
      · cases h
      · exact between_of_checked h
  · intro hbetween
    have hone : ¬ ((1 : ℝ) == 0) = true := by simp
    refine .inl ⟨c.fraction, 1, ?_⟩
    rw [ofRatio, if_neg hone, div_one, checked, if_pos hbetween]

end Cutoff

namespace Placement

section Reach

variable {taps n : ℕ} {c : Cutoff ℝ}

theorem reach_neg_iff_lt_cutoffOf (htaps : 0 < taps) :
    reach taps c < 0 ↔ c.fraction < cutoffOf taps c.level 0 := by
  rw [← not_le, ← not_le, cutoffOf_le_iff htaps, Nat.cast_zero]

theorem crossing_odd_pos (level : CutoffLevel) : (0 : ℝ) < crossing true level := by
  cases level <;> norm_num

/-- Only an edge at the first sample of an even length leads to a cutoff that is not positive. -/
theorem cutoffOf_pos_iff (htaps : 0 < taps) (level : CutoffLevel) :
    0 < cutoffOf taps level n ↔ taps % 2 = 1 ∨ 0 < n := by
  have hpos : (0 : ℝ) < taps := Nat.cast_pos.mpr htaps
  have hsign : 0 < cutoffOf taps level n ↔ (0 : ℝ) < n + crossing (taps % 2 == 1) level := by
    rw [cutoffOf, div_pos_iff_of_pos_right hpos, mul_pos_iff_of_pos_left (by norm_num)]
  rw [hsign]
  by_cases hodd : taps % 2 = 1
  · have hn : (0 : ℝ) ≤ n := Nat.cast_nonneg n
    rw [show (taps % 2 == 1) = true by simp [hodd]]
    exact iff_of_true (add_pos_of_nonneg_of_pos hn (crossing_odd_pos level)) (.inl hodd)
  · rw [show (taps % 2 == 1) = false from beq_false_of_ne hodd]
    constructor
    · intro h
      have hnonpos := crossing_even_nonpos level
      exact .inr (Nat.cast_pos.mp (by linarith : (0 : ℝ) < n))
    · rintro (h | h)
      · exact absurd h hodd
      · have hn : (1 : ℝ) ≤ n := by exact_mod_cast h
        have hlower := crossing_lower false level
        linarith

end Reach

/-- Refused are exactly the cutoffs below the one that is expected of the first sample. What is
expected of a placement lies below the folding frequency. It is positive for every odd length, and
for an even length exactly if the cutoff leaves room for a second sample in the passband. -/
theorem predicted_pos_iff (taps : ℕ) (c : Cutoff ℝ) (htaps : 3 ≤ taps)
    (hsize : taps < UInt64.size) (hc : c.Accepted) :
    (∀ e, ofCutoff taps c = .error e ↔
      e = .invalidParameter (.cutoffBelowFirstSample c.fraction taps) ∧
        c.fraction < cutoffOf taps c.level 0) ∧
    (∀ p, ofCutoff taps c = .ok p →
      p.predicted < 1 ∧ (0 < p.predicted ↔ taps % 2 = 1 ∨ 0 < p.edge)) ∧
    ((∀ p, ofCutoff taps c = .ok p → 0 < p.predicted) ↔
      taps % 2 = 1 ∨ cutoffOf taps c.level 1 ≤ c.fraction) := by
  obtain ⟨hpos, hlt⟩ := Cutoff.accepted_iff.mp hc
  have htaps : 0 < taps := by omega
  have hplacement := ofCutoff_eq hsize hlt
  have hpredicted : ∀ p, ofCutoff taps c = .ok p →
      p.predicted < 1 ∧ (0 < p.predicted ↔ taps % 2 = 1 ∨ 0 < p.edge) := by
    intro p hp
    obtain ⟨hreach, rfl⟩ := eq_floor_of_ofCutoff hsize hlt hp
    have hle := (cutoffOf_le_iff (n := ⌊reach taps c⌋₊) htaps).mpr (Nat.floor_le hreach)
    exact ⟨hle.trans_lt hlt, cutoffOf_pos_iff htaps c.level⟩
  refine ⟨fun e => ?_, hpredicted, fun h => ?_, fun h p hp => ?_⟩
  · rw [hplacement, ← reach_neg_iff_lt_cutoffOf htaps]
    split_ifs with hreach
    · simp only [Except.error.injEq, hreach, and_true]
      exact eq_comm
    · simp [hreach]
  · by_cases hodd : taps % 2 = 1
    · exact .inl hodd
    · -- No cutoff is refused in an even length, so there is a placement to speak of.
      have hreach : ¬ reach taps c < 0 := fun hneg => hodd ((reach_neg_iff htaps hpos).mp hneg).1
      rw [if_neg hreach] at hplacement
      have hedge := ((hpredicted _ hplacement).2.mp (h _ hplacement)).resolve_left hodd
      have hone : ((1 : ℕ) : ℝ) ≤ reach taps c :=
        (Nat.le_floor_iff (not_lt.mp hreach)).mp hedge
      exact .inr ((cutoffOf_le_iff htaps).mpr hone)
  · refine (hpredicted p hp).2.mpr (h.imp_right fun hroom => ?_)
    obtain ⟨hreach, rfl⟩ := eq_floor_of_ofCutoff hsize hlt hp
    exact Nat.le_floor ((cutoffOf_le_iff htaps).mp hroom)

/-- A tenth of the folding frequency leaves room for a second sample in twenty taps. -/
theorem predicted_pos_twenty_taps : (⟨1 / 10, .halfPower⟩ : Cutoff ℝ).Accepted ∧
    ∃ p, ofCutoff 20 (⟨1 / 10, .halfPower⟩ : Cutoff ℝ) = .ok p ∧
      0 < p.predicted ∧ p.predicted < 1 := by
  have haccepted : (⟨1 / 10, .halfPower⟩ : Cutoff ℝ).Accepted :=
    Cutoff.accepted_iff.mpr (by norm_num)
  obtain ⟨hrefused, hbelow, hpositive⟩ := predicted_pos_iff 20 _ (by decide) (by decide) haccepted
  have hfirst : ¬ (1 / 10 : ℝ) < cutoffOf 20 .halfPower 0 := by
    rw [cutoffOf, show (20 % 2 == 1) = false from rfl, crossing_even_halfPower]
    norm_num
  have hroom : cutoffOf 20 .halfPower 1 ≤ (1 / 10 : ℝ) := by
    rw [cutoffOf, show (20 % 2 == 1) = false from rfl, crossing_even_halfPower]
    norm_num
  cases hp : ofCutoff 20 (⟨1 / 10, .halfPower⟩ : Cutoff ℝ) with
  | error e => exact absurd ((hrefused e).mp hp).2 hfirst
  | ok p => exact ⟨haccepted, p, rfl, hpositive.mpr (.inr hroom) p hp, (hbelow p hp).1⟩

/-- A hundredth of the folding frequency is accepted, and placed in twenty taps; the cutoff that is
then expected lies below zero. -/
theorem not_predicted_pos_twenty_taps :
    Cutoff.ofRatio 1 100 .halfPower = .ok (⟨1 / 100, .halfPower⟩ : Cutoff ℝ) ∧
      ∃ p, ofCutoff 20 (⟨1 / 100, .halfPower⟩ : Cutoff ℝ) = .ok p ∧
        p.edge = 0 ∧ p.predicted = -207 / 10000 ∧ ¬ (0 < p.predicted ∧ p.predicted < 1) := by
  have hratio : Cutoff.ofRatio 1 100 .halfPower = .ok (⟨1 / 100, .halfPower⟩ : Cutoff ℝ) := by
    have hnonzero : ¬ ((100 : ℝ) == 0) = true := by simp
    rw [Cutoff.ofRatio, if_neg hnonzero, Cutoff.checked, if_pos (by norm_num)]
  have hreach : reach 20 ⟨1 / 100, .halfPower⟩ = 307 / 1000 := by
    rw [reach, show (20 % 2 == 1) = false from rfl, crossing_even_halfPower]
    norm_num
  have hedge : ⌊reach 20 ⟨1 / 100, .halfPower⟩⌋₊ = 0 := by
    rw [hreach, Nat.floor_eq_zero]
    norm_num
  have hpredicted : cutoffOf 20 .halfPower 0 = -207 / 10000 := by
    rw [cutoffOf, show (20 % 2 == 1) = false from rfl, crossing_even_halfPower]
    norm_num
  have hp := @ofCutoff_eq 20 ⟨1 / 100, .halfPower⟩ (by decide) (by norm_num)
  rw [if_neg (by rw [hreach]; norm_num), hedge, hpredicted] at hp
  exact ⟨hratio, _, hp, rfl, rfl, by norm_num⟩

end Placement
end FrequencySampling
