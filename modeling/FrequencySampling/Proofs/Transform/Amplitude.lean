import FrequencySampling.ImpulseResponse.Amplitude
import FrequencySampling.Proofs.Transform.Reflection
import FrequencySampling.Proofs.Transform.Synthesis

/-!
The amplitude in exact arithmetic. Of taps with the symmetry they claim, the four half-length sums
are one sum of waves over all taps. Synthesis yields such taps and scaling keeps them so.
-/

namespace FrequencySampling
open Finset Real

theorem sum_mirrored_of_odd {taps : ℕ} (h : taps % 2 = 1) {F : ℕ → ℝ}
    (hF : ∀ n < taps, F (taps - 1 - n) = F n) :
    ∑ n ∈ range taps, F n =
      F ((taps - 1) / 2) + ∑ k ∈ range ((taps - 1) / 2), 2 * F ((taps - 1) / 2 - (k + 1)) := by
  obtain ⟨m, rfl⟩ : ∃ m, taps = m + (m + 1) := ⟨taps / 2, by omega⟩
  have hm : (m + (m + 1) - 1) / 2 = m := by omega
  rw [hm, sum_range_add, sum_range_succ', ← sum_range_reflect, add_zero, ← add_assoc,
    ← sum_add_distrib, add_comm]
  congr 1
  refine sum_congr rfl fun k hk => ?_
  have hk := mem_range.mp hk
  have hright : F (m + (k + 1)) = F (m - (k + 1)) := by
    rw [← hF (m - (k + 1)) (by omega)]
    congr 1
    omega
  rw [hright, Nat.sub_sub, add_comm 1 k]
  ring

theorem sum_mirrored_of_even {taps : ℕ} (h : taps % 2 = 0) {F : ℕ → ℝ}
    (hF : ∀ n < taps, F (taps - 1 - n) = F n) :
    ∑ n ∈ range taps, F n = ∑ k ∈ range (taps / 2), 2 * F (taps / 2 - (k + 1)) := by
  obtain ⟨m, rfl⟩ : ∃ m, taps = m + m := ⟨taps / 2, by omega⟩
  have hm : (m + m) / 2 = m := by omega
  rw [hm, sum_range_add, ← sum_range_reflect, ← sum_add_distrib]
  refine sum_congr rfl fun k hk => ?_
  have hk := mem_range.mp hk
  have hright : F (m + k) = F (m - (k + 1)) := by
    rw [← hF (m - (k + 1)) (by omega)]
    congr 1
    omega
  rw [hright, Nat.sub_sub, add_comm 1 k]
  ring

namespace ImpulseResponse

/-- The taps have the symmetry of their type. -/
structure Mirrored (h : ImpulseResponse ℝ) : Prop where
  admits : h.phase.admits h.numTaps
  tap_reflect : ∀ n < h.numTaps, h.tap (h.numTaps - 1 - n) = h.phase.mirrorSign * h.tap n

theorem Mirrored.term_reflect {h : ImpulseResponse ℝ} (hm : h.Mirrored) (lambda : ℝ) {n : ℕ}
    (hn : n < h.numTaps) :
    h.tap (h.numTaps - 1 - n) *
        h.phase.wave (toMiddle h.numTaps (h.numTaps - 1 - n) * lambda) =
      h.tap n * h.phase.wave (toMiddle h.numTaps n * lambda) := by
  rw [hm.tap_reflect n hn, toMiddle_reflect hn, neg_mul, LinearPhase.wave_neg, mul_mul_mul_comm,
    LinearPhase.mirrorSign_mul_self, one_mul]

theorem toMiddle_of_odd {taps k : ℕ} (h : taps % 2 = 1) (hk : k ≤ (taps - 1) / 2) :
    toMiddle taps ((taps - 1) / 2 - k) = k := by
  obtain ⟨m, rfl⟩ : ∃ m, taps = 2 * m + 1 := ⟨taps / 2, by omega⟩
  have hm : (2 * m + 1 - 1) / 2 = m := by omega
  rw [hm] at hk ⊢
  rw [toMiddle, Nat.cast_sub hk]
  push_cast
  ring

theorem toMiddle_of_even {taps k : ℕ} (h : taps % 2 = 0) (hk : k ≤ taps / 2) :
    toMiddle taps (taps / 2 - k) = k - 1 / 2 := by
  obtain ⟨m, rfl⟩ : ∃ m, taps = 2 * m := ⟨taps / 2, by omega⟩
  have hm : 2 * m / 2 = m := by omega
  rw [hm] at hk ⊢
  rw [toMiddle, Nat.cast_sub hk]
  push_cast
  ring

/-- The half-length sum of each type is the sum of its waves over all taps. -/
theorem Mirrored.amplitudeAt_eq_sum {h : ImpulseResponse ℝ} (hm : h.Mirrored) (lambda : ℝ) :
    h.amplitudeAt lambda =
      ∑ n ∈ range h.numTaps, h.tap n * h.phase.wave (toMiddle h.numTaps n * lambda) := by
  have hF := fun n hn => hm.term_reflect (n := n) lambda hn
  have hp := (LinearPhase.admits_iff _ _).mp hm.admits
  unfold amplitudeAt
  generalize h.numTaps = taps at *
  cases hphase : h.phase with
  | typeI | typeIII =>
      simp only [hphase, LinearPhase.hasOddLength, iff_true] at hp hF
      have hmiddle : toMiddle taps ((taps - 1) / 2) = 0 := by
        simpa using toMiddle_of_odd hp (Nat.zero_le _)
      dsimp only
      rw [sum_mirrored_of_odd hp hF, Scalar.sumUpTo_real, hmiddle]
      congr 1
      · simp [LinearPhase.wave, LinearPhase.isEven]
      · refine sum_congr rfl fun k hk => ?_
        have hk := mem_range.mp hk
        rw [toMiddle_of_odd hp (by omega)]
        simp only [LinearPhase.wave, LinearPhase.isEven, Bool.false_eq_true, if_true, if_false,
          Scalar.cos_real, Scalar.sin_real, Nat.cast_ofNat]
        ring
  | typeII | typeIV =>
      simp only [hphase, LinearPhase.hasOddLength, Bool.false_eq_true, iff_false] at hp hF
      have heven : taps % 2 = 0 := by omega
      dsimp only
      rw [sum_mirrored_of_even heven hF, Scalar.sumUpTo_real, zero_add]
      refine sum_congr rfl fun k hk => ?_
      have hk := mem_range.mp hk
      have hdecimal : ((k + 1 : ℕ) : ℝ) - 0.5 = (k + 1 : ℕ) - 1 / 2 := by norm_num
      rw [toMiddle_of_even heven (by omega), hdecimal]
      simp only [LinearPhase.wave, LinearPhase.isEven, Bool.false_eq_true, if_true, if_false,
        Scalar.cos_real, Scalar.sin_real, Nat.cast_ofNat]
      ring

theorem mirrored_ofSpectrum {s : HalfSpectrum ℝ} {h : ImpulseResponse ℝ}
    (hs : ofSpectrum s = .ok h) : h.Mirrored := by
  obtain ⟨hp, rfl⟩ := (ofSpectrum_eq_ok_iff s h).mp hs
  refine ⟨by simpa [numTaps] using hp, fun n hn => ?_⟩
  rw [numTaps_ofSpectrum hs] at hn ⊢
  rw [tap_ofSpectrum hs hn, tap_ofSpectrum hs (by omega), tapOf_reflect s hn]

theorem numTaps_scale (h : ImpulseResponse ℝ) (c : ℝ) : (h.scale c).numTaps = h.numTaps :=
  Array.size_map

theorem tap_scale (h : ImpulseResponse ℝ) (c : ℝ) (n : ℕ) : (h.scale c).tap n = h.tap n * c := by
  simp only [scale, tap, Array.getD_eq_getD_getElem?, Array.getElem?_map]
  cases h.taps[n]? with
  | none => exact (zero_mul c).symm
  | some x => rfl

theorem Mirrored.scale {h : ImpulseResponse ℝ} (hm : h.Mirrored) (c : ℝ) :
    (h.scale c).Mirrored := by
  refine ⟨(h.numTaps_scale c).symm ▸ hm.admits, fun n hn => ?_⟩
  rw [numTaps_scale] at hn ⊢
  rw [tap_scale, tap_scale, hm.tap_reflect n hn, mul_assoc]
  rfl

end ImpulseResponse
end FrequencySampling
