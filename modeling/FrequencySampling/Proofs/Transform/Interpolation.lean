import FrequencySampling.MagnitudeResponse.Grid
import FrequencySampling.Proofs.Transform.Amplitude

/-!
A synthesized filter has the desired amplitude at the frequencies of its half spectrum. Where a grid
point falls on such a frequency the measured response takes the sample's value, and the fourth type
takes the sample at the folding frequency as well. Odd types have no amplitude at frequency zero,
whatever is desired there.
-/

namespace FrequencySampling
open Finset Real

theorem gridFrequency_eq_sampleFrequency {taps points index k : ℕ} (ht : 0 < taps)
    (hp : 0 < points) (h : index * taps = 2 * points * k) :
    (ImpulseResponse.gridFrequency points index : ℝ) = sampleFrequency taps k := by
  have hreal : (index * taps : ℝ) = 2 * points * k := by exact_mod_cast h
  have ht : (taps : ℝ) ≠ 0 := Nat.cast_ne_zero.mpr ht.ne'
  have hp : (points : ℝ) ≠ 0 := Nat.cast_ne_zero.mpr hp.ne'
  simp only [ImpulseResponse.gridFrequency, sampleFrequency, Scalar.pi_real, Int.cast_natCast]
  rw [div_eq_div_iff hp ht]
  linear_combination π * hreal

theorem two_mul_lt_of_grid {taps points index k : ℕ} (ht : 0 < taps) (hi : index < points)
    (h : index * taps = 2 * points * k) : 2 * k < taps := by
  refine Nat.lt_of_mul_lt_mul_left (a := points) ?_
  calc points * (2 * k) = index * taps := by rw [h]; ring
    _ < points * taps := Nat.mul_lt_mul_of_pos_right hi ht

namespace ImpulseResponse

theorem amplitudeAt_sampleFrequency {s : HalfSpectrum ℝ} {h : ImpulseResponse ℝ}
    (hs : ofSpectrum s = .ok h) {k : ℕ}
    (hk : s.geometry.phase.Realizes s.geometry.numTaps k) :
    h.amplitudeAt (sampleFrequency s.geometry.numTaps k) = s.sample k := by
  obtain ⟨hp, hh⟩ := (ofSpectrum_eq_ok_iff s h).mp hs
  have hphase : h.phase = s.geometry.phase := by rw [hh]
  have htap : ∀ n ∈ range s.geometry.numTaps, h.tap n = (∑ j ∈ range (s.geometry.numTaps / 2 + 1),
      sampleWeight s.geometry.numTaps j * (s.sample j * s.geometry.phase.wave
        (toMiddle s.geometry.numTaps n * sampleFrequency s.geometry.numTaps j))) /
      s.geometry.numTaps := by
    intro n hn
    rw [tap_ofSpectrum hs (mem_range.mp hn), tapOf_eq_sum s hp hk.pos]
  rw [(mirrored_ofSpectrum hs).amplitudeAt_eq_sum, numTaps_ofSpectrum hs, hphase,
    sum_congr rfl fun n hn => by rw [htap n hn]]
  exact s.geometry.phase.sum_synthesis_mul_wave s.sample hk

theorem Mirrored.amplitudeAt_zero {h : ImpulseResponse ℝ} (hm : h.Mirrored)
    (hodd : h.phase.isEven = false) : h.amplitudeAt 0 = 0 := by
  rw [hm.amplitudeAt_eq_sum]
  refine sum_eq_zero fun n _ => ?_
  simp [LinearPhase.wave, hodd]

theorem getElem?_amplitudes (h : ImpulseResponse ℝ) {points index : ℕ} (hi : index < points) :
    (h.amplitudes points)[index]? = some (h.amplitudeAt (gridFrequency points index)) := by
  simp [amplitudes, hi]

end ImpulseResponse

theorem ResponseGrid.getElem?_measure_linear (h : ImpulseResponse ℝ) {points index : ℕ}
    (hi : index < points) :
    ∃ r, (⟨points, .linear, .amplitude⟩ : ResponseGrid).measure h = .ok r ∧
      r.values[index]? = some |h.amplitudeAt (ImpulseResponse.gridFrequency points index)| := by
  refine ⟨⟨(h.amplitudes points).map MagnitudeScale.linear.level, .linear⟩, ?_, ?_⟩
  · have hp : points ≠ 0 := by omega
    simp [measure, hp]
  · simp [h.getElem?_amplitudes hi, MagnitudeScale.level]

namespace HalfSpectrum
open ImpulseResponse

/-- Synthesis interpolates: a grid point that falls on a sample shows that sample, whatever was
written there. An odd type shows zero at frequency zero instead. The fourth type takes on its last
sample at half the sampling rate, where no grid point falls. -/
theorem synthesis_interpolates {g : Geometry} {start s : HalfSpectrum ℝ}
    (hstart : ofGeometry g = .ok start) (hg : s.geometry = start.geometry)
    (hsize : s.desired.size = start.desired.size) :
    ∃ h, ofSpectrum s = .ok h ∧
      (∀ points index k : ℕ, index < points → index * g.numTaps = 2 * points * k →
        k ≤ g.fold ∧
        ∃ a, (h.amplitudes points)[index]? = some a ∧
          (∃ r, (⟨points, .linear, .amplitude⟩ : ResponseGrid).measure h = .ok r ∧
            r.values[index]? = some |a|) ∧
          (g.phase.isEven ∨ 1 ≤ k → s.sample? k = some a) ∧
          (g.phase.isEven = false → k = 0 → a = 0)) ∧
      (g.phase = .typeIV → s.sample? (g.numTaps / 2) = some (h.amplitudeAt π)) := by
  have hcheck := check_of_ofGeometry hstart
  have hp := Geometry.admits_of_check hcheck
  have ht := Geometry.three_le_of_check hcheck
  have hsg : s.geometry = g := hg.trans (geometry_of_ofGeometry hstart)
  have hsamples : s.desired.size = g.numTaps / 2 + 1 := hsize.trans (size_of_ofGeometry hstart)
  obtain ⟨h, hs⟩ := exists_ofSpectrum (s := s) (by rw [hsg]; exact hp)
  have hvalue : ∀ k, g.phase.Realizes g.numTaps k →
      s.sample? k = some (h.amplitudeAt (sampleFrequency g.numTaps k)) := by
    intro k hk
    have hle := hk.two_mul_le
    rw [← hsg] at hk ⊢
    rw [amplitudeAt_sampleFrequency hs hk]
    exact sample?_eq_some (by omega)
  refine ⟨h, hs, ?_, ?_⟩
  · intro points index k hi hgrid
    have hpoints : 0 < points := by omega
    have hk : 2 * k < g.numTaps := two_mul_lt_of_grid (by omega) hi hgrid
    have hfrequency := gridFrequency_eq_sampleFrequency (by omega) hpoints hgrid
    refine ⟨?_, _, h.getElem?_amplitudes hi, ResponseGrid.getElem?_measure_linear h hi, ?_, ?_⟩
    · exact Geometry.le_fold hk
    · intro hread
      rw [hfrequency]
      exact hvalue k (LinearPhase.realizes_of_two_mul_lt hk hread)
    · intro hodd h0
      subst h0
      have hphase : h.phase = g.phase := by
        rw [((ofSpectrum_eq_ok_iff s h).mp hs).2, hsg]
      rw [hfrequency, Nat.cast_zero, sampleFrequency_zero,
        (mirrored_ofSpectrum hs).amplitudeAt_zero (by rw [hphase]; exact hodd)]
  · intro hfour
    have heven : g.numTaps % 2 = 0 := by
      have hparity := (LinearPhase.admits_iff _ _).mp hp
      simp only [hfour, LinearPhase.hasOddLength, Bool.false_eq_true, iff_false] at hparity
      omega
    have hrealizes : g.phase.Realizes g.numTaps (g.numTaps / 2) := by
      rw [hfour]
      exact LinearPhase.realizes_typeIV_half (by omega)
    rw [← sampleFrequency_half heven (by omega)]
    exact hvalue _ hrealizes

/-- On a grid of two points the second falls on the first sample of four taps. -/
theorem synthesis_interpolates_four_taps :
    ∃ h, ofSpectrum (⟨⟨4, .lowpass, .typeIV, .twoBand 0 1⟩, #[1, 2, 3]⟩ : HalfSpectrum ℝ) =
        .ok h ∧
      (h.amplitudes 2)[1]? = some 2 ∧ h.amplitudeAt π = 3 := by
  have hstart := ofGeometry_of_check (α := ℝ) (g := ⟨4, .lowpass, .typeIV, .twoBand 0 1⟩) rfl
  have hsize : 3 = (bandLevels ⟨4, .lowpass, .typeIV, .twoBand 0 1⟩ : Array ℝ).size := by
    rw [size_bandLevels]
    rfl
  obtain ⟨h, hs, hgrid, hfold⟩ :=
    synthesis_interpolates (s := ⟨_, #[1, 2, 3]⟩) hstart rfl hsize
  obtain ⟨-, a, ha, -, hread, -⟩ := hgrid 2 1 1 (by decide) (by decide)
  have hvalue : 2 = a := Option.some.inj (hread (.inr le_rfl))
  rw [← hvalue] at ha
  exact ⟨h, hs, ha, (Option.some.inj (hfold rfl)).symm⟩

end HalfSpectrum
end FrequencySampling
