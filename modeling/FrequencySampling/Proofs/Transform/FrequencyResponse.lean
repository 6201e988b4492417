import FrequencySampling.MagnitudeResponse.Grid
import FrequencySampling.Proofs.Transform.Amplitude
import FrequencySampling.Proofs.Transform.Dft

/-!
The frequency response of a filter whose taps have the symmetry they claim is its amplitude, turned
by the linear phase. So the two ways of measuring a magnitude response agree, on every grid and also
where the taps outnumber the points of the transform.
-/

namespace FrequencySampling.ImpulseResponse
open Finset

/-- The waves of the other symmetry cancel over the taps. -/
theorem Mirrored.sum_antisymmetric {h : ImpulseResponse ℝ} (hm : h.Mirrored) {w : ℝ → ℝ}
    (hw : ∀ x, w (-x) = -(h.phase.mirrorSign * w x)) (lambda : ℝ) :
    ∑ n ∈ range h.numTaps, h.tap n * w (toMiddle h.numTaps n * lambda) = 0 := by
  have hterm : ∀ n ∈ range h.numTaps,
      h.tap (h.numTaps - 1 - n) * w (toMiddle h.numTaps (h.numTaps - 1 - n) * lambda) =
        -(h.tap n * w (toMiddle h.numTaps n * lambda)) := by
    intro n hn
    have hn := mem_range.mp hn
    rw [hm.tap_reflect n hn, toMiddle_reflect hn, neg_mul, hw, mul_neg, mul_mul_mul_comm,
      LinearPhase.mirrorSign_mul_self, one_mul]
  have hself := sum_range_reflect
    (fun n => h.tap n * w (toMiddle h.numTaps n * lambda)) h.numTaps
  rw [sum_congr rfl hterm, sum_neg_distrib] at hself
  linarith

theorem frequencyResponse_eq (h : ImpulseResponse ℝ) (lambda : ℝ) :
    h.frequencyResponse lambda = phasor (((h.numTaps : ℝ) - 1) / 2 * lambda) *
      (⟨∑ n ∈ range h.numTaps, h.tap n * Real.cos (toMiddle h.numTaps n * lambda),
        ∑ n ∈ range h.numTaps, h.tap n * Real.sin (toMiddle h.numTaps n * lambda)⟩ : ℂ) := by
  have hterm : ∀ n ∈ range h.numTaps, (h.tap n : ℂ) * phasor (n * lambda) =
      phasor (((h.numTaps : ℝ) - 1) / 2 * lambda) *
        (h.tap n * phasor (-(toMiddle h.numTaps n * lambda))) := by
    intro n _
    have hlag : (n : ℝ) * lambda =
        ((h.numTaps : ℝ) - 1) / 2 * lambda + -(toMiddle h.numTaps n * lambda) := by
      rw [toMiddle]
      ring
    rw [hlag, phasor_add]
    ring
  rw [frequencyResponse, sum_congr rfl hterm, ← mul_sum]
  congr 1
  apply Complex.ext
  · simp [phasor_re]
  · simp [phasor_im]

theorem Mirrored.norm_frequencyResponse {h : ImpulseResponse ℝ} (hm : h.Mirrored) (lambda : ℝ) :
    ‖h.frequencyResponse lambda‖ = |h.amplitudeAt lambda| := by
  rw [frequencyResponse_eq, norm_mul, norm_phasor, one_mul, hm.amplitudeAt_eq_sum]
  cases he : h.phase.isEven with
  | true =>
      have hsin := hm.sum_antisymmetric (w := Real.sin)
        (fun x => by simp [LinearPhase.mirrorSign, he]) lambda
      simp only [hsin, LinearPhase.wave, he, if_true]
      exact Complex.norm_real _
  | false =>
      have hcos := hm.sum_antisymmetric (w := Real.cos)
        (fun x => by simp [LinearPhase.mirrorSign, he]) lambda
      simp only [hcos, LinearPhase.wave, he, Bool.false_eq_true, if_false]
      rw [Complex.norm_eq_sqrt_sq_add_sq, zero_pow two_ne_zero, zero_add, Real.sqrt_sq_eq_abs]

theorem binMagnitude_eq_norm {length : ℕ} (bin : ℕ) {input : Array ℝ}
    (hsize : input.size ≤ length) :
    binMagnitude input length bin = ‖dft (fun n => input.getD n 0) length bin‖ := by
  rw [← binValue_eq_dft bin hsize, Complex.norm_eq_sqrt_sq_add_sq]
  rfl

theorem Mirrored.dftMagnitudes_eq {h : ImpulseResponse ℝ} (hm : h.Mirrored) (points : ℕ) :
    h.dftMagnitudes points = (h.amplitudes points).map (|·|) := by
  have hsize : (h.foldedTaps (2 * points)).size ≤ 2 * points := by simp [foldedTaps]
  simp only [dftMagnitudes, amplitudes, Array.map_map]
  refine Array.map_congr_left fun index hi => ?_
  have hpoints : 0 < points := by
    have hi : index < points := by simpa using hi
    omega
  have hfrequency : 2 * Real.pi * index / (2 * points : ℕ) = gridFrequency points index := by
    simp only [gridFrequency, Scalar.pi_real]
    push_cast
    field_simp
  rw [binMagnitude_eq_norm index hsize, dft_foldedTaps h (by omega), hfrequency,
    hm.norm_frequencyResponse]
  rfl

theorem Mirrored.measure_fourier {h : ImpulseResponse ℝ} (hm : h.Mirrored) (points : ℕ)
    (scale : MagnitudeScale) :
    (⟨points, scale, .fourier⟩ : ResponseGrid).measure h =
      (⟨points, scale, .amplitude⟩ : ResponseGrid).measure h := by
  simp only [ResponseGrid.measure, hm.dftMagnitudes_eq, Array.map_map]
  have hlevel : scale.level ∘ (fun a : ℝ => |a|) = scale.level := by
    funext a
    cases scale <;> simp [MagnitudeScale.level]
  rw [hlevel]

/-- The two methods measure the same response of every filter with the symmetry it claims, and a
synthesized filter has it, scaled or not. -/
theorem fourier_agrees_with_amplitude :
    (∀ (h : ImpulseResponse ℝ) (points : ℕ), h.Mirrored →
      h.dftMagnitudes points = (h.amplitudes points).map (|·|) ∧
      ∀ scale, (⟨points, scale, .fourier⟩ : ResponseGrid).measure h =
        (⟨points, scale, .amplitude⟩ : ResponseGrid).measure h) ∧
    ∀ (s : HalfSpectrum ℝ) (h : ImpulseResponse ℝ) (factor : ℝ), ofSpectrum s = .ok h →
      h.Mirrored ∧ (h.scale factor).Mirrored := by
  constructor
  · intro h points hm
    exact ⟨hm.dftMagnitudes_eq points, hm.measure_fourier points⟩
  · intro s h factor hs
    have hm := mirrored_ofSpectrum hs
    exact ⟨hm, hm.scale factor⟩

/-- Three taps on one point: the third is folded onto the first. -/
theorem fourier_agrees_folded :
    (⟨#[1, 2, 1], .typeI⟩ : ImpulseResponse ℝ).dftMagnitudes 1 = #[4] ∧
    ∃ h, ofSpectrum (⟨⟨3, .lowpass, .typeI, .twoBand 0 1⟩, #[1, 0]⟩ : HalfSpectrum ℝ) = .ok h ∧
      (h.scale 2).dftMagnitudes 1 = ((h.scale 2).amplitudes 1).map (|·|) := by
  have hm : (⟨#[1, 2, 1], .typeI⟩ : ImpulseResponse ℝ).Mirrored := by
    refine ⟨rfl, fun n hn => ?_⟩
    simp [numTaps] at hn
    interval_cases n <;> simp [numTaps, tap, LinearPhase.mirrorSign, LinearPhase.isEven]
  have hrange : Array.range 1 = #[0] := rfl
  constructor
  · rw [(fourier_agrees_with_amplitude.1 _ 1 hm).1, amplitudes, hrange]
    simp [amplitudeAt, gridFrequency, numTaps, tap]
    norm_num
  · have hs := (ofSpectrum_eq_ok_iff
      (⟨⟨3, .lowpass, .typeI, .twoBand 0 1⟩, #[1, 0]⟩ : HalfSpectrum ℝ) _).mpr ⟨rfl, rfl⟩
    have hscaled := (fourier_agrees_with_amplitude.2 _ _ 2 hs).2
    exact ⟨_, hs, (fourier_agrees_with_amplitude.1 _ 1 hscaled).1⟩

end FrequencySampling.ImpulseResponse
