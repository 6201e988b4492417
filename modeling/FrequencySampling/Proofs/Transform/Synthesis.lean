import FrequencySampling.ImpulseResponse.OfSpectrum
import FrequencySampling.Proofs.Geometry
import FrequencySampling.Proofs.Transform.Waves

/-!
Synthesis in exact arithmetic. The four inverse transforms are one sum of waves over the half
spectrum, with the two ends of the spectrum counted once; the terms that some type leaves out are
terms whose wave vanishes.
-/

namespace FrequencySampling
open Finset Real

namespace ImpulseResponse

theorem cosineSum_real (h : ℕ → ℝ) (x : ℝ) (upper : ℕ) :
    cosineSum h x upper = h 0 + ∑ k ∈ range upper, 2 * (h (k + 1) * cos (x * (k + 1 : ℕ))) := by
  rw [cosineSum, Scalar.sumUpTo_real]
  congr 1
  refine sum_congr rfl fun k _ => ?_
  simp only [Scalar.cos_real, Nat.cast_ofNat]
  ring

theorem sineSum_real (h : ℕ → ℝ) (x : ℝ) (upper : ℕ) :
    sineSum h x upper = ∑ k ∈ range upper, 2 * (h (k + 1) * sin (x * (k + 1 : ℕ))) := by
  rw [sineSum, Scalar.sumUpTo_real, zero_add]
  refine sum_congr rfl fun k _ => ?_
  simp only [Scalar.sin_real, Nat.cast_ofNat]
  ring

/-- The even types measure from the middle forwards. -/
theorem evenAngle_eq (taps n k : ℕ) :
    2 * π * ((n : ℝ) - ((taps : ℝ) - 1) / 2) / taps * k =
      -(toMiddle taps n * sampleFrequency taps k) := by
  simp only [toMiddle, sampleFrequency, Int.cast_natCast]
  ring

/-- The odd types measure from the middle backwards. -/
theorem oddAngle_eq (taps n k : ℕ) :
    -2 * π * ((n : ℝ) - ((taps : ℝ) - 1) / 2) / taps * k =
      toMiddle taps n * sampleFrequency taps k := by
  simp only [toMiddle, sampleFrequency, Int.cast_natCast]
  ring

/-- A tap is the weighted sum of the samples times the waves at the tap. -/
theorem tapOf_eq_sum (s : HalfSpectrum ℝ) (hp : s.geometry.phase.admits s.geometry.numTaps)
    (h0 : 0 < s.geometry.numTaps) (n : ℕ) :
    tapOf s n = (∑ k ∈ range (s.geometry.numTaps / 2 + 1),
      sampleWeight s.geometry.numTaps k * (s.sample k *
        s.geometry.phase.wave
          (toMiddle s.geometry.numTaps n * sampleFrequency s.geometry.numTaps k))) /
      s.geometry.numTaps := by
  rw [LinearPhase.admits_iff] at hp
  generalize htaps : s.geometry.numTaps = taps at *
  simp only [tapOf, tapSum, htaps, Scalar.pi_real, Scalar.sin_real, Nat.cast_ofNat]
  congr 1
  cases hphase : s.geometry.phase with
  | typeI =>
      simp only [hphase, LinearPhase.hasOddLength, iff_true] at hp
      dsimp only
      rw [sum_sampleWeight_of_odd _ hp, cosineSum_real]
      simp only [LinearPhase.wave, LinearPhase.isEven, evenAngle_eq, cos_neg]
      simp
  | typeII =>
      simp only [hphase, LinearPhase.hasOddLength, Bool.false_eq_true, iff_false] at hp
      have heven : taps % 2 = 0 := by omega
      dsimp only
      rw [sum_sampleWeight_of_even _ heven h0, cosineSum_real]
      -- The sample at the folding frequency is not read: its wave vanishes at every tap.
      simp only [LinearPhase.wave, LinearPhase.isEven, evenAngle_eq, cos_neg,
        sampleFrequency_half heven h0, cos_toMiddle_pi heven]
      simp
  | typeIII =>
      simp only [hphase, LinearPhase.hasOddLength, iff_true] at hp
      dsimp only
      rw [sum_sampleWeight_of_odd _ hp, sineSum_real]
      simp only [LinearPhase.wave, LinearPhase.isEven, oddAngle_eq]
      simp
  | typeIV =>
      simp only [hphase, LinearPhase.hasOddLength, Bool.false_eq_true, iff_false] at hp
      have heven : taps % 2 = 0 := by omega
      have hfold : -π * ((n : ℝ) - ((taps : ℝ) - 1) / 2) = toMiddle taps n * π := by
        rw [toMiddle]
        ring
      dsimp only
      rw [sum_sampleWeight_of_even _ heven h0, sineSum_real, hfold]
      simp only [LinearPhase.wave, LinearPhase.isEven, oddAngle_eq,
        sampleFrequency_half heven h0]
      simp only [Bool.false_eq_true, if_false, Nat.cast_zero, sampleFrequency_zero, mul_zero,
        sin_zero, zero_add]
      ring

end ImpulseResponse
end FrequencySampling
