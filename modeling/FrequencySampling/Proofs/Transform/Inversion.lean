import FrequencySampling.Proofs.Transform.Interpolation
import Mathlib.Tactic.IntervalCases

/-!
Sampling is inverted by synthesis. The waves at the frequencies of the half spectrum are orthogonal
over these frequencies as they are over the taps, so mirrored taps are recovered from the samples of
their own amplitude. Each type needs the samples it reads and no others; at the rest its waves
vanish, and whatever stands there is lost.
-/

namespace FrequencySampling
open Finset Real

theorem sin_half_mul_sum_cos (θ : ℝ) (m : ℕ) :
    sin (θ / 2) * (1 + ∑ k ∈ range m, 2 * cos ((k + 1 : ℕ) * θ)) = sin ((m + 1 / 2) * θ) := by
  induction m with
  | zero =>
      rw [sum_range_zero, add_zero, mul_one]
      congr 1
      push_cast
      ring
  | succ m ih =>
      have hdiff : (((m + 1 : ℕ) + 1 / 2) * θ - (m + 1 / 2) * θ) / 2 = θ / 2 := by
        push_cast
        ring
      have hmean : (((m + 1 : ℕ) + 1 / 2) * θ + (m + 1 / 2) * θ) / 2 = (m + 1 : ℕ) * θ := by
        push_cast
        ring
      have hstep := sin_sub_sin (((m + 1 : ℕ) + 1 / 2) * θ) ((m + 1 / 2) * θ)
      rw [hdiff, hmean] at hstep
      rw [sum_range_succ, ← add_assoc, mul_add, ih]
      linear_combination -hstep

theorem sum_sampleWeight {taps : ℕ} (h0 : 0 < taps) :
    ∑ k ∈ range (taps / 2 + 1), sampleWeight taps k = taps := by
  have hone : ∑ k ∈ range (taps / 2 + 1), sampleWeight taps k =
      ∑ k ∈ range (taps / 2 + 1), sampleWeight taps k * (fun _ => 1) k := by simp
  rw [hone]
  rcases Nat.mod_two_eq_zero_or_one taps with heven | hodd
  · obtain ⟨m, rfl⟩ : ∃ m, taps = 2 * (m + 1) := ⟨taps / 2 - 1, by omega⟩
    have hm : 2 * (m + 1) / 2 - 1 = m := by omega
    rw [sum_sampleWeight_of_even _ heven h0, hm]
    simp
    ring
  · obtain ⟨m, rfl⟩ : ∃ m, taps = 2 * m + 1 := ⟨taps / 2, by omega⟩
    have hm : (2 * m + 1 - 1) / 2 = m := by omega
    rw [sum_sampleWeight_of_odd _ hodd, hm]
    simp
    ring

/-- The weighted cosines of a difference of taps add up to zero over the half spectrum. -/
theorem sum_sampleWeight_mul_cos {taps : ℕ} {d : ℤ} (hd : d ≠ 0) (hlo : -(taps : ℤ) < d)
    (hhi : d < taps) :
    ∑ k ∈ range (taps / 2 + 1), sampleWeight taps k * cos (k * sampleFrequency taps d) = 0 := by
  set θ := sampleFrequency taps d with hθ
  have ht : (taps : ℝ) ≠ 0 := Nat.cast_ne_zero.mpr (by omega)
  -- Times `sin (θ / 2)` the sum is a sine of whole half turns.
  have hturns : (taps / 2 : ℝ) * θ = d * π := by
    rw [hθ, sampleFrequency]
    field_simp
  refine (mul_eq_zero.mp ?_).resolve_left (sin_half_sampleFrequency_ne_zero hd hlo hhi)
  rcases Nat.mod_two_eq_zero_or_one taps with heven | hodd
  · obtain ⟨m, rfl⟩ : ∃ m, taps = 2 * (m + 1) := ⟨taps / 2 - 1, by omega⟩
    have hm : 2 * (m + 1) / 2 = m + 1 := by omega
    have hlast : (m + 1 : ℕ) * θ = d * π := by
      rw [← hturns]
      push_cast
      ring
    have hinner : (m + 1 / 2) * θ = d * π - θ / 2 := by
      rw [← hlast]
      push_cast
      ring
    rw [sum_sampleWeight_of_even _ heven (by omega), hm, Nat.add_sub_cancel, Nat.cast_zero,
      zero_mul, cos_zero, mul_add, sin_half_mul_sum_cos, hinner, hlast, sin_sub, sin_int_mul_pi]
    ring
  · obtain ⟨m, rfl⟩ : ∃ m, taps = 2 * m + 1 := ⟨taps / 2, by omega⟩
    have hm : (2 * m + 1 - 1) / 2 = m := by omega
    have hall : (m + 1 / 2) * θ = d * π := by
      rw [← hturns]
      push_cast
      ring
    rw [sum_sampleWeight_of_odd _ hodd, hm, Nat.cast_zero, zero_mul, cos_zero,
      sin_half_mul_sum_cos, hall, sin_int_mul_pi]

theorem sum_sampleWeight_mul_cos_sub {taps m n : ℕ} (hm : m < taps) (hn : n < taps) :
    ∑ k ∈ range (taps / 2 + 1), sampleWeight taps k *
        cos (toMiddle taps m * sampleFrequency taps k - toMiddle taps n * sampleFrequency taps k) =
      if m = n then (taps : ℝ) else 0 := by
  have hangle (k : ℕ) : toMiddle taps m * sampleFrequency taps k -
      toMiddle taps n * sampleFrequency taps k = k * sampleFrequency taps (n - m) := by
    simp only [toMiddle, sampleFrequency, Int.cast_sub, Int.cast_natCast]
    ring
  simp only [hangle]
  split
  · rename_i hmn
    subst hmn
    simpa using sum_sampleWeight (by omega : 0 < taps)
  · exact sum_sampleWeight_mul_cos (by omega) (by omega) (by omega)

namespace LinearPhase

/-- The waves of two taps are orthogonal over the half spectrum, unless the taps are the same or
mirror each other. -/
theorem two_mul_sum_sampleWeight_mul_wave (p : LinearPhase) {taps m n : ℕ} (hm : m < taps)
    (hn : n < taps) :
    2 * ∑ k ∈ range (taps / 2 + 1), sampleWeight taps k *
        (p.wave (toMiddle taps m * sampleFrequency taps k) *
          p.wave (toMiddle taps n * sampleFrequency taps k)) =
      (if m = n then (taps : ℝ) else 0) +
        p.mirrorSign * if m = taps - 1 - n then (taps : ℝ) else 0 := by
  rw [← sum_sampleWeight_mul_cos_sub hm hn,
    ← sum_sampleWeight_mul_cos_sub hm (by omega : taps - 1 - n < taps), toMiddle_reflect hn,
    mul_sum, mul_sum, ← sum_add_distrib]
  refine sum_congr rfl fun k _ => ?_
  rw [mul_left_comm, two_mul_wave_mul_wave, neg_mul, sub_neg_eq_add]
  ring

/-- At the other samples of the half spectrum the waves of the type vanish. -/
theorem wave_eq_zero_of_not_realizes {p : LinearPhase} {taps k : ℕ} (hk : 2 * k ≤ taps)
    (h0 : 0 < taps) (hnot : ¬ p.Realizes taps k) (n : ℕ) :
    p.wave (toMiddle taps n * sampleFrequency taps k) = 0 := by
  unfold Realizes at hnot
  unfold wave
  split at hnot
  · rename_i heven
    obtain rfl : k = taps / 2 := by omega
    have hparity : taps % 2 = 0 := by omega
    rw [if_pos heven, sampleFrequency_half hparity h0, cos_toMiddle_pi hparity]
  · rename_i hodd
    obtain rfl : k = 0 := by omega
    rw [if_neg hodd, Nat.cast_zero, sampleFrequency_zero, mul_zero, sin_zero]

/-- The samples that synthesis reads. -/
def samplesRead (p : LinearPhase) (taps : ℕ) : Finset ℕ :=
  match p with
  | .typeI => Icc 0 ((taps - 1) / 2)
  | .typeII => Icc 0 (taps / 2 - 1)
  | .typeIII => Icc 1 ((taps - 1) / 2)
  | .typeIV => Icc 1 (taps / 2)

theorem mem_samplesRead_iff {p : LinearPhase} {taps : ℕ} (hp : p.admits taps) (h0 : 0 < taps)
    {k : ℕ} : k ∈ p.samplesRead taps ↔ p.Realizes taps k := by
  have hparity := (admits_iff _ _).mp hp
  cases p <;> simp [samplesRead, Realizes, isEven, hasOddLength] at hparity ⊢ <;> omega

end LinearPhase

namespace ImpulseResponse

/-- Mirrored taps are the weighted sum of the samples of their amplitude times the waves. -/
theorem Mirrored.sum_amplitudeAt_mul_wave {h : ImpulseResponse ℝ} (hm : h.Mirrored) {n : ℕ}
    (hn : n < h.numTaps) :
    ∑ k ∈ range (h.numTaps / 2 + 1), sampleWeight h.numTaps k *
        (h.amplitudeAt (sampleFrequency h.numTaps k) *
          h.phase.wave (toMiddle h.numTaps n * sampleFrequency h.numTaps k)) =
      h.numTaps * h.tap n := by
  have hswap : ∑ k ∈ range (h.numTaps / 2 + 1), sampleWeight h.numTaps k *
        (h.amplitudeAt (sampleFrequency h.numTaps k) *
          h.phase.wave (toMiddle h.numTaps n * sampleFrequency h.numTaps k)) =
      ∑ m ∈ range h.numTaps, h.tap m * ∑ k ∈ range (h.numTaps / 2 + 1), sampleWeight h.numTaps k *
        (h.phase.wave (toMiddle h.numTaps m * sampleFrequency h.numTaps k) *
          h.phase.wave (toMiddle h.numTaps n * sampleFrequency h.numTaps k)) := by
    simp only [hm.amplitudeAt_eq_sum, sum_mul, mul_sum]
    rw [sum_comm]
    refine sum_congr rfl fun m _ => sum_congr rfl fun k _ => ?_
    ring
  have hterm : ∀ m ∈ range h.numTaps, h.tap m * ∑ k ∈ range (h.numTaps / 2 + 1),
        sampleWeight h.numTaps k *
          (h.phase.wave (toMiddle h.numTaps m * sampleFrequency h.numTaps k) *
            h.phase.wave (toMiddle h.numTaps n * sampleFrequency h.numTaps k)) =
      (if m = n then h.numTaps / 2 * h.tap m else 0) +
        if m = h.numTaps - 1 - n then h.numTaps / 2 * (h.phase.mirrorSign * h.tap m) else 0 := by
    intro m hmem
    have hwaves := h.phase.two_mul_sum_sampleWeight_mul_wave (mem_range.mp hmem) hn
    split_ifs at hwaves ⊢ <;> linear_combination h.tap m / 2 * hwaves
  rw [hswap, sum_congr rfl hterm, sum_add_distrib, sum_ite_eq', sum_ite_eq',
    if_pos (mem_range.mpr hn), if_pos (mem_range.mpr (by omega)), hm.tap_reflect n hn]
  linear_combination h.numTaps / 2 * h.tap n * h.phase.mirrorSign_mul_self

theorem Mirrored.tapOf_eq_tap {h : ImpulseResponse ℝ} (hm : h.Mirrored) {s : HalfSpectrum ℝ}
    (hphase : s.geometry.phase = h.phase) (htaps : s.geometry.numTaps = h.numTaps)
    (hs : ∀ k, h.phase.Realizes h.numTaps k →
      s.sample k = h.amplitudeAt (sampleFrequency h.numTaps k)) {n : ℕ} (hn : n < h.numTaps) :
    tapOf s n = h.tap n := by
  have h0 : 0 < h.numTaps := by omega
  have hread : ∀ k ∈ range (h.numTaps / 2 + 1), sampleWeight h.numTaps k *
        (s.sample k * h.phase.wave (toMiddle h.numTaps n * sampleFrequency h.numTaps k)) =
      sampleWeight h.numTaps k * (h.amplitudeAt (sampleFrequency h.numTaps k) *
        h.phase.wave (toMiddle h.numTaps n * sampleFrequency h.numTaps k)) := by
    intro k hk
    have hk := mem_range.mp hk
    by_cases hrealizes : h.phase.Realizes h.numTaps k
    · rw [hs k hrealizes]
    · simp only [LinearPhase.wave_eq_zero_of_not_realizes (by omega) h0 hrealizes, mul_zero]
  rw [tapOf_eq_sum s (by rw [hphase, htaps]; exact hm.admits) (by omega), hphase, htaps,
    sum_congr rfl hread, hm.sum_amplitudeAt_mul_wave hn,
    mul_div_cancel_left₀ _ (Nat.cast_ne_zero.mpr h0.ne')]

/-- Synthesis gives back mirrored taps exactly from the samples of their amplitude that it reads. -/
theorem synthesis_inverts_sampling {h : ImpulseResponse ℝ} (hm : h.Mirrored) (h0 : 0 < h.numTaps)
    {s : HalfSpectrum ℝ} (hphase : s.geometry.phase = h.phase)
    (htaps : s.geometry.numTaps = h.numTaps) :
    ofSpectrum s = .ok h ↔ ∀ k ∈ h.phase.samplesRead h.numTaps,
      s.sample k = h.amplitudeAt (sampleFrequency h.numTaps k) := by
  simp only [LinearPhase.mem_samplesRead_iff hm.admits h0]
  constructor
  · intro hs k hk
    rw [← hphase, ← htaps] at hk
    rw [← htaps, amplitudeAt_sampleFrequency hs hk]
  · intro hs
    rw [ofSpectrum_eq_ok_iff, hphase, htaps]
    refine ⟨hm.admits, ?_⟩
    obtain ⟨taps, phase⟩ := h
    congr 1
    refine Array.ext (by simp [numTaps]) fun n hn _ => ?_
    rw [Array.getElem_map, Array.getElem_range, hm.tapOf_eq_tap hphase htaps hs hn]
    simp [tap, hn]

/-- Four taps that are odd about their middle. -/
noncomputable def oddTaps : ImpulseResponse ℝ :=
  ⟨#[1, 3, -3, -1], .typeIV⟩

theorem mirrored_oddTaps : oddTaps.Mirrored := by
  refine ⟨rfl, fun n hn => ?_⟩
  change n < 4 at hn
  interval_cases n <;> simp [oddTaps, tap, numTaps, LinearPhase.mirrorSign, LinearPhase.isEven]

theorem amplitudeAt_oddTaps (x : ℝ) :
    oddTaps.amplitudeAt x = 6 * sin (1 / 2 * x) + 2 * sin (3 / 2 * x) := by
  change (0 : ℝ) + (2 : ℕ) * 3 * sin (((1 : ℕ) - 0.5) * x) +
    (2 : ℕ) * 1 * sin (((2 : ℕ) - 0.5) * x) = _
  norm_num

/-- The sample at frequency zero is not read, the one at the folding frequency is. -/
theorem synthesis_inverts_sampling_four_taps :
    oddTaps.Mirrored ∧ 0 < oddTaps.numTaps ∧
      ofSpectrum ⟨⟨4, .lowpass, .typeIV, .twoBand 0 1⟩, #[7, 4 * √2, 4]⟩ = .ok oddTaps := by
  have hfirst : oddTaps.amplitudeAt (sampleFrequency 4 (1 : ℕ)) = 4 * √2 := by
    have hfrequency : sampleFrequency 4 (1 : ℕ) = π / 2 := by
      norm_num [sampleFrequency]
      ring
    have hquarter : 1 / 2 * (π / 2) = π / 4 := by ring
    have hquarters : 3 / 2 * (π / 2) = π / 4 + π / 2 := by ring
    rw [amplitudeAt_oddTaps, hfrequency, hquarter, hquarters, sin_add_pi_div_two, sin_pi_div_four,
      cos_pi_div_four]
    ring
  have hlast : oddTaps.amplitudeAt (sampleFrequency 4 (2 : ℕ)) = 4 := by
    have hfrequency : sampleFrequency 4 (2 : ℕ) = π := sampleFrequency_half rfl (by decide)
    have hhalf : 1 / 2 * π = π / 2 := by ring
    have hhalves : 3 / 2 * π = π / 2 + π := by ring
    rw [amplitudeAt_oddTaps, hfrequency, hhalf, hhalves, sin_add_pi, sin_pi_div_two]
    norm_num
  have h0 : 0 < oddTaps.numTaps := Nat.zero_lt_succ 3
  refine ⟨mirrored_oddTaps, h0,
    (synthesis_inverts_sampling mirrored_oddTaps h0 rfl rfl).mpr fun k hk => ?_⟩
  obtain ⟨hlow, hhigh⟩ : 1 ≤ k ∧ k ≤ 2 := mem_Icc.mp hk
  interval_cases k
  · exact hfirst.symm
  · exact hlast.symm

end ImpulseResponse
end FrequencySampling
