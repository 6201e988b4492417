import Mathlib.Algebra.BigOperators.Intervals
import FrequencySampling.Filter.LinearPhase
import FrequencySampling.Proofs.ExactArithmetic

/-!
The waves that linear-phase filters are made of: cosines about the middle of the filter for the even
types, sines for the odd ones. At the frequencies of the half spectrum they are orthogonal over the
taps, for every length and also where the middle falls between two taps. Nothing here speaks of a
particular filter.
-/

namespace FrequencySampling
open Finset Real

/-- The distance in samples from a tap to the middle of the filter, positive before the middle. -/
noncomputable def toMiddle (taps n : ℕ) : ℝ :=
  ((taps : ℝ) - 1) / 2 - n

/-- The angular frequency of a sample of the spectrum. -/
noncomputable def sampleFrequency (taps : ℕ) (k : ℤ) : ℝ :=
  2 * π * k / taps

theorem toMiddle_reflect {taps n : ℕ} (h : n < taps) :
    toMiddle taps (taps - 1 - n) = -toMiddle taps n := by
  have hc : ((taps - 1 - n : ℕ) : ℝ) = taps - 1 - n := by
    rw [Nat.cast_sub (by omega), Nat.cast_sub (by omega), Nat.cast_one]
  rw [toMiddle, toMiddle, hc]
  ring

@[simp] theorem sampleFrequency_zero (taps : ℕ) : sampleFrequency taps 0 = 0 := by
  simp [sampleFrequency]

theorem sampleFrequency_sub (taps : ℕ) (j k : ℤ) :
    sampleFrequency taps (j - k) = sampleFrequency taps j - sampleFrequency taps k := by
  simp only [sampleFrequency, Int.cast_sub]
  ring

theorem sampleFrequency_add (taps : ℕ) (j k : ℤ) :
    sampleFrequency taps (j + k) = sampleFrequency taps j + sampleFrequency taps k := by
  simp only [sampleFrequency, Int.cast_add]
  ring

/-- Of an even length the last sample of the half spectrum is at the folding frequency. -/
theorem sampleFrequency_half {taps : ℕ} (h : taps % 2 = 0) (h0 : 0 < taps) :
    sampleFrequency taps (taps / 2 : ℕ) = π := by
  obtain ⟨m, rfl⟩ : ∃ m, taps = 2 * m := ⟨taps / 2, by omega⟩
  have hm : (m : ℝ) ≠ 0 := Nat.cast_ne_zero.mpr (by omega)
  rw [Nat.mul_div_cancel_left m two_pos]
  simp only [sampleFrequency, Int.cast_natCast]
  push_cast
  field_simp

theorem cos_toMiddle_pi {taps : ℕ} (h : taps % 2 = 0) (n : ℕ) :
    cos (toMiddle taps n * π) = 0 := by
  obtain ⟨m, rfl⟩ : ∃ m, taps = 2 * m := ⟨taps / 2, by omega⟩
  have harg : toMiddle (2 * m) n * π = ((m : ℤ) - n : ℤ) * π - π / 2 := by
    rw [toMiddle]
    push_cast
    ring
  rw [harg, cos_sub_pi_div_two, sin_int_mul_pi]

theorem sin_half_sampleFrequency_ne_zero {taps : ℕ} {m : ℤ} (hm : m ≠ 0)
    (hlo : -(taps : ℤ) < m) (hhi : m < taps) : sin (sampleFrequency taps m / 2) ≠ 0 := by
  intro hs
  obtain ⟨q, hq⟩ := sin_eq_zero_iff.mp hs
  have ht : (taps : ℝ) ≠ 0 := Nat.cast_ne_zero.mpr (by omega)
  have hqm : (q * taps : ℝ) = m := by
    rw [sampleFrequency] at hq
    field_simp at hq
    linarith
  have hdvd : (taps : ℤ) ∣ m := ⟨q, by rw [mul_comm]; exact_mod_cast hqm.symm⟩
  exact hm (Int.eq_zero_of_abs_lt_dvd hdvd (abs_lt.mpr ⟨hlo, hhi⟩))

/-- The cosines of a frequency between two multiples of the sampling rate add up to zero. -/
theorem sum_cos_toMiddle {taps : ℕ} {m : ℤ} (hm : m ≠ 0) (hlo : -(taps : ℤ) < m)
    (hhi : m < taps) : ∑ n ∈ range taps, cos (toMiddle taps n * sampleFrequency taps m) = 0 := by
  set θ := sampleFrequency taps m with hθ
  -- Times `2 * sin (θ / 2)` the sum telescopes, and both ends are sines of whole half turns.
  have hterm (n : ℕ) : 2 * sin (θ / 2) * cos (toMiddle taps n * θ) =
      sin ((taps / 2 - n) * θ) - sin ((taps / 2 - (n + 1 : ℕ)) * θ) := by
    have hdiff : ((taps / 2 - n) * θ - (taps / 2 - (n + 1 : ℕ)) * θ) / 2 = θ / 2 := by
      push_cast
      ring
    have hmean : ((taps / 2 - n) * θ + (taps / 2 - (n + 1 : ℕ)) * θ) / 2 =
        toMiddle taps n * θ := by
      rw [toMiddle]
      push_cast
      ring
    rw [sin_sub_sin, hdiff, hmean]
  have hsum : 2 * sin (θ / 2) * ∑ n ∈ range taps, cos (toMiddle taps n * θ) = 0 := by
    rw [mul_sum, sum_congr rfl fun n _ => hterm n, sum_range_sub']
    have ht : (taps : ℝ) ≠ 0 := Nat.cast_ne_zero.mpr (by omega)
    have hstart : (taps / 2 : ℝ) * θ = m * π := by
      rw [hθ, sampleFrequency]
      field_simp
    have hend : ((taps : ℝ) / 2 - taps) * θ = -(m * π) := by linarith
    rw [hend, sin_neg, Nat.cast_zero, sub_zero, hstart, sin_int_mul_pi, neg_zero, sub_zero]
  have hs : 2 * sin (θ / 2) ≠ 0 :=
    mul_ne_zero two_ne_zero (sin_half_sampleFrequency_ne_zero hm hlo hhi)
  exact (mul_eq_zero.mp hsum).resolve_left hs

/-- At the sampling rate itself every cosine of an even length is minus one. -/
theorem sum_cos_toMiddle_rate {taps : ℕ} (h : taps % 2 = 0) :
    ∑ n ∈ range taps, cos (toMiddle taps n * sampleFrequency taps taps) = -taps := by
  have hterm : ∀ n ∈ range taps, cos (toMiddle taps n * sampleFrequency taps taps) = -1 := by
    intro n hn
    have hn := mem_range.mp hn
    have hrate : sampleFrequency taps taps = 2 * π := by
      have hc : (taps : ℤ) = (taps / 2 : ℕ) + (taps / 2 : ℕ) := by omega
      rw [hc, sampleFrequency_add, sampleFrequency_half h (by omega)]
      ring
    have hdouble : toMiddle taps n * (2 * π) = 2 * (toMiddle taps n * π) := by ring
    rw [hrate, hdouble, cos_two_mul, cos_toMiddle_pi h]
    norm_num
  rw [sum_congr rfl hterm]
  simp

namespace LinearPhase

/-- The waves that the amplitude of a filter of the type is a sum of. -/
noncomputable def wave (p : LinearPhase) (x : ℝ) : ℝ :=
  if p.isEven then cos x else sin x

theorem mirrorSign_mul_self (p : LinearPhase) : (p.mirrorSign * p.mirrorSign : ℝ) = 1 := by
  cases p <;> simp [mirrorSign, isEven]

theorem wave_neg (p : LinearPhase) (x : ℝ) : p.wave (-x) = p.mirrorSign * p.wave x := by
  cases p <;> simp [wave, mirrorSign, isEven]

theorem two_mul_wave_mul_wave (p : LinearPhase) (x y : ℝ) :
    2 * (p.wave x * p.wave y) = cos (x - y) + p.mirrorSign * cos (x + y) := by
  rw [← mul_assoc]
  cases p with
  | typeI | typeII =>
      simp only [wave, mirrorSign, isEven, if_true]
      rw [two_mul_cos_mul_cos, one_mul]
  | typeIII | typeIV =>
      simp only [wave, mirrorSign, isEven, Bool.false_eq_true, if_false]
      rw [two_mul_sin_mul_sin]
      ring

/-- Twice the inner product of two waves, by their difference and their sum. -/
theorem two_mul_sum_wave_mul_wave (p : LinearPhase) (taps : ℕ) (j k : ℤ) :
    2 * ∑ n ∈ range taps, p.wave (toMiddle taps n * sampleFrequency taps j) *
        p.wave (toMiddle taps n * sampleFrequency taps k) =
      ∑ n ∈ range taps, cos (toMiddle taps n * sampleFrequency taps (j - k)) +
        p.mirrorSign *
          ∑ n ∈ range taps, cos (toMiddle taps n * sampleFrequency taps (j + k)) := by
  rw [mul_sum, mul_sum, ← sum_add_distrib]
  refine sum_congr rfl fun n _ => ?_
  rw [two_mul_wave_mul_wave, sampleFrequency_sub, sampleFrequency_add, mul_sub, mul_add]

theorem sum_wave_mul_wave_of_ne (p : LinearPhase) {taps j k : ℕ} (hj : 2 * j ≤ taps)
    (hk : 2 * k ≤ taps) (hjk : j ≠ k) :
    ∑ n ∈ range taps, p.wave (toMiddle taps n * sampleFrequency taps j) *
      p.wave (toMiddle taps n * sampleFrequency taps k) = 0 := by
  have h := two_mul_sum_wave_mul_wave p taps j k
  rw [sum_cos_toMiddle (by omega) (by omega) (by omega),
    sum_cos_toMiddle (by omega) (by omega) (by omega)] at h
  simpa using h

/-- The samples at which a filter of the type can have any amplitude; at the others its waves
vanish. -/
def Realizes (p : LinearPhase) (taps k : ℕ) : Prop :=
  if p.isEven then 2 * k < taps else 0 < k ∧ 2 * k ≤ taps

theorem Realizes.two_mul_le {p : LinearPhase} {taps k : ℕ} (h : p.Realizes taps k) :
    2 * k ≤ taps := by
  unfold Realizes at h
  split at h <;> omega

theorem Realizes.pos {p : LinearPhase} {taps k : ℕ} (h : p.Realizes taps k) : 0 < taps := by
  unfold Realizes at h
  split at h <;> omega

theorem realizes_of_two_mul_lt {p : LinearPhase} {taps k : ℕ} (hk : 2 * k < taps)
    (hread : p.isEven ∨ 1 ≤ k) : p.Realizes taps k := by
  unfold Realizes
  split
  · exact hk
  · exact ⟨hread.resolve_left ‹_›, hk.le⟩

theorem realizes_typeIV_half {taps : ℕ} (ht : 2 ≤ taps) :
    typeIV.Realizes taps (taps / 2) := by
  simp only [Realizes, isEven, Bool.false_eq_true, if_false]
  omega

end LinearPhase

/-- How often a sample of the half spectrum counts in the whole spectrum: once at its two ends,
elsewhere twice, for itself and for its mirror image. -/
noncomputable def sampleWeight (taps k : ℕ) : ℝ :=
  if k = 0 ∨ 2 * k = taps then 1 else 2

theorem sum_sampleWeight_of_odd (F : ℕ → ℝ) {taps : ℕ} (h : taps % 2 = 1) :
    ∑ k ∈ range (taps / 2 + 1), sampleWeight taps k * F k =
      F 0 + ∑ k ∈ range ((taps - 1) / 2), 2 * F (k + 1) := by
  have hhalf : (taps - 1) / 2 = taps / 2 := by omega
  have hterm : ∀ k ∈ range (taps / 2), sampleWeight taps (k + 1) * F (k + 1) = 2 * F (k + 1) := by
    intro k _
    rw [sampleWeight, if_neg (by omega)]
  rw [hhalf, sum_range_succ', sum_congr rfl hterm, sampleWeight, if_pos (Or.inl rfl), one_mul,
    add_comm]

theorem sum_sampleWeight_of_even (F : ℕ → ℝ) {taps : ℕ} (h : taps % 2 = 0) (h0 : 0 < taps) :
    ∑ k ∈ range (taps / 2 + 1), sampleWeight taps k * F k =
      F 0 + ∑ k ∈ range (taps / 2 - 1), 2 * F (k + 1) + F (taps / 2) := by
  obtain ⟨m, hm⟩ : ∃ m, taps / 2 = m + 1 := ⟨taps / 2 - 1, by omega⟩
  have hterm : ∀ k ∈ range m, sampleWeight taps (k + 1) * F (k + 1) = 2 * F (k + 1) := by
    intro k hk
    have hk := mem_range.mp hk
    rw [sampleWeight, if_neg (by omega)]
  rw [hm, sum_range_succ, sum_range_succ', sum_congr rfl hterm, sampleWeight,
    if_pos (Or.inl rfl), one_mul, sampleWeight, if_pos (by omega), one_mul, Nat.add_sub_cancel,
    add_comm (F 0)]

namespace LinearPhase

/-- The weights are the reciprocal norms of the waves that do not vanish. -/
theorem sampleWeight_mul_sum_wave_sq (p : LinearPhase) {taps k : ℕ} (hk : p.Realizes taps k) :
    sampleWeight taps k * ∑ n ∈ range taps, p.wave (toMiddle taps n * sampleFrequency taps k) *
      p.wave (toMiddle taps n * sampleFrequency taps k) = taps := by
  have h := two_mul_sum_wave_mul_wave p taps k k
  have hdiff : ∑ n ∈ range taps, cos (toMiddle taps n * sampleFrequency taps (k - k)) = taps := by
    simp
  rw [hdiff] at h
  by_cases h0 : k = 0
  · subst h0
    have he : p.isEven := by
      by_contra he
      simp [Realizes, he] at hk
    have hsum : ∑ n ∈ range taps, cos (toMiddle taps n * sampleFrequency taps (0 + 0)) = taps := by
      simp
    rw [Nat.cast_zero, hsum, mirrorSign, if_pos he, one_mul] at h
    simp only [sampleWeight, true_or, if_true, Nat.cast_zero]
    linarith
  by_cases h2 : 2 * k = taps
  · have he : ¬p.isEven := by
      intro he
      simp only [Realizes, he, if_true] at hk
      omega
    have hkk : (k + k : ℤ) = taps := by omega
    rw [hkk, sum_cos_toMiddle_rate (by omega), mirrorSign, if_neg he] at h
    simp only [sampleWeight, h2, or_true, if_true]
    linarith
  · have hlt : 2 * k < taps := by
      unfold Realizes at hk
      split at hk <;> omega
    rw [sum_cos_toMiddle (by omega) (by omega) (by omega)] at h
    simp only [sampleWeight, h0, h2, or_self, if_false]
    linarith

/-- The coefficient of a wave in a weighted sum of waves is its inner product with the sum. -/
theorem sum_synthesis_mul_wave (p : LinearPhase) (F : ℕ → ℝ) {taps k : ℕ}
    (hk : p.Realizes taps k) :
    ∑ n ∈ range taps, (∑ j ∈ range (taps / 2 + 1), sampleWeight taps j *
        (F j * p.wave (toMiddle taps n * sampleFrequency taps j))) / taps *
      p.wave (toMiddle taps n * sampleFrequency taps k) = F k := by
  have ht : (taps : ℝ) ≠ 0 := Nat.cast_ne_zero.mpr hk.pos.ne'
  have hle := hk.two_mul_le
  have hswap : ∑ n ∈ range taps, (∑ j ∈ range (taps / 2 + 1), sampleWeight taps j *
        (F j * p.wave (toMiddle taps n * sampleFrequency taps j))) / taps *
          p.wave (toMiddle taps n * sampleFrequency taps k) =
      (∑ j ∈ range (taps / 2 + 1), F j * (sampleWeight taps j *
        ∑ n ∈ range taps, p.wave (toMiddle taps n * sampleFrequency taps j) *
          p.wave (toMiddle taps n * sampleFrequency taps k))) / taps := by
    simp only [div_mul_eq_mul_div, sum_mul, mul_sum, ← sum_div]
    rw [sum_comm]
    congr 1
    refine sum_congr rfl fun j _ => sum_congr rfl fun n _ => ?_
    ring
  rw [hswap, sum_eq_single k, sampleWeight_mul_sum_wave_sq p hk, mul_div_cancel_right₀ _ ht]
  · intro j hj hjk
    have hj := mem_range.mp hj
    rw [sum_wave_mul_wave_of_ne p (by omega) hle hjk, mul_zero, mul_zero]
  · intro hout
    rw [mem_range] at hout
    omega

end LinearPhase
end FrequencySampling
