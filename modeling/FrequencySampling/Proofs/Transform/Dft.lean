import Mathlib.Analysis.SpecialFunctions.Trigonometric.Basic
import Mathlib.Tactic.IntervalCases
import FrequencySampling.ImpulseResponse.Dft
import FrequencySampling.Proofs.ExactArithmetic

/-!
The transform in exact arithmetic. Its factors are the points of the unit circle at fractions of a
turn, so every bin is the discrete Fourier transform of the input, and folding the taps changes
nothing at the frequencies of the bins.
-/

namespace FrequencySampling
open Finset

/-- The factor of a term whose phase lags by an angle. -/
noncomputable def phasor (θ : ℝ) : ℂ :=
  Complex.exp ((-θ : ℝ) * Complex.I)

theorem phasor_re (θ : ℝ) : (phasor θ).re = Real.cos θ := by
  rw [phasor, Complex.exp_ofReal_mul_I_re, Real.cos_neg]

theorem phasor_im (θ : ℝ) : (phasor θ).im = -Real.sin θ := by
  rw [phasor, Complex.exp_ofReal_mul_I_im, Real.sin_neg]

theorem norm_phasor (θ : ℝ) : ‖phasor θ‖ = 1 :=
  Complex.norm_exp_ofReal_mul_I _

theorem phasor_add (θ η : ℝ) : phasor (θ + η) = phasor θ * phasor η := by
  rw [phasor, phasor, phasor, ← Complex.exp_add]
  congr 1
  push_cast
  ring

theorem phasor_nat_mul_pi (n : ℕ) : phasor (n * Real.pi) = (-1) ^ n := by
  apply Complex.ext
  · rw [phasor_re, Real.cos_nat_mul_pi]
    norm_cast
  · rw [phasor_im, Real.sin_nat_mul_pi, neg_zero]
    norm_cast

namespace Turn

/-- A whole number of quarter turns is a whole number of turns and at most three quarters. -/
theorem quarters_angle {t : Turn} (h : 0 < t.den) (hq : 4 * t.num % t.den = 0) :
    2 * Real.pi * t.num / t.den = (4 * t.num / t.den % 4 : ℕ) * (Real.pi / 2) +
      (4 * t.num / t.den / 4 : ℕ) * (2 * Real.pi) := by
  have hden : (t.den : ℝ) ≠ 0 := Nat.cast_ne_zero.mpr h.ne'
  have hexact : (4 * t.num : ℝ) = (4 * t.num / t.den : ℕ) * t.den := by
    exact_mod_cast (Nat.div_mul_cancel (Nat.dvd_of_mod_eq_zero hq)).symm
  have hsplit : ((4 * t.num / t.den : ℕ) : ℝ) =
      4 * (4 * t.num / t.den / 4 : ℕ) + (4 * t.num / t.den % 4 : ℕ) := by
    exact_mod_cast (Nat.div_add_mod _ 4).symm
  rw [hsplit] at hexact
  field_simp
  linear_combination hexact

theorem angle_eq {t : Turn} (h : 0 < t.den) :
    2 * Real.pi * t.num / t.den = t.angle + (t.num / t.den : ℕ) * (2 * Real.pi) := by
  have hden : (t.den : ℝ) ≠ 0 := Nat.cast_ne_zero.mpr h.ne'
  have hsplit : (t.num : ℝ) = t.den * (t.num / t.den : ℕ) + (t.num % t.den : ℕ) := by
    exact_mod_cast (Nat.div_add_mod _ _).symm
  simp only [angle, Scalar.pi_real, Nat.cast_ofNat]
  field_simp
  linear_combination hsplit

theorem cos_quarters (q : ℕ) : Real.cos ((q + 2 : ℕ) * (Real.pi / 2)) =
    -Real.cos (q * (Real.pi / 2)) := by
  rw [← Real.cos_add_pi]
  congr 1
  push_cast
  ring

theorem sin_quarters (q : ℕ) : Real.sin ((q + 2 : ℕ) * (Real.pi / 2)) =
    -Real.sin (q * (Real.pi / 2)) := by
  rw [← Real.sin_add_pi]
  congr 1
  push_cast
  ring

theorem cos_real {t : Turn} (h : 0 < t.den) :
    (t.cos : ℝ) = Real.cos (2 * Real.pi * t.num / t.den) := by
  by_cases hq : 4 * t.num % t.den = 0
  · rw [quarters_angle h hq, Real.cos_add_nat_mul_two_pi, cos, quarters?, if_pos hq]
    have hlt : 4 * t.num / t.den % 4 < 4 := Nat.mod_lt _ (by omega)
    generalize 4 * t.num / t.den % 4 = q at *
    interval_cases q
    · simp
    · simp
    · rw [cos_quarters 0]
      simp
    · rw [cos_quarters 1]
      simp
  · rw [angle_eq h, Real.cos_add_nat_mul_two_pi, cos, quarters?, if_neg hq]
    rfl

theorem sin_real {t : Turn} (h : 0 < t.den) :
    (t.sin : ℝ) = Real.sin (2 * Real.pi * t.num / t.den) := by
  by_cases hq : 4 * t.num % t.den = 0
  · rw [quarters_angle h hq, Real.sin_add_nat_mul_two_pi, sin, quarters?, if_pos hq]
    have hlt : 4 * t.num / t.den % 4 < 4 := Nat.mod_lt _ (by omega)
    generalize 4 * t.num / t.den % 4 = q at *
    interval_cases q
    · simp
    · simp
    · rw [sin_quarters 0]
      simp
    · rw [sin_quarters 1]
      simp
  · rw [angle_eq h, Real.sin_add_nat_mul_two_pi, sin, quarters?, if_neg hq]
    rfl

end Turn

/-- The discrete Fourier transform of a sequence. -/
noncomputable def dft (x : ℕ → ℝ) (length bin : ℕ) : ℂ :=
  ∑ n ∈ range length, x n * phasor ((2 * (bin * n) : ℕ) * Real.pi / length)

theorem dft_eq_sum (x : ℕ → ℝ) (length bin : ℕ) :
    dft x length bin =
      ∑ n ∈ range length, x n * phasor (2 * Real.pi * (bin * n : ℕ) / length) := by
  refine sum_congr rfl fun n _ => ?_
  rw [Nat.cast_mul, Nat.cast_ofNat, mul_right_comm]

/-- In an even bin the halves of the sequence have the same factors. -/
theorem dft_even {x y : ℕ → ℝ} {half : ℕ} (bin : ℕ) (hy : ∀ n < half, y n = x n + x (n + half)) :
    dft x (2 * half) (2 * bin) = dft y half bin := by
  rw [dft_eq_sum, dft_eq_sum, two_mul half, sum_range_add, ← sum_add_distrib]
  refine sum_congr rfl fun n hn => ?_
  have hn := mem_range.mp hn
  have hhalf : (half : ℝ) ≠ 0 := Nat.cast_ne_zero.mpr (by omega)
  have hfirst : 2 * Real.pi * (2 * bin * n : ℕ) / (half + half : ℕ) =
      2 * Real.pi * (bin * n : ℕ) / half := by
    push_cast
    field_simp
    ring
  have hlag : 2 * Real.pi * (2 * bin * (half + n) : ℕ) / (half + half : ℕ) =
      2 * Real.pi * (bin * n : ℕ) / half + (2 * bin : ℕ) * Real.pi := by
    push_cast
    field_simp
    ring
  rw [hfirst, hlag, phasor_add, phasor_nat_mul_pi, Even.neg_one_pow ⟨bin, two_mul bin⟩, hy n hn,
    add_comm half n]
  push_cast
  ring

/-- In an odd bin they have opposite ones. -/
theorem dft_odd {x y : ℕ → ℝ} {half bin : ℕ} (hbin : bin % 2 = 1)
    (hy : ∀ n < half, y n = x n - x (n + half)) (hend : ∀ n, half ≤ n → y n = 0) :
    dft x (2 * half) bin = dft y (2 * half) bin := by
  rw [dft_eq_sum, dft_eq_sum, two_mul half, sum_range_add, sum_range_add, ← sum_add_distrib,
    ← sum_add_distrib]
  refine sum_congr rfl fun n hn => ?_
  have hn := mem_range.mp hn
  have hhalf : (half : ℝ) ≠ 0 := Nat.cast_ne_zero.mpr (by omega)
  have hlag : 2 * Real.pi * (bin * (half + n) : ℕ) / (half + half : ℕ) =
      2 * Real.pi * (bin * n : ℕ) / (half + half : ℕ) + bin * Real.pi := by
    push_cast
    field_simp
    ring
  rw [hlag, phasor_add, phasor_nat_mul_pi, Odd.neg_one_pow (Nat.odd_iff.mpr hbin), hy n hn,
    hend (half + n) (by omega), add_comm half n]
  push_cast
  ring

namespace ImpulseResponse

theorem getD_overlay {combine : ℝ → ℝ → ℝ} (hc : combine 0 0 = 0) {half n : ℕ} (hn : n < half)
    (input : Array ℝ) :
    (overlay combine half input).getD n 0 =
      combine (input.getD n 0) (input.getD (n + half) 0) := by
  by_cases hsize : n < input.size
  · simp [overlay, hn, hsize]
  · have hfirst : ¬n < min input.size half := by omega
    have hsecond : ¬n + half < input.size := by omega
    simp [overlay, hsize, hsecond, hc]

theorem getD_overlay_of_le {combine : ℝ → ℝ → ℝ} {half n : ℕ} (hn : half ≤ n) (input : Array ℝ) :
    (overlay combine half input).getD n 0 = 0 := by
  have hout : ¬n < min input.size half := by omega
  simp [overlay, hn]

theorem size_overlay_le (combine : ℝ → ℝ → ℝ) (half : ℕ) (input : Array ℝ) :
    (overlay combine half input).size ≤ half := by
  simp [overlay]

theorem binSum_eq_dft {length : ℕ} (bin : ℕ) {input : Array ℝ} (hsize : input.size ≤ length) :
    (⟨(binSum length bin input).1, (binSum length bin input).2⟩ : ℂ) =
      dft (fun n => input.getD n 0) length bin := by
  have hrest : dft (fun n => input.getD n 0) length bin = ∑ n ∈ range input.size,
      input.getD n 0 * phasor (2 * Real.pi * (bin * n : ℕ) / length) := by
    rw [dft_eq_sum]
    refine (sum_subset (range_mono hsize) fun n _ hn => ?_).symm
    have hn : ¬n < input.size := fun h => hn (mem_range.mpr h)
    simp [hn]
  have hlength : ∀ n ∈ range input.size, 0 < length := by
    intro n hn
    have hn := mem_range.mp hn
    omega
  rw [hrest]
  apply Complex.ext
  · simp only [binSum, Scalar.sumUpTo_real, zero_add, Nat.add_sub_cancel, Complex.re_sum,
      Complex.re_ofReal_mul, phasor_re]
    exact sum_congr rfl fun n hn => by rw [Turn.cos_real (hlength n hn)]
  · simp only [binSum, Scalar.sumUpTo_real, zero_add, Nat.add_sub_cancel, Complex.im_sum,
      Complex.im_ofReal_mul, phasor_im, mul_neg, sum_neg_distrib]
    rw [sum_congr rfl fun n hn => by rw [Turn.sin_real (hlength n hn)]]

/-- Whatever terms are combined first, a bin is the transform of the input. -/
theorem binValue_eq_dft {length : ℕ} (bin : ℕ) {input : Array ℝ} (hsize : input.size ≤ length) :
    (⟨(binValue length bin input).1, (binValue length bin input).2⟩ : ℂ) =
      dft (fun n => input.getD n 0) length bin := by
  induction length, bin, input using binValue.induct with
  | case1 length bin input h =>
      rw [binValue, if_pos h]
      exact binSum_eq_dft bin hsize
  | case2 length bin input h hbin ih =>
      have hlength : 2 * (length / 2) = length := by omega
      have hhalf : 2 * (bin / 2) = bin := by omega
      rw [binValue, if_neg h, if_pos hbin, ih (size_overlay_le _ _ _),
        ← dft_even (bin / 2) fun n hn => getD_overlay (add_zero 0) hn input, hlength, hhalf]
  | case3 length bin input h hbin =>
      have hlength : 2 * (length / 2) = length := by omega
      have hsizes := size_overlay_le (· - ·) (length / 2) input
      rw [binValue, if_neg h, if_neg hbin]
      calc _ = dft (fun n => (overlay (· - ·) (length / 2) input).getD n 0) length bin :=
            binSum_eq_dft bin (by omega)
        _ = dft (fun n => (overlay (· - ·) (length / 2) input).getD n 0) (2 * (length / 2))
            bin := by rw [hlength]
        _ = dft (fun n => input.getD n 0) (2 * (length / 2)) bin :=
            (dft_odd (by omega) (fun n hn => getD_overlay (sub_zero 0) hn input)
              fun n hn => getD_overlay_of_le hn input).symm
        _ = dft (fun n => input.getD n 0) length bin := by rw [hlength]

theorem foldedTap_real (h : ImpulseResponse ℝ) (length index : ℕ) :
    h.foldedTap length index =
      ∑ m ∈ range (h.numTaps / length + 1), h.tap (index + m * length) := by
  rw [foldedTap, Scalar.sumUpTo_real, zero_add]
  simp only [Nat.add_sub_cancel]

theorem tap_of_le {h : ImpulseResponse ℝ} {n : ℕ} (hn : h.numTaps ≤ n) : h.tap n = 0 := by
  have hn : h.taps.size ≤ n := hn
  simp [tap, hn]

theorem getD_foldedTaps (h : ImpulseResponse ℝ) {length n : ℕ} (hn : n < length) :
    (h.foldedTaps length).getD n 0 = h.foldedTap length n := by
  by_cases hsize : n < h.numTaps
  · simp [foldedTaps, hn, hsize]
  · have hzero : h.foldedTap length n = 0 := by
      rw [foldedTap_real]
      exact sum_eq_zero fun m _ => tap_of_le (by omega)
    simp [foldedTaps, hsize, hzero]

theorem sum_range_fold (F : ℕ → ℂ) (length count : ℕ) :
    ∑ i ∈ range length, ∑ m ∈ range count, F (i + m * length) =
      ∑ n ∈ range (count * length), F n := by
  induction count with
  | zero => simp
  | succ count ih =>
      rw [Nat.succ_mul, sum_range_add, ← ih, ← sum_add_distrib]
      refine sum_congr rfl fun i _ => ?_
      rw [sum_range_succ, add_comm i (count * length)]

/-- The frequency response at an angular frequency. -/
noncomputable def frequencyResponse (h : ImpulseResponse ℝ) (lambda : ℝ) : ℂ :=
  ∑ n ∈ range h.numTaps, h.tap n * phasor (n * lambda)

/-- Taps folded onto the start keep their factors, which repeat with the length. -/
theorem dft_foldedTaps (h : ImpulseResponse ℝ) {length : ℕ} (hl : 0 < length) (bin : ℕ) :
    dft (fun n => (h.foldedTaps length).getD n 0) length bin =
      h.frequencyResponse (2 * Real.pi * bin / length) := by
  set lambda := 2 * Real.pi * bin / length with hlambda
  have hl' : (length : ℝ) ≠ 0 := Nat.cast_ne_zero.mpr hl.ne'
  have hterm : ∀ i ∈ range length, ((h.foldedTaps length).getD i 0 : ℂ) *
        phasor (2 * Real.pi * (bin * i : ℕ) / length) =
      ∑ m ∈ range (h.numTaps / length + 1),
        (h.tap (i + m * length) : ℂ) * phasor ((i + m * length : ℕ) * lambda) := by
    intro i hi
    rw [getD_foldedTaps h (mem_range.mp hi), foldedTap_real, Complex.ofReal_sum, sum_mul]
    refine sum_congr rfl fun m _ => ?_
    have hlag : ((i + m * length : ℕ) : ℝ) * lambda =
        2 * Real.pi * (bin * i : ℕ) / length + (2 * (bin * m) : ℕ) * Real.pi := by
      rw [hlambda]
      push_cast
      field_simp
    rw [hlag, phasor_add, phasor_nat_mul_pi, Even.neg_one_pow ⟨bin * m, two_mul _⟩, mul_one]
  rw [dft_eq_sum, sum_congr rfl hterm,
    sum_range_fold fun n => (h.tap n : ℂ) * phasor (n * lambda)]
  refine (sum_subset (range_mono ?_) fun n _ hn => ?_).symm
  · have hdiv := Nat.lt_succ_of_le (Nat.le_refl (h.numTaps / length))
    exact (Nat.div_lt_iff_lt_mul hl).mp hdiv |>.le
  · have hn : h.numTaps ≤ n := by
      rw [mem_range] at hn
      omega
    rw [tap_of_le hn, Complex.ofReal_zero, zero_mul]

end ImpulseResponse
end FrequencySampling
