import FrequencySampling.Proofs.Embedding
import FrequencySampling.Proofs.Normalization
import FrequencySampling.Proofs.Transform.Amplitude
import Mathlib.Tactic.FieldSimp

/-!
Scaling to unity gain, in exact arithmetic. The four amplitude sums are linear in the taps, so a
factor common to all taps comes out of every amplitude, and without its sign out of the gain.
Dividing by the gain therefore leaves of a common factor nothing but the sign. Only where the
response is silent on the whole grid is there no gain to divide by.
-/

namespace FrequencySampling.ImpulseResponse

section Scaling

variable (h : ImpulseResponse ℝ) (a b lambda : ℝ)

theorem scale_scale : (h.scale a).scale b = h.scale (a * b) := by
  simp [scale]

theorem scale_one : h.scale 1 = h := by
  simp [scale]

theorem sumUpTo_mul (start : ℝ) (term : ℕ → ℝ) (n : ℕ) :
    Scalar.sumUpTo (start * a) (fun k => term k * a) n = Scalar.sumUpTo start term n * a := by
  rw [Scalar.sumUpTo_real, Scalar.sumUpTo_real, add_mul, Finset.sum_mul]

theorem amplitudeAt_scale : (h.scale a).amplitudeAt lambda = h.amplitudeAt lambda * a := by
  have hphase : (h.scale a).phase = h.phase := rfl
  have hterm : ∀ x y z : ℝ, x * (y * a) * z = x * y * z * a := fun x y z => by ring
  unfold amplitudeAt
  rw [numTaps_scale, hphase]
  simp only [tap_scale, hterm]
  cases h.phase with
  | typeI => exact sumUpTo_mul a _ _ _
  | typeII | typeIII | typeIV =>
      dsimp only
      rw [← sumUpTo_mul, zero_mul]

end Scaling

/-- The magnitudes that a gain is read from. -/
noncomputable def gainResponse (h : ImpulseResponse ℝ) : MagnitudeResponse ℝ :=
  ⟨(h.amplitudes gainGrid.points).map (|·|), .linear⟩

/-- No point of the grid shows anything of the filter. -/
def SilentOnGainGrid (h : ImpulseResponse ℝ) : Prop :=
  ∀ index < 500, h.amplitudeAt (gridFrequency 500 index) = 0

/-- The largest magnitude on the grid. -/
def HasGain (h : ImpulseResponse ℝ) (gain : ℝ) : Prop :=
  IsGreatest {v | v ∈ h.gainResponse.values} gain

section Gain

variable {h : ImpulseResponse ℝ} {gain : ℝ}

theorem measure_gainGrid (h : ImpulseResponse ℝ) :
    gainGrid.measure h = .ok h.gainResponse :=
  ResponseGrid.measure_eq (by decide) h

theorem size_gainResponse (h : ImpulseResponse ℝ) : h.gainResponse.size = 500 := by
  simp [gainResponse, MagnitudeResponse.size, amplitudes, gainGrid]

theorem mem_gainResponse_iff {v : ℝ} : v ∈ h.gainResponse.values ↔
    ∃ index < 500, |h.amplitudeAt (gridFrequency 500 index)| = v := by
  simp [gainResponse, amplitudes, gainGrid]

theorem exists_gain (h : ImpulseResponse ℝ) : ∃ gain, h.HasGain gain := by
  obtain ⟨gain, hgain⟩ := MagnitudeResponse.exists_peak (r := h.gainResponse)
    (by rw [size_gainResponse]; decide)
  exact ⟨gain, MagnitudeResponse.peak?_eq_some_iff.mp hgain⟩

theorem HasGain.nonneg (hgain : h.HasGain gain) : 0 ≤ gain := by
  obtain ⟨index, -, rfl⟩ := mem_gainResponse_iff.mp hgain.1
  exact abs_nonneg _

theorem HasGain.eq_zero_iff (hgain : h.HasGain gain) : gain = 0 ↔ h.SilentOnGainGrid := by
  constructor
  · intro hzero index hindex
    have hle := hgain.2 (mem_gainResponse_iff.mpr ⟨index, hindex, rfl⟩)
    rw [hzero] at hle
    exact abs_nonpos_iff.mp hle
  · intro hsilent
    obtain ⟨index, hindex, rfl⟩ := mem_gainResponse_iff.mp hgain.1
    rw [hsilent index hindex, abs_zero]

/-- A factor common to all taps comes out of the gain, without its sign. -/
theorem HasGain.scale (hgain : h.HasGain gain) (a : ℝ) : (h.scale a).HasGain (gain * |a|) := by
  obtain ⟨hmem, hupper⟩ := hgain
  obtain ⟨index, hindex, hvalue⟩ := mem_gainResponse_iff.mp hmem
  constructor
  · refine mem_gainResponse_iff.mpr ⟨index, hindex, ?_⟩
    rw [amplitudeAt_scale, abs_mul, hvalue]
  · intro v hv
    obtain ⟨k, hk, rfl⟩ := mem_gainResponse_iff.mp hv
    rw [amplitudeAt_scale, abs_mul]
    exact mul_le_mul_of_nonneg_right (hupper (mem_gainResponse_iff.mpr ⟨k, hk, rfl⟩))
      (abs_nonneg a)

theorem toUnityGain_of_peak {r : MagnitudeResponse ℝ} {peak : ℝ}
    (hmeasured : gainGrid.measure h = .ok r) (hpeak : r.peak? = some peak) : h.toUnityGain =
      if Scalar.isNaN peak ∨ peak ≤ 0 then .error (.degenerateResponse .silentTaps)
      else .ok (h.scale (1 / peak)) := by
  rw [toUnityGain, hmeasured]
  dsimp only [bind, Except.bind]
  rw [hpeak]
  dsimp only
  split_ifs <;> rfl

theorem HasGain.toUnityGain_eq (hgain : h.HasGain gain) : h.toUnityGain =
    if gain = 0 then .error (.degenerateResponse .silentTaps) else .ok (h.scale (1 / gain)) := by
  have hguard : (Scalar.isNaN gain = true ∨ gain ≤ 0) ↔ gain = 0 := by
    rw [Scalar.isNaN_real]
    simp [hgain.nonneg.ge_iff_eq']
  rw [toUnityGain_of_peak (measure_gainGrid h) (MagnitudeResponse.peak?_eq_some_iff.mpr hgain)]
  simp only [hguard]

/-- Of a factor common to all taps nothing is left but its sign. -/
theorem toUnityGain_scale (h : ImpulseResponse ℝ) {a : ℝ} (ha : a ≠ 0) :
    (h.scale a).toUnityGain = h.toUnityGain.map (·.scale (a / |a|)) := by
  obtain ⟨gain, hgain⟩ := h.exists_gain
  have habs : |a| ≠ 0 := abs_ne_zero.mpr ha
  rw [(hgain.scale a).toUnityGain_eq, hgain.toUnityGain_eq]
  simp only [mul_eq_zero, habs, or_false]
  split_ifs with hzero
  · rfl
  · rw [scale_scale, Except.map, scale_scale]
    congr 2
    field_simp

theorem toUnityGain_eq_error_iff (h : ImpulseResponse ℝ) (e : DesignError ℝ) :
    h.toUnityGain = .error e ↔ e = .degenerateResponse .silentTaps ∧ h.SilentOnGainGrid := by
  obtain ⟨gain, hgain⟩ := h.exists_gain
  rw [hgain.toUnityGain_eq, ← hgain.eq_zero_iff]
  split_ifs with hzero
  · simp [hzero, eq_comm]
  · simp [hzero]

theorem exists_of_toUnityGain_eq_ok {g : ImpulseResponse ℝ} (hg : h.toUnityGain = .ok g) :
    ∃ gain, 0 < gain ∧ h.HasGain gain ∧ g = h.scale (1 / gain) := by
  obtain ⟨gain, hgain⟩ := h.exists_gain
  rw [hgain.toUnityGain_eq] at hg
  split_ifs at hg with hzero
  exact ⟨gain, lt_of_le_of_ne hgain.nonneg (Ne.symm hzero), hgain, (Except.ok.inj hg).symm⟩

theorem hasGain_one_of_toUnityGain_eq_ok {g : ImpulseResponse ℝ} (hg : h.toUnityGain = .ok g) :
    g.HasGain 1 := by
  obtain ⟨gain, hpos, hgain, rfl⟩ := exists_of_toUnityGain_eq_ok hg
  have hone : gain * |1 / gain| = 1 := by
    rw [abs_of_pos (one_div_pos.mpr hpos), mul_one_div_cancel hpos.ne']
  have hscale := hgain.scale (1 / gain)
  rwa [hone] at hscale

theorem HasGain.toUnityGain_one (hgain : h.HasGain 1) : h.toUnityGain = .ok h := by
  rw [hgain.toUnityGain_eq, if_neg one_ne_zero, one_div_one, scale_one]

end Gain

/-- Scaling to unity gain fails on silence only. It multiplies the taps by one positive factor,
after which the response peaks at one and nothing is left to scale; and it forgets how the taps were
scaled before, except for a sign. -/
theorem toUnityGain_levels (h : ImpulseResponse ℝ) :
    (∀ e, h.toUnityGain = .error e ↔
      e = .degenerateResponse .silentTaps ∧ h.SilentOnGainGrid) ∧
    (∀ g, h.toUnityGain = .ok g → (∃ factor, 0 < factor ∧ g = h.scale factor) ∧
      (∃ r, gainGrid.measure g = .ok r ∧ r.size = 500 ∧ r.peak? = some 1) ∧
      g.toUnityGain = .ok g) ∧
    ∀ c, 0 < c → (h.scale c).toUnityGain = h.toUnityGain ∧
      (h.scale (-c)).toUnityGain = h.toUnityGain.map (·.scale (-1)) := by
  refine ⟨h.toUnityGain_eq_error_iff, ?levelled, ?scaled⟩
  case levelled =>
    intro g hg
    have hone : g.HasGain 1 := hasGain_one_of_toUnityGain_eq_ok hg
    obtain ⟨gain, hpos, -, hscale⟩ := exists_of_toUnityGain_eq_ok hg
    exact ⟨⟨1 / gain, one_div_pos.mpr hpos, hscale⟩,
      ⟨g.gainResponse, measure_gainGrid g, size_gainResponse g,
        MagnitudeResponse.peak?_eq_some_iff.mpr hone⟩,
      hone.toUnityGain_one⟩
  case scaled =>
    intro c hc
    have hsign : c / |c| = 1 := by rw [abs_of_pos hc, div_self hc.ne']
    constructor
    · rw [toUnityGain_scale h hc.ne', hsign]
      simp only [scale_one]
      cases h.toUnityGain <;> rfl
    · rw [toUnityGain_scale h (neg_ne_zero.mpr hc.ne'), abs_neg, neg_div, hsign]

/-- A lone tap of two, and the same tap scaled by minus three. -/
theorem toUnityGain_levels_lone_tap :
    ∃ g, toUnityGain (⟨#[2], .typeI⟩ : ImpulseResponse ℝ) = .ok g ∧ g.toUnityGain = .ok g ∧
      (∃ r, gainGrid.measure g = .ok r ∧ r.size = 500 ∧ r.peak? = some 1) ∧
      (0 : ℝ) < 3 ∧ toUnityGain (scale ⟨#[2], .typeI⟩ (-3)) = .ok (g.scale (-1)) := by
  obtain ⟨hrefused, hlevelled, hscaled⟩ := toUnityGain_levels ⟨#[2], .typeI⟩
  have hthree : (0 : ℝ) < 3 := by norm_num
  have hloud : ¬ SilentOnGainGrid ⟨#[2], .typeI⟩ := by
    intro hsilent
    have hfirst := hsilent 0 (by decide)
    simp [amplitudeAt, numTaps, tap] at hfirst
  cases hresult : toUnityGain (⟨#[2], .typeI⟩ : ImpulseResponse ℝ) with
  | error e => exact absurd ((hrefused e).mp hresult).2 hloud
  | ok g =>
      obtain ⟨-, hpeak, hagain⟩ := hlevelled g hresult
      refine ⟨g, rfl, hagain, hpeak, hthree, ?_⟩
      rw [(hscaled 3 hthree).2, hresult]
      rfl

end FrequencySampling.ImpulseResponse
