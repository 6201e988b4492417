import FrequencySampling.Proofs.ExtendedArithmetic
import FrequencySampling.Proofs.Normalization
import FrequencySampling.Proofs.StopbandRanges
import FrequencySampling.Proofs.Transform.Interpolation

/-!
The two scales of a response. A filter with real taps is measured in extended arithmetic, where a
silent frequency has a level in decibels too. On a grid that is not too faint throughout, the
normalized decibel response is the normalized linear one put through the logarithm, point by point,
and so is its stopband peak: the logarithm is monotone, and a maximum passes through it.
-/

namespace FrequencySampling

/-- A largest value passes through what keeps its comparisons. -/
theorem Scalar.largestFrom_map {α β : Type} [Scalar α] [Scalar β] {f : α → β}
    (hf : ∀ a b, f (larger a b) = larger (f a) (f b)) (floor : α) (values : Array α) :
    largestFrom (f floor) (values.map f) = f (largestFrom floor values) := by
  rw [largestFrom, Array.foldl_map]
  exact Array.foldl_hom f fun a b => (hf a b).symm

/-- A magnitude in decibels. -/
noncomputable def decibels (x : EReal) : EReal :=
  (20 : ℕ) * Scalar.log10 x

section Logarithm

variable {v w : ℝ}

theorem log_ten_pos : 0 < Real.log (10 : ℕ) :=
  Real.log_pos (by norm_num)

theorem decibels_monotone : Monotone decibels := by
  intro x y hxy
  have hlog : ENNReal.log x.toENNReal ≤ ENNReal.log y.toENNReal :=
    ENNReal.log_monotone (EReal.toENNReal_le_toENNReal hxy)
  have hten : (0 : EReal) ≤ (Real.log (10 : ℕ) : EReal) := EReal.coe_nonneg.mpr log_ten_pos.le
  exact mul_le_mul_of_nonneg_left (EReal.div_le_div_right_of_nonneg hten hlog)
    (EReal.coe_nonneg.mpr (Nat.cast_nonneg 20))

theorem decibels_coe (hv : 0 < v) : decibels v = ((20 * Real.logb 10 v : ℝ) : EReal) := by
  rw [decibels, Scalar.log10_extended, EReal.real_coe_toENNReal, ENNReal.log_ofReal_of_pos hv,
    ← EReal.coe_div, Real.logb]
  norm_cast

theorem decibels_zero : decibels 0 = ⊥ := by
  rw [decibels, Scalar.log10_extended, EReal.toENNReal_zero, ENNReal.log_zero,
    EReal.bot_div_of_pos_ne_top (EReal.coe_pos.mpr log_ten_pos) (EReal.coe_ne_top _)]
  exact EReal.coe_mul_bot_of_pos (x := (20 : ℕ)) (by norm_num)

/-- Dividing magnitudes is subtracting decibels, also where the dividend is zero. -/
theorem decibels_div (hv : 0 ≤ v) (hw : 0 < w) :
    decibels ((v / w : ℝ) : EReal) = decibels v - decibels w := by
  rcases hv.eq_or_lt with rfl | hv
  · rw [zero_div, EReal.coe_zero, decibels_zero, EReal.bot_sub]
  · rw [decibels_coe (div_pos hv hw), decibels_coe hv, decibels_coe hw,
      Real.logb_div hv.ne' hw.ne', mul_sub, EReal.coe_sub]

/-- The floor of the decibel reference is the level of a hundred-thousandth. -/
theorem decibels_hundredThousandth :
    decibels ((1 / 100000 : ℝ) : EReal) = MagnitudeResponse.decibelFloor := by
  have hlog : Real.logb 10 (1 / 100000) = -5 := by
    rw [show (1 / 100000 : ℝ) = (10 ^ 5)⁻¹ by norm_num, Real.logb_inv, Real.logb_pow,
      Real.logb_self_eq_one (by norm_num)]
    norm_num
  rw [decibels_coe (by norm_num), hlog]
  change _ = ((-((100 : ℕ) : ℝ) : ℝ) : EReal)
  norm_num

end Logarithm

/-- What a magnitude shows as on a scale. -/
noncomputable def MagnitudeScale.shown : MagnitudeScale → EReal → EReal
  | .linear => id
  | .decibel => decibels

theorem MagnitudeScale.level_coe (scale : MagnitudeScale) (a : ℝ) :
    scale.level (a : EReal) = scale.shown ((|a| : ℝ) : EReal) := by
  have habs : ((|a| : ℝ) : EReal) = Scalar.abs (a : EReal) := Scalar.embeds_extended.abs a
  rw [habs]
  cases scale <;> rfl

/-- The largest magnitude on a grid, loud enough for a decibel response to take it as reference. -/
structure ResponseMethod.Loud (method : ResponseMethod) (h : ImpulseResponse ℝ) (points : ℕ)
    (top : ℝ) : Prop where
  isGreatest : IsGreatest {v | ∃ a ∈ method.sampled h points, |a| = v} top
  reaches : 1 / 100000 ≤ top

/-- The response of an impulse response, normalized. -/
def ResponseGrid.normalized {α : Type} [Scalar α] (grid : ResponseGrid) (h : ImpulseResponse α) :
    Outcome α (MagnitudeResponse α) := do
  let response ← grid.measure h
  response.normalize

theorem ResponseGrid.judged_eq_normalized {α : Type} [Scalar α] {grid : ResponseGrid}
    {s : HalfSpectrum α} {h : ImpulseResponse α} (hs : ImpulseResponse.ofSpectrum s = .ok h) :
    grid.judged s = grid.normalized h := by
  rw [judged, hs]
  rfl

namespace ResponseMethod.Loud

variable {method : ResponseMethod} {h : ImpulseResponse ℝ} {points : ℕ} {top : ℝ}
  (hloud : method.Loud h points top)
include hloud

theorem pos : 0 < top :=
  lt_of_lt_of_le (by norm_num) hloud.reaches

theorem points_ne_zero : points ≠ 0 := by
  rintro rfl
  obtain ⟨a, ha, -⟩ := hloud.isGreatest.1
  cases method <;> simp [sampled, ImpulseResponse.amplitudes, ImpulseResponse.dftMagnitudes] at ha

theorem largestFrom_eq {floor : ℝ} (hfloor : floor ≤ top) :
    Scalar.largestFrom (floor : EReal)
      ((method.sampled h points).map fun a => ((|a| : ℝ) : EReal)) = top := by
  have hgreatest : IsGreatest {v | v ∈ (method.sampled h points).map (|·|)} top := by
    simpa only [Array.mem_map] using hloud.isGreatest
  have hreal : Scalar.largestFrom floor ((method.sampled h points).map (|·|)) = top := by
    rw [(Scalar.isGreatest_largestFrom floor _).unique (hgreatest.insert floor),
      max_eq_right hfloor]
  have hcoe : ∀ a b : ℝ, ((Scalar.larger a b : ℝ) : EReal) = Scalar.larger (a : EReal) b := by
    intro a b
    rw [Scalar.larger_real, Scalar.larger_extended, EReal.coe_strictMono.monotone.map_max]
  have hmap := Scalar.largestFrom_map hcoe floor ((method.sampled h points).map (|·|))
  rwa [Array.map_map, hreal] at hmap

theorem normalize_linear :
    (⟨(method.sampled h points).map fun a => ((|a| : ℝ) : EReal), .linear⟩ :
        MagnitudeResponse EReal).normalize =
      .ok ⟨(method.sampled h points).map fun a => ((|a| / top : ℝ) : EReal), .linear⟩ := by
  have htop : ¬ (top : EReal) ≤ 0 := not_le.mpr (EReal.coe_pos.mpr hloud.pos)
  have hreference := hloud.largestFrom_eq hloud.pos.le
  rw [EReal.coe_zero] at hreference
  simp only [MagnitudeResponse.normalize, hreference, if_neg htop, Array.map_map]
  rfl

theorem normalize_decibel :
    (⟨(method.sampled h points).map fun a => decibels ((|a| : ℝ) : EReal), .decibel⟩ :
        MagnitudeResponse EReal).normalize =
      .ok ⟨(method.sampled h points).map fun a => decibels ((|a| / top : ℝ) : EReal),
        .decibel⟩ := by
  have hlarger : ∀ a b : EReal,
      decibels (Scalar.larger a b) = Scalar.larger (decibels a) (decibels b) := by
    intro a b
    rw [Scalar.larger_extended, Scalar.larger_extended, decibels_monotone.map_max]
  have hreference : Scalar.largestFrom MagnitudeResponse.decibelFloor
      ((method.sampled h points).map fun a => decibels ((|a| : ℝ) : EReal)) = decibels top := by
    have hmap := Scalar.largestFrom_map hlarger ((1 / 100000 : ℝ) : EReal)
      ((method.sampled h points).map fun a => ((|a| : ℝ) : EReal))
    rwa [hloud.largestFrom_eq hloud.reaches, decibels_hundredThousandth, Array.map_map] at hmap
  simp only [MagnitudeResponse.normalize, hreference, Array.map_map]
  congr 2
  refine Array.map_congr_left fun a _ => ?_
  exact (decibels_div (abs_nonneg a) hloud.pos).symm

/-- The normalized response of a filter with real taps, on either scale. -/
theorem normalized_eq (scale : MagnitudeScale) :
    (⟨points, scale, method⟩ : ResponseGrid).normalized (h.map Real.toEReal) =
      .ok ⟨(method.sampled h points).map fun a => scale.shown ((|a| / top : ℝ) : EReal),
        scale⟩ := by
  have hvalues : (method.sampled (h.map Real.toEReal) points).map scale.level =
      (method.sampled h points).map fun a => scale.shown ((|a| : ℝ) : EReal) := by
    rw [method.sampled_map Scalar.embeds_extended, Array.map_map]
    exact Array.map_congr_left fun a _ => scale.level_coe a
  rw [ResponseGrid.normalized, ResponseGrid.measure_eq hloud.points_ne_zero, hvalues]
  cases scale with
  | linear => exact hloud.normalize_linear
  | decibel => exact hloud.normalize_decibel

end ResponseMethod.Loud

namespace Highest

variable {floor floor' v w x : EReal} {taken : EReal → Prop}

theorem unique (hv : Highest floor taken v) (hw : Highest floor taken w) : v = w := by
  cases hv with
  | taken hv habove hgreatest =>
      cases hw with
      | taken hw _ hgreatest' =>
          exact le_antisymm (not_lt.mp (hgreatest' _ hv)) (not_lt.mp (hgreatest _ hw))
      | floor hnone => exact absurd habove (hnone _ hv)
  | floor hnone =>
      cases hw with
      | taken hw habove _ => exact absurd habove (hnone _ hw)
      | floor => rfl

/-- What is above the floor and taken is not above the highest, which is then taken itself. -/
theorem taken_of_above (h : Highest floor taken v) (hx : taken x) (habove : floor < x) :
    taken v ∧ x ≤ v := by
  cases h with
  | taken hv _ hgreatest => exact ⟨hv, not_lt.mp (hgreatest x hx)⟩
  | floor hnone => exact absurd habove (hnone x hx)

/-- The highest passes through a monotone function, if a value stays above the floor there. -/
theorem map {f : EReal → EReal} (hf : Monotone f) (h : Highest floor taken v) (hx : taken x)
    (habove : floor < x) (habove' : floor' < f x) :
    Highest floor' (fun w => ∃ y, taken y ∧ f y = w) (f v) := by
  obtain ⟨hv, hxv⟩ := h.taken_of_above hx habove
  refine .taken ⟨v, hv, rfl⟩ (lt_of_lt_of_le habove' (hf hxv)) fun w hw => ?_
  obtain ⟨y, hy, rfl⟩ := hw
  exact not_lt.mpr (hf (not_lt.mp (h.greatest y hy)))

end Highest

namespace MagnitudeResponse

theorem takenIn_map {α β : Type} (f : α → β) (r : MagnitudeResponse α) (scale : MagnitudeScale)
    (ranges : List IndexRange) (w : β) :
    (⟨r.values.map f, scale⟩ : MagnitudeResponse β).TakenIn ranges w ↔
      ∃ v, r.TakenIn ranges v ∧ f v = w := by
  unfold TakenIn
  simp only [Array.getElem?_map, Option.map_eq_some_iff]
  constructor
  · rintro ⟨range, hrange, k, hstart, hstop, v, hv, rfl⟩
    exact ⟨v, ⟨range, hrange, k, hstart, hstop, hv⟩, rfl⟩
  · rintro ⟨v, ⟨range, hrange, k, hstart, hstop, hv⟩, rfl⟩
    exact ⟨range, hrange, k, hstart, hstop, v, hv, rfl⟩

theorem peakFloor_extended : (peakFloor : EReal) = ((-9999 : ℝ) : EReal) := by
  change ((-((9999 : ℕ) : ℝ) : ℝ) : EReal) = _
  norm_num

/-- The peak of a response in decibels is that of the linear one, in decibels. -/
theorem peakOver_decibels (r : MagnitudeResponse EReal) (ranges : List IndexRange) {x : EReal}
    (hx : r.TakenIn ranges x) (hpos : 0 < x) (habove : peakFloor < decibels x) :
    (r.TakenIn ranges (r.peakOver ranges) ∧ x ≤ r.peakOver ranges) ∧
      (⟨r.values.map decibels, .decibel⟩ : MagnitudeResponse EReal).peakOver ranges =
        decibels (r.peakOver ranges) := by
  have hlinear := r.highest_peakOver ranges
  have hfloor : peakFloor < x := by
    rw [peakFloor_extended]
    exact lt_trans (EReal.coe_neg'.mpr (by norm_num)) hpos
  refine ⟨hlinear.taken_of_above hx hfloor, ?_⟩
  have hdecibel := highest_peakOver
    (⟨r.values.map decibels, .decibel⟩ : MagnitudeResponse EReal) ranges
  have hmapped := hlinear.map decibels_monotone hx hfloor habove
  exact hdecibel.unique (hmapped.congr fun w => (takenIn_map decibels r .decibel ranges w).symm)

end MagnitudeResponse

namespace ResponseGrid

variable {method : ResponseMethod} {h : ImpulseResponse ℝ} {points : ℕ} {top : ℝ}

/-- The stopband level of a half spectrum with real samples, if a point is seen there. -/
theorem stopbandLevel_loud {s : HalfSpectrum ℝ} (hs : ImpulseResponse.ofSpectrum s = .ok h)
    (hloud : method.Loud h points top) {index : ℕ} (hseen : s.geometry.Observed points index)
    (scale : MagnitudeScale) :
    (⟨points, scale, method⟩ : ResponseGrid).stopbandLevel (s.map Real.toEReal) =
      .ok ((⟨(method.sampled h points).map fun a => scale.shown ((|a| / top : ℝ) : EReal),
        scale⟩ : MagnitudeResponse EReal).peakOver (s.geometry.stopband points)) := by
  have hsees : ¬ (⟨points, scale, method⟩ : ResponseGrid).SeesNothing (s.map Real.toEReal) :=
    fun h => seesNothing_iff.mp h index hseen
  have hextended := ImpulseResponse.ofSpectrum_map Scalar.embeds_extended hs
  rw [stopbandLevel_of_sees hsees, judged_eq_normalized hextended, hloud.normalized_eq scale]
  rfl

/-- The peak is a ratio of magnitudes, and no smaller than one that is seen. -/
theorem exists_stopbandLevel {s : HalfSpectrum ℝ} (hs : ImpulseResponse.ofSpectrum s = .ok h)
    (hloud : method.Loud h points top) {index : ℕ} (hseen : s.geometry.Observed points index)
    {a : ℝ} (ha : (method.sampled h points)[index]? = some a) (hne : a ≠ 0)
    (habove : -9999 < 20 * Real.logb 10 (|a| / top)) :
    ∃ v : ℝ, 0 < v ∧
      (⟨points, .linear, method⟩ : ResponseGrid).stopbandLevel (s.map Real.toEReal) =
        .ok (v : EReal) ∧
      (⟨points, .decibel, method⟩ : ResponseGrid).stopbandLevel (s.map Real.toEReal) =
        .ok ((20 * Real.logb 10 v : ℝ) : EReal) := by
  have hlinear := stopbandLevel_loud hs hloud hseen .linear
  have hdecibel := stopbandLevel_loud hs hloud hseen .decibel
  have hpos : 0 < |a| / top := div_pos (abs_pos.mpr hne) hloud.pos
  obtain ⟨range, hrange, hstart, hstop⟩ := hseen
  have htaken : (⟨(method.sampled h points).map fun a => ((|a| / top : ℝ) : EReal), .linear⟩ :
      MagnitudeResponse EReal).TakenIn (s.geometry.stopband points) ((|a| / top : ℝ) : EReal) :=
    ⟨range, hrange, index, hstart, hstop, by rw [Array.getElem?_map, ha]; rfl⟩
  have hfloor : MagnitudeResponse.peakFloor < decibels ((|a| / top : ℝ) : EReal) := by
    rw [decibels_coe hpos, MagnitudeResponse.peakFloor_extended]
    exact EReal.coe_lt_coe_iff.mpr habove
  obtain ⟨⟨hpeak, hle⟩, hdecibels⟩ :=
    MagnitudeResponse.peakOver_decibels _ _ htaken (EReal.coe_pos.mpr hpos) hfloor
  obtain ⟨_, _, k, _, _, hk⟩ := hpeak
  rw [Array.getElem?_map, Option.map_eq_some_iff] at hk
  obtain ⟨b, -, hb⟩ := hk
  rw [← hb, EReal.coe_le_coe_iff] at hle
  have hv : 0 < |b| / top := hpos.trans_le hle
  refine ⟨|b| / top, hv, hlinear.trans (congrArg Except.ok hb.symm), ?_⟩
  rw [Array.map_map, ← hb, decibels_coe hv] at hdecibels
  exact hdecibel.trans (congrArg Except.ok hdecibels)

/-- Both scales tell the same of a filter: its normalized decibel response, and its stopband level
in decibels, are twenty times the logarithms of the linear ones. Only silence has a level in
decibels that no real number is. -/
theorem scales_agree :
    (∀ (h : ImpulseResponse ℝ) (method : ResponseMethod) (points : ℕ) (top : ℝ),
      method.Loud h points top →
      ∃ linear decibel : MagnitudeResponse EReal,
        (⟨points, .linear, method⟩ : ResponseGrid).normalized (h.map Real.toEReal) = .ok linear ∧
        (⟨points, .decibel, method⟩ : ResponseGrid).normalized (h.map Real.toEReal) =
          .ok decibel ∧
        ∀ (index : ℕ) (a : ℝ), (method.sampled h points)[index]? = some a →
          linear.values[index]? = some ((|a| / top : ℝ) : EReal) ∧
          decibel.values[index]? =
            some (if a = 0 then ⊥ else ((20 * Real.logb 10 (|a| / top) : ℝ) : EReal))) ∧
    ∀ (s : HalfSpectrum ℝ) (h : ImpulseResponse ℝ) (method : ResponseMethod) (points : ℕ) (top : ℝ),
      ImpulseResponse.ofSpectrum s = .ok h → method.Loud h points top →
      (∃ index a, s.geometry.Observed points index ∧ (method.sampled h points)[index]? = some a ∧
        a ≠ 0 ∧ -9999 < 20 * Real.logb 10 (|a| / top)) →
      ∃ v : ℝ, 0 < v ∧
        (⟨points, .linear, method⟩ : ResponseGrid).stopbandLevel (s.map Real.toEReal) =
          .ok (v : EReal) ∧
        (⟨points, .decibel, method⟩ : ResponseGrid).stopbandLevel (s.map Real.toEReal) =
          .ok ((20 * Real.logb 10 v : ℝ) : EReal) := by
  constructor
  · intro h method points top hloud
    refine ⟨_, _, hloud.normalized_eq .linear, hloud.normalized_eq .decibel, fun index a ha => ?_⟩
    simp only [Array.getElem?_map, ha, Option.map_some]
    refine ⟨rfl, congrArg some ?_⟩
    by_cases hzero : a = 0
    · rw [if_pos hzero, hzero, abs_zero, zero_div]
      exact decibels_zero
    · rw [if_neg hzero]
      exact decibels_coe (div_pos (abs_pos.mpr hzero) hloud.pos)
  · intro s h method points top hs hloud ⟨index, a, hseen, ha, hne, habove⟩
    exact exists_stopbandLevel hs hloud hseen ha hne habove

/-- Four taps whose response is ten at frequency zero, and minus one at the point in the
stopband. -/
theorem scales_agree_four_taps :
    ∃ (h : ImpulseResponse ℝ) (v : ℝ), ImpulseResponse.ofSpectrum
        (⟨⟨4, .lowpass, .typeII, .twoBand 0 1⟩, #[10, -1, 0]⟩ : HalfSpectrum ℝ) = .ok h ∧
      (ResponseMethod.amplitude.Loud h 2 10 ∧ 0 < v) ∧
      (⟨2, .linear, .amplitude⟩ : ResponseGrid).stopbandLevel (HalfSpectrum.map Real.toEReal
        ⟨⟨4, .lowpass, .typeII, .twoBand 0 1⟩, #[10, -1, 0]⟩) = .ok (v : EReal) ∧
      (⟨2, .decibel, .amplitude⟩ : ResponseGrid).stopbandLevel (HalfSpectrum.map Real.toEReal
        ⟨⟨4, .lowpass, .typeII, .twoBand 0 1⟩, #[10, -1, 0]⟩) =
          .ok ((20 * Real.logb 10 v : ℝ) : EReal) := by
  obtain ⟨h, hs⟩ := ImpulseResponse.exists_ofSpectrum
    (s := (⟨⟨4, .lowpass, .typeII, .twoBand 0 1⟩, #[10, -1, 0]⟩ : HalfSpectrum ℝ)) rfl
  have hvalue : ∀ k < 2, h.amplitudeAt (ImpulseResponse.gridFrequency 2 k) =
      (⟨⟨4, .lowpass, .typeII, .twoBand 0 1⟩, #[10, -1, 0]⟩ : HalfSpectrum ℝ).sample k := by
    intro k hk
    have hfrequency : (ImpulseResponse.gridFrequency 2 k : ℝ) = sampleFrequency 4 k :=
      gridFrequency_eq_sampleFrequency (by decide) (by decide) (by ring)
    rw [hfrequency]
    refine ImpulseResponse.amplitudeAt_sampleFrequency hs ?_
    exact LinearPhase.realizes_of_two_mul_lt (show 2 * k < 4 by omega) (.inl rfl)
  have hsampled : ResponseMethod.amplitude.sampled h 2 = #[10, -1] := by
    change h.amplitudes 2 = _
    rw [ImpulseResponse.amplitudes, show Array.range 2 = #[0, 1] from rfl]
    simp [hvalue 0, hvalue 1, HalfSpectrum.sample]
  have hloud : ResponseMethod.amplitude.Loud h 2 10 := by
    refine ⟨?_, by norm_num⟩
    rw [hsampled]
    constructor
    · exact ⟨10, by simp, by norm_num⟩
    · rintro v ⟨a, ha, rfl⟩
      rcases (by simpa using ha : a = 10 ∨ a = -1) with rfl | rfl <;> norm_num
  have hseen : (⟨4, .lowpass, .typeII, .twoBand 0 1⟩ : Geometry).Observed 2 1 :=
    ⟨⟨1, 2⟩, by decide, by decide, by decide⟩
  have habove : -9999 < 20 * Real.logb 10 (|(-1 : ℝ)| / 10) := by
    rw [abs_neg, abs_one, one_div, Real.logb_inv, Real.logb_self_eq_one (by norm_num)]
    norm_num
  obtain ⟨v, hv, hlinear, hdecibel⟩ := scales_agree.2 _ h .amplitude 2 10 hs hloud
    ⟨1, -1, hseen, by rw [hsampled]; rfl, by norm_num, habove⟩
  exact ⟨h, v, hs, ⟨hloud, hv⟩, hlinear, hdecibel⟩

end ResponseGrid
end FrequencySampling
