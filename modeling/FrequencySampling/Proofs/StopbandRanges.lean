import FrequencySampling.Proofs.Stopband
import FrequencySampling.Proofs.StopbandLevel
import FrequencySampling.Scalar.Double

/-!
The index arithmetic of the stopband. While the products stay below the word size, the response
index of an edge is a floor that lies below the number of points, so that cutting it to that number
changes nothing, and the ranges are in order. They hold no point at all only on an empty grid, or
where the lower passband edge of a high-pass or band-pass filter lies below the second point.
-/

namespace FrequencySampling

namespace Geometry

/-- The edges that a filter has. -/
def usedEdges (g : Geometry) : List Nat :=
  if g.band.hasFourEdges then [g.edges.n1, g.edges.n2, g.edges.n3, g.edges.n4]
  else [g.edges.n1, g.edges.n2]

section Edges

variable {g : Geometry} {points m n : Nat}

theorem le_fold_of_mem_usedEdges (hfit : g.edges.Fit g.band g.fold) (hn : n ∈ g.usedEdges) :
    n ≤ g.fold := by
  obtain ⟨hlower, htwo, hfour⟩ := hfit
  unfold usedEdges at hn
  cases hb : g.band.hasFourEdges with
  | true =>
      obtain ⟨hmiddle, hupper, hlast, -⟩ := hfour hb
      simp only [hb, if_true, List.mem_cons, List.not_mem_nil, or_false] at hn
      omega
  | false =>
      have hlast := htwo hb
      simp only [hb, Bool.false_eq_true, if_false, List.mem_cons, List.not_mem_nil, or_false] at hn
      omega

variable (hN : 3 ≤ g.numTaps)
include hN

/-- An edge is below the folding frequency, which is where the grid ends. -/
theorem two_mul_lt_points_mul (hp : 0 < points) (hn : n ≤ g.fold) :
    2 * points * n < points * g.numTaps := by
  have hfold : 2 * n < g.numTaps := by
    have := two_mul_fold_lt hN
    omega
  calc 2 * points * n = points * (2 * n) := by ring
    _ < points * g.numTaps := Nat.mul_lt_mul_of_pos_left hfold hp

theorem quotient_lt_points (hp : 0 < points) (hn : n ≤ g.fold) :
    2 * points * n / g.numTaps < points :=
  (Nat.div_lt_iff_lt_mul (by omega)).mpr (two_mul_lt_points_mul hN hp hn)

variable (hsize : 2 * points * g.numTaps < UInt64.size)
include hsize

theorem responseIndex_eq (hn : n ≤ g.fold) :
    g.responseIndex points n = 2 * points * n / g.numTaps := by
  have hfold := two_mul_fold_lt hN
  have hwrap : 2 * points * n < UInt64.size :=
    lt_of_le_of_lt (Nat.mul_le_mul_left _ (by omega)) hsize
  have hle : 2 * points * n / g.numTaps ≤ points := by
    rcases Nat.eq_zero_or_pos points with rfl | hp
    · simp
    · exact (quotient_lt_points hN hp hn).le
  rw [responseIndex, Nat.mod_eq_of_lt hwrap, Nat.min_eq_left hle]

theorem responseIndex_mono (hmn : m ≤ n) (hn : n ≤ g.fold) :
    g.responseIndex points m ≤ g.responseIndex points n := by
  rw [responseIndex_eq hN hsize (hmn.trans hn), responseIndex_eq hN hsize hn]
  exact Nat.div_le_div_right (Nat.mul_le_mul_left _ hmn)

end Edges

theorem responseIndex_le (g : Geometry) (points n : Nat) : g.responseIndex points n ≤ points :=
  Nat.min_le_right _ _

/-- The index ranges of the stopband are well formed, and these are the points in them. -/
structure StopbandRanges (g : Geometry) (points : Nat) : Prop where
  start_le : ∀ r ∈ g.stopband points, r.start ≤ r.stop
  stop_le : ∀ r ∈ g.stopband points, r.stop ≤ points
  unclamped : ∀ n ∈ g.usedEdges, g.responseIndex points n = 2 * points * n / g.numTaps
  quotient_lt : 0 < points → ∀ n ∈ g.usedEdges, 2 * points * n / g.numTaps < points
  ordered : g.band = .bandstop → ∃ lower upper,
    g.stopband points = [lower, upper] ∧ lower.stop ≤ upper.start
  lowpass : g.band = .lowpass → ∀ index, g.Observed points index ↔
    index < points ∧ 2 * points * g.edges.n2 < (index + 1) * g.numTaps
  below : g.band = .highpass ∨ g.band = .bandpass → ∀ index, g.Observed points index ↔
    (index + 1) * g.numTaps ≤ 2 * points * g.edges.n1

section Ranges

variable {g : Geometry} {points index : Nat} (hfit : g.edges.Fit g.band g.fold)
  (hN : 3 ≤ g.numTaps)
include hfit hN

/-- What lies below the lowest edge lies on the grid. -/
theorem lt_points_of_mul_le (h : (index + 1) * g.numTaps ≤ 2 * points * g.edges.n1) :
    index < points := by
  have hn1 : g.edges.n1 ≤ g.fold :=
    le_fold_of_mem_usedEdges hfit (by unfold usedEdges; split <;> simp)
  have hp : 0 < points := by
    refine Nat.pos_of_ne_zero fun hzero => ?_
    rw [hzero, Nat.mul_zero, Nat.zero_mul, Nat.add_one_mul] at h
    omega
  have hlt := two_mul_lt_points_mul hN hp hn1
  exact Nat.lt_of_succ_lt (Nat.lt_of_mul_lt_mul_right (lt_of_le_of_lt h hlt))

variable (hsize : 2 * points * g.numTaps < UInt64.size)
include hsize

theorem stopbandRanges : g.StopbandRanges points where
  start_le r hr := by
    have hle := g.responseIndex_le points
    unfold stopband at hr
    cases hb : g.band with
    | lowpass | highpass | bandpass =>
        simp only [hb, List.mem_singleton] at hr
        subst hr
        simp [hle]
    | bandstop =>
        obtain ⟨hmiddle, hupper, hlast, -⟩ := hfit.four (by rw [hb]; rfl)
        simp only [hb, List.mem_cons, List.not_mem_nil, or_false] at hr
        rcases hr with rfl | rfl
        · exact responseIndex_mono hN hsize hmiddle (hupper.le.trans hlast)
        · exact hle _
  stop_le r hr := by
    have hle := g.responseIndex_le points
    unfold stopband at hr
    cases hb : g.band <;> simp only [hb, List.mem_cons, List.not_mem_nil, or_false] at hr <;> grind
  unclamped _ hn := responseIndex_eq hN hsize (le_fold_of_mem_usedEdges hfit hn)
  quotient_lt hp _ hn := quotient_lt_points hN hp (le_fold_of_mem_usedEdges hfit hn)
  ordered hb := by
    obtain ⟨-, hupper, hlast, -⟩ := hfit.four (by rw [hb]; rfl)
    refine ⟨_, _, by rw [stopband, hb], ?_⟩
    exact responseIndex_mono hN hsize hupper.le hlast
  lowpass hb index := by
    refine ⟨fun h => ⟨h.lt_points, ?_⟩, fun ⟨hi, h⟩ => ?_⟩
    · simpa only [hb] using (observed_iff hfit hN hsize h.lt_points).mp h
    · exact (observed_iff hfit hN hsize hi).mpr (by simpa only [hb] using h)
  below hb index := by
    refine ⟨fun h => ?_, fun h => ?_⟩
    · have hobserved := (observed_iff hfit hN hsize h.lt_points).mp h
      rcases hb with hb | hb <;> simpa only [hb] using hobserved
    · refine (observed_iff hfit hN hsize (lt_points_of_mul_le hfit hN h)).mpr ?_
      rcases hb with hb | hb <;> simpa only [hb] using h

/-- No point is seen on an empty grid, and none where the stopband ends at the lowest edge and this
edge comes before the second point. -/
theorem not_observed_iff : (∀ index, ¬ g.Observed points index) ↔
    points = 0 ∨ (g.band = .highpass ∨ g.band = .bandpass) ∧
      2 * points * g.edges.n1 < g.numTaps := by
  have hranges := stopbandRanges hfit hN hsize
  rcases Nat.eq_zero_or_pos points with rfl | hp
  · exact iff_of_true (fun _ h => absurd h.lt_points (Nat.not_lt_zero _)) (.inl rfl)
  rw [or_iff_right hp.ne']
  -- The last point is above every edge, the first one is below all others.
  have hlast : ∀ n ∈ g.usedEdges, 2 * points * n < (points - 1 + 1) * g.numTaps := fun n hn => by
    rw [Nat.sub_add_cancel hp]
    exact two_mul_lt_points_mul hN hp (le_fold_of_mem_usedEdges hfit hn)
  cases hb : g.band with
  | lowpass =>
      have h := hlast g.edges.n2 (by rw [usedEdges, hb]; simp [Band.hasFourEdges])
      have hobserved := (hranges.lowpass hb (points - 1)).mpr ⟨by omega, h⟩
      simpa using ⟨_, hobserved⟩
  | bandstop =>
      have h := hlast g.edges.n4 (by rw [usedEdges, hb]; simp [Band.hasFourEdges])
      have hobserved : g.Observed points (points - 1) :=
        (observed_iff hfit hN hsize (by omega)).mpr (by simpa only [hb] using .inr h)
      simpa using ⟨_, hobserved⟩
  | highpass | bandpass =>
      have hbelow := hranges.below (by simp [hb])
      refine ⟨fun h => ⟨by simp, ?_⟩, fun h index hindex => ?_⟩
      · simpa using mt (hbelow 0).mpr (h 0)
      · have hle := (hbelow index).mp hindex
        rw [Nat.add_one_mul] at hle
        exact absurd h.2 (by omega)

end Ranges

end Geometry

namespace ResponseGrid

variable {α : Type} [Scalar α] {grid : ResponseGrid} {s : HalfSpectrum α}

omit [Scalar α] in
theorem seesNothing_iff :
    grid.SeesNothing s ↔ ∀ index, ¬ s.geometry.Observed grid.points index := by
  refine ⟨fun h index ⟨r, hr, hstart, hstop⟩ => ?_, fun h r hr => ?_⟩
  · have := of_decide_eq_true (h r hr)
    omega
  · refine decide_eq_true (Nat.le_of_not_lt fun hlt => ?_)
    exact h r.start ⟨r, hr, le_rfl, hlt⟩

theorem stopbandLevel_emptyStopband_iff {b : Band} {e : BandEdges} {p : Nat} :
    grid.stopbandLevel s = .error (.degenerateResponse (.emptyStopband b e p)) ↔
      grid.SeesNothing s ∧ s.geometry.band = b ∧ s.geometry.edges = e ∧ grid.points = p := by
  by_cases hsees : grid.SeesNothing s
  · rw [stopbandLevel_of_seesNothing hsees]
    simp [hsees]
  · rw [stopbandLevel_of_sees hsees]
    refine iff_of_false (fun h => ?_) fun h => hsees h.1
    have hcases := judgement grid s
    generalize grid.judged s = o at hcases h
    cases hcases <;> cases h

/-- The stopband ranges of an accepted geometry are well formed, and the complaint about a stopband
without a point is made exactly where the grid has no point in it. -/
theorem emptyStopband_only_without_points (grid : ResponseGrid) (s : HalfSpectrum α)
    (hcheck : s.geometry.check = (.ok () : Outcome α Unit))
    (hsize : 2 * grid.points * s.geometry.numTaps < UInt64.size) :
    s.geometry.StopbandRanges grid.points ∧
    ∀ b e p, grid.stopbandLevel s = .error (.degenerateResponse (.emptyStopband b e p)) ↔
      (grid.points = 0 ∨ (s.geometry.band = .highpass ∨ s.geometry.band = .bandpass) ∧
        2 * grid.points * s.geometry.edges.n1 < s.geometry.numTaps) ∧
      s.geometry.band = b ∧ s.geometry.edges = e ∧ grid.points = p := by
  have hfit := Geometry.edges_fit_of_check hcheck
  have hN := Geometry.three_le_of_check hcheck
  refine ⟨Geometry.stopbandRanges hfit hN hsize, fun b e p => ?_⟩
  rw [stopbandLevel_emptyStopband_iff, seesNothing_iff, Geometry.not_observed_iff hfit hN hsize]

/-- A high-pass filter that stops frequency zero alone has no point in its stopband, and a low-pass
filter of the same length has them from the floor of its edge on. -/
theorem emptyStopband_of_lone_zero :
    (∃ s : HalfSpectrum Float,
      HalfSpectrum.ofGeometry ⟨21, .highpass, .typeI, .twoBand 0 2⟩ = .ok s ∧
        (⟨100, .decibel, .fourier⟩ : ResponseGrid).stopbandLevel s =
          .error (.degenerateResponse (.emptyStopband .highpass (.twoBand 0 2) 100))) ∧
    ∃ s : HalfSpectrum Float,
      HalfSpectrum.ofGeometry ⟨21, .lowpass, .typeI, .twoBand 4 6⟩ = .ok s ∧
        ∀ index, s.geometry.Observed 100 index ↔ index < 100 ∧ 57 ≤ index := by
  constructor
  · obtain ⟨s, hs⟩ : ∃ s : HalfSpectrum Float,
        HalfSpectrum.ofGeometry ⟨21, .highpass, .typeI, .twoBand 0 2⟩ = .ok s :=
      ⟨_, HalfSpectrum.ofGeometry_of_check rfl⟩
    have hgeometry := HalfSpectrum.geometry_of_ofGeometry hs
    obtain ⟨-, herror⟩ := emptyStopband_only_without_points ⟨100, .decibel, .fourier⟩ s
      (by rw [hgeometry]; rfl) (by rw [hgeometry]; decide)
    rw [hgeometry] at herror
    exact ⟨s, hs, (herror _ _ _).mpr ⟨.inr ⟨.inl rfl, by decide⟩, rfl, rfl, rfl⟩⟩
  · obtain ⟨s, hs⟩ : ∃ s : HalfSpectrum Float,
        HalfSpectrum.ofGeometry ⟨21, .lowpass, .typeI, .twoBand 4 6⟩ = .ok s :=
      ⟨_, HalfSpectrum.ofGeometry_of_check rfl⟩
    have hgeometry := HalfSpectrum.geometry_of_ofGeometry hs
    obtain ⟨hranges, -⟩ := emptyStopband_only_without_points ⟨100, .decibel, .fourier⟩ s
      (by rw [hgeometry]; rfl) (by rw [hgeometry]; decide)
    refine ⟨s, hs, fun index => ?_⟩
    rw [hranges.lowpass (by rw [hgeometry]) index, hgeometry]
    simp only [BandEdges.twoBand]
    omega

end ResponseGrid
end FrequencySampling
