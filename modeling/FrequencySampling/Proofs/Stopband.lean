import FrequencySampling.MagnitudeResponse.Stopband
import FrequencySampling.Proofs.Geometry
import Mathlib.Order.Interval.Set.Basic
import Mathlib.Tactic.FieldSimp
import Mathlib.Tactic.Linarith

/-!
Which response points the stopband peak looks at. Points and frequency samples are compared by their
position on one axis, and the bands of a geometry are intervals of it. For filters with two bands
the points cover the stopband and none of them is passed. For filters with three bands that holds
only of grids too coarse for a point in the highest band: elsewhere the band-pass peak overlooks
the upper stopband, and the band-stop peak includes the upper passband.
-/

namespace FrequencySampling.Geometry

/-- A frequency in units of the distance between frequency samples. -/
def position (g : Geometry) (points index : Nat) : ℚ :=
  ((index * g.numTaps : Nat) : ℚ) / ((2 * points : Nat) : ℚ)

/-- The position of the folding frequency, half a sampling rate. -/
def folding (g : Geometry) : ℚ :=
  (g.numTaps : ℚ) / ((2 : Nat) : ℚ)

/-- The bands in the order of their frequencies, each with whether it is passed. The last one ends
at the folding frequency. -/
def bands (g : Geometry) : List (Bool × Set ℚ) :=
  let low := g.band.passesLowest
  if g.band.hasFourEdges then
    [(low, Set.Icc 0 g.edges.n1), (!low, Set.Icc g.edges.n2 g.edges.n3),
      (low, Set.Icc g.edges.n4 g.folding)]
  else [(low, Set.Icc 0 g.edges.n1), (!low, Set.Icc g.edges.n2 g.folding)]

def Observed (g : Geometry) (points index : Nat) : Prop :=
  ∃ r ∈ g.stopband points, r.start ≤ index ∧ index < r.stop

/-- The stopband peak looks at nothing of the passbands, and at every grid step in a stopband. -/
structure ObservesStopband (g : Geometry) (points : Nat) : Prop where
  no_passband : ∀ index, g.Observed points index →
    ∀ b, (true, b) ∈ g.bands → g.position points index ∉ b
  all_stopbands : ∀ index < points, ∀ b, (false, b) ∈ g.bands →
    Set.Icc (g.position points index) (g.position points (index + 1)) ⊆ b →
    g.Observed points index

section Position

variable {g : Geometry} {points index n : Nat}

theorem le_position_iff (hp : 0 < points) :
    (n : ℚ) ≤ g.position points index ↔ 2 * points * n ≤ index * g.numTaps := by
  rw [position, le_div_iff₀ (by exact_mod_cast Nat.mul_pos two_pos hp), mul_comm]
  exact_mod_cast Iff.rfl

theorem position_le_iff (hp : 0 < points) :
    g.position points index ≤ n ↔ index * g.numTaps ≤ 2 * points * n := by
  rw [position, div_le_iff₀ (by exact_mod_cast Nat.mul_pos two_pos hp), mul_comm (n : ℚ)]
  exact_mod_cast Iff.rfl

theorem position_mono (g : Geometry) (points : Nat) {i j : Nat} (h : i ≤ j) :
    g.position points i ≤ g.position points j := by
  unfold position
  gcongr

theorem position_points (g : Geometry) (hp : 0 < points) :
    g.position points points = g.folding := by
  have h : (points : ℚ) ≠ 0 := by exact_mod_cast hp.ne'
  unfold position folding
  push_cast
  field_simp

/-- The products of the index arithmetic stay below the word size, so none of them wraps. -/
theorem lt_responseIndex_iff (hn : n ≤ g.numTaps) (hN : 0 < g.numTaps)
    (hsize : 2 * points * g.numTaps < UInt64.size) :
    index < g.responseIndex points n ↔
      (index + 1) * g.numTaps ≤ 2 * points * n ∧ index < points := by
  have hwrap : 2 * points * n < UInt64.size :=
    lt_of_le_of_lt (Nat.mul_le_mul_left _ hn) hsize
  rw [responseIndex, Nat.mod_eq_of_lt hwrap, lt_min_iff, Nat.lt_iff_add_one_le,
    Nat.le_div_iff_mul_le hN]

theorem responseIndex_le_iff (hn : n ≤ g.numTaps) (hN : 0 < g.numTaps)
    (hsize : 2 * points * g.numTaps < UInt64.size) (hi : index < points) :
    g.responseIndex points n ≤ index ↔ 2 * points * n < (index + 1) * g.numTaps := by
  rw [← not_lt, lt_responseIndex_iff hn hN hsize, not_and_or, not_le]
  exact or_iff_left (not_not_intro hi)

end Position

section Observed

variable {g : Geometry} {points index : Nat}

/-- The stopband ranges by their arithmetic, band by band. -/
theorem observed_iff (hg : g.edges.Fit g.band g.fold) (hN : 3 ≤ g.numTaps)
    (hsize : 2 * points * g.numTaps < UInt64.size) (hi : index < points) :
    g.Observed points index ↔
      match g.band with
      | .lowpass => 2 * points * g.edges.n2 < (index + 1) * g.numTaps
      | .highpass | .bandpass => (index + 1) * g.numTaps ≤ 2 * points * g.edges.n1
      | .bandstop =>
        (2 * points * g.edges.n2 < (index + 1) * g.numTaps ∧
            (index + 1) * g.numTaps ≤ 2 * points * g.edges.n3) ∨
          2 * points * g.edges.n4 < (index + 1) * g.numTaps := by
  have hfold := two_mul_fold_lt hN
  have hpos : 0 < g.numTaps := by omega
  obtain ⟨hlower, htwo, hfour⟩ := hg
  unfold Observed stopband
  cases hb : g.band with
  | lowpass =>
      have hn2 := htwo (by rw [hb]; rfl)
      simp [responseIndex_le_iff (n := g.edges.n2) (by omega) hpos hsize hi, hi]
  | highpass =>
      have hn2 := htwo (by rw [hb]; rfl)
      simp [lt_responseIndex_iff (n := g.edges.n1) (by omega) hpos hsize, hi]
  | bandpass =>
      obtain ⟨h23, h34, h4, -⟩ := hfour (by rw [hb]; rfl)
      simp [lt_responseIndex_iff (n := g.edges.n1) (by omega) hpos hsize, hi]
  | bandstop =>
      obtain ⟨h23, h34, h4, -⟩ := hfour (by rw [hb]; rfl)
      simp [responseIndex_le_iff (n := g.edges.n2) (by omega) hpos hsize hi,
        lt_responseIndex_iff (n := g.edges.n3) (by omega) hpos hsize,
        responseIndex_le_iff (n := g.edges.n4) (by omega) hpos hsize hi, hi]

theorem Observed.lt_points (h : g.Observed points index) : index < points := by
  obtain ⟨r, hr, -, hlt⟩ := h
  unfold stopband responseIndex at hr
  split at hr <;> grind

/-- On a grid with a point for every sample, a point not far below one sample is above the one
before it. -/
theorem lt_position_of_lt {n m : Nat} (hp : 0 < points) (hfine : g.numTaps ≤ 2 * points)
    (hnm : n < m) (h : 2 * points * m < (index + 1) * g.numTaps) :
    (n : ℚ) < g.position points index := by
  have hstep : 2 * points * (n + 1) ≤ 2 * points * m := Nat.mul_le_mul_left _ hnm
  have hlt : ¬ index * g.numTaps ≤ 2 * points * n := by
    rw [Nat.mul_add_one] at hstep
    rw [Nat.add_one_mul index] at h
    omega
  exact not_le.mp fun hle => hlt ((position_le_iff hp).mp hle)

theorem position_lt_of_le {n : Nat} (hp : 0 < points) (hN : 0 < g.numTaps)
    (h : (index + 1) * g.numTaps ≤ 2 * points * n) : g.position points index < n := by
  have hlt : ¬ 2 * points * n ≤ index * g.numTaps := by
    rw [Nat.add_one_mul index] at h
    omega
  exact not_le.mp fun hle => hlt ((le_position_iff hp).mp hle)

theorem cell_subset_iff {a b : ℚ} :
    Set.Icc (g.position points index) (g.position points (index + 1)) ⊆ Set.Icc a b ↔
      a ≤ g.position points index ∧ g.position points (index + 1) ≤ b :=
  Set.Icc_subset_Icc_iff (g.position_mono points (Nat.le_succ index))

theorem le_of_cell {n : Nat} (hp : 0 < points) (hN : 0 < g.numTaps)
    (h : (n : ℚ) ≤ g.position points index) :
    2 * points * n < (index + 1) * g.numTaps := by
  have hle := (le_position_iff hp).mp h
  rw [Nat.add_one_mul index]
  omega

end Observed

section Bands

variable {g : Geometry} {points : Nat}

theorem bands_of_two (h : g.band.hasFourEdges = false) :
    g.bands = [(g.band.passesLowest, Set.Icc 0 (g.edges.n1 : ℚ)),
      (!g.band.passesLowest, Set.Icc (g.edges.n2 : ℚ) g.folding)] := by
  simp [bands, h]

theorem bands_of_four (h : g.band.hasFourEdges = true) :
    g.bands = [(g.band.passesLowest, Set.Icc 0 (g.edges.n1 : ℚ)),
      (!g.band.passesLowest, Set.Icc (g.edges.n2 : ℚ) g.edges.n3),
      (g.band.passesLowest, Set.Icc (g.edges.n4 : ℚ) g.folding)] := by
  simp [bands, h]

variable (hfit : g.edges.Fit g.band g.fold) (hN : 3 ≤ g.numTaps)
  (hfine : g.numTaps ≤ 2 * points) (hsize : 2 * points * g.numTaps < UInt64.size)
include hfit hN hfine hsize

theorem observesStopband_lowpass (hb : g.band = .lowpass) : g.ObservesStopband points := by
  have hp : 0 < points := by omega
  have hbands := bands_of_two (g := g) (by rw [hb]; rfl)
  have hobs := fun index (hi : index < points) => observed_iff hfit hN hsize hi
  simp only [hb, Band.passesLowest, Bool.not_true] at hbands hobs
  constructor
  · intro index hindex b hmem hin
    have hlt := (hobs index hindex.lt_points).mp hindex
    have hb : b = Set.Icc 0 (g.edges.n1 : ℚ) := by simpa [hbands] using hmem
    rw [hb] at hin
    exact absurd hin.2 (not_le.mpr (lt_position_of_lt hp hfine hfit.lower hlt))
  · intro index hi b hmem hcell
    have hb : b = Set.Icc (g.edges.n2 : ℚ) g.folding := by simpa [hbands] using hmem
    rw [hb, cell_subset_iff] at hcell
    exact (hobs index hi).mpr (le_of_cell hp (by omega) hcell.1)

theorem observesStopband_highpass (hb : g.band = .highpass) : g.ObservesStopband points := by
  have hp : 0 < points := by omega
  have hbands := bands_of_two (g := g) (by rw [hb]; rfl)
  have hobs := fun index (hi : index < points) => observed_iff hfit hN hsize hi
  simp only [hb, Band.passesLowest, Bool.not_false] at hbands hobs
  have h12 : (g.edges.n1 : ℚ) < g.edges.n2 := by exact_mod_cast hfit.lower
  constructor
  · intro index hindex b hmem hin
    have hle := (hobs index hindex.lt_points).mp hindex
    have hlt := position_lt_of_le hp (by omega) hle
    have hb : b = Set.Icc (g.edges.n2 : ℚ) g.folding := by simpa [hbands] using hmem
    rw [hb] at hin
    exact absurd hin.1 (not_le.mpr (hlt.trans h12))
  · intro index hi b hmem hcell
    have hb : b = Set.Icc 0 (g.edges.n1 : ℚ) := by simpa [hbands] using hmem
    rw [hb, cell_subset_iff] at hcell
    exact (hobs index hi).mpr ((position_le_iff hp).mp hcell.2)

/-- A band-pass filter is judged by its lower stopband alone. -/
theorem observesStopband_bandpass_iff (hb : g.band = .bandpass) :
    g.ObservesStopband points ↔ g.position points (points - 1) < g.edges.n4 := by
  have hp : 0 < points := by omega
  have hfold := two_mul_fold_lt hN
  have hlast : points - 1 + 1 = points := Nat.sub_add_cancel hp
  have hbands := bands_of_four (g := g) (by rw [hb]; rfl)
  have hobs := fun index (hi : index < points) => observed_iff hfit hN hsize hi
  obtain ⟨h23, h34, h4, -⟩ := hfit.four (by rw [hb]; rfl)
  simp only [hb, Band.passesLowest, Bool.not_false] at hbands hobs
  have h12 : (g.edges.n1 : ℚ) < g.edges.n2 := by exact_mod_cast hfit.lower
  constructor
  · intro h
    by_contra hout
    have hcell : Set.Icc (g.position points (points - 1)) (g.position points (points - 1 + 1)) ⊆
        Set.Icc (g.edges.n4 : ℚ) g.folding := by
      rw [cell_subset_iff, hlast, position_points g hp]
      exact ⟨not_lt.mp hout, le_rfl⟩
    have hseen := h.all_stopbands (points - 1) (by omega) _ (by simp [hbands]) hcell
    -- The step before the folding frequency would have to lie in the lower stopband.
    have hle := (hobs (points - 1) (by omega)).mp hseen
    rw [hlast, Nat.mul_comm 2, Nat.mul_assoc] at hle
    have := Nat.le_of_mul_le_mul_left hle hp
    have := hfit.lower
    omega
  · intro hcoarse
    constructor
    · intro index hindex b hmem hin
      have hle := (hobs index hindex.lt_points).mp hindex
      have hlt := position_lt_of_le hp (by omega) hle
      have hb : b = Set.Icc (g.edges.n2 : ℚ) g.edges.n3 := by simpa [hbands] using hmem
      rw [hb] at hin
      exact absurd hin.1 (not_le.mpr (hlt.trans h12))
    · intro index hi b hmem hcell
      have hb : b = Set.Icc 0 (g.edges.n1 : ℚ) ∨ b = Set.Icc (g.edges.n4 : ℚ) g.folding := by
        simpa [hbands] using hmem
      obtain rfl | rfl := hb
      · exact (hobs index hi).mpr ((position_le_iff hp).mp (cell_subset_iff.mp hcell).2)
      · have hbelow := (g.position_mono points (Nat.le_sub_one_of_lt hi)).trans_lt hcoarse
        exact absurd (cell_subset_iff.mp hcell).1 (not_le.mpr hbelow)

/-- A band-stop filter is judged by its stopband and by its upper passband. -/
theorem observesStopband_bandstop_iff (hb : g.band = .bandstop) :
    g.ObservesStopband points ↔ g.position points (points - 1) < g.edges.n4 := by
  have hp : 0 < points := by omega
  have hbands := bands_of_four (g := g) (by rw [hb]; rfl)
  have hobs := fun index (hi : index < points) => observed_iff hfit hN hsize hi
  obtain ⟨h23, h34, h4, -⟩ := hfit.four (by rw [hb]; rfl)
  simp only [hb, Band.passesLowest, Bool.not_true] at hbands hobs
  have h34' : (g.edges.n3 : ℚ) < g.edges.n4 := by exact_mod_cast h34
  constructor
  · intro h
    by_contra hout
    have hseen := (hobs (points - 1) (by omega)).mpr
      (.inr (le_of_cell hp (by omega) (not_lt.mp hout)))
    refine h.no_passband (points - 1) hseen (Set.Icc (g.edges.n4 : ℚ) g.folding)
      (by simp [hbands]) ⟨not_lt.mp hout, ?_⟩
    rw [← position_points g hp]
    exact g.position_mono points (Nat.sub_le points 1)
  · intro hcoarse
    constructor
    · intro index hindex b hmem hin
      have hlast := g.position_mono points (Nat.le_sub_one_of_lt hindex.lt_points)
      have hbelow := hlast.trans_lt hcoarse
      have hb : b = Set.Icc 0 (g.edges.n1 : ℚ) ∨ b = Set.Icc (g.edges.n4 : ℚ) g.folding := by
        simpa [hbands] using hmem
      obtain rfl | rfl := hb
      · have habove : (g.edges.n1 : ℚ) < g.position points index := by
          obtain ⟨hlt, -⟩ | hlt := (hobs index hindex.lt_points).mp hindex
          · exact lt_position_of_lt hp hfine hfit.lower hlt
          · exact lt_position_of_lt hp hfine (by have := hfit.lower; omega) hlt
        exact absurd hin.2 (not_le.mpr habove)
      · exact absurd hin.1 (not_le.mpr hbelow)
    · intro index hi b hmem hcell
      have hb : b = Set.Icc (g.edges.n2 : ℚ) g.edges.n3 := by simpa [hbands] using hmem
      rw [hb, cell_subset_iff] at hcell
      exact (hobs index hi).mpr
        (.inl ⟨le_of_cell hp (by omega) hcell.1, (position_le_iff hp).mp hcell.2⟩)

end Bands

/-- Filters with two bands are judged by their stopband. Of the highest of three bands the peak sees
a stopband not at all and a passband in full, so there no point may lie in it. -/
theorem observesStopband_iff {α : Type} {g : Geometry} (hg : g.check = (.ok () : Outcome α Unit))
    {points : Nat} (hfine : g.numTaps ≤ 2 * points)
    (hsize : 2 * points * g.numTaps < UInt64.size) :
    g.ObservesStopband points ↔
      (g.band.hasFourEdges = true → g.position points (points - 1) < g.edges.n4) := by
  have hN := three_le_of_check hg
  have hfit := edges_fit_of_check hg
  cases hb : g.band with
  | lowpass => simp [Band.hasFourEdges, observesStopband_lowpass hfit hN hfine hsize hb]
  | highpass => simp [Band.hasFourEdges, observesStopband_highpass hfit hN hfine hsize hb]
  | bandpass => simp [Band.hasFourEdges, observesStopband_bandpass_iff hfit hN hfine hsize hb]
  | bandstop => simp [Band.hasFourEdges, observesStopband_bandstop_iff hfit hN hfine hsize hb]

/-- With eleven points for twenty-one taps, none lies past the tenth sample. -/
theorem observesStopband_coarse_bandstop :
    (⟨21, .bandstop, .typeI, .fourBand 2 4 8 10⟩ : Geometry).check = (.ok () : Outcome ℚ Unit) ∧
      (⟨21, .bandstop, .typeI, .fourBand 2 4 8 10⟩ : Geometry).ObservesStopband 11 := by
  have hg : (⟨21, .bandstop, .typeI, .fourBand 2 4 8 10⟩ : Geometry).check =
      (.ok () : Outcome ℚ Unit) := rfl
  refine ⟨hg, (observesStopband_iff hg (by decide) (by decide)).mpr fun _ => ?_⟩
  norm_num [position, BandEdges.fourBand]

/-- Point 80 of 105 is the sample at which the upper passband of the band-stop filter begins, and it
counts; point 104 is in the upper stopband of the band-pass filter, and does not. -/
theorem not_observesStopband_three_bands :
    ¬ (⟨21, .bandstop, .typeI, .fourBand 2 4 6 8⟩ : Geometry).ObservesStopband 105 ∧
      ¬ (⟨21, .bandpass, .typeI, .fourBand 2 4 6 8⟩ : Geometry).ObservesStopband 105 := by
  constructor
  · intro h
    have hseen : (⟨21, .bandstop, .typeI, .fourBand 2 4 6 8⟩ : Geometry).Observed 105 80 :=
      ⟨⟨80, 105⟩, by decide, by decide, by decide⟩
    refine h.no_passband 80 hseen (Set.Icc 8 (21 / 2)) ?_ ?_
    · norm_num [bands, folding, Band.hasFourEdges, Band.passesLowest, BandEdges.fourBand]
    · norm_num [position]
  · intro h
    have hmem : (false, Set.Icc 8 (21 / 2 : ℚ)) ∈
        (⟨21, .bandpass, .typeI, .fourBand 2 4 6 8⟩ : Geometry).bands := by
      norm_num [bands, folding, Band.hasFourEdges, Band.passesLowest, BandEdges.fourBand]
    obtain ⟨r, hr, -, hlt⟩ := h.all_stopbands 104 (by decide) _ hmem
      (Set.Icc_subset_Icc (by norm_num [position]) (by norm_num [position]))
    have hr : r = ⟨0, 20⟩ := List.mem_singleton.mp hr
    rw [hr] at hlt
    exact absurd hlt (by decide)

end FrequencySampling.Geometry
