import FrequencySampling.HalfSpectrum.Basic

/-!
What the check of a geometry promises to the rest of the library: a length of the parity of its
symmetry, with at least three taps. A half spectrum that was built has a geometry that passed, and a
sample for every frequency from zero to the folding frequency.
-/

namespace FrequencySampling
variable {α : Type}

theorem LinearPhase.admits_iff (p : LinearPhase) (taps : Nat) :
    p.admits taps ↔ (taps % 2 = 1 ↔ p.hasOddLength) := by
  rw [admits, beq_iff_eq, Bool.eq_iff_iff, beq_iff_eq]

/-- Edges in order and up to the fold, with transitions of one width. -/
structure BandEdges.Fit (band : Band) (fold : Nat) (e : BandEdges) : Prop where
  lower : e.n1 < e.n2
  two : band.hasFourEdges = false → e.n2 ≤ fold
  four : band.hasFourEdges = true →
    e.n2 ≤ e.n3 ∧ e.n3 < e.n4 ∧ e.n4 ≤ fold ∧ e.n4 - e.n3 = e.n2 - e.n1

theorem Geometry.checkEdges_eq_ok_iff {band : Band} {edges : BandEdges} {fold : Nat} :
    checkEdges band edges fold = (.ok () : Outcome α Unit) ↔ edges.Fit band fold := by
  obtain ⟨n1, n2, n3, n4⟩ := edges
  unfold checkEdges
  cases hb : band.hasFourEdges
  all_goals constructor
  · intro h
    refine ⟨?_, fun _ => ?_, fun hfour => ?_⟩ <;> grind
  · intro ⟨hlower, htwo, _⟩
    grind
  · intro h
    refine ⟨?_, fun htwo => ?_, fun _ => ?_⟩ <;> grind
  · intro ⟨hlower, _, hfour⟩
    grind

theorem Geometry.admits_of_check {g : Geometry} (h : g.check = (.ok () : Outcome α Unit)) :
    g.phase.admits g.numTaps := by
  cases hp : g.phase.admits g.numTaps with
  | true => rfl
  | false => simp [Geometry.check, LinearPhase.check, hp, bind, Except.bind] at h

theorem Geometry.three_le_of_check {g : Geometry} (h : g.check = (.ok () : Outcome α Unit)) :
    3 ≤ g.numTaps := by
  have hp := admits_of_check h
  refine Nat.le_of_not_lt fun ht => ?_
  simp [Geometry.check, LinearPhase.check, hp, ht, bind, Except.bind, throw, throwThe,
    MonadExceptOf.throw] at h

theorem Geometry.edges_fit_of_check {g : Geometry} (h : g.check = (.ok () : Outcome α Unit)) :
    g.edges.Fit g.band g.fold := by
  have hp := admits_of_check h
  have ht := Nat.not_lt.mpr (three_le_of_check h)
  simp only [check, LinearPhase.check, hp, ht, if_true, if_false, bind, Except.bind] at h
  exact checkEdges_eq_ok_iff.mp h

theorem Geometry.two_mul_fold_lt {g : Geometry} (h : 3 ≤ g.numTaps) : 2 * g.fold < g.numTaps := by
  unfold fold foldOf
  split <;> omega

/-- Every sample below the folding frequency is up to the fold. -/
theorem Geometry.le_fold {g : Geometry} {k : Nat} (hk : 2 * k < g.numTaps) : k ≤ g.fold := by
  unfold fold foldOf
  split <;> omega

theorem HalfSpectrum.getElem?_paint (first last : Nat) (level : α) (samples : Array α) (k : Nat) :
    (paint first last level samples)[k]? =
      samples[k]?.map fun x => if first ≤ k ∧ k ≤ last then level else x := by
  rw [paint, Array.getElem?_mapIdx]

variable [Scalar α]

theorem HalfSpectrum.check_of_ofGeometry {g : Geometry} {s : HalfSpectrum α}
    (h : ofGeometry g = .ok s) : g.check = (.ok () : Outcome α Unit) := by
  cases hc : (g.check : Outcome α Unit) with
  | error e => simp [ofGeometry, hc, bind, Except.bind] at h
  | ok u => rfl

theorem HalfSpectrum.ofGeometry_of_check {g : Geometry}
    (h : g.check = (.ok () : Outcome α Unit)) :
    ofGeometry g = .ok (⟨g, bandLevels g⟩ : HalfSpectrum α) := by
  simp [ofGeometry, h, bind, Except.bind, pure, Except.pure]

theorem HalfSpectrum.geometry_of_ofGeometry {g : Geometry} {s : HalfSpectrum α}
    (h : ofGeometry g = .ok s) : s.geometry = g := by
  have hc := check_of_ofGeometry h
  simp only [ofGeometry, hc, bind, Except.bind, pure, Except.pure, Except.ok.injEq] at h
  rw [← h]

theorem HalfSpectrum.sample?_eq_some {s : HalfSpectrum α} {k : Nat} (hk : k < s.desired.size) :
    s.sample? k = some (s.sample k) := by
  simp [sample?, sample, hk]

/-- The level at which a half spectrum for three bands begins, sample by sample. -/
theorem HalfSpectrum.getElem?_bandLevels {g : Geometry} (hfour : g.band.hasFourEdges = true)
    {k : Nat} (hk : k < g.numSamples) :
    (bandLevels g : Array α)[k]? = some
      (let low : α := if g.band.passesLowest then 1 else 0
       if g.edges.n4 ≤ k then low
       else if g.edges.n2 ≤ k ∧ k ≤ g.edges.n3 then 1 - low
       else if k ≤ g.edges.n1 then low else 0) := by
  have hlast : k ≤ g.numSamples - 1 := by omega
  simp only [bandLevels, hfour, if_true, getElem?_paint, Array.getElem?_replicate, hk, hlast,
    Option.map_some, and_true, Nat.zero_le, true_and]

/-- The same for two bands. -/
theorem HalfSpectrum.getElem?_bandLevels_of_two {g : Geometry}
    (htwo : g.band.hasFourEdges = false) {k : Nat} (hk : k < g.numSamples) :
    (bandLevels g : Array α)[k]? = some
      (let low : α := if g.band.passesLowest then 1 else 0
       if g.edges.n2 ≤ k then 1 - low else if k ≤ g.edges.n1 then low else 0) := by
  have hlast : k ≤ g.numSamples - 1 := by omega
  simp only [bandLevels, htwo, Bool.false_eq_true, if_false, getElem?_paint,
    Array.getElem?_replicate, hk, hlast, if_true, Option.map_some, and_true, Nat.zero_le, true_and]

theorem HalfSpectrum.size_bandLevels (g : Geometry) :
    (bandLevels g : Array α).size = g.numSamples := by
  simp only [bandLevels, paint]
  split <;> simp

theorem HalfSpectrum.size_of_ofGeometry {g : Geometry} {s : HalfSpectrum α}
    (h : ofGeometry g = .ok s) : s.desired.size = g.numSamples := by
  have hc := check_of_ofGeometry h
  simp only [ofGeometry, hc, bind, Except.bind, pure, Except.pure, Except.ok.injEq] at h
  rw [← h]
  exact size_bandLevels g

end FrequencySampling
