import FrequencySampling.Proofs.BandLayout
import FrequencySampling.Proofs.DoubleIndices
import FrequencySampling.Proofs.Placement
import FrequencySampling.Proofs.Search.Params

/-!
Which cutoffs lead to a low-pass half spectrum, whatever number the fraction is or is not. The edge
becomes an index before it is compared with anything, and the upper edge is counted from it. An edge
that is too large for an index is held at the last one; the upper edge then wraps, and the edges are
refused for their order and not for their size.
-/

namespace FrequencySampling

theorem Geometry.check_eq_ok_iff {α : Type} {g : Geometry} :
    g.check = (.ok () : Outcome α Unit) ↔
      g.phase.admits g.numTaps ∧ 3 ≤ g.numTaps ∧ g.edges.Fit g.band g.fold := by
  constructor
  · intro h
    exact ⟨admits_of_check h, three_le_of_check h, edges_fit_of_check h⟩
  · rintro ⟨hparity, hfits⟩
    have hcases : g.Checked (g.check : Outcome α Unit) := g.checked
    generalize (g.check : Outcome α Unit) = o at hcases
    cases hcases with
    | parity h => exact absurd hparity h
    | refused _ h => exact absurd hfits h
    | accepted => rfl

/-- The order of the lower edges is looked at first, after parity and length. -/
theorem Geometry.check_of_disordered {α : Type} {g : Geometry} (hparity : g.phase.admits g.numTaps)
    (htaps : 3 ≤ g.numTaps) (hedges : g.edges.n2 ≤ g.edges.n1) : g.check =
      (.error (.invalidConfig (.lowerEdgesOutOfOrder g.edges.n1 g.edges.n2)) : Outcome α Unit) := by
  rw [check, LinearPhase.check, if_pos hparity]
  dsimp only [bind, Except.bind]
  rw [if_neg (Nat.not_lt.mpr htaps)]
  exact if_pos hedges

theorem BandEdges.fit_lowpass_iff {n1 n2 fold : Nat} :
    (twoBand n1 n2).Fit .lowpass fold ↔ n1 < n2 ∧ n2 ≤ fold :=
  ⟨fun h => ⟨h.lower, h.two rfl⟩, fun h => ⟨h.1, fun _ => h.2, nofun⟩⟩

variable {α : Type} [Scalar α] {taps transitions : Nat} {phase : LinearPhase} {c : Cutoff α}
  {p : Placement α}

theorem Placement.ofCutoff_eq_ok_iff : ofCutoff taps c = .ok p ↔
    (Scalar.isFinite (rawEdge taps c) = true ∧ ¬ rawEdge taps c < 0) ∧
      p = ⟨Scalar.toIndex (rawEdge taps c),
        (2 : Nat) * (rawEdge taps c + crossing (taps % 2 == 1) c.level) / taps⟩ := by
  rw [ofCutoff]
  split_ifs with h
  · refine iff_of_false (fun hp => by cases hp) fun hp => ?_
    simp [hp.1.1, hp.1.2] at h
  · have hfit : Scalar.isFinite (rawEdge taps c) = true ∧ ¬ rawEdge taps c < 0 := by
      simpa using h
    rw [and_iff_right hfit, Except.ok.injEq]
    exact eq_comm

namespace HalfSpectrum

theorem lowpassOfCutoff_of_placed (hfew : transitions ≤ 2)
    (hp : Placement.ofCutoff taps c = .ok p) : lowpassOfCutoff taps phase c transitions = do
      let s ← ofGeometry ⟨taps, .lowpass, phase,
        .twoBand p.edge ((p.edge + 1 + transitions) % UInt64.size)⟩
      return (s, p) := by
  rw [lowpassOfCutoff, if_neg (Nat.not_lt.mpr hfew), hp]
  rfl

theorem lowpassOfCutoff_eq_ok_iff {s : HalfSpectrum α} :
    lowpassOfCutoff taps phase c transitions = .ok (s, p) ↔
      transitions ≤ 2 ∧ Placement.ofCutoff taps c = .ok p ∧
        ofGeometry ⟨taps, .lowpass, phase,
          .twoBand p.edge ((p.edge + 1 + transitions) % UInt64.size)⟩ = .ok s := by
  rw [lowpassOfCutoff, Outcome.guard_eq_ok_iff, Nat.not_lt]
  refine and_congr_right fun _ => ?_
  rw [Outcome.bind_eq_ok_iff]
  constructor
  · rintro ⟨placement, hp, h⟩
    obtain ⟨spectrum, hs, h⟩ := Outcome.bind_eq_ok_iff.mp h
    cases h
    exact ⟨hp, hs⟩
  · rintro ⟨hp, hs⟩
    exact ⟨p, hp, Outcome.bind_eq_ok_iff.mpr ⟨s, hs, rfl⟩⟩

/-- A geometry takes the edges exactly if the upper one has not wrapped and is not beyond the
fold. -/
theorem isOk_ofGeometry_iff (hsize : taps < UInt64.size) (hfew : transitions ≤ 2) {edge : Nat} :
    (∃ s : HalfSpectrum α, ofGeometry ⟨taps, .lowpass, phase,
        .twoBand edge ((edge + 1 + transitions) % UInt64.size)⟩ = .ok s) ↔
      (taps % 2 = 1 ↔ phase.hasOddLength = true) ∧ 3 ≤ taps ∧
        edge + 1 + transitions ≤ Geometry.foldOf taps := by
  have hchecked : ∀ g : Geometry, (∃ s : HalfSpectrum α, ofGeometry g = .ok s) ↔
      g.check = (.ok () : Outcome α Unit) :=
    fun g => ⟨fun ⟨_, hs⟩ => check_of_ofGeometry hs, fun h => ⟨_, ofGeometry_of_check h⟩⟩
  rw [hchecked, Geometry.check_eq_ok_iff, LinearPhase.admits_iff, BandEdges.fit_lowpass_iff]
  refine and_congr_right fun _ => and_congr_right fun htaps => ?_
  have hfold : 2 * Geometry.foldOf taps < taps :=
    Geometry.two_mul_fold_lt (g := ⟨taps, .lowpass, phase, .twoBand 0 0⟩) htaps
  change _ ∧ _ ≤ Geometry.foldOf taps ↔ _
  unfold UInt64.size at hsize ⊢
  omega

/-- A cutoff is accepted exactly if its edge is an index and leaves room for the transition samples
below the fold. -/
theorem isOk_lowpassOfCutoff_iff (hsize : taps < UInt64.size) :
    (∃ s p, lowpassOfCutoff taps phase c transitions = .ok (s, p)) ↔
      transitions ≤ 2 ∧ (taps % 2 = 1 ↔ phase.hasOddLength = true) ∧ 3 ≤ taps ∧
        (Scalar.isFinite (Placement.rawEdge taps c) = true ∧ ¬ Placement.rawEdge taps c < 0) ∧
        Scalar.toIndex (Placement.rawEdge taps c) + 1 + transitions ≤ Geometry.foldOf taps := by
  simp only [lowpassOfCutoff_eq_ok_iff, Placement.ofCutoff_eq_ok_iff]
  constructor
  · rintro ⟨s, p, hfew, ⟨hedge, rfl⟩, hs⟩
    obtain ⟨hparity, htaps, hroom⟩ := (isOk_ofGeometry_iff hsize hfew).mp ⟨s, hs⟩
    exact ⟨hfew, hparity, htaps, hedge, hroom⟩
  · rintro ⟨hfew, hparity, htaps, hedge, hroom⟩
    obtain ⟨s, hs⟩ := (isOk_ofGeometry_iff (α := α) hsize hfew).mpr ⟨hparity, htaps, hroom⟩
    exact ⟨s, _, hfew, ⟨hedge, rfl⟩, hs⟩

/-- An upper edge that has wrapped lies below the lower one, and is reported as it is. -/
theorem lowpassOfCutoff_of_wrapped (hfew : transitions ≤ 2)
    (hparity : phase.admits taps) (htaps : 3 ≤ taps)
    (hp : Placement.ofCutoff taps c = .ok p) (hedge : p.edge < UInt64.size)
    (hwrap : UInt64.size ≤ p.edge + 1 + transitions) :
    lowpassOfCutoff taps phase c transitions = .error (.invalidConfig
      (.lowerEdgesOutOfOrder p.edge (p.edge + 1 + transitions - UInt64.size))) := by
  have hwrapped : (p.edge + 1 + transitions) % UInt64.size =
      p.edge + 1 + transitions - UInt64.size := by
    unfold UInt64.size at *
    omega
  have hbelow : p.edge + 1 + transitions - UInt64.size ≤ p.edge := by
    unfold UInt64.size at *
    omega
  have hcheck := Geometry.check_of_disordered (α := α) (g := ⟨taps, .lowpass, phase,
    .twoBand p.edge (p.edge + 1 + transitions - UInt64.size)⟩) hparity htaps hbelow
  rw [lowpassOfCutoff_of_placed hfew hp, hwrapped, ofGeometry, hcheck]
  rfl

/-- Whatever the fraction is, a half spectrum is built exactly if the floor is an index that leaves
room for the transition samples below the fold. Counting the upper edge wraps exactly if the floor
is `2 ^ 64` or more, and the edges are then refused for their order. -/
theorem lowpassOfCutoff_of_any_cutoff (taps : Nat) (phase : LinearPhase) (c : Cutoff Float)
    (transitions : Nat) (hsize : taps < UInt64.size) :
    ((∃ s p, lowpassOfCutoff taps phase c transitions = .ok (s, p)) ↔
      transitions ≤ 2 ∧ (taps % 2 = 1 ↔ phase.hasOddLength = true) ∧ 3 ≤ taps ∧
        (Scalar.isFinite (Placement.rawEdge taps c) = true ∧ 0 ≤ Placement.rawEdge taps c) ∧
        Scalar.toIndex (Placement.rawEdge taps c) + 1 + transitions ≤ Geometry.foldOf taps) ∧
    ∀ p, transitions ≤ 2 → Placement.ofCutoff taps c = .ok p →
      (UInt64.size ≤ p.edge + 1 + transitions ↔
        ((UInt64.size : Nat) : Float) ≤ Placement.rawEdge taps c) ∧
      (UInt64.size ≤ p.edge + 1 + transitions → phase.admits taps → 3 ≤ taps →
        lowpassOfCutoff taps phase c transitions = .error (.invalidConfig
          (.lowerEdgesOutOfOrder (UInt64.size - 1) transitions))) := by
  constructor
  · rw [isOk_lowpassOfCutoff_iff hsize]
    refine and_congr_right fun _ => and_congr_right fun _ => and_congr_right fun _ =>
      and_congr_left fun _ => and_congr_right fun hfinite => ?_
    exact (Scalar.ComparesNumbers.le_iff_not_lt (by decide +kernel)
      (DoubleOrder.isNaN_of_isFinite hfinite)).symm
  · intro p hfew hp
    obtain ⟨⟨hfinite, -⟩, rfl⟩ := Placement.ofCutoff_eq_ok_iff.mp hp
    have hnumber : Scalar.isNaN (Placement.rawEdge taps c) = false :=
      DoubleOrder.isNaN_of_isFinite hfinite
    have hsizeNumber : Scalar.isNaN ((UInt64.size : Nat) : Float) = false := by decide +kernel
    have hwraps : UInt64.size ≤ Scalar.toIndex (Placement.rawEdge taps c) + 1 + transitions ↔
        ((UInt64.size : Nat) : Float) ≤ Placement.rawEdge taps c := by
      constructor
      · intro hwrap
        by_contra hle
        have hroom := DoubleIndices.toIndex_of_lt_size
          (Scalar.ComparesNumbers.lt_of_not_le hsizeNumber hnumber hle)
        omega
      · intro hle
        rw [DoubleIndices.toIndex_of_size_le hle]
        exact Nat.le_add_right _ _
    refine ⟨hwraps, fun hwrap hparity htaps => ?_⟩
    have hlast := DoubleIndices.toIndex_of_size_le (hwraps.mp hwrap)
    have hbound : Scalar.toIndex (Placement.rawEdge taps c) < UInt64.size := by
      rw [hlast]
      decide
    rw [lowpassOfCutoff_of_wrapped hfew hparity htaps hp hbound hwrap]
    dsimp only
    rw [hlast, show UInt64.size - 1 + 1 + transitions - UInt64.size = transitions from
      Nat.add_sub_cancel_left _ _]

/-- Half the folding frequency is accepted in twenty-one taps, with two samples in transition. -/
theorem lowpassOfCutoff_of_half : ∃ s p,
    lowpassOfCutoff 21 .typeI (⟨0.5, .halfPower⟩ : Cutoff Float) 2 = .ok (s, p) ∧
      p.edge = 4 ∧ ¬ UInt64.size ≤ p.edge + 1 + 2 := by
  obtain ⟨haccepts, hwraps⟩ := lowpassOfCutoff_of_any_cutoff 21 .typeI
    (⟨0.5, .halfPower⟩ : Cutoff Float) 2 (by decide)
  obtain ⟨s, p, hs⟩ := haccepts.mpr (by decide +kernel)
  have hp := (lowpassOfCutoff_eq_ok_iff.mp hs).2.1
  have hedge : p.edge = 4 := by
    obtain ⟨-, rfl⟩ := Placement.ofCutoff_eq_ok_iff.mp hp
    decide +kernel
  refine ⟨s, p, hs, hedge, fun hwrap => ?_⟩
  exact absurd ((hwraps p (by decide) hp).1.mp hwrap) (by decide +kernel)

/-- A fraction that is far above the folding frequency makes the upper edge wrap. -/
theorem lowpassOfCutoff_wraps : ∃ p,
    Placement.ofCutoff 21 (⟨1e300, .halfPower⟩ : Cutoff Float) = .ok p ∧
      UInt64.size ≤ p.edge + 1 + 1 ∧
      lowpassOfCutoff 21 .typeI (⟨1e300, .halfPower⟩ : Cutoff Float) 1 =
        .error (.invalidConfig (.lowerEdgesOutOfOrder (UInt64.size - 1) 1)) := by
  have hedge : Scalar.toIndex (Placement.rawEdge 21 (⟨1e300, .halfPower⟩ : Cutoff Float)) =
      UInt64.size - 1 := by decide +kernel
  have hp : Placement.ofCutoff 21 (⟨1e300, .halfPower⟩ : Cutoff Float) = .ok ⟨_, _⟩ :=
    Placement.ofCutoff_eq_ok_iff.mpr ⟨by decide +kernel, rfl⟩
  rw [hedge] at hp
  have hwrap : lowpassOfCutoff 21 .typeI (⟨1e300, .halfPower⟩ : Cutoff Float) 1 = _ :=
    lowpassOfCutoff_of_wrapped (by decide) (by decide) (by decide) hp (by decide) (by decide)
  exact ⟨_, hp, by decide, hwrap⟩

end HalfSpectrum
end FrequencySampling
