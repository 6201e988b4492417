import FrequencySampling.HalfSpectrum.Placement
import FrequencySampling.Proofs.ExactArithmetic
import FrequencySampling.Proofs.Geometry
import FrequencySampling.HalfSpectrum.Transition
import Mathlib.Algebra.Order.Floor.Semiring
import Mathlib.Tactic.FieldSimp
import Mathlib.Tactic.Linarith

/-!
Placing a passband edge from a cutoff, in exact arithmetic. The edge is the floor of how far the
passband may reach, and the cutoff expected of an edge undoes this: the edge is the last one of
which no cutoff above the given one is expected, and of the next one such a cutoff is.
-/

namespace FrequencySampling

namespace Placement

/-- The cutoff to expect with a passband that ends at a sample. -/
noncomputable def cutoffOf (taps : ℕ) (level : CutoffLevel) (edge : ℕ) : ℝ :=
  (2 : ℕ) * (edge + crossing (taps % 2 == 1) level) / taps

/-- How far a passband may reach, in samples. -/
noncomputable def reach (taps : ℕ) (c : Cutoff ℝ) : ℝ :=
  taps * c.fraction / (2 : ℕ) - crossing (taps % 2 == 1) c.level

@[simp] theorem crossing_odd_halfAmplitude : crossing true .halfAmplitude = (1 / 2 : ℝ) := by
  change (0.5 : ℝ) = 1 / 2
  norm_num

@[simp] theorem crossing_odd_halfPower : crossing true .halfPower = (293 / 1000 : ℝ) := by
  change (0.293 : ℝ) = 293 / 1000
  norm_num

@[simp] theorem crossing_even_halfAmplitude : crossing false .halfAmplitude = (0 : ℝ) := rfl

@[simp] theorem crossing_even_halfPower : crossing false .halfPower = (-207 / 1000 : ℝ) := by
  change (-0.207 : ℝ) = -207 / 1000
  norm_num

section Reach

variable {taps n : ℕ} {c c' : Cutoff ℝ}

theorem crossing_lower (odd : Bool) (level : CutoffLevel) : (-1 : ℝ) < crossing odd level := by
  cases odd <;> cases level <;> simp <;> norm_num

/-- In even lengths the crossing does not lie past the edge. -/
theorem crossing_even_nonpos (level : CutoffLevel) : crossing false level ≤ (0 : ℝ) := by
  cases level <;> norm_num

theorem cutoffOf_le_iff (htaps : 0 < taps) :
    cutoffOf taps c.level n ≤ c.fraction ↔ (n : ℝ) ≤ reach taps c := by
  have hpos : (0 : ℝ) < taps := Nat.cast_pos.mpr htaps
  rw [cutoffOf, reach, div_le_iff₀ hpos, le_sub_iff_add_le, le_div_iff₀ (by norm_num)]
  push_cast
  constructor <;> intro h <;> linarith

theorem cutoffOf_add_one (htaps : 0 < taps) (level : CutoffLevel) (n : ℕ) :
    cutoffOf taps level (n + 1) = cutoffOf taps level n + (2 : ℕ) / taps := by
  have hpos : (taps : ℝ) ≠ 0 := Nat.cast_ne_zero.mpr htaps.ne'
  unfold cutoffOf
  push_cast
  field_simp
  ring

theorem reach_neg_iff (htaps : 0 < taps) (hc : 0 < c.fraction) : reach taps c < 0 ↔
    taps % 2 = 1 ∧ (taps : ℝ) * c.fraction / (2 : ℕ) < crossing true c.level := by
  have hpos : (0 : ℝ) < taps * c.fraction / (2 : ℕ) := by positivity
  unfold reach
  rw [sub_neg]
  by_cases hodd : taps % 2 = 1
  · simp [hodd]
  · have heven : (taps % 2 == 1) = false := beq_false_of_ne hodd
    rw [heven]
    have hcross := crossing_even_nonpos c.level
    exact iff_of_false (by linarith) fun h => hodd h.1

theorem reach_mono (hlevel : c.level = c'.level) (h : c.fraction ≤ c'.fraction) :
    reach taps c ≤ reach taps c' := by
  unfold reach
  rw [hlevel]
  gcongr

theorem reach_lt (hc : c.fraction < 1) : reach taps c < taps + 1 := by
  have hcross := crossing_lower (taps % 2 == 1) c.level
  have htaps : (0 : ℝ) ≤ taps := Nat.cast_nonneg taps
  have hproduct : taps * c.fraction ≤ taps := mul_le_of_le_one_right htaps hc.le
  unfold reach
  push_cast
  linarith

theorem rawEdge_real (taps : ℕ) (c : Cutoff ℝ) : rawEdge taps c = (⌊reach taps c⌋ : ℤ) := rfl

/-- The placement without the detour over a number that need not be an index. -/
theorem ofCutoff_eq (hsize : taps < UInt64.size) (hc : c.fraction < 1) :
    ofCutoff taps c =
      if reach taps c < 0 then
        .error (.invalidParameter (.cutoffBelowFirstSample c.fraction taps))
      else .ok ⟨⌊reach taps c⌋₊, cutoffOf taps c.level ⌊reach taps c⌋₊⟩ := by
  have hneg : ((⌊reach taps c⌋ : ℤ) : ℝ) < 0 ↔ reach taps c < 0 := by
    rw [Int.cast_lt_zero, Int.floor_lt, Int.cast_zero]
  rw [ofCutoff]
  simp only [rawEdge_real, Scalar.isFinite_real, hneg, Bool.not_true, Bool.false_eq_true, false_or]
  split_ifs with hreach
  · rfl
  · have hfloor : ((⌊reach taps c⌋₊ : ℕ) : ℝ) = (⌊reach taps c⌋ : ℤ) :=
      natCast_floor_eq_intCast_floor (not_lt.mp hreach)
    have hindex : ⌊reach taps c⌋₊ ≤ 2 ^ 64 - 1 := by
      have hlt : ⌊reach taps c⌋₊ < taps + 1 :=
        (Nat.floor_lt (not_lt.mp hreach)).mpr (by exact_mod_cast reach_lt hc)
      have : taps ≤ 2 ^ 64 - 1 := Nat.le_sub_one_of_lt hsize
      omega
    have htoIndex : Scalar.toIndex ((⌊reach taps c⌋ : ℤ) : ℝ) = ⌊reach taps c⌋₊ := by
      change min ⌊((⌊reach taps c⌋ : ℤ) : ℝ)⌋₊ (2 ^ 64 - 1) = _
      rw [← hfloor, Nat.floor_natCast, Nat.min_eq_left hindex]
    rw [htoIndex, cutoffOf, hfloor]

/-- What a placement is to its cutoff: the edge is the last one whose expected cutoff is not above
the given one, and the next one would be expected above it. -/
structure Tightest (taps : ℕ) (c : Cutoff ℝ) (p : Placement ℝ) : Prop where
  predicted_le : p.predicted ≤ c.fraction
  lt_predicted_add : c.fraction < p.predicted + (2 : ℕ) / taps
  predicted_eq : p.predicted = cutoffOf taps c.level p.edge
  isGreatest : IsGreatest {n : ℕ | cutoffOf taps c.level n ≤ c.fraction} p.edge

theorem tightest_floor (htaps : 0 < taps) (hreach : 0 ≤ reach taps c) :
    Tightest taps c ⟨⌊reach taps c⌋₊, cutoffOf taps c.level ⌊reach taps c⌋₊⟩ where
  predicted_le := (cutoffOf_le_iff htaps).mpr (Nat.floor_le hreach)
  lt_predicted_add := by
    have hnext : ¬ ((⌊reach taps c⌋₊ + 1 : ℕ) : ℝ) ≤ reach taps c :=
      not_le.mpr (by exact_mod_cast Nat.lt_floor_add_one (reach taps c))
    rw [← cutoffOf_le_iff htaps, not_le, cutoffOf_add_one htaps] at hnext
    exact hnext
  predicted_eq := rfl
  isGreatest :=
    ⟨(cutoffOf_le_iff htaps).mpr (Nat.floor_le hreach),
      fun _ hn => Nat.le_floor ((cutoffOf_le_iff htaps).mp hn)⟩

/-- A placement that succeeds is the floor of the reach. -/
theorem eq_floor_of_ofCutoff (hsize : taps < UInt64.size) (hc : c.fraction < 1)
    {p : Placement ℝ} (h : ofCutoff taps c = .ok p) :
    0 ≤ reach taps c ∧ p = ⟨⌊reach taps c⌋₊, cutoffOf taps c.level ⌊reach taps c⌋₊⟩ := by
  rw [ofCutoff_eq hsize hc] at h
  split_ifs at h with hreach
  cases h
  exact ⟨not_lt.mp hreach, rfl⟩

theorem ofCutoff_error_iff (hsize : taps < UInt64.size) (hc : c.fraction < 1) :
    (∃ e, ofCutoff taps c = .error e) ↔ reach taps c < 0 := by
  rw [ofCutoff_eq hsize hc]
  split_ifs with hreach
  · exact iff_of_true ⟨_, rfl⟩ hreach
  · exact iff_of_false nofun hreach

end Reach
end Placement

/-- A low-pass half spectrum that is built from a cutoff has the edges of the placement, apart by
the transition samples asked for. The index of its upper edge has not wrapped, as the edges would
then be out of order. -/
theorem HalfSpectrum.lowpassOfCutoff_placed {α : Type} [Scalar α] {taps : Nat}
    {phase : LinearPhase} {c : Cutoff α} {transitions : Nat} {s : HalfSpectrum α} {p : Placement α}
    (h : lowpassOfCutoff taps phase c transitions = .ok (s, p)) :
    Placement.ofCutoff taps c = .ok p ∧
      s.geometry.edges = .twoBand p.edge (p.edge + 1 + transitions) ∧
      s.numTransitions = transitions := by
  rw [lowpassOfCutoff] at h
  by_cases hmany : 2 < transitions
  · rw [if_pos hmany] at h
    cases h
  rw [if_neg hmany] at h
  cases hp : Placement.ofCutoff taps c with
  | error e =>
      rw [hp] at h
      cases h
  | ok placement =>
      rw [hp] at h
      dsimp only [bind, Except.bind, pure, Except.pure] at h
      split at h
      · cases h
      rename_i spectrum hs
      cases h
      have hgeometry := geometry_of_ofGeometry hs
      have hlower := (Geometry.edges_fit_of_check (check_of_ofGeometry hs)).lower
      simp only [BandEdges.twoBand] at hlower
      have hwrap : (p.edge + 1 + transitions) % UInt64.size = p.edge + 1 + transitions := by
        unfold UInt64.size at hlower ⊢
        omega
      refine ⟨rfl, by rw [hgeometry, hwrap], ?_⟩
      rw [numTransitions, hgeometry, Geometry.numTransitions]
      simp only [BandEdges.twoBand, hwrap]
      omega

/-- The passband edge is placed at the last sample that the cutoff allows, further up for a higher
cutoff, and for every cutoff that allows one. -/
theorem Placement.ofCutoff_tightest_from_below (taps : ℕ) (c : Cutoff ℝ) (htaps : 0 < taps)
    (hsize : taps < UInt64.size) (hpos : 0 < c.fraction) (hc : c.fraction < 1) :
    (∀ p, ofCutoff taps c = .ok p → Tightest taps c p) ∧
    (∀ c' p p', c.level = c'.level → c.fraction ≤ c'.fraction → c'.fraction < 1 →
      ofCutoff taps c = .ok p → ofCutoff taps c' = .ok p' → p.edge ≤ p'.edge) ∧
    ((∃ e, ofCutoff taps c = .error e) ↔ taps % 2 = 1 ∧
      (c.level = .halfAmplitude ∧ taps * c.fraction / 2 < 1 / 2 ∨
        c.level = .halfPower ∧ taps * c.fraction / 2 < 293 / 1000)) ∧
    ∀ phase transitions s p, HalfSpectrum.lowpassOfCutoff taps phase c transitions = .ok (s, p) →
      ofCutoff taps c = .ok p ∧ s.geometry.edges = .twoBand p.edge (p.edge + 1 + transitions) ∧
        s.numTransitions = transitions := by
  refine ⟨fun p hp => ?_, fun c' p p' hlevel hle hc' hp hp' => ?_, ?_,
    fun _ _ _ _ => HalfSpectrum.lowpassOfCutoff_placed⟩
  · obtain ⟨hreach, rfl⟩ := eq_floor_of_ofCutoff hsize hc hp
    exact tightest_floor htaps hreach
  · obtain ⟨-, rfl⟩ := eq_floor_of_ofCutoff hsize hc hp
    obtain ⟨-, rfl⟩ := eq_floor_of_ofCutoff hsize hc' hp'
    exact Nat.floor_mono (reach_mono hlevel hle)
  · rw [ofCutoff_error_iff hsize hc, reach_neg_iff htaps hpos]
    cases c.level <;> simp

/-- A quarter of the sampling rate, at half power, places the edge of twenty-one taps at sample
four. -/
theorem Placement.ofCutoff_tightest_quarter : ∃ (s : HalfSpectrum ℝ) (p : Placement ℝ),
    HalfSpectrum.lowpassOfCutoff 21 .typeI ⟨1 / 2, .halfPower⟩ 1 = .ok (s, p) ∧
      Tightest 21 ⟨1 / 2, .halfPower⟩ p ∧ s.geometry.edges = .twoBand 4 6 ∧
      s.numTransitions = 1 := by
  obtain ⟨htightest, -, -, hbuilt⟩ := ofCutoff_tightest_from_below 21
    ⟨1 / 2, .halfPower⟩ (by decide) (by decide) (by norm_num) (by norm_num)
  have hreach : reach 21 ⟨1 / 2, .halfPower⟩ = 4957 / 1000 := by
    rw [reach, show (21 % 2 == 1) = true from rfl, crossing_odd_halfPower]
    norm_num
  have hedge : ⌊reach 21 ⟨1 / 2, .halfPower⟩⌋₊ = 4 := by
    rw [hreach, Nat.floor_eq_iff (by norm_num)]
    norm_num
  have hp := @ofCutoff_eq 21 ⟨1 / 2, .halfPower⟩ (by decide) (by norm_num)
  rw [if_neg (by rw [hreach]; norm_num), hedge] at hp
  obtain ⟨s, hs⟩ : ∃ s : HalfSpectrum ℝ,
      HalfSpectrum.ofGeometry ⟨21, .lowpass, .typeI, .twoBand 4 6⟩ = .ok s :=
    ⟨_, HalfSpectrum.ofGeometry_of_check rfl⟩
  have hrun : HalfSpectrum.lowpassOfCutoff 21 .typeI ⟨1 / 2, .halfPower⟩ 1 =
      .ok (s, ⟨4, cutoffOf 21 .halfPower 4⟩) := by
    rw [HalfSpectrum.lowpassOfCutoff, if_neg (by decide), hp]
    dsimp only [bind, Except.bind]
    rw [show (4 + 1 + 1) % UInt64.size = 6 from rfl, hs]
    rfl
  obtain ⟨hplaced, hedges, hcount⟩ := hbuilt _ _ _ _ hrun
  exact ⟨s, _, hrun, htightest _ hplaced, hedges, hcount⟩

end FrequencySampling
