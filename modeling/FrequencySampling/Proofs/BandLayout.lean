import FrequencySampling.Proofs.FiniteOrder
import FrequencySampling.Proofs.Geometry
import FrequencySampling.HalfSpectrum.Transition
import FrequencySampling.Scalar.Double
import Mathlib.Order.Interval.Finset.Nat
import Mathlib.Tactic.IntervalCases

/-!
How a half spectrum begins. Exactly the geometries with a length of the right parity, three taps or
more and fitting edges are accepted. The samples of an accepted geometry are divided among bands,
whose levels alternate, and the transitions between them, which are equally wide; the highest band
runs to the last sample, also where this is the one at the folding frequency.
-/

namespace FrequencySampling

/-- What the levels of neighbouring bands rely on: each is one less the other. -/
class Scalar.ComplementsLevels (α : Type) [Scalar α] : Prop where
  one_sub_one : (1 : α) - 1 = 0
  one_sub_zero : (1 : α) - 0 = 1

instance : Scalar.ComplementsLevels ℝ := ⟨sub_self 1, sub_zero 1⟩

instance : Scalar.ComplementsLevels ℚ := ⟨sub_self 1, sub_zero 1⟩

instance : Scalar.ComplementsLevels Float := ⟨by decide +kernel, by decide +kernel⟩

/-- A part of a half spectrum: a band, or the transition above a band. Both are numbered from zero
upwards. -/
inductive SpectrumPart where
  | band (i : Nat)
  | transition (i : Nat)

namespace Band

variable {α : Type} [Scalar α]

/-- A transition separates every two neighbouring bands. -/
def transitionCount (b : Band) : Nat :=
  if b.hasFourEdges then 2 else 1

/-- Every other band from the lowest on is at the level of the lowest. -/
def levelOf (b : Band) : SpectrumPart → α
  | .band i => if i % 2 = 0 ↔ b.passesLowest = true then 1 else 0
  | .transition _ => 0

theorem levelOf_transition (b : Band) (i : Nat) : b.levelOf (.transition i) = (0 : α) := rfl

theorem levelOf_band [Scalar.ComplementsLevels α] (b : Band) (i : Nat) :
    b.levelOf (.band i) =
      if i % 2 = 0 then (if b.passesLowest then 1 else 0 : α)
      else 1 - (if b.passesLowest then 1 else 0 : α) := by
  unfold levelOf
  cases b.passesLowest <;> by_cases hi : i % 2 = 0 <;>
    simp [hi, Scalar.ComplementsLevels.one_sub_one, Scalar.ComplementsLevels.one_sub_zero]

end Band

namespace Geometry

section Acceptance

variable {α : Type} {g : Geometry}

theorem checkEdges_error {band : Band} {edges : BandEdges} {fold : Nat} {e : DesignError α}
    (h : checkEdges band edges fold = .error e) : ∃ fault, e = .invalidConfig fault := by
  obtain ⟨n1, n2, n3, n4⟩ := edges
  unfold checkEdges at h
  grind

/-- How the check of a geometry can end. -/
inductive Checked (g : Geometry) : Outcome α Unit → Prop
  | parity (h : ¬ g.phase.admits g.numTaps) :
      Checked g (.error (.parityMismatch g.phase g.numTaps))
  | refused (hparity : g.phase.admits g.numTaps)
      (h : ¬ (3 ≤ g.numTaps ∧ g.edges.Fit g.band g.fold)) (fault : ConfigFault) :
      Checked g (.error (.invalidConfig fault))
  | accepted (hparity : g.phase.admits g.numTaps)
      (h : 3 ≤ g.numTaps ∧ g.edges.Fit g.band g.fold) : Checked g (.ok ())

theorem checked (g : Geometry) : Checked g (g.check : Outcome α Unit) := by
  rw [check, LinearPhase.check]
  by_cases hparity : g.phase.admits g.numTaps
  · rw [if_pos hparity]
    dsimp only [bind, Except.bind]
    by_cases htaps : g.numTaps < 3
    · rw [if_pos htaps]
      exact .refused hparity (fun h => absurd htaps (Nat.not_lt.mpr h.1)) _
    · rw [if_neg htaps]
      cases hedges : (checkEdges g.band g.edges g.fold : Outcome α Unit) with
      | ok u =>
          exact .accepted hparity ⟨Nat.le_of_not_lt htaps, checkEdges_eq_ok_iff.mp hedges⟩
      | error e =>
          obtain ⟨fault, rfl⟩ := checkEdges_error hedges
          refine .refused hparity (fun h => ?_) fault
          rw [checkEdges_eq_ok_iff.mpr h.2] at hedges
          cases hedges
  · rw [if_neg hparity]
    exact .parity hparity

end Acceptance

section Parts

variable {g : Geometry} {k : Nat}

/-- The samples of a part, none if the geometry lacks it. -/
def samplesOf (g : Geometry) : SpectrumPart → Finset Nat
  | .band 0 => Finset.Icc 0 g.edges.n1
  | .transition 0 => Finset.Ioo g.edges.n1 g.edges.n2
  | .band 1 =>
    if g.band.hasFourEdges then Finset.Icc g.edges.n2 g.edges.n3
    else Finset.Ico g.edges.n2 g.numSamples
  | .transition 1 => if g.band.hasFourEdges then Finset.Ioo g.edges.n3 g.edges.n4 else ∅
  | .band 2 => if g.band.hasFourEdges then Finset.Ico g.edges.n4 g.numSamples else ∅
  | _ => ∅

/-- The part that a sample belongs to. -/
def partOf (g : Geometry) (k : Nat) : SpectrumPart :=
  if k ≤ g.edges.n1 then .band 0
  else if k < g.edges.n2 then .transition 0
  else if g.band.hasFourEdges then
    if k ≤ g.edges.n3 then .band 1 else if k < g.edges.n4 then .transition 1 else .band 2
  else .band 1

theorem mem_samplesOf_iff (h : g.edges.Fit g.band g.fold) (hk : k < g.numSamples)
    (part : SpectrumPart) : k ∈ g.samplesOf part ↔ part = g.partOf k := by
  obtain ⟨hlower, -, hfour⟩ := h
  unfold partOf
  cases hb : g.band.hasFourEdges with
  | true =>
      obtain ⟨hmiddle, hupper, -⟩ := hfour hb
      rcases part with (_ | _ | _ | i) | (_ | _ | i) <;> simp [samplesOf, hb] <;> grind
  | false =>
      rcases part with (_ | _ | _ | i) | (_ | _ | i) <;> simp [samplesOf, hb] <;> grind

/-- No part reaches beyond the last sample. -/
theorem lt_numSamples_of_mem_samplesOf (h : g.edges.Fit g.band g.fold) (htaps : 3 ≤ g.numTaps)
    {part : SpectrumPart} (hk : k ∈ g.samplesOf part) : k < g.numSamples := by
  have hfold := two_mul_fold_lt htaps
  have hsize : g.fold < g.numSamples := by
    unfold numSamples
    omega
  obtain ⟨hlower, htwo, hfour⟩ := h
  cases hb : g.band.hasFourEdges with
  | true =>
      obtain ⟨hmiddle, hupper, hlast, -⟩ := hfour hb
      rcases part with (_ | _ | _ | i) | (_ | _ | i) <;> simp [samplesOf, hb] at hk <;> omega
  | false =>
      have hlast := htwo hb
      rcases part with (_ | _ | _ | i) | (_ | _ | i) <;> simp [samplesOf, hb] at hk <;> omega

theorem existsUnique_part (h : g.edges.Fit g.band g.fold) (hk : k < g.numSamples) :
    ∃! part, k ∈ g.samplesOf part :=
  ⟨g.partOf k, (mem_samplesOf_iff h hk _).mpr rfl, fun part => (mem_samplesOf_iff h hk part).mp⟩

/-- The upper transition is as wide as the lower one. -/
theorem card_samplesOf_transition (h : g.edges.Fit g.band g.fold) {i : Nat}
    (hi : i < g.band.transitionCount) :
    (g.samplesOf (.transition i)).card = g.numTransitions := by
  obtain ⟨-, -, hfour⟩ := h
  unfold Band.transitionCount at hi
  unfold numTransitions
  cases hb : g.band.hasFourEdges with
  | true =>
      obtain ⟨-, -, -, hwidth⟩ := hfour hb
      rw [hb, if_pos rfl] at hi
      interval_cases i <;> simp [samplesOf, hb, hwidth]
  | false =>
      rw [hb, if_neg Bool.false_ne_true] at hi
      interval_cases i
      simp [samplesOf]

end Parts

end Geometry

namespace HalfSpectrum

variable {α : Type} [Scalar α]

/-- The half spectrum is divided into bands at alternating levels and transitions of one width. -/
structure LaidOut (s : HalfSpectrum α) : Prop where
  size_eq : s.desired.size = s.geometry.numTaps / 2 + 1
  existsUnique_part : ∀ k < s.geometry.numTaps / 2 + 1, ∃! part, k ∈ s.geometry.samplesOf part
  sample?_eq : ∀ part, ∀ k ∈ s.geometry.samplesOf part,
    s.sample? k = some (s.geometry.band.levelOf part)
  card_transition : ∀ i < s.geometry.band.transitionCount,
    (s.geometry.samplesOf (.transition i)).card = s.numTransitions

variable [Scalar.ComplementsLevels α] {g : Geometry} {k : Nat}

/-- Every sample begins at the level of the part that it belongs to. -/
theorem getElem?_bandLevels_partOf (h : g.edges.Fit g.band g.fold) (hk : k < g.numSamples) :
    (bandLevels g : Array α)[k]? = some (g.band.levelOf (g.partOf k)) := by
  obtain ⟨hlower, -, hfour⟩ := h
  unfold Geometry.partOf
  cases hb : g.band.hasFourEdges with
  | true =>
      obtain ⟨hmiddle, hupper, -⟩ := hfour hb
      rw [getElem?_bandLevels hb hk, if_pos rfl]
      dsimp only
      split_ifs <;> first | omega | simp [Band.levelOf_band, Band.levelOf_transition, *]
  | false =>
      rw [getElem?_bandLevels_of_two hb hk, if_neg Bool.false_ne_true]
      dsimp only
      split_ifs <;> first | omega | simp [Band.levelOf_band, Band.levelOf_transition, *]

theorem laidOut_bandLevels (h : g.edges.Fit g.band g.fold) (htaps : 3 ≤ g.numTaps) :
    (⟨g, bandLevels g⟩ : HalfSpectrum α).LaidOut where
  size_eq := size_bandLevels g
  existsUnique_part _ hk := Geometry.existsUnique_part h hk
  sample?_eq part k hk := by
    have hlt := Geometry.lt_numSamples_of_mem_samplesOf h htaps hk
    rw [(Geometry.mem_samplesOf_iff h hlt part).mp hk]
    exact getElem?_bandLevels_partOf h hlt
  card_transition _ hi := Geometry.card_samplesOf_transition h hi

/-- The half spectra that are built are those of the well-formed geometries, and they are laid out
in bands. -/
theorem ofGeometry_lays_out_bands (g : Geometry) :
    ((∃ s : HalfSpectrum α, ofGeometry g = .ok s) ↔
      (g.numTaps % 2 = 1 ↔ g.phase.hasOddLength = true) ∧ 3 ≤ g.numTaps ∧
        g.edges.Fit g.band g.fold) ∧
    (∀ e : DesignError α, (ofGeometry g : Outcome α (HalfSpectrum α)) = .error e →
      if g.numTaps % 2 = 1 ↔ g.phase.hasOddLength = true then ∃ fault, e = .invalidConfig fault
      else e = .parityMismatch g.phase g.numTaps) ∧
    ∀ s : HalfSpectrum α, ofGeometry g = .ok s → s.geometry = g ∧ s.LaidOut := by
  have hparity := g.phase.admits_iff g.numTaps
  have hcases : g.Checked (g.check : Outcome α Unit) := g.checked
  generalize hc : (g.check : Outcome α Unit) = o at hcases
  cases hcases with
  | parity h =>
      have herror : (ofGeometry g : Outcome α (HalfSpectrum α)) =
          .error (.parityMismatch g.phase g.numTaps) := by rw [ofGeometry, hc]; rfl
      rw [hparity] at h
      rw [herror]
      simp [h]
  | refused h hrefused fault =>
      have herror : (ofGeometry g : Outcome α (HalfSpectrum α)) =
          .error (.invalidConfig fault) := by rw [ofGeometry, hc]; rfl
      rw [hparity] at h
      rw [herror]
      simp [h, hrefused]
  | accepted h haccepted =>
      rw [hparity] at h
      rw [ofGeometry_of_check hc]
      refine ⟨iff_of_true ⟨_, rfl⟩ ⟨h, haccepted⟩, fun e he => ?_, fun s hs => ?_⟩
      · cases he
      · cases hs
        exact ⟨rfl, laidOut_bandLevels haccepted.2 haccepted.1⟩

/-- The highest band of a band-stop filter of even length takes in the sample at the folding
frequency. -/
theorem exists_bandstop_laidOut : ∃ s : HalfSpectrum Float,
    ofGeometry ⟨32, .bandstop, .typeII, .fourBand 3 6 8 11⟩ = .ok s ∧
      s.sample? 16 = some (s.geometry.band.levelOf (.band 2)) ∧
      (s.geometry.samplesOf (.transition 1)).card = 2 := by
  obtain ⟨haccepts, -, hlays⟩ := ofGeometry_lays_out_bands (α := Float)
    ⟨32, .bandstop, .typeII, .fourBand 3 6 8 11⟩
  obtain ⟨s, hs⟩ := haccepts.mpr ⟨by decide, by decide, by decide, nofun, by decide⟩
  obtain ⟨hgeometry, hlaid⟩ := hlays s hs
  refine ⟨s, hs, hlaid.sample?_eq (.band 2) 16 ?_, ?_⟩
  · rw [hgeometry]
    decide
  · rw [hlaid.card_transition 1 (by rw [hgeometry]; decide), numTransitions, hgeometry]
    rfl

end HalfSpectrum
end FrequencySampling
