import FrequencySampling.ImpulseResponse.OfSpectrum
import FrequencySampling.Proofs.ExactArithmetic
import FrequencySampling.Proofs.Geometry

/-!
Synthesized filters have linear phase. A tap and its reflection in the middle are computed from
opposite offsets, and a sign passes through every operation of the four inverse transforms until it
is lost in an even function or comes out of an odd one. So the taps mirror each other exactly, and
not only up to rounding, wherever rounding treats both signs alike. The samples may be anything.
-/

namespace FrequencySampling

/-- A sign passes through the operations, cosine is even and sine is odd. Taps that mirror each
other have opposite offsets from the middle, and only zero is its own opposite. -/
class Scalar.CarriesSign (α : Type) [Scalar α] : Prop where
  neg_zero : -(0 : α) = 0
  one_mul (a : α) : 1 * a = a
  neg_add (a b : α) : -(a + b) = -a + -b
  neg_mul (a b : α) : -a * b = -(a * b)
  mul_neg (a b : α) : a * -b = -(a * b)
  neg_div (a b : α) : -a / b = -(a / b)
  cos_neg (a : α) : Scalar.cos (-a) = Scalar.cos a
  sin_neg (a : α) : Scalar.sin (-a) = -Scalar.sin a
  offset_reflect {taps n : Nat} (h : n < taps) :
    ((taps - 1 - n : Nat) : α) - ((taps : α) - 1) / (2 : Nat) =
      -((n : α) - ((taps : α) - 1) / (2 : Nat))
  eq_zero_of_neg_eq {a : α} : -a = a → a = 0

instance : Scalar.CarriesSign ℝ where
  neg_zero := neg_zero
  one_mul := one_mul
  neg_add := neg_add
  neg_mul := neg_mul
  mul_neg := mul_neg
  neg_div a b := neg_div b a
  cos_neg := Real.cos_neg
  sin_neg := Real.sin_neg
  offset_reflect {taps n} h := by
    rw [Nat.cast_sub (by omega), Nat.cast_sub (by omega), Nat.cast_one, Nat.cast_ofNat]
    ring
  eq_zero_of_neg_eq := neg_eq_self.mp

variable {α : Type} [Scalar α]

theorem LinearPhase.mirrorSign_mul [Scalar.CarriesSign α] (p : LinearPhase) (a : α) :
    p.mirrorSign * a = if p.isEven then a else -a := by
  unfold mirrorSign
  split
  · exact Scalar.CarriesSign.one_mul a
  · rw [Scalar.CarriesSign.neg_mul, Scalar.CarriesSign.one_mul]

namespace ImpulseResponse

theorem ofSpectrum_eq_ok_iff (s : HalfSpectrum α) (h : ImpulseResponse α) :
    ofSpectrum s = .ok h ↔ s.geometry.phase.admits s.geometry.numTaps ∧
      h = ⟨(Array.range s.geometry.numTaps).map (tapOf s), s.geometry.phase⟩ := by
  cases hp : s.geometry.phase.admits s.geometry.numTaps with
  | true =>
      simp only [ofSpectrum, LinearPhase.check, hp, if_true, bind, Except.bind, pure,
        Except.pure, Except.ok.injEq, true_and]
      exact eq_comm
  | false => simp [ofSpectrum, LinearPhase.check, hp, bind, Except.bind]

theorem exists_ofSpectrum {s : HalfSpectrum α}
    (hp : s.geometry.phase.admits s.geometry.numTaps) : ∃ h, ofSpectrum s = .ok h :=
  ⟨_, (ofSpectrum_eq_ok_iff s _).mpr ⟨hp, rfl⟩⟩

theorem tap_ofSpectrum {s : HalfSpectrum α} {h : ImpulseResponse α} (hs : ofSpectrum s = .ok h)
    {n : ℕ} (hn : n < s.geometry.numTaps) : h.tap n = tapOf s n := by
  obtain ⟨_, rfl⟩ := (ofSpectrum_eq_ok_iff s h).mp hs
  simp [tap, hn]

theorem numTaps_ofSpectrum {s : HalfSpectrum α} {h : ImpulseResponse α}
    (hs : ofSpectrum s = .ok h) : h.numTaps = s.geometry.numTaps := by
  obtain ⟨_, rfl⟩ := (ofSpectrum_eq_ok_iff s h).mp hs
  simp [numTaps]

section Reflection

open Scalar
variable [CarriesSign α]

theorem sumUpTo_neg (start : α) (term : Nat → α) (n : Nat) :
    sumUpTo (-start) (fun k => -term k) n = -sumUpTo start term n := by
  induction n with
  | zero => rfl
  | succ n ih => rw [sumUpTo_succ, sumUpTo_succ, ih, CarriesSign.neg_add]

theorem cosineSum_neg (h : Nat → α) (x : α) (upper : Nat) :
    cosineSum h (-x) upper = cosineSum h x upper := by
  simp only [cosineSum, CarriesSign.neg_mul, CarriesSign.cos_neg]

theorem sineSum_neg (h : Nat → α) (x : α) (upper : Nat) :
    sineSum h (-x) upper = -sineSum h x upper := by
  simp only [sineSum, CarriesSign.neg_mul, CarriesSign.mul_neg, CarriesSign.sin_neg]
  rw [← sumUpTo_neg, CarriesSign.neg_zero]

/-- The sums of the even types are even in the offset, those of the odd types odd. -/
theorem tapSum_neg (s : HalfSpectrum α) (offset : α) :
    tapSum s (-offset) = s.geometry.phase.mirrorSign * tapSum s offset := by
  rw [LinearPhase.mirrorSign_mul]
  unfold tapSum
  cases s.geometry.phase with
  | typeI | typeII =>
      simp only [CarriesSign.mul_neg, CarriesSign.neg_div, cosineSum_neg, LinearPhase.isEven,
        if_true]
  | typeIII =>
      simp only [CarriesSign.mul_neg, CarriesSign.neg_div, sineSum_neg, LinearPhase.isEven,
        Bool.false_eq_true, if_false]
  | typeIV =>
      simp only [CarriesSign.mul_neg, CarriesSign.neg_div, sineSum_neg, CarriesSign.sin_neg,
        CarriesSign.neg_mul, CarriesSign.neg_add, LinearPhase.isEven, Bool.false_eq_true, if_false]

theorem tapOf_reflect (s : HalfSpectrum α) {n : Nat} (hn : n < s.geometry.numTaps) :
    tapOf s (s.geometry.numTaps - 1 - n) = s.geometry.phase.mirrorSign * tapOf s n := by
  unfold tapOf
  simp only [CarriesSign.offset_reflect hn, tapSum_neg, LinearPhase.mirrorSign_mul]
  split
  · rfl
  · rw [CarriesSign.neg_div]

end Reflection
end ImpulseResponse

namespace HalfSpectrum
open ImpulseResponse

/-- Synthesis succeeds and its taps mirror each other, with the sign of their type, whatever the
samples are. The middle tap of the third type is its own negative, hence zero. -/
theorem synthesis_linearPhase [Scalar.CarriesSign α] {g : Geometry} {start s : HalfSpectrum α}
    (hstart : ofGeometry g = .ok start) (hg : s.geometry = start.geometry) :
    ∃ h, ofSpectrum s = .ok h ∧ h.phase = g.phase ∧ h.taps.size = g.numTaps ∧
      (∀ n < g.numTaps, h.tap (g.numTaps - 1 - n) = g.phase.mirrorSign * h.tap n) ∧
      (g.phase = .typeIII → h.tap ((g.numTaps - 1) / 2) = 0) := by
  have hcheck := check_of_ofGeometry hstart
  have hp := Geometry.admits_of_check hcheck
  have hsg : s.geometry = g := hg.trans (geometry_of_ofGeometry hstart)
  subst hsg
  obtain ⟨h, hs⟩ := exists_ofSpectrum hp
  have hmirror : ∀ n < s.geometry.numTaps, h.tap (s.geometry.numTaps - 1 - n) =
      s.geometry.phase.mirrorSign * h.tap n := by
    intro n hn
    rw [tap_ofSpectrum hs hn, tap_ofSpectrum hs (by omega), tapOf_reflect s hn]
  refine ⟨h, hs, ?_, numTaps_ofSpectrum hs, hmirror, fun hphase => ?_⟩
  · rw [((ofSpectrum_eq_ok_iff s h).mp hs).2]
  · have hodd : s.geometry.numTaps % 2 = 1 := by
      simpa [hphase, LinearPhase.admits, LinearPhase.hasOddLength] using hp
    -- The middle tap is its own reflection.
    have hmiddle := hmirror ((s.geometry.numTaps - 1) / 2) (by omega)
    have hself : s.geometry.numTaps - 1 - (s.geometry.numTaps - 1) / 2 =
        (s.geometry.numTaps - 1) / 2 := by omega
    rw [hself, LinearPhase.mirrorSign_mul, hphase] at hmiddle
    exact Scalar.CarriesSign.eq_zero_of_neg_eq hmiddle.symm

/-- Neither the sample at frequency zero nor the others keep the taps from mirroring each other. -/
theorem synthesis_linearPhase_five_taps :
    (ofGeometry ⟨5, .lowpass, .typeIII, .twoBand 0 2⟩ : Outcome ℝ (HalfSpectrum ℝ)).isOk = true ∧
      ∃ h, ofSpectrum (⟨⟨5, .lowpass, .typeIII, .twoBand 0 2⟩, #[7, 1, 2]⟩ : HalfSpectrum ℝ) =
          .ok h ∧
        h.taps.size = 5 ∧ h.tap 4 = -1 * h.tap 0 ∧ h.tap 3 = -1 * h.tap 1 ∧ h.tap 2 = 0 := by
  have hstart := ofGeometry_of_check (α := ℝ) (g := ⟨5, .lowpass, .typeIII, .twoBand 0 2⟩) rfl
  obtain ⟨h, hs, -, hsize, hmirror, hmiddle⟩ :=
    synthesis_linearPhase (s := ⟨_, #[7, 1, 2]⟩) hstart rfl
  exact ⟨by rw [hstart]; rfl, h, hs, hsize, hmirror 0 (by decide), hmirror 1 (by decide),
    hmiddle rfl⟩

end HalfSpectrum
end FrequencySampling
