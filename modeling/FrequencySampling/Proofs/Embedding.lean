import FrequencySampling.ImpulseResponse.OfSpectrum
import FrequencySampling.MagnitudeResponse.Grid

/-!
One arithmetic read in another. Synthesis and the amplitudes of a filter are built from sums,
products and circular functions alone; a reading that keeps these keeps the filters, and what is
measured of a filter before it is put on a scale.
-/

namespace FrequencySampling

variable {α β : Type} [Scalar α] [Scalar β] {f : α → β}

namespace Scalar

/-- A reading that keeps all that a filter is computed with. Of the order and the logarithm it says
nothing. -/
structure Embeds (f : α → β) : Prop where
  zero : f 0 = 0
  one : f 1 = 1
  add (a b : α) : f (a + b) = f a + f b
  sub (a b : α) : f (a - b) = f a - f b
  mul (a b : α) : f (a * b) = f a * f b
  div (a b : α) : f (a / b) = f a / f b
  neg (a : α) : f (-a) = -f a
  natCast (n : Nat) : f n = n
  ofScientific (mantissa : Nat) (negative : Bool) (exponent : Nat) :
    f (OfScientific.ofScientific mantissa negative exponent) =
      OfScientific.ofScientific mantissa negative exponent
  pi : f pi = pi
  sin (a : α) : f (sin a) = sin (f a)
  cos (a : α) : f (cos a) = cos (f a)
  hypot (a b : α) : f (hypot a b) = hypot (f a) (f b)
  abs (a : α) : f (abs a) = abs (f a)

theorem Embeds.sumUpTo (hf : Embeds f) (start : α) (term : Nat → α) (n : Nat) :
    f (sumUpTo start term n) = Scalar.sumUpTo (f start) (fun k => f (term k)) n := by
  induction n with
  | zero => rfl
  | succ n ih => rw [sumUpTo_succ, sumUpTo_succ, hf.add, ih]

/-- What an array does not list is zero in both. -/
theorem Embeds.getD_map (hf : Embeds f) (xs : Array α) (k : Nat) :
    (xs.map f).getD k 0 = f (xs.getD k 0) := by
  rw [Array.getD_eq_getD_getElem?, Array.getD_eq_getD_getElem?, Array.getElem?_map]
  cases xs[k]? with
  | none => exact hf.zero.symm
  | some x => rfl

end Scalar

open Scalar (Embeds)

theorem Turn.cos_map (hf : Embeds f) (t : Turn) : f t.cos = t.cos := by
  unfold Turn.cos Turn.angle
  split <;> simp only [hf.cos, hf.div, hf.mul, hf.natCast, hf.pi, hf.one, hf.neg, hf.zero]

theorem Turn.sin_map (hf : Embeds f) (t : Turn) : f t.sin = t.sin := by
  unfold Turn.sin Turn.angle
  split <;> simp only [hf.sin, hf.div, hf.mul, hf.natCast, hf.pi, hf.one, hf.neg, hf.zero]

/-- A half spectrum read in another arithmetic. -/
def HalfSpectrum.map (f : α → β) (s : HalfSpectrum α) : HalfSpectrum β :=
  ⟨s.geometry, s.desired.map f⟩

theorem HalfSpectrum.sample_map (hf : Embeds f) (s : HalfSpectrum α) (k : Nat) :
    (s.map f).sample k = f (s.sample k) :=
  hf.getD_map s.desired k

namespace ImpulseResponse

/-- An impulse response read in another arithmetic. -/
def map (f : α → β) (h : ImpulseResponse α) : ImpulseResponse β :=
  ⟨h.taps.map f, h.phase⟩

omit [Scalar α] [Scalar β] in
theorem numTaps_map (f : α → β) (h : ImpulseResponse α) : (h.map f).numTaps = h.numTaps :=
  Array.size_map

theorem tap_map (hf : Embeds f) (h : ImpulseResponse α) (n : Nat) :
    (h.map f).tap n = f (h.tap n) :=
  hf.getD_map h.taps n

section Synthesis

theorem tapSum_map (hf : Embeds f) (s : HalfSpectrum α) (offset : α) :
    tapSum (s.map f) (f offset) = f (tapSum s offset) := by
  have hgeometry : (s.map f).geometry = s.geometry := rfl
  unfold tapSum cosineSum sineSum
  rw [hgeometry]
  cases s.geometry.phase <;>
    simp only [HalfSpectrum.sample_map hf, hf.sumUpTo, hf.add, hf.mul, hf.div, hf.neg, hf.natCast,
      hf.zero, hf.pi, hf.sin, hf.cos]

theorem tapOf_map (hf : Embeds f) (s : HalfSpectrum α) (n : Nat) :
    tapOf (s.map f) n = f (tapOf s n) := by
  have hgeometry : (s.map f).geometry = s.geometry := rfl
  unfold tapOf
  rw [hgeometry]
  simp only [← hf.natCast, ← hf.one, ← hf.sub, ← hf.div, tapSum_map hf]

theorem ofSpectrum_map (hf : Embeds f) {s : HalfSpectrum α} {h : ImpulseResponse α}
    (hs : ofSpectrum s = .ok h) : ofSpectrum (s.map f) = .ok (h.map f) := by
  have htaps : tapOf (s.map f) = f ∘ tapOf s := funext (tapOf_map hf s)
  have hgeometry : (s.map f).geometry = s.geometry := rfl
  unfold ofSpectrum LinearPhase.check at hs ⊢
  rw [hgeometry, htaps]
  cases hparity : s.geometry.phase.admits s.geometry.numTaps with
  | true =>
      rw [hparity] at hs
      cases hs
      simp [map, Array.map_map, bind, Except.bind, pure, Except.pure]
  | false =>
      rw [hparity] at hs
      cases hs

end Synthesis

section Amplitude

theorem gridFrequency_map (hf : Embeds f) (points index : Nat) :
    f (gridFrequency points index) = gridFrequency points index := by
  unfold gridFrequency
  rw [hf.div, hf.mul, hf.natCast, hf.natCast, hf.pi]

theorem amplitudeAt_map (hf : Embeds f) (h : ImpulseResponse α) (lambda : α) :
    (h.map f).amplitudeAt (f lambda) = f (h.amplitudeAt lambda) := by
  have hphase : (h.map f).phase = h.phase := rfl
  unfold amplitudeAt
  rw [numTaps_map, hphase]
  cases h.phase <;>
    simp only [tap_map hf, hf.sumUpTo, hf.sub, hf.mul, hf.natCast, hf.ofScientific, hf.zero,
      hf.sin, hf.cos]

theorem amplitudes_map (hf : Embeds f) (h : ImpulseResponse α) (points : Nat) :
    (h.map f).amplitudes points = (h.amplitudes points).map f := by
  unfold amplitudes
  rw [Array.map_map]
  refine Array.map_congr_left fun index _ => ?_
  rw [← gridFrequency_map hf, amplitudeAt_map hf]
  rfl

end Amplitude

section Transform

theorem foldedTaps_map (hf : Embeds f) (h : ImpulseResponse α) (length : Nat) :
    (h.map f).foldedTaps length = (h.foldedTaps length).map f := by
  unfold foldedTaps foldedTap
  rw [Array.map_map, numTaps_map]
  refine Array.map_congr_left fun index _ => ?_
  simp only [Function.comp_apply, hf.sumUpTo, hf.zero, tap_map hf]

theorem overlay_map (hf : Embeds f) {combine : α → α → α} {combine' : β → β → β}
    (hcombine : ∀ a b, f (combine a b) = combine' (f a) (f b)) (half : Nat) (input : Array α) :
    overlay combine' half (input.map f) = (overlay combine half input).map f := by
  unfold overlay
  rw [Array.map_map, Array.size_map]
  refine Array.map_congr_left fun n _ => ?_
  simp only [Function.comp_apply, hf.getD_map, hcombine]

theorem binSum_map (hf : Embeds f) (length bin : Nat) (input : Array α) :
    binSum length bin (input.map f) = (binSum length bin input).map f f := by
  unfold binSum
  simp only [Prod.map_apply, Array.size_map, hf.getD_map, hf.sumUpTo, hf.mul, hf.neg, hf.zero,
    Turn.cos_map hf, Turn.sin_map hf]

theorem binValue_map (hf : Embeds f) (length bin : Nat) (input : Array α) :
    binValue length bin (input.map f) = (binValue length bin input).map f f := by
  induction length, bin, input using binValue.induct with
  | case1 length bin input hodd =>
      rw [binValue.eq_1 _ _ (input.map f), binValue.eq_1 _ _ input, if_pos hodd, if_pos hodd]
      exact binSum_map hf length bin input
  | case2 length bin input hodd heven ih =>
      rw [binValue.eq_1 _ _ (input.map f), binValue.eq_1 _ _ input, if_neg hodd, if_neg hodd,
        if_pos heven, if_pos heven, overlay_map hf hf.add]
      exact ih
  | case3 length bin input hodd heven =>
      rw [binValue.eq_1 _ _ (input.map f), binValue.eq_1 _ _ input, if_neg hodd, if_neg hodd,
        if_neg heven, if_neg heven, overlay_map hf hf.sub]
      exact binSum_map hf length bin _

theorem dftMagnitudes_map (hf : Embeds f) (h : ImpulseResponse α) (points : Nat) :
    (h.map f).dftMagnitudes points = (h.dftMagnitudes points).map f := by
  unfold dftMagnitudes binMagnitude
  rw [Array.map_map, foldedTaps_map hf]
  refine Array.map_congr_left fun bin _ => ?_
  rw [binValue_map hf]
  exact (hf.hypot _ _).symm

end Transform

end ImpulseResponse

/-- The amplitudes at the points of a grid, which may be magnitudes already. -/
def ResponseMethod.sampled (method : ResponseMethod) (h : ImpulseResponse α) (points : Nat) :
    Array α :=
  match method with
  | .amplitude => h.amplitudes points
  | .fourier => h.dftMagnitudes points

theorem ResponseMethod.sampled_map (hf : Embeds f) (method : ResponseMethod)
    (h : ImpulseResponse α) (points : Nat) :
    method.sampled (h.map f) points = (method.sampled h points).map f := by
  cases method with
  | amplitude => exact ImpulseResponse.amplitudes_map hf h points
  | fourier => exact ImpulseResponse.dftMagnitudes_map hf h points

theorem ResponseGrid.measure_eq {grid : ResponseGrid} (hp : grid.points ≠ 0)
    (h : ImpulseResponse α) : grid.measure h =
      .ok ⟨(grid.method.sampled h grid.points).map grid.scale.level, grid.scale⟩ := by
  rw [measure, if_neg hp]
  cases grid.method <;> rfl

end FrequencySampling
