import FrequencySampling.Proofs.StopbandLevel
import Mathlib.Data.List.Forall2

/-!
The sign of a zero. An arithmetic may have two zeros, and a number that was multiplied by one and
added to zero may have come back as the other one. Synthesis and measurement only ever add, subtract
and scale the samples that they are given, which carries the difference no further than to the sign
of another zero, and a magnitude has none. So half spectra that differ in nothing else have one
stopband peak.
-/

namespace FrequencySampling

variable {α : Type} [Scalar α]

namespace Scalar

/-- The values are equal but, perhaps, for the sign of a zero. -/
inductive SameNumber : α → α → Prop
  | refl (a : α) : SameNumber a a
  | zeros {a b : α} (ha : (a == 0) = true) (hb : (b == 0) = true) : SameNumber a b

/-- Nothing but the sign of a zero depends on the sign of a zero. Of a divisor this is not said. -/
class IgnoresZeroSign (α : Type) [Scalar α] : Prop where
  add {a a' b b' : α} : SameNumber a a' → SameNumber b b' → SameNumber (a + b) (a' + b')
  sub {a a' b b' : α} : SameNumber a a' → SameNumber b b' → SameNumber (a - b) (a' - b')
  mul {a a' b b' : α} : SameNumber a a' → SameNumber b b' → SameNumber (a * b) (a' * b')
  div {a a' : α} (b : α) : SameNumber a a' → SameNumber (a / b) (a' / b)
  neg {a a' : α} : SameNumber a a' → SameNumber (-a) (-a')
  abs_eq {a a' : α} : SameNumber a a' → abs a = abs a'
  hypot_eq {a a' b b' : α} : SameNumber a a' → SameNumber b b' → hypot a b = hypot a' b'
  zero_add_mul_one (a : α) : SameNumber (0 + a * 1) a

theorem IgnoresZeroSign.of_single_zero (hzero : ∀ a : α, (a == 0) = true → a = 0)
    (hunit : ∀ a : α, 0 + a * 1 = a) : IgnoresZeroSign α := by
  have heq : ∀ {a b : α}, SameNumber a b → a = b := by
    intro a b h
    cases h with
    | refl => rfl
    | zeros ha hb => rw [hzero a ha, hzero b hb]
  exact {
    add := fun h h' => by rw [heq h, heq h']; exact .refl _
    sub := fun h h' => by rw [heq h, heq h']; exact .refl _
    mul := fun h h' => by rw [heq h, heq h']; exact .refl _
    div := fun b h => by rw [heq h]; exact .refl _
    neg := fun h => by rw [heq h]; exact .refl _
    abs_eq := fun h => by rw [heq h]
    hypot_eq := fun h h' => by rw [heq h, heq h']
    zero_add_mul_one := fun a => by rw [hunit a]; exact .refl _ }

instance : IgnoresZeroSign ℝ :=
  .of_single_zero (fun _ h => eq_of_beq h) fun a => by rw [mul_one, zero_add]

instance : IgnoresZeroSign ℚ :=
  .of_single_zero (fun _ h => eq_of_beq h) fun a => by rw [mul_one, zero_add]

/-- The arrays are equal but, perhaps, for the signs of zeros. -/
structure SameNumbers (xs ys : Array α) : Prop where
  size_eq : xs.size = ys.size
  entry (k : Nat) : SameNumber (xs.getD k 0) (ys.getD k 0)

namespace SameNumbers

variable {xs ys : Array α}

theorem refl (xs : Array α) : SameNumbers xs xs :=
  ⟨rfl, fun _ => .refl _⟩

theorem map_range {f g : Nat → α} (h : ∀ k, SameNumber (f k) (g k)) (n : Nat) :
    SameNumbers ((Array.range n).map f) ((Array.range n).map g) := by
  refine ⟨by simp, fun k => ?_⟩
  simp only [Array.getD_eq_getD_getElem?, Array.getElem?_map, Array.getElem?_range]
  by_cases hk : k < n
  · simpa [hk] using h k
  · simpa [hk] using .refl (0 : α)

theorem setIfInBounds (h : SameNumbers xs ys) (k : Nat) {v w : α} (hv : SameNumber v w) :
    SameNumbers (xs.setIfInBounds k v) (ys.setIfInBounds k w) := by
  refine ⟨by simpa using h.size_eq, fun i => ?_⟩
  have hi := h.entry i
  simp only [Array.getD_eq_getD_getElem?] at hi
  simp only [Array.getD_eq_getD_getElem?, Array.getElem?_setIfInBounds, ← h.size_eq]
  by_cases hki : k = i
  · by_cases hk : k < xs.size
    · simpa [hki, hki ▸ hk] using hv
    · simpa [hki, hki ▸ hk] using .refl (0 : α)
  · simpa [hki] using hi

end SameNumbers

variable [IgnoresZeroSign α]

theorem SameNumber.sumUpTo {start start' : α} {term term' : Nat → α}
    (hstart : SameNumber start start') (hterm : ∀ k, SameNumber (term k) (term' k)) (n : Nat) :
    SameNumber (sumUpTo start term n) (sumUpTo start' term' n) := by
  induction n with
  | zero => exact hstart
  | succ n ih =>
      rw [sumUpTo_succ, sumUpTo_succ]
      exact IgnoresZeroSign.add ih (hterm (n + 1))

theorem SameNumber.scaled {a a' : α} (h : SameNumber a a') (c d : α) :
    SameNumber (c * a * d) (c * a' * d) :=
  IgnoresZeroSign.mul (IgnoresZeroSign.mul (.refl c) h) (.refl d)

end Scalar

open Scalar (SameNumber SameNumbers IgnoresZeroSign)

theorem MagnitudeScale.level_eq [IgnoresZeroSign α] (scale : MagnitudeScale) {a a' : α}
    (h : SameNumber a a') : scale.level a = scale.level a' := by
  unfold level
  rw [IgnoresZeroSign.abs_eq h]

namespace ImpulseResponse

/-- The impulse responses are equal but, perhaps, for the signs of zeros. -/
structure Same (h h' : ImpulseResponse α) : Prop where
  phase_eq : h.phase = h'.phase
  taps : SameNumbers h.taps h'.taps

variable {h h' : ImpulseResponse α}

theorem Same.numTaps_eq (hsame : h.Same h') : h.numTaps = h'.numTaps :=
  hsame.taps.size_eq

theorem Same.tap (hsame : h.Same h') (n : Nat) : SameNumber (h.tap n) (h'.tap n) :=
  hsame.taps.entry n

theorem overlay_sameNumbers {xs ys : Array α} (hsame : SameNumbers xs ys) {combine : α → α → α}
    (hcombine : ∀ {a a' b b' : α}, SameNumber a a' → SameNumber b b' →
      SameNumber (combine a b) (combine a' b')) (half : Nat) :
    SameNumbers (overlay combine half xs) (overlay combine half ys) := by
  unfold overlay
  rw [hsame.size_eq]
  exact .map_range (fun n => hcombine (hsame.entry n) (hsame.entry (n + half))) _

variable [IgnoresZeroSign α]

theorem Same.amplitudeAt (hsame : h.Same h') (lambda : α) :
    SameNumber (h.amplitudeAt lambda) (h'.amplitudeAt lambda) := by
  unfold ImpulseResponse.amplitudeAt
  rw [hsame.phase_eq, hsame.numTaps_eq]
  cases h'.phase with
  | typeI => exact (hsame.tap _).sumUpTo (fun n => (hsame.tap _).scaled _ _) _
  | typeII | typeIII | typeIV =>
      exact SameNumber.sumUpTo (.refl 0) (fun n => (hsame.tap _).scaled _ _) _

theorem Same.foldedTaps (hsame : h.Same h') (length : Nat) :
    SameNumbers (h.foldedTaps length) (h'.foldedTaps length) := by
  unfold ImpulseResponse.foldedTaps
  rw [hsame.numTaps_eq]
  refine .map_range (fun index => ?_) _
  unfold foldedTap
  rw [hsame.numTaps_eq]
  exact SameNumber.sumUpTo (.refl 0) (fun m => hsame.tap _) _

section Transform

variable {xs ys : Array α}

/-- The real and the imaginary parts are equal but, perhaps, for the signs of zeros. -/
def SameParts (z w : α × α) : Prop :=
  SameNumber z.1 w.1 ∧ SameNumber z.2 w.2

theorem binSum_sameParts (hsame : SameNumbers xs ys) (length bin : Nat) :
    SameParts (binSum length bin xs) (binSum length bin ys) := by
  unfold binSum
  rw [hsame.size_eq]
  have hsum : ∀ factor : Nat → α,
      SameNumber (Scalar.sumUpTo 0 (fun n => xs.getD (n - 1) 0 * factor n) ys.size)
        (Scalar.sumUpTo 0 (fun n => ys.getD (n - 1) 0 * factor n) ys.size) :=
    fun factor => SameNumber.sumUpTo (.refl 0)
      (fun n => IgnoresZeroSign.mul (hsame.entry _) (.refl _)) _
  exact ⟨hsum (fun n => Turn.cos ⟨bin * (n - 1), length⟩),
    IgnoresZeroSign.neg (hsum fun n => Turn.sin ⟨bin * (n - 1), length⟩)⟩

theorem binValue_sameParts (hsame : SameNumbers xs ys) (length bin : Nat) :
    SameParts (binValue length bin xs) (binValue length bin ys) := by
  induction length, bin, xs using binValue.induct generalizing ys with
  | case1 length bin xs hodd =>
      rw [binValue.eq_1 _ _ xs, binValue.eq_1 _ _ ys, if_pos hodd, if_pos hodd]
      exact binSum_sameParts hsame length bin
  | case2 length bin xs hodd heven ih =>
      rw [binValue.eq_1 _ _ xs, binValue.eq_1 _ _ ys, if_neg hodd, if_neg hodd,
        if_pos heven, if_pos heven]
      exact ih (overlay_sameNumbers hsame IgnoresZeroSign.add _)
  | case3 length bin xs hodd heven =>
      rw [binValue.eq_1 _ _ xs, binValue.eq_1 _ _ ys, if_neg hodd, if_neg hodd,
        if_neg heven, if_neg heven]
      exact binSum_sameParts (overlay_sameNumbers hsame IgnoresZeroSign.sub _) length bin

theorem binMagnitude_eq (hsame : SameNumbers xs ys) (length bin : Nat) :
    binMagnitude xs length bin = binMagnitude ys length bin := by
  obtain ⟨hre, him⟩ := binValue_sameParts hsame length bin
  exact IgnoresZeroSign.hypot_eq hre him

end Transform

theorem Same.measure_eq (hsame : h.Same h') (grid : ResponseGrid) :
    grid.measure h = grid.measure h' := by
  unfold ResponseGrid.measure
  cases grid.method with
  | amplitude =>
      have hlevel : ∀ lambda, grid.scale.level (h.amplitudeAt lambda) =
          grid.scale.level (h'.amplitudeAt lambda) :=
        fun lambda => grid.scale.level_eq (hsame.amplitudeAt lambda)
      simp only [amplitudes, Array.map_map, Function.comp_def, hlevel]
  | fourier =>
      have hbin := binMagnitude_eq (hsame.foldedTaps (2 * grid.points)) (2 * grid.points)
      simp only [dftMagnitudes, funext hbin]

end ImpulseResponse

namespace HalfSpectrum

/-- The half spectra are equal but, perhaps, for the signs of zeros. -/
structure Same (s t : HalfSpectrum α) : Prop where
  geometry_eq : s.geometry = t.geometry
  desired : SameNumbers s.desired t.desired

variable {s t : HalfSpectrum α}

theorem Same.refl (s : HalfSpectrum α) : s.Same s :=
  ⟨rfl, .refl _⟩

theorem Same.sample (h : s.Same t) (k : Nat) : SameNumber (s.sample k) (t.sample k) :=
  h.desired.entry k

theorem Same.writeSlot (h : s.Same t) (slot : Nat) {v w : α} (hv : SameNumber v w) :
    (s.writeSlot slot v).Same (t.writeSlot slot w) := by
  have hgeometry : (s.writeSlot slot v).geometry = (t.writeSlot slot w).geometry := by
    rw [geometry_writeSlot, geometry_writeSlot, h.geometry_eq]
  have hwritten := h.desired.setIfInBounds (t.geometry.slotIndex slot) hv
  refine ⟨hgeometry, ?_⟩
  unfold HalfSpectrum.writeSlot
  rw [h.geometry_eq]
  cases t.geometry.mirrorIndex? slot with
  | none => exact hwritten
  | some k => exact hwritten.setIfInBounds k hv

theorem Same.writeSlots (h : s.Same t) (slot : Nat) {vs ws : List α}
    (hvs : List.Forall₂ SameNumber vs ws) : (s.writeSlots slot vs).Same (t.writeSlots slot ws) := by
  induction hvs generalizing s t slot with
  | nil => exact h
  | cons hv _ ih => exact ih (h.writeSlot slot hv) (slot + 1)

variable [IgnoresZeroSign α]

open ImpulseResponse in
theorem Same.tapOf (h : s.Same t) (n : Nat) : SameNumber (tapOf s n) (tapOf t n) := by
  have hcosine : ∀ x upper, SameNumber (cosineSum s.sample x upper) (cosineSum t.sample x upper) :=
    fun x upper => (h.sample 0).sumUpTo (fun k => IgnoresZeroSign.mul (.refl _) (h.sample k)) upper
  have hsine : ∀ x upper, SameNumber (sineSum s.sample x upper) (sineSum t.sample x upper) :=
    fun x upper => SameNumber.sumUpTo (.refl 0)
      (fun k => IgnoresZeroSign.mul (.refl _) (h.sample k)) upper
  unfold ImpulseResponse.tapOf tapSum
  rw [h.geometry_eq]
  refine IgnoresZeroSign.div _ ?_
  cases t.geometry.phase with
  | typeI | typeII => exact hcosine _ _
  | typeIII => exact hsine _ _
  | typeIV => exact IgnoresZeroSign.add (IgnoresZeroSign.mul (.refl _) (h.sample _)) (hsine _ _)

theorem Same.judged_eq (h : s.Same t) (grid : ResponseGrid) : grid.judged s = grid.judged t := by
  have htaps : ImpulseResponse.Same
      ⟨(Array.range t.geometry.numTaps).map (ImpulseResponse.tapOf s), t.geometry.phase⟩
      ⟨(Array.range t.geometry.numTaps).map (ImpulseResponse.tapOf t), t.geometry.phase⟩ :=
    ⟨rfl, .map_range h.tapOf _⟩
  unfold ResponseGrid.judged ImpulseResponse.ofSpectrum
  rw [h.geometry_eq]
  cases (t.geometry.phase.check t.geometry.numTaps : Outcome α Unit) with
  | error e => rfl
  | ok u => exact congrArg (· >>= MagnitudeResponse.normalize) (htaps.measure_eq grid)

theorem Same.stopbandLevel_eq (h : s.Same t) (grid : ResponseGrid) :
    grid.stopbandLevel s = grid.stopbandLevel t := by
  by_cases hsees : grid.SeesNothing t
  · have hsees' : grid.SeesNothing s := by rwa [ResponseGrid.SeesNothing, h.geometry_eq]
    rw [ResponseGrid.stopbandLevel_of_seesNothing hsees,
      ResponseGrid.stopbandLevel_of_seesNothing hsees', h.geometry_eq]
  · have hsees' : ¬ grid.SeesNothing s := by rwa [ResponseGrid.SeesNothing, h.geometry_eq]
    rw [ResponseGrid.stopbandLevel_of_sees hsees, ResponseGrid.stopbandLevel_of_sees hsees',
      h.judged_eq, h.geometry_eq]

end HalfSpectrum
end FrequencySampling
