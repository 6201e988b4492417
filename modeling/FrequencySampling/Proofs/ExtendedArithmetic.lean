import FrequencySampling.Proofs.Embedding
import FrequencySampling.Proofs.FiniteOrder
import Mathlib.Analysis.SpecialFunctions.Log.ENNRealLog

/-!
The real numbers with two infinities as an arithmetic for designs. Among the reals it computes as
they do, so that a real filter may be read in it; and it has a minus infinity for the logarithm of
zero to be. Nothing is not a number here: below zero the logarithm stays at minus infinity, and the
circular functions take an infinity for zero.
-/

namespace FrequencySampling

noncomputable instance extendedArithmetic : Scalar EReal where
  decLt := inferInstance
  decLe := inferInstance
  ofScientific mantissa negative exponent :=
    ((OfScientific.ofScientific mantissa negative exponent : ℝ) : EReal)
  pi := (Real.pi : EReal)
  sin x := (Real.sin x.toReal : EReal)
  cos x := (Real.cos x.toReal : EReal)
  log10 x := ENNReal.log x.toENNReal / (Real.log (10 : ℕ) : EReal)
  hypot x y :=
    if x = ⊥ ∨ x = ⊤ ∨ y = ⊥ ∨ y = ⊤ then ⊤
    else (Real.sqrt (x.toReal ^ 2 + y.toReal ^ 2) : EReal)
  abs x := (x.abs : EReal)
  floor x := if x = ⊥ ∨ x = ⊤ then x else (((⌊x.toReal⌋ : ℤ) : ℝ) : EReal)
  toIndex x := if x = ⊤ then 2 ^ 64 - 1 else min ⌊x.toReal⌋₊ (2 ^ 64 - 1)
  isNaN _ := false
  isFinite x := decide (x ≠ ⊥ ∧ x ≠ ⊤)

namespace Scalar

theorem log10_extended (x : EReal) :
    log10 x = ENNReal.log x.toENNReal / (Real.log (10 : ℕ) : EReal) := rfl

theorem larger_extended (a b : EReal) : larger a b = max a b := by
  by_cases h : b < a
  · rw [larger, if_pos h, max_eq_left h.le]
  · rw [larger, if_neg h, max_eq_right (not_lt.mp h)]
    rfl

/-- The reals are a part of the extended reals. -/
theorem embeds_extended : Embeds Real.toEReal where
  zero := rfl
  one := rfl
  add := EReal.coe_add
  sub := EReal.coe_sub
  mul := EReal.coe_mul
  div := EReal.coe_div
  neg := EReal.coe_neg
  natCast _ := rfl
  ofScientific _ _ _ := rfl
  pi := rfl
  sin _ := rfl
  cos _ := rfl
  hypot a b := (if_neg (by simp)).symm
  abs a := (EReal.coe_abs a).symm

instance : OrdersNumbers EReal where
  lt_irrefl := lt_irrefl
  lt_trans := lt_trans
  isNaN_of_lt _ := ⟨rfl, rfl⟩
  lt_or_lt {a b _} _ h := (lt_or_ge a b).imp_right fun hle => lt_of_le_of_lt hle h
  isNaN_of_isFinite _ := rfl

end Scalar
end FrequencySampling
