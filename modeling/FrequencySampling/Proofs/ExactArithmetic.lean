import Mathlib.Analysis.SpecialFunctions.Log.Base
import Mathlib.Analysis.SpecialFunctions.Trigonometric.Basic
import FrequencySampling.Scalar

/-!
The real numbers as an arithmetic for designs. Every real is a number and finite, so the guards
against other values never fire. The reals have no minus infinity: the logarithm of zero is the zero
that the library of real functions gives it, so nothing is said here of silent frequencies in
decibels.
-/

namespace FrequencySampling

noncomputable instance exactArithmetic : Scalar ℝ where
  decLt := inferInstance
  decLe := inferInstance
  pi := Real.pi
  sin := Real.sin
  cos := Real.cos
  log10 := Real.logb 10
  hypot x y := Real.sqrt (x ^ 2 + y ^ 2)
  abs x := |x|
  floor x := ⌊x⌋
  toIndex x := min ⌊x⌋₊ (2 ^ 64 - 1)
  isNaN _ := false
  isFinite _ := true

namespace Scalar

@[simp] theorem pi_real : (pi : ℝ) = Real.pi := rfl

@[simp] theorem sin_real (x : ℝ) : sin x = Real.sin x := rfl

@[simp] theorem cos_real (x : ℝ) : cos x = Real.cos x := rfl

@[simp] theorem hypot_real (x y : ℝ) : hypot x y = Real.sqrt (x ^ 2 + y ^ 2) := rfl

@[simp] theorem abs_real (x : ℝ) : Scalar.abs x = |x| := rfl

@[simp] theorem isNaN_real (x : ℝ) : isNaN x = false := rfl

@[simp] theorem isFinite_real (x : ℝ) : isFinite x = true := rfl

theorem larger_real (a b : ℝ) : larger a b = max a b := by
  by_cases h : b < a
  · rw [larger, if_pos h, max_eq_left h.le]
  · rw [larger, if_neg h, isNaN_real, max_eq_right (not_lt.mp h)]
    rfl

theorem smaller_real (a b : ℝ) : smaller a b = min a b := by
  by_cases h : a < b
  · rw [smaller, if_pos h, min_eq_left h.le]
  · rw [smaller, if_neg h, isNaN_real, min_eq_right (not_lt.mp h)]
    rfl

/-- A sum in order is a finite sum, its terms still numbered from one. -/
theorem sumUpTo_real (start : ℝ) (term : ℕ → ℝ) (n : ℕ) :
    sumUpTo start term n = start + ∑ k ∈ Finset.range n, term (k + 1) := by
  induction n with
  | zero => simp
  | succ n ih =>
      rw [sumUpTo_succ, ih, Finset.sum_range_succ]
      exact add_assoc _ _ _

end Scalar
end FrequencySampling
