import FrequencySampling.Proofs.FiniteOrder
import FrequencySampling.Scalar.Double
import Mathlib

/-!
The order of double precision numbers. Every value that is a number has a place on a line, by its
sign, its exponent and its mantissa in this order; one number is below another if its place is, and
a value that is no number is below nothing.
-/

namespace FrequencySampling.DoubleOrder

open Float.Model UnpackedFloat

/-- The two zeros share a place, and the value that is no number is put there for want of one. -/
def place : UnpackedFloat → ℤ ×ₗ ℤ ×ₗ ℤ
  | .infinity .negative => toLex (-2, toLex (0, 0))
  | .finite .negative mantissa exponent _ => toLex (-1, toLex (-exponent, -mantissa))
  | .zero _ | .notANumber => toLex (0, toLex (0, 0))
  | .finite .positive mantissa exponent _ => toLex (1, toLex (exponent, mantissa))
  | .infinity .positive => toLex (2, toLex (0, 0))

theorem magnitude_lt_iff {e e' : ℤ} {m m' : ℕ} :
    (compare e e').then (compare m m') = .lt ↔ e < e' ∨ e = e' ∧ m < m' := by
  rw [Ordering.then_eq_lt, compare_lt_iff_lt, compare_eq_iff_eq, compare_lt_iff_lt]

theorem magnitude_gt_iff {e e' : ℤ} {m m' : ℕ} :
    (compare e e').then (compare m m') = .gt ↔ e' < e ∨ e = e' ∧ m' < m := by
  rw [Ordering.then_eq_gt, compare_gt_iff_gt, compare_eq_iff_eq, compare_gt_iff_gt]

theorem compare_eq_lt_iff (a b : UnpackedFloat) :
    a.compare b = some .lt ↔ a ≠ .notANumber ∧ b ≠ .notANumber ∧ place a < place b := by
  rcases a with (_ | _) | _ | _ | ⟨_ | _, m, e, -⟩ <;>
    rcases b with (_ | _) | _ | _ | ⟨_ | _, m', e', -⟩ <;>
    simp [UnpackedFloat.compare, place, Prod.Lex.lt_iff, magnitude_lt_iff, magnitude_gt_iff]
  all_goals rfl

theorem magnitude_isLE_iff {e e' : ℤ} {m m' : ℕ} :
    ((compare e e').then (compare m m')).isLE = true ↔ e < e' ∨ e = e' ∧ m ≤ m' := by
  rw [Ordering.isLE_iff_ne_gt, magnitude_gt_iff]
  omega

theorem magnitude_isGE_iff {e e' : ℤ} {m m' : ℕ} :
    ((compare e e').then (compare m m')).isGE = true ↔ e' < e ∨ e = e' ∧ m' ≤ m := by
  rw [Ordering.isGE_iff_ne_lt, magnitude_lt_iff]
  omega

theorem compare_isLE_iff (a b : UnpackedFloat) :
    (a.compare b).any (·.isLE) = true ↔
      a ≠ .notANumber ∧ b ≠ .notANumber ∧ place a ≤ place b := by
  rcases a with (_ | _) | _ | _ | ⟨_ | _, m, e, -⟩ <;>
    rcases b with (_ | _) | _ | _ | ⟨_ | _, m', e', -⟩ <;>
    simp [UnpackedFloat.compare, place, Prod.Lex.le_iff, magnitude_isLE_iff, magnitude_isGE_iff]
  all_goals rfl

theorem isNaN_eq_false_iff {x : Float} : x.isNaN = false ↔ x.toModel.unpack ≠ .notANumber := by
  change x.toModel.unpack.isNaN = false ↔ _
  cases x.toModel.unpack with
  | notANumber => exact iff_of_false Bool.noConfusion fun h => h rfl
  | _ => exact iff_of_true rfl UnpackedFloat.noConfusion

theorem lt_iff {x y : Float} :
    x < y ↔ x.isNaN = false ∧ y.isNaN = false ∧
      place x.toModel.unpack < place y.toModel.unpack := by
  have hlt : x < y ↔ (x.toModel.unpack.compare y.toModel.unpack == some .lt) = true := by
    change decide (_ = true) = true ↔ _
    rw [decide_eq_true_iff]
    rfl
  rw [hlt, beq_iff_eq, compare_eq_lt_iff, isNaN_eq_false_iff, isNaN_eq_false_iff]

theorem le_iff {x y : Float} :
    x ≤ y ↔ x.isNaN = false ∧ y.isNaN = false ∧
      place x.toModel.unpack ≤ place y.toModel.unpack := by
  have hle : x ≤ y ↔ (x.toModel.unpack.compare y.toModel.unpack).any (·.isLE) = true := by
    change decide (_ = true) = true ↔ _
    rw [decide_eq_true_iff]
    rfl
  rw [hle, compare_isLE_iff, isNaN_eq_false_iff, isNaN_eq_false_iff]

theorem isNaN_of_isFinite {x : Float} (h : x.isFinite = true) : x.isNaN = false := by
  rw [isNaN_eq_false_iff]
  intro hx
  change x.toModel.unpack.isFinite = true at h
  rw [hx] at h
  cases h

instance : Scalar.OrdersNumbers Float where
  lt_irrefl x h := lt_irrefl _ (lt_iff.mp h).2.2
  lt_trans h h' := by
    obtain ⟨ha, -, hlt⟩ := lt_iff.mp h
    obtain ⟨-, hc, hlt'⟩ := lt_iff.mp h'
    exact lt_iff.mpr ⟨ha, hc, lt_trans hlt hlt'⟩
  isNaN_of_lt h := ⟨(lt_iff.mp h).1, (lt_iff.mp h).2.1⟩
  lt_or_lt {a b c} hb h := by
    obtain ⟨ha, hc, hlt⟩ := lt_iff.mp h
    rcases lt_or_ge (place a.toModel.unpack) (place b.toModel.unpack) with hab | hba
    · exact .inl (lt_iff.mpr ⟨ha, hb, hab⟩)
    · exact .inr (lt_iff.mpr ⟨hb, hc, lt_of_le_of_lt hba hlt⟩)
  isNaN_of_isFinite := isNaN_of_isFinite

instance : Scalar.ComparesNumbers Float where
  le_iff_not_lt {a b} ha hb := by
    change a.isNaN = false at ha
    change b.isNaN = false at hb
    change a ≤ b ↔ ¬ b < a
    simp only [le_iff, lt_iff, ha, hb, true_and]
    exact not_lt.symm

end FrequencySampling.DoubleOrder
