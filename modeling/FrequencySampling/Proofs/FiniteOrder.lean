import FrequencySampling.Proofs.ExactArithmetic
import FrequencySampling.Proofs.RationalArithmetic

/-!
What a search relies on when it compares values: among finite numbers the order is a strict weak
one. Machine numbers order their finite values so, and exact numbers are all finite. Peaks are taken
over infinities too, and over values that are no numbers and compare with nothing.
-/

namespace FrequencySampling

class Scalar.OrdersFinite (α : Type) [Scalar α] : Prop where
  not_lt_of_lt {a b : α} : Scalar.isFinite a → Scalar.isFinite b → a < b → ¬ b < a
  lt_or_lt {a b c : α} : Scalar.isFinite a → Scalar.isFinite b → Scalar.isFinite c →
    a < c → a < b ∨ b < c

instance : Scalar.OrdersFinite ℝ where
  not_lt_of_lt _ _ h := lt_asymm h
  lt_or_lt {a b _} _ _ _ h := (lt_or_ge a b).imp_right fun hle => lt_of_le_of_lt hle h

instance : Scalar.OrdersFinite ℚ where
  not_lt_of_lt _ _ h := lt_asymm h
  lt_or_lt {a b _} _ _ _ h := (lt_or_ge a b).imp_right fun hle => lt_of_le_of_lt hle h

class Scalar.OrdersNumbers (α : Type) [Scalar α] : Prop where
  lt_irrefl (a : α) : ¬ a < a
  lt_trans {a b c : α} : a < b → b < c → a < c
  isNaN_of_lt {a b : α} : a < b → Scalar.isNaN a = false ∧ Scalar.isNaN b = false
  lt_or_lt {a b c : α} : Scalar.isNaN b = false → a < c → a < b ∨ b < c
  isNaN_of_isFinite {a : α} : Scalar.isFinite a → Scalar.isNaN a = false

theorem Scalar.OrdersNumbers.lt_asymm {α : Type} [Scalar α] [Scalar.OrdersNumbers α] {a b : α}
    (h : a < b) : ¬ b < a :=
  fun h' => lt_irrefl a (lt_trans h h')

instance (priority := low) {α : Type} [Scalar α] [Scalar.OrdersNumbers α] :
    Scalar.OrdersFinite α where
  not_lt_of_lt _ _ h := Scalar.OrdersNumbers.lt_asymm h
  lt_or_lt _ hb _ h := Scalar.OrdersNumbers.lt_or_lt (Scalar.OrdersNumbers.isNaN_of_isFinite hb) h

instance : Scalar.OrdersNumbers ℝ where
  lt_irrefl := lt_irrefl
  lt_trans := lt_trans
  isNaN_of_lt _ := ⟨rfl, rfl⟩
  lt_or_lt {a b _} _ h := (lt_or_ge a b).imp_right fun hle => lt_of_le_of_lt hle h
  isNaN_of_isFinite _ := rfl

instance : Scalar.OrdersNumbers ℚ where
  lt_irrefl := lt_irrefl
  lt_trans := lt_trans
  isNaN_of_lt _ := ⟨rfl, rfl⟩
  lt_or_lt {a b _} _ h := (lt_or_ge a b).imp_right fun hle => lt_of_le_of_lt hle h
  isNaN_of_isFinite _ := rfl

/-- Of two numbers, one is at most the other unless it lies above it. -/
class Scalar.ComparesNumbers (α : Type) [Scalar α] : Prop extends Scalar.OrdersNumbers α where
  le_iff_not_lt {a b : α} : Scalar.isNaN a = false → Scalar.isNaN b = false → (a ≤ b ↔ ¬ b < a)

instance : Scalar.ComparesNumbers ℝ where
  le_iff_not_lt _ _ := not_lt.symm

instance : Scalar.ComparesNumbers ℚ where
  le_iff_not_lt _ _ := not_lt.symm

namespace Scalar.ComparesNumbers

variable {α : Type} [Scalar α] [ComparesNumbers α] {a b c : α}

theorem le_refl (ha : isNaN a = false) : a ≤ a :=
  (le_iff_not_lt ha ha).mpr (OrdersNumbers.lt_irrefl a)

theorem le_trans (ha : isNaN a = false) (hb : isNaN b = false) (hc : isNaN c = false) (hab : a ≤ b)
    (hbc : b ≤ c) : a ≤ c := by
  rw [le_iff_not_lt ha hb] at hab
  rw [le_iff_not_lt hb hc] at hbc
  rw [le_iff_not_lt ha hc]
  intro hca
  rcases OrdersNumbers.lt_or_lt hb hca with hcb | hba
  · exact hbc hcb
  · exact hab hba

theorem le_of_lt (h : a < b) : a ≤ b := by
  obtain ⟨ha, hb⟩ := OrdersNumbers.isNaN_of_lt h
  exact (le_iff_not_lt ha hb).mpr (OrdersNumbers.lt_asymm h)

theorem le_of_not_lt (ha : isNaN a = false) (hb : isNaN b = false) (h : ¬ b < a) : a ≤ b :=
  (le_iff_not_lt ha hb).mpr h

theorem lt_of_not_le (ha : isNaN a = false) (hb : isNaN b = false) (h : ¬ a ≤ b) : b < a :=
  not_not.mp fun hlt => h (le_of_not_lt ha hb hlt)

theorem lt_of_lt_of_le (hc : isNaN c = false) (hab : a < b) (hbc : b ≤ c) : a < c := by
  obtain ⟨-, hb⟩ := OrdersNumbers.isNaN_of_lt hab
  exact (OrdersNumbers.lt_or_lt hc hab).resolve_right ((le_iff_not_lt hb hc).mp hbc)

theorem lt_of_le_of_lt (ha : isNaN a = false) (hab : a ≤ b) (hbc : b < c) : a < c := by
  obtain ⟨hb, -⟩ := OrdersNumbers.isNaN_of_lt hbc
  exact (OrdersNumbers.lt_or_lt ha hbc).resolve_left ((le_iff_not_lt ha hb).mp hab)

end Scalar.ComparesNumbers

end FrequencySampling
