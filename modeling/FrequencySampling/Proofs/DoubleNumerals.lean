import FrequencySampling.Proofs.Codec.Numbers
import FrequencySampling.Proofs.DoubleOrder
import FrequencySampling.Proofs.DoubleRange
import FrequencySampling.Proofs.Json.Layout

/-!
Doubles as stored numbers. A word that is not marked as infinite or no number is one that is split
into an integer and a power of two, so it has a numeral.
-/

namespace FrequencySampling.DoubleNumerals

open Float.Model UnpackedFloat

theorem toNat_unpackExponent (b : BitVec Format.binary64.numBits) :
    (unpackExponent b).toNat = b.toNat / 2 ^ 52 % 2 ^ 11 := by
  unfold unpackExponent
  rw [BitVec.toNat_cast, BitVec.extractLsb_toNat, Nat.shiftRight_eq_div_pow]
  rfl

theorem isFinite_unpack_iff (b : BitVec Format.binary64.numBits) :
    (UnpackedFloat.unpack .binary64 b).isFinite = true ↔ (unpackExponent b).toNat ≠ 2047 := by
  unfold UnpackedFloat.unpack
  dsimp only
  split
  · rename_i hones
    rw [hones]
    refine iff_of_false ?_ fun h => h rfl
    split <;> exact Bool.false_ne_true
  · rename_i hnumber
    refine iff_of_true ?_ fun h => hnumber (BitVec.eq_of_toNat_eq h)
    split
    · split <;> rfl
    · rfl

theorem ofBits_finite_iff (bits : ℕ) :
    (∃ d, Binary64.ofBits bits = .finite d) ↔ bits / 2 ^ 52 % 2 ^ 11 ≠ 2047 := by
  unfold Binary64.ofBits
  dsimp only
  change _ ↔ bits / Nat.pow 2 52 % Nat.pow 2 11 ≠ 2047
  split
  · rename_i hones
    refine iff_of_false ?_ fun h => h hones
    split <;> rintro ⟨d, ⟨⟩⟩
  · rename_i hnumber
    refine iff_of_true ?_ hnumber
    split <;> exact ⟨_, rfl⟩

theorem exists_ofDouble_iff (x : Float) :
    (∃ d, Binary64.ofDouble x = .finite d) ↔ x.isFinite = true := by
  change _ ↔ (UnpackedFloat.unpack .binary64 x.toModel.toBits.toBitVec).isFinite = true
  rw [isFinite_unpack_iff, toNat_unpackExponent]
  exact ofBits_finite_iff _

theorem isSome_toNumeral? (x : Float) :
    (StoredNumber.toNumeral? x).isSome = x.isFinite := by
  rw [Bool.eq_iff_iff, ← exists_ofDouble_iff]
  unfold StoredNumber.toNumeral? instStoredNumberFloat
  dsimp only
  cases Binary64.ofDouble x with
  | finite d => exact iff_of_true rfl ⟨d, rfl⟩
  | _ => exact iff_of_false Bool.false_ne_true (by rintro ⟨d, ⟨⟩⟩)

/-- A number above zero and not above one is none of the infinities. -/
theorem isFinite_of_unit {x : Float} (hnumber : x.isNaN = false) (hpos : ¬ x ≤ 0) (hone : ¬ 1 < x) :
    x.isFinite = true := by
  rw [DoubleOrder.le_iff] at hpos
  rw [DoubleOrder.lt_iff] at hone
  have hnumber' := DoubleOrder.isNaN_eq_false_iff.mp hnumber
  change x.toModel.unpack.isFinite = true
  cases hx : x.toModel.unpack with
  | notANumber => exact absurd hx hnumber'
  | infinity s =>
      rw [hx] at hpos hone
      cases s with
      | negative => exact absurd ⟨hnumber, rfl, by decide +kernel⟩ hpos
      | positive => exact absurd ⟨rfl, hnumber, by decide +kernel⟩ hone
  | zero s | finite s m e hm => rfl

instance : StoredNumber.Faithful Float where
  isSome_toNumeral? := isSome_toNumeral?
  wellFormed {x n} h := by
    unfold StoredNumber.toNumeral? instStoredNumberFloat at h
    dsimp only at h
    split at h
    · cases h
      exact Layout.wellFormed_numeral _ _
    · cases h
  isFinite_of_ofNumeral? := DoubleRange.isFinite_of_double?
  isFinite_default := by decide +kernel
  isFinite_of_unit := isFinite_of_unit

end FrequencySampling.DoubleNumerals
