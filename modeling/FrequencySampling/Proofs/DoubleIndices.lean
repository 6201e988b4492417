import FrequencySampling.Proofs.DoubleOrder
import FrequencySampling.Proofs.DoubleRange

/-!
Doubles as indices. A conversion drops what is behind the point and holds at the ends of the range
of 64-bit words. As doubles near the upper end lie thousands apart, an index is either well below
the end or stands for a number beyond it.
-/

namespace FrequencySampling.DoubleIndices

open Float.Model UnpackedFloat DoubleOrder DoubleRange DoubleZeros

theorem roundToInt_eq (s : Sign) (m : ℕ) (e : ℤ) :
    roundToInt s m e = s.apply (m * 2 ^ e.toNat / 2 ^ (-e).toNat : ℕ) := by
  have hshift : (0 - (e - ((e - 0).toNat : ℤ))).toNat = (-e).toNat := by omega
  change s.apply
    ((⟨m <<< (e - 0).toNat, false, false⟩ : ExtendedMantissa) >>>
      (0 - (e - ((e - 0).toNat : ℤ))).toNat).mantissa = _
  rw [shiftRight_mantissa, hshift, Nat.shiftLeft_eq, sub_zero]

theorem toNat_toUInt64 (u : UnpackedFloat) :
    u.toUInt64.toNat = min (u.toInt 0 (UInt64.size - 1)).toNat (UInt64.size - 1) := by
  unfold UnpackedFloat.toUInt64 UInt64.ofNatClamp
  split
  · rename_i hlt
    rw [UInt64.toNat_ofNatLT, min_eq_left (Nat.le_sub_one_of_lt hlt)]
  · rename_i hge
    rw [UInt64.toNat_ofNatLT, min_eq_right (by omega)]

theorem lt_two_pow_of_settled {m : ℕ} {e : ℤ} (hm : 0 < m) (h : Settled m e) : m < 2 ^ 53 := by
  rw [Settled, targetExponent_eq] at h
  exact (Nat.log2_lt hm.ne').mp (by omega)

theorem two_pow_le_of_settled {m : ℕ} {e : ℤ} (hm : 0 < m) (h : Settled m e) (he : -1074 < e) :
    2 ^ 52 ≤ m := by
  rw [Settled, targetExponent_eq] at h
  have hlog : m.log2 = 52 := by omega
  exact hlog ▸ Nat.log2_self_le hm.ne'

/-- The place of the first double that is no 64-bit index. -/
theorem place_size : place ((UInt64.size : ℕ) : Float).toModel.unpack =
    toLex (1, toLex (12, 2 ^ 52)) := by
  decide +kernel

variable {x : Float}

theorem toIndex_eq (x : Float) : Scalar.toIndex x =
    min (x.toModel.unpack.toInt 0 (UInt64.size - 1)).toNat (UInt64.size - 1) :=
  toNat_toUInt64 x.toModel.unpack

/-- A number that is too large for an index is held at the last one. -/
theorem toIndex_of_size_le (h : ((UInt64.size : ℕ) : Float) ≤ x) :
    Scalar.toIndex x = UInt64.size - 1 := by
  obtain ⟨-, -, hplace⟩ := le_iff.mp h
  rw [place_size] at hplace
  rw [toIndex_eq]
  cases hx : x.toModel.unpack with
  | notANumber | zero => simp [hx, place, Prod.Lex.le_iff] at hplace
  | infinity s =>
      cases s with
      | negative => simp [hx, place, Prod.Lex.le_iff] at hplace
      | positive => rfl
  | finite s m e hm =>
      cases s with
      | negative => simp [hx, place, Prod.Lex.le_iff] at hplace
      | positive =>
          have hexponent : (12 : ℤ) ≤ e := by
            simp only [hx, place, Prod.Lex.le_iff, ofLex_toLex] at hplace
            omega
          have hmantissa := two_pow_le_of_settled hm (settled_of_unpack hx) (by omega)
          have hpower : 2 ^ 12 ≤ 2 ^ e.toNat := Nat.pow_le_pow_right Nat.two_pos (by omega)
          have hvalue : UInt64.size ≤ m * 2 ^ e.toNat := Nat.mul_le_mul hmantissa hpower
          have hnone : (-e).toNat = 0 := by omega
          rw [UnpackedFloat.toInt, roundToInt_eq, Sign.apply, Int.toNat_natCast, hnone, pow_zero,
            Nat.div_one, min_eq_right (by omega)]

/-- The doubles just below the last index lie `2 ^ 11` apart. -/
theorem toIndex_of_lt_size (h : x < ((UInt64.size : ℕ) : Float)) :
    Scalar.toIndex x + 2 ^ 11 ≤ UInt64.size := by
  obtain ⟨-, -, hplace⟩ := lt_iff.mp h
  rw [place_size] at hplace
  rw [toIndex_eq]
  cases hx : x.toModel.unpack with
  | notANumber => decide
  | zero s => exact (by decide : min (0 : ℤ).toNat (UInt64.size - 1) + 2 ^ 11 ≤ UInt64.size)
  | infinity s =>
      cases s with
      | negative => decide
      | positive => simp [hx, place, Prod.Lex.lt_iff] at hplace
  | finite s m e hm =>
      cases s with
      | negative =>
          rw [UnpackedFloat.toInt, roundToInt_eq, Sign.apply, Int.toNat_neg_natCast]
          decide
      | positive =>
          have hsettled := settled_of_unpack hx
          have hexponent : e ≤ 11 := by
            have hfull := two_pow_le_of_settled hm hsettled
            simp only [hx, place, Prod.Lex.lt_iff, ofLex_toLex] at hplace
            omega
          have hmantissa := lt_two_pow_of_settled hm hsettled
          have hpower : 2 ^ e.toNat ≤ 2 ^ 11 := Nat.pow_le_pow_right Nat.two_pos (by omega)
          have hvalue : m * 2 ^ e.toNat / 2 ^ (-e).toNat ≤ (2 ^ 53 - 1) * 2 ^ 11 :=
            (Nat.div_le_self _ _).trans
              (Nat.mul_le_mul (Nat.le_sub_one_of_lt hmantissa) hpower)
          rw [UnpackedFloat.toInt, roundToInt_eq, Sign.apply, Int.toNat_natCast]
          exact (Nat.add_le_add_right ((min_le_left _ _).trans hvalue) _).trans (by decide)

end FrequencySampling.DoubleIndices
