import FrequencySampling.Proofs.ZeroSign
import FrequencySampling.Scalar.Double
import Mathlib

/-!
The two zeros of double precision. An operation looks at what its operands are before it computes
with them, and of a zero it uses no more than the sign, which then is the sign of a result that is
zero, or infinite after a division by it. Multiplying by one gives every number back, the rounding
included, since a number that was read from a word has the exponent that rounding aims at.
-/

namespace FrequencySampling.DoubleZeros

open Float.Model UnpackedFloat Scalar

section Rounding

/-- The exponent is the one that rounding to double precision would choose for the value. -/
def Settled (mantissa : ℕ) (exponent : ℤ) : Prop :=
  Format.binary64.targetExponent (totalExponent mantissa exponent) = exponent

theorem targetExponent_eq (mantissa : ℕ) (exponent : ℤ) :
    Format.binary64.targetExponent (totalExponent mantissa exponent) =
      max (mantissa.log2 + 1 + exponent - 53) (-1074) := rfl

theorem settled_of_unpack {b : BitVec Format.binary64.numBits} {s : Sign} {m : ℕ} {e : ℤ}
    {hm : 0 < m} (h : UnpackedFloat.unpack .binary64 b = .finite s m e hm) : Settled m e := by
  have hexponent : ((Format.binary64.exponentBias : ℕ) : ℤ) +
      (Format.binary64.mantissaBitsWithoutImplicit : ℕ) = 1075 := rfl
  have hvec : (unpackMantissa b).toNat < 2 ^ 52 := (unpackMantissa b).isLt
  unfold UnpackedFloat.unpack at h
  dsimp only at h
  rw [Settled, targetExponent_eq]
  split at h
  · split at h <;> cases h
  · split at h
    · rename_i hlowest
      split at h
      · cases h
      · cases h
        -- A subnormal number stands at the lowest exponent and does not fill the places.
        have hlog : (unpackMantissa b).toNat.log2 < 52 := (Nat.log2_lt (by omega)).mpr hvec
        rw [hexponent, hlowest]
        change max (_ + 1 + (((0 : ℕ) : ℤ) - 1075 + 1) - 53) (-1074) = ((0 : ℕ) : ℤ) - 1075 + 1
        omega
    · rename_i hnonzero
      cases h
      -- The leading digit of a normal number is not stored, so all places are taken.
      have hmantissa : (1#1 ++ unpackMantissa b).toNat = 2 ^ 52 + (unpackMantissa b).toNat := by
        rw [BitVec.toNat_append, ← Nat.shiftLeft_add_eq_or_of_lt (unpackMantissa b).isLt]
        rfl
      have hlog : (1#1 ++ unpackMantissa b).toNat.log2 = 52 :=
        (Nat.log2_eq_iff (by omega)).mpr (by omega)
      have hpositive : 0 < (unpackExponent b).toNat :=
        Nat.pos_of_ne_zero fun hzero => hnonzero (BitVec.eq_of_toNat_eq hzero)
      rw [hexponent, hlog]
      omega

theorem log2_scaled {m : ℕ} (hm : 0 < m) (n : ℕ) : (m * 2 ^ n).log2 = m.log2 + n := by
  have hpos := Nat.mul_pos hm (Nat.two_pow_pos n)
  refine (Nat.log2_eq_iff hpos.ne').mpr ⟨?_, ?_⟩
  · rw [pow_add]
    exact Nat.mul_le_mul_right _ (Nat.log2_self_le hm.ne')
  · rw [Nat.add_right_comm, pow_add]
    exact Nat.mul_lt_mul_of_pos_right Nat.lt_log2_self (Nat.two_pow_pos n)

theorem shiftRight_scaled (m n : ℕ) :
    (⟨m * 2 ^ n, false, false⟩ : ExtendedMantissa) >>> n = ⟨m, false, false⟩ := by
  induction n generalizing m with
  | zero => rw [pow_zero, mul_one]; rfl
  | succ n ih =>
      have hstep := congrArg ExtendedMantissa.shiftRightOne (ih (m * 2))
      rw [mul_assoc, ← pow_succ'] at hstep
      refine hstep.trans ?_
      simp [ExtendedMantissa.shiftRightOne]

theorem shiftToTargetExponent_scaled {m : ℕ} {e : ℤ} (hm : 0 < m) (h : Settled m e) (n : ℕ) :
    shiftToTargetExponent .binary64 (m * 2 ^ n) (e - n) .exact = (⟨m, false, false⟩, e) := by
  have htarget : Format.binary64.targetExponent (totalExponent (m * 2 ^ n) (e - n)) = e := by
    rw [Settled, targetExponent_eq] at h
    rw [targetExponent_eq, log2_scaled hm]
    omega
  have hshift : (e - (e - n)).toNat = n := by omega
  simp only [shiftToTargetExponent, shiftToExponent, htarget, hshift]
  exact Prod.ext (shiftRight_scaled m n) (by dsimp only; omega)

/-- A power of two more in the mantissa and less in the exponent is rounded off exactly. -/
theorem roundWithAccuracy_scaled (s : Sign) {m : ℕ} {e : ℤ} (hm : 0 < m) (h : Settled m e) (n : ℕ) :
    roundWithAccuracy .binary64 s (m * 2 ^ n) (e - n) .exact = .finite s m e hm := by
  have hagain : shiftToTargetExponent .binary64 m e .exact = (⟨m, false, false⟩, e) := by
    simpa using shiftToTargetExponent_scaled hm h 0
  have hrounded : (⟨m, false, false⟩ : ExtendedMantissa).roundedMantissa = m := rfl
  unfold roundWithAccuracy
  simp only [shiftToTargetExponent_scaled hm h n, hrounded, hagain, hm.ne', dite_false]

end Rounding

/-- The values of two numbers that are equal but, perhaps, for the sign of a zero. -/
inductive Alike : UnpackedFloat → UnpackedFloat → Prop
  | refl (u : UnpackedFloat) : Alike u u
  | zeros (s t : Sign) : Alike (.zero s) (.zero t)

/-- An operation is respected by both of its operands if it is by each of them. -/
theorem Alike.congr {op : UnpackedFloat → UnpackedFloat → UnpackedFloat} {u u' v v' : UnpackedFloat}
    (hleft : ∀ s t v, Alike (op (.zero s) v) (op (.zero t) v))
    (hright : ∀ u s t, Alike (op u (.zero s)) (op u (.zero t)))
    (hu : Alike u u') (hv : Alike v v') : Alike (op u v) (op u' v') := by
  have htrans : ∀ {a b c}, Alike a b → Alike b c → Alike a c := by
    rintro _ _ _ (_ | ⟨s, t⟩) (_ | ⟨_, t'⟩)
    · exact .refl _
    · exact .zeros _ _
    · exact .zeros _ _
    · exact .zeros _ _
  have hfirst : Alike (op u v) (op u' v) := by
    cases hu with
    | refl => exact .refl _
    | zeros s t => exact hleft s t v
  have hsecond : Alike (op u' v) (op u' v') := by
    cases hv with
    | refl => exact .refl _
    | zeros s t => exact hright u' s t
  exact htrans hfirst hsecond

section Operations

variable {u u' v v' : UnpackedFloat}

theorem Alike.add (hu : Alike u u') (hv : Alike v v') :
    Alike (UnpackedFloat.add .binary64 u v) (UnpackedFloat.add .binary64 u' v') := by
  refine .congr (fun s t v => ?_) (fun u s t => ?_) hu hv
  · rcases v with _ | _ | (_ | _) | _ <;> cases s <;> cases t <;> constructor
  · rcases u with _ | _ | (_ | _) | _ <;> cases s <;> cases t <;> constructor

theorem Alike.sub (hu : Alike u u') (hv : Alike v v') :
    Alike (UnpackedFloat.sub .binary64 u v) (UnpackedFloat.sub .binary64 u' v') := by
  refine .congr (fun s t v => ?_) (fun u s t => ?_) hu hv
  · rcases v with _ | _ | (_ | _) | _ <;> cases s <;> cases t <;> constructor
  · rcases u with _ | _ | (_ | _) | _ <;> cases s <;> cases t <;> constructor

theorem Alike.mul (hu : Alike u u') (hv : Alike v v') :
    Alike (UnpackedFloat.mul .binary64 u v) (UnpackedFloat.mul .binary64 u' v') := by
  refine .congr (fun s t v => ?_) (fun u s t => ?_) hu hv
  · cases v <;> constructor
  · cases u <;> constructor

theorem Alike.div (hu : Alike u u') (v : UnpackedFloat) :
    Alike (UnpackedFloat.div .binary64 u v) (UnpackedFloat.div .binary64 u' v) := by
  cases hu with
  | refl => exact .refl _
  | zeros s t => cases v <;> constructor

theorem Alike.neg (hu : Alike u u') : Alike u.neg u'.neg := by
  cases hu with
  | refl => exact .refl _
  | zeros s t => exact .zeros (-s) (-t)

theorem Alike.abs_eq (hu : Alike u u') : u.abs = u'.abs := by
  cases hu <;> rfl

theorem zero_add_alike (u : UnpackedFloat) :
    Alike (UnpackedFloat.add .binary64 (.zero .positive) u) u := by
  rcases u with _ | _ | (_ | _) | _ <;> constructor

end Operations

section Words

variable {x y : Float}

theorem pack_unpack (x : Float) : Float.ofModel (.pack x.toModel.unpack) = x := by
  obtain ⟨bits, hvalid⟩ := x
  have hword : UnpackedFloat.pack .binary64 (UnpackedFloat.unpack .binary64 bits.toBitVec) =
      bits.toBitVec := pack_unpack_of_valid hvalid
  simp only [Float.Model.pack, Float.Model.unpack, hword]

theorem isZero_iff : (x == 0) = true ↔ ∃ s, x.toModel.unpack = .zero s := by
  change (x.toModel.unpack.compare (.zero .positive) == some .eq) = true ↔ _
  rcases x.toModel.unpack with (_ | _) | _ | _ | ⟨_ | _, _, _, _⟩ <;>
    simp [UnpackedFloat.compare]

theorem alike_of_sameNumber (h : SameNumber x y) : Alike x.toModel.unpack y.toModel.unpack := by
  cases h with
  | refl => exact .refl _
  | zeros hx hy =>
      obtain ⟨s, hx⟩ := isZero_iff.mp hx
      obtain ⟨t, hy⟩ := isZero_iff.mp hy
      rw [hx, hy]
      exact .zeros s t

theorem sameNumber_of_alike {u v : UnpackedFloat} (h : Alike u v) :
    SameNumber (Float.ofModel (.pack u)) (Float.ofModel (.pack v)) := by
  cases h with
  | refl => exact .refl _
  | zeros s t =>
      exact .zeros (isZero_iff.mpr ⟨s, unpack_packedZero⟩) (isZero_iff.mpr ⟨t, unpack_packedZero⟩)

theorem abs_eq (h : SameNumber x y) : x.abs = y.abs :=
  congrArg (fun u => Float.ofModel (.pack u)) (alike_of_sameNumber h).abs_eq

/-- One has a mantissa of fifty-three digits, all but the first of them zero. -/
theorem mul_one_unpacked (x : Float) :
    UnpackedFloat.mul .binary64 x.toModel.unpack (1 : Float).toModel.unpack = x.toModel.unpack := by
  have hone : (1 : Float).toModel.unpack = .finite .positive (2 ^ 52) (-52) (by decide) := rfl
  have hsign : ∀ s : Sign, s * .positive = s := by rintro (_ | _) <;> rfl
  rw [hone]
  cases hx : x.toModel.unpack with
  | notANumber => rfl
  | infinity s | zero s => exact congrArg _ (hsign s)
  | finite s m e hm =>
      change roundWithAccuracy .binary64 (s * .positive) (m * 2 ^ 52) (e - (52 : ℕ)) .exact = _
      rw [hsign, roundWithAccuracy_scaled s hm (settled_of_unpack hx)]

theorem mul_one (x : Float) : x * 1 = x :=
  (congrArg (fun u => Float.ofModel (.pack u)) (mul_one_unpacked x)).trans (pack_unpack x)

theorem zero_add_mul_one_sameNumber (x : Float) : SameNumber (0 + x * 1) x := by
  have hsame := sameNumber_of_alike (zero_add_alike x.toModel.unpack)
  rw [pack_unpack] at hsame
  rw [mul_one]
  exact hsame

end Words

instance : IgnoresZeroSign Float where
  add h h' := sameNumber_of_alike ((alike_of_sameNumber h).add (alike_of_sameNumber h'))
  sub h h' := sameNumber_of_alike ((alike_of_sameNumber h).sub (alike_of_sameNumber h'))
  mul h h' := sameNumber_of_alike ((alike_of_sameNumber h).mul (alike_of_sameNumber h'))
  div b h := sameNumber_of_alike ((alike_of_sameNumber h).div b.toModel.unpack)
  neg h := sameNumber_of_alike (alike_of_sameNumber h).neg
  abs_eq h := abs_eq h
  hypot_eq {x x' y y'} hx hy := by
    change doubleHypot x y = doubleHypot x' y'
    unfold doubleHypot
    rw [abs_eq hx, abs_eq hy]
  zero_add_mul_one := zero_add_mul_one_sameNumber

end FrequencySampling.DoubleZeros
