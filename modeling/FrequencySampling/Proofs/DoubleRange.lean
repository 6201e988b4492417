import FrequencySampling.Json.Number
import FrequencySampling.Proofs.DoubleZeros

/-!
The range of double precision. A place bounds where the leading binary digit of a number stands;
rounding moves it up by at most one, a product by the place of the other factor, and a quotient by a
divisor of at least one by no more than the digits of that. As long as the place stays within the
format a result is a number, so whatever is read from a numeral is one.
-/

namespace FrequencySampling.DoubleRange

open Float.Model UnpackedFloat

/-- A number whose leading binary digit stands at the place or below it. -/
inductive Within (place : ℤ) : UnpackedFloat → Prop
  | zero (s : Sign) : Within place (.zero s)
  | finite (s : Sign) {m : ℕ} {e : ℤ} (hm : 0 < m) (h : m.log2 + e ≤ place) :
      Within place (.finite s m e hm)

instance (place : ℤ) : (u : UnpackedFloat) → Decidable (Within place u)
  | .notANumber | .infinity _ => isFalse fun h => by cases h
  | .zero s => isTrue (.zero s)
  | .finite s m e hm => decidable_of_iff (m.log2 + e ≤ place)
      ⟨fun h => .finite s hm h, fun h => by cases h; assumption⟩

theorem Within.mono {place place' : ℤ} {u : UnpackedFloat} (h : Within place u)
    (hle : place ≤ place') : Within place' u := by
  cases h with
  | zero s => exact .zero s
  | finite s hm h => exact .finite s hm (h.trans hle)

section Rounding

theorem shiftRight_mantissa (em : ExtendedMantissa) (k : ℕ) :
    (em >>> k).mantissa = em.mantissa / 2 ^ k := by
  induction k with
  | zero => exact (Nat.div_one _).symm
  | succ k ih =>
      change (em >>> k).mantissa / 2 = _
      rw [ih, Nat.div_div_eq_div_mul, pow_succ]

theorem roundToNearestEven_le (m : ℕ) (acc : Accuracy) : acc.roundToNearestEven m ≤ m + 1 := by
  rcases acc with _ | (_ | _ | _)
  · exact Nat.le_succ m
  · exact Nat.le_succ m
  · exact Nat.add_le_add_left (Nat.le_of_lt_succ (Nat.mod_lt m Nat.two_pos)) m
  · exact Nat.le_refl (m + 1)

theorem ofMantissaAndAccuracy_mantissa (m : ℕ) (acc : Accuracy) :
    (ExtendedMantissa.ofMantissaAndAccuracy m acc).mantissa = m := by
  rcases acc with _ | (_ | _ | _) <;> rfl

theorem log2_le_log2 {m n : ℕ} (h : m ≤ n) : m.log2 ≤ n.log2 := by
  rw [Nat.log2_eq_log_two, Nat.log2_eq_log_two]
  exact Nat.log_mono_right h

theorem log2_div_two_pow {m k : ℕ} (h : m / 2 ^ k ≠ 0) : (m / 2 ^ k).log2 + k = m.log2 := by
  have hle : 2 ^ k ≤ m := by
    by_contra hlt
    exact h (Nat.div_eq_of_lt (Nat.lt_of_not_le hlt))
  have hlog := log2_le_log2 hle
  rw [Nat.log2_two_pow] at hlog
  rw [Nat.log2_eq_log_two, Nat.log_div_base_pow, ← Nat.log2_eq_log_two]
  exact Nat.sub_add_cancel hlog

/-- One more in the last place may carry over all the digits that are left. -/
theorem log2_div_two_pow_succ_le {m k : ℕ} (h : k ≤ m.log2 + 1) :
    (m / 2 ^ k + 1).log2 + k ≤ m.log2 + 1 := by
  have hlt : m / 2 ^ k < 2 ^ (m.log2 + 1 - k) := by
    rw [Nat.div_lt_iff_lt_mul (Nat.two_pow_pos k), ← pow_add, Nat.sub_add_cancel h]
    exact Nat.lt_log2_self
  have hlog := log2_le_log2 (m := m / 2 ^ k + 1) hlt
  rw [Nat.log2_two_pow] at hlog
  omega

/-- The digits that are dropped to reach the exponent for the format, which is never below the
lowest one. -/
def surplus (m : ℕ) (e : ℤ) : ℕ :=
  (max (m.log2 + 1 + e - 53) (-1074) - e).toNat

theorem shiftToTargetExponent_eq (m : ℕ) (e : ℤ) (acc : Accuracy) :
    (shiftToTargetExponent .binary64 m e acc).1.mantissa = m / 2 ^ surplus m e ∧
      (shiftToTargetExponent .binary64 m e acc).2 = e + surplus m e := by
  refine ⟨?_, rfl⟩
  refine (shiftRight_mantissa _ _).trans ?_
  rw [ofMantissaAndAccuracy_mantissa]
  rfl

theorem log2_rounded_le {m r : ℕ} {e place : ℤ} (hplace : -1074 ≤ place) (h : m.log2 + e ≤ place)
    (hr : r ≤ m / 2 ^ surplus m e + 1) : r.log2 + (e + surplus m e) ≤ place + 1 := by
  have hlog := log2_le_log2 hr
  by_cases hfew : surplus m e ≤ m.log2 + 1
  · have hcarry := log2_div_two_pow_succ_le hfew
    omega
  · -- All digits are dropped, and what is left is at most one.
    have hall : m < 2 ^ surplus m e :=
      lt_of_lt_of_le Nat.lt_log2_self (Nat.pow_le_pow_right Nat.two_pos (by omega))
    rw [Nat.div_eq_of_lt hall, zero_add, show Nat.log2 1 = 0 from rfl] at hlog
    unfold surplus at hfew ⊢
    omega

theorem within_roundWithAccuracy (s : Sign) {m : ℕ} {e : ℤ} (acc : Accuracy) (place : ℤ)
    (hplace : -1074 ≤ place) (h : m.log2 + e ≤ place) :
    Within (place + 1) (roundWithAccuracy .binary64 s m e acc) := by
  obtain ⟨hmantissa, hexponent⟩ := shiftToTargetExponent_eq m e acc
  set first := shiftToTargetExponent .binary64 m e acc
  have hrounded : first.1.roundedMantissa ≤ first.1.mantissa + 1 := roundToNearestEven_le _ _
  rw [hmantissa] at hrounded
  have hplace' := log2_rounded_le hplace h hrounded
  obtain ⟨hmantissa', hexponent'⟩ :=
    shiftToTargetExponent_eq first.1.roundedMantissa first.2 .exact
  set second := shiftToTargetExponent .binary64 first.1.roundedMantissa first.2 .exact
  have hround : roundWithAccuracy .binary64 s m e acc =
      if hzero : second.1.mantissa = 0 then .zero s
      else .finite s second.1.mantissa second.2 (Nat.pos_of_ne_zero hzero) := rfl
  rw [hround]
  split
  · exact .zero s
  · rename_i hsome
    refine .finite s _ ?_
    rw [hmantissa'] at hsome ⊢
    have hlog := log2_div_two_pow hsome
    omega

theorem within_round (s : Sign) {m : ℕ} {e : ℤ} (hm : 0 < m) (place : ℤ) (hplace : -1074 ≤ place)
    (h : m.log2 + e ≤ place) :
    Within (place + 1) (UnpackedFloat.round .binary64 s m e) := by
  refine within_roundWithAccuracy s .exact place hplace ?_
  rw [Nat.shiftLeft_eq, DoubleZeros.log2_scaled hm]
  omega

end Rounding

section Operations

variable {u v : UnpackedFloat} {place place' : ℤ}

theorem log2_mul_le (m n : ℕ) : (m * n).log2 ≤ m.log2 + n.log2 + 1 := by
  by_cases hzero : m * n = 0
  · rw [hzero, Nat.log2_zero]
    exact Nat.zero_le _
  · refine Nat.le_of_lt_succ ((Nat.log2_lt hzero).mpr ?_)
    have hlt := Nat.mul_lt_mul'' (Nat.lt_log2_self (n := m)) (Nat.lt_log2_self (n := n))
    rw [← pow_add] at hlt
    exact hlt.trans_eq (congrArg (2 ^ ·) (by omega))

theorem Within.mul (hu : Within place u) (hv : Within place' v) (h : -1075 ≤ place + place') :
    Within (place + place' + 2) (UnpackedFloat.mul .binary64 u v) := by
  cases hu with
  | zero s => cases hv <;> exact .zero _
  | @finite s m e hm hfirst =>
      cases hv with
      | zero t => exact .zero _
      | @finite t n e' hn hsecond =>
          have hlog := log2_mul_le m n
          have hround := within_roundWithAccuracy (s * t) (m := m * n) (e := e + e')
            .exact (place + place' + 1) (by omega) (by omega)
          exact hround.mono (by omega)

theorem log2_divCore_le {m n : ℕ} (hm : 0 < m) (e e' : ℤ) :
    ((divCore .binary64 m e n e').1.log2 : ℤ) + (divCore .binary64 m e n e').2.1 ≤
      m.log2 + e - e' := by
  set target :=
    min (e - e') (Format.binary64.targetExponent (totalExponent m e - totalExponent n e'))
  have hcore : (divCore .binary64 m e n e').1 = (m <<< (e - e' - target).toNat) / n := rfl
  have htarget : (divCore .binary64 m e n e').2.1 = target := rfl
  have hle : target ≤ e - e' := min_le_left _ _
  have hlog := log2_le_log2 (Nat.div_le_self (m <<< (e - e' - target).toNat) n)
  rw [Nat.shiftLeft_eq, DoubleZeros.log2_scaled hm] at hlog
  rw [hcore, htarget, Nat.shiftLeft_eq]
  omega

/-- A divisor of at least one makes a number smaller; here its digits are allowed for instead. -/
theorem Within.div (hu : Within place u) (s : Sign) {n : ℕ} {e : ℤ} (hn : 0 < n) (he : -52 ≤ e)
    (h : -1074 ≤ place) :
    Within (place + 53) (UnpackedFloat.div .binary64 u (.finite s n e hn)) := by
  cases hu with
  | zero t => exact .zero _
  | @finite t m e' hm hplace =>
      have hcore := log2_divCore_le (n := n) hm e' e
      have hround := within_roundWithAccuracy (t / s) (m := (divCore .binary64 m e' n e).1)
        (divCore .binary64 m e' n e).2.2 (place + 52) (by omega)
        (hcore.trans (by omega))
      exact hround.mono (by omega)

end Operations

section Words

variable {x y : Float} {place place' : ℤ}

theorem isFinite_of_within (h : Within place x.toModel.unpack) : x.isFinite = true := by
  change x.toModel.unpack.isFinite = true
  generalize x.toModel.unpack = u at h
  cases h <;> rfl

theorem bias_eq : ((Format.binary64.exponentBias : ℕ) : ℤ) +
    (Format.binary64.mantissaBitsWithoutImplicit : ℕ) = 1075 := rfl

theorem toNat_biased (e : ℤ) : (e + (Format.binary64.exponentBias : ℕ) +
    (Format.binary64.mantissaBitsWithoutImplicit : ℕ)).toNat = (e + 1075).toNat := by
  rw [Int.add_assoc, bias_eq]

theorem log2_toNat_lt {n : ℕ} (b : BitVec (n + 1)) : b.toNat.log2 < n + 1 := by
  by_cases hzero : b.toNat = 0
  · rw [hzero, Nat.log2_zero]
    exact Nat.succ_pos n
  · exact (Nat.log2_lt hzero).mpr b.isLt

/-- A word that is not marked as infinite or no number stands for a number, and the exponent that is
stored says where its leading digit is at most. -/
theorem unpack_packComponents_within {s : Sign} {exponent : BitVec Format.binary64.exponentBits}
    {mantissa : BitVec Format.binary64.mantissaBitsWithoutImplicit}
    (hfinite : exponent ≠ -1#_) (h : (exponent.toNat : ℤ) ≤ place + 1023) :
    Within place
      (UnpackedFloat.unpack .binary64 (packComponents .binary64 s exponent mantissa)) := by
  unfold UnpackedFloat.unpack
  simp only [unpackExponent_packComponents, unpackMantissa_packComponents]
  rw [if_neg hfinite, bias_eq]
  split
  · rename_i hzero
    split
    · exact .zero _
    · have hlog := log2_toNat_lt (n := 51) mantissa
      refine .finite _ _ ?_
      rw [hzero]
      change (_ : ℤ) + (((0 : ℕ) : ℤ) - 1075 + 1) ≤ place
      omega
  · have hlog := log2_toNat_lt (n := 52) (1#1 ++ mantissa)
    exact .finite _ _ (by omega)

theorem toNat_ofNat_of_lt {n : ℕ} (h : n < 2047) :
    (BitVec.ofNat Format.binary64.exponentBits n).toNat = n := by
  rw [BitVec.toNat_ofNat]
  exact Nat.mod_eq_of_lt (h.trans (by decide))

theorem unpack_pack_within (s : Sign) {m : ℕ} {e : ℤ} (hm : 0 < m) (h : m.log2 + e ≤ place)
    (hplace : 0 ≤ place) (he : e ≤ 971) :
    Within place
      (UnpackedFloat.unpack .binary64 (UnpackedFloat.pack .binary64 (.finite s m e hm))) := by
  have hbits : Format.binary64.mantissaBits = 53 := rfl
  have hlimit : ¬ 2 ^ Format.binary64.exponentBits ≤ (e + 1075).toNat + 1 := by
    change ¬ 2048 ≤ _
    omega
  have hexponent := toNat_ofNat_of_lt (n := (e + 1075).toNat) (by omega)
  unfold UnpackedFloat.pack
  simp only [toNat_biased e, if_neg hlimit, hbits]
  split
  · have hplace' : ((e + 1075).toNat : ℤ) ≤ place + 1023 := by omega
    refine unpack_packComponents_within (fun hones => ?_)
      ((congrArg Nat.cast hexponent).trans_le hplace')
    have htoNat := congrArg BitVec.toNat hones
    rw [hexponent] at htoNat
    change _ = 2047 at htoNat
    omega
  · refine unpack_packComponents_within (by decide) ?_
    change (0 : ℤ) ≤ _
    omega

theorem unpack_packedInfinity (s : Sign) :
    UnpackedFloat.unpack .binary64 (packedInfinity .binary64 s) = .infinity s := by
  simp [UnpackedFloat.unpack, packedInfinity]

theorem pack_eq_packedInfinity {s : Sign} {m : ℕ} {e : ℤ} {hm : 0 < m} (he : 971 < e) :
    UnpackedFloat.pack .binary64 (.finite s m e hm) = packedInfinity .binary64 s := by
  have hlimit : 2 ^ Format.binary64.exponentBits ≤ (e + 1075).toNat + 1 := by
    change 2048 ≤ _
    omega
  unfold UnpackedFloat.pack
  simp only [toNat_biased e, if_pos hlimit]

/-- Putting a result into a word keeps its place, unless it is beyond the range. -/
theorem unpack_ofModel_pack {u : UnpackedFloat} (hu : Within place u) (hplace : 0 ≤ place) :
    Within place (Float.ofModel (.pack u)).toModel.unpack ∨
      (Float.ofModel (.pack u)).isInf = true := by
  change Within place (UnpackedFloat.unpack .binary64 (UnpackedFloat.pack .binary64 u)) ∨
    (UnpackedFloat.unpack .binary64 (UnpackedFloat.pack .binary64 u)).isInf = true
  cases hu with
  | zero s =>
      refine .inl ?_
      rw [UnpackedFloat.pack, unpack_packedZero]
      exact .zero s
  | @finite s m e hm h =>
      rcases le_or_gt e 971 with he | he
      · exact .inl (unpack_pack_within s hm h hplace he)
      · rw [pack_eq_packedInfinity he, unpack_packedInfinity]
        exact .inr rfl

theorem unpack_ofModel_pack_of_le {u : UnpackedFloat} (hu : Within place u) (hplace : 0 ≤ place)
    (hrange : place ≤ 971) : Within place (Float.ofModel (.pack u)).toModel.unpack := by
  cases hu with
  | zero s =>
      change Within place (UnpackedFloat.unpack .binary64 (packedZero .binary64 s))
      rw [unpack_packedZero]
      exact .zero s
  | @finite s m e hm h => exact unpack_pack_within s hm h hplace (by omega)

theorem exponent_le_of_unpack {b : BitVec Format.binary64.numBits} {s : Sign} {m : ℕ} {e : ℤ}
    {hm : 0 < m} (h : UnpackedFloat.unpack .binary64 b = .finite s m e hm) : e ≤ 971 := by
  have hlt : (unpackExponent b).toNat < 2048 := (unpackExponent b).isLt
  unfold UnpackedFloat.unpack at h
  dsimp only at h
  split at h
  · split at h <;> cases h
  · rename_i hnumber
    have hne : (unpackExponent b).toNat ≠ 2047 :=
      fun hones => hnumber (BitVec.eq_of_toNat_eq hones)
    split at h
    · rename_i hzero
      split at h
      · cases h
      · cases h
        rw [bias_eq, hzero]
        change ((0 : ℕ) : ℤ) - 1075 + 1 ≤ 971
        decide
    · cases h
      rw [bias_eq]
      omega

theorem isFinite_neg (h : x.isFinite = true) : (-x).isFinite = true := by
  change x.toModel.unpack.isFinite = true at h
  suffices hneg : ∃ place, Within place (-x).toModel.unpack by
    obtain ⟨place, hneg⟩ := hneg
    exact isFinite_of_within hneg
  change ∃ place, Within place (Float.ofModel (.pack x.toModel.unpack.neg)).toModel.unpack
  cases hx : x.toModel.unpack with
  | notANumber | infinity s =>
      rw [hx] at h
      cases h
  | zero s =>
      exact ⟨0, unpack_ofModel_pack_of_le (.zero (-s)) (by decide) (by decide)⟩
  | finite s m e hm =>
      have he := exponent_le_of_unpack hx
      exact ⟨max (m.log2 + e) 0,
        unpack_pack_within (-s) hm (le_max_left _ _) (le_max_right _ _) he⟩

end Words

section Reading

open StagedReading

variable {x y : Float} {place place' : ℤ}

theorem within_mul (hx : Within place x.toModel.unpack) (hy : Within place' y.toModel.unpack)
    (hplace : 0 ≤ place + place' + 2) :
    Within (place + place' + 2) (x * y).toModel.unpack ∨ (x * y).isInf = true :=
  unpack_ofModel_pack (hx.mul hy (by omega)) hplace

/-- A number that is at least one, as far as its exponent tells. -/
def isDivisor (y : Float) : Bool :=
  match y.toModel.unpack with
  | .finite _ _ e _ => decide (-52 ≤ e)
  | _ => false

theorem within_div (hx : Within place x.toModel.unpack) (hy : isDivisor y = true)
    (hplace : 0 ≤ place) (hrange : place + 53 ≤ 971) :
    Within (place + 53) (x / y).toModel.unpack := by
  unfold isDivisor at hy
  split at hy
  · rename_i s m e hm hunpack
    have hdiv := hx.div s hm (of_decide_eq_true hy) (by omega)
    rw [← hunpack] at hdiv
    exact unpack_ofModel_pack_of_le hdiv (by omega) hrange
  · cases hy

theorem tenPower_spec : ∀ e ≤ 308, isDivisor (tenPower e) = true ∧
    Within 1024 (tenPower e).toModel.unpack := by
  decide +kernel

theorem within_ofNat_unpacked {n : ℕ} (hn : n < 2 ^ 64) :
    Within 64 (UnpackedFloat.ofNat .binary64 n) := by
  unfold UnpackedFloat.ofNat UnpackedFloat.ofInt UnpackedFloat.normalize
  split
  · rename_i hlt
    rw [compare_lt_iff_lt] at hlt
    omega
  · exact .zero _
  · rename_i hgt
    rw [compare_gt_iff_gt] at hgt
    have hlog : n.log2 < 64 := (Nat.log2_lt (by omega)).mpr hn
    exact within_round .positive (by omega) 63 (by omega)
      (by rw [Int.toNat_natCast]; omega)

/-- A natural number below `2 ^ 53` is taken over exactly; a larger one is rounded. -/
theorem within_ofNat {n : ℕ} (hn : n < 2 ^ 64) : Within 66 (Float.ofNat n).toModel.unpack := by
  change Within 66 (Float.ofScientific n false 0).toModel.unpack
  unfold Float.ofScientific
  split
  · rename_i hsmall
    have hconverted : Within 64 n.toUInt64.toFloat.toModel.unpack := by
      refine unpack_ofModel_pack_of_le ?_ (by decide) (by decide)
      exact within_ofNat_unpacked (UInt64.toNat_lt _)
    have hone : Within 0 (Float.exactlyRepresentablePowersOfTen[0]).toModel.unpack := by
      decide +kernel
    exact unpack_ofModel_pack_of_le (hconverted.mul hone (by decide)) (by decide) (by decide)
  · rename_i hlarge
    have hlog : n.log2 < 64 := (Nat.log2_lt (by omega)).mpr hn
    have hpos : 0 < n := by omega
    refine unpack_ofModel_pack_of_le ?_ (by decide) (by decide)
    have hscientific : UnpackedFloat.ofScientific .binary64 n (Int.ofNat 0) =
        UnpackedFloat.mul .binary64
          (.finite .positive (n <<< 53) (-53) (by rw [Nat.shiftLeft_eq]; positivity))
          (.finite .positive 1 0 Nat.one_pos) := by
      unfold UnpackedFloat.ofScientific
      rw [dif_neg (by omega), if_neg (by decide), if_neg (by simp), if_pos (by decide)]
      rfl
    have hfirst : ((n <<< 53).log2 : ℤ) + -53 ≤ 63 := by
      rw [Nat.shiftLeft_eq, DoubleZeros.log2_scaled hpos]
      omega
    have hone : Within 0 (.finite .positive 1 0 Nat.one_pos) := .finite _ _ (by decide)
    change Within 66 (UnpackedFloat.ofScientific .binary64 n (Int.ofNat 0))
    rw [hscientific]
    exact (Within.mul (.finite _ _ hfirst) hone (by decide)).mono (by decide)

theorem lt_of_kept {n : ℕ} (h : ¬ greatest < n) : n < 2 ^ 64 := by
  have hgreatest : greatest = 2 ^ 64 - 1 := rfl
  omega

theorem takeWhole_lt {n : ℕ} (hn : n < 2 ^ 64) (ds : Digits) : (takeWhole n ds).1 < 2 ^ 64 := by
  induction ds generalizing n with
  | nil => exact hn
  | cons d ds ih =>
      rw [takeWhole]
      split
      · exact hn
      · rename_i hfits
        exact ih (lt_of_kept hfits)

theorem takeFraction_lt {n : ℕ} (hn : n < 2 ^ 64) (ds : Digits) :
    (takeFraction n ds).1 < 2 ^ 64 := by
  induction ds generalizing n with
  | nil => exact hn
  | cons d ds ih =>
      rw [takeFraction]
      split
      · exact hn
      · rename_i hfits
        exact ih (lt_of_kept hfits)

/-- Each division raises the place by the digits of a divisor, so five of them stay in range. -/
theorem isFinite_of_scaled {fuel : ℕ} {e : ℤ} (hx : Within place x.toModel.unpack)
    (hplace : 0 ≤ place) (hrange : place + 53 * fuel ≤ 971) (h : scaled x fuel e = some y) :
    y.isFinite = true := by
  induction fuel generalizing x e place with
  | zero => cases h
  | succ fuel ih =>
      rw [scaled] at h
      split at h
      · rename_i hdirect
        obtain ⟨hdivisor, hpower⟩ := tenPower_spec e.natAbs hdirect
        split at h
        · dsimp only at h
          split at h
          · cases h
          · rename_i hsmall
            cases h
            rcases within_mul hx hpower (by omega) with hproduct | hinf
            · exact isFinite_of_within hproduct
            · exact absurd hinf hsmall
        · cases h
          exact isFinite_of_within (within_div hx hdivisor hplace (by omega))
      · split at h
        · cases h
          exact isFinite_of_within hx
        · split at h
          · cases h
          · have hdivisor := (tenPower_spec 308 (Nat.le_refl 308)).1
            have hquotient := within_div hx hdivisor hplace (by omega)
            exact ih hquotient (by omega) (by omega) h

/-- What is read from a numeral is a number and no infinity. -/
theorem isFinite_of_double? {n : Numeral} (h : double? n = some x) : x.isFinite = true := by
  have hwhole := takeWhole_lt (n := 0) (by decide) n.whole
  have hstart := within_ofNat (takeFraction_lt hwhole (n.fraction.getD []))
  have hsigned : ∀ {size : Option Float}, (∀ y, size = some y → y.isFinite = true) →
      (size.bind fun y => some (if n.negative then -y else y)) = some x → x.isFinite = true := by
    intro size hsize hx
    obtain ⟨y, hy, hx⟩ := Option.bind_eq_some_iff.mp hx
    have hfinite := hsize y hy
    split at hx
    · cases hx
      exact isFinite_neg hfinite
    · cases hx
      exact hfinite
  unfold double? at h
  dsimp only at h
  split at h
  · split at h
    · exact hsigned (fun y => isFinite_of_scaled hstart (by decide) (by decide)) h
    · split at h
      · cases h
      · exact hsigned (by rintro y ⟨⟩; rfl) h
  · exact hsigned (fun y => isFinite_of_scaled hstart (by decide) (by decide)) h

end Reading
end FrequencySampling.DoubleRange
