import FrequencySampling.Decimal.Layout
import FrequencySampling.Proofs.Json.Numeral

/-!
The numerals of finite doubles are well formed, in every layout. The shortest digits are never zero,
because the interval of a number other than zero does not reach down to it; so their first digit is
none, and no layout puts a zero in front of them that it does not need.
-/

namespace FrequencySampling

namespace Shortest

theorem Window.pos_of_pick {w : Window} (hlow : 0 < w.low) {tieToEven : Bool} {digits : Nat}
    (h : w.pick tieToEven = some digits) : 0 < digits := by
  have hzero : w.holds 0 = false := by
    unfold Window.holds
    split
    · exact decide_eq_false (by omega)
    · exact decide_eq_false (by omega)
  have hbelow : w.holds (w.value / w.step * w.step) = true → 0 < w.value / w.step := by
    intro hholds
    refine Nat.pos_of_ne_zero fun hnone => ?_
    rw [hnone, Nat.zero_mul, hzero] at hholds
    cases hholds
  unfold Window.pick at h
  dsimp only at h
  split at h
  · cases h
  · rename_i hdown _
    cases h
    exact hbelow hdown
  · cases h
    exact Nat.succ_pos _
  · rename_i hdown _
    have hdigits : digits = w.value / w.step ∨ digits = w.value / w.step + 1 := by
      split at h
      · exact .inl (Option.some.inj h).symm
      · split at h
        · exact .inr (Option.some.inj h).symm
        · split at h
          · exact .inl (Option.some.inj h).symm
          · exact .inr (Option.some.inj h).symm
    have hpos := hbelow hdown
    omega

theorem low_window_pos {d : BinaryScaled} (hd : d.mantissa ≠ 0) (place : Int) :
    0 < (window d place).low := by
  refine Nat.mul_pos ?_ (Nat.mul_pos (Nat.pow_pos (by decide)) (Nat.pow_pos (by decide)))
  split
  · omega
  · omega

theorem digits_search_pos {d : BinaryScaled} (hd : d.mantissa ≠ 0) (tieToEven : Bool) (fuel : Nat)
    (place : Int) : 0 < (search d tieToEven fuel place).digits := by
  induction fuel generalizing place with
  | zero => exact Nat.mul_pos (by decide) (Nat.pos_of_ne_zero hd)
  | succ fuel ih =>
      rw [search]
      split
      · rename_i digits hpick
        exact Window.pos_of_pick (low_window_pos hd place) hpick
      · exact ih (place - 1)

end Shortest

namespace Layout

theorem fraction_ne_nil (layout : Layout) {digits ds : Digits}
    (h : layout.fraction digits = some ds) : ds ≠ [] := by
  unfold Layout.fraction at h
  split at h
  · split at h
    · cases h
      exact List.cons_ne_nil 0 []
    · cases h
  · rename_i hsome
    cases h
    rintro rfl
    exact hsome rfl

theorem isWhole_positionalParts {d : Fin 10} (hd : d.val ≠ 0) (ds : Digits) (exponent : Int) :
    (positionalParts (d :: ds) exponent).1.IsWhole := by
  unfold positionalParts
  split
  · exact Digits.isWhole_of_head hd _
  · dsimp only
    split
    · exact trivial
    · rename_i hlong
      obtain ⟨k, hk⟩ := Nat.exists_eq_add_of_lt (Nat.lt_of_not_le hlong)
      have htake : (d :: ds).length - (-exponent).toNat = k + 1 := by omega
      rw [List.splitAt_eq, htake]
      exact Digits.isWhole_of_head hd _

theorem wellFormed_positional (layout : Layout) (negative : Bool) {whole : Digits}
    (h : whole.IsWhole) (rest : Digits) :
    Numeral.WellFormed ⟨negative, whole, layout.fraction rest, none⟩ where
  whole := h
  fraction ds hds := layout.fraction_ne_nil hds
  power p hp := by cases hp

theorem wellFormed_scientific (negative : Bool) (d : Fin 10) (ds : Digits) (lead : Int) :
    Numeral.WellFormed ⟨negative, [d], if ds.length + 1 ≤ 1 then none else some ds,
      some (TenPower.ofInt lead)⟩ where
  whole := trivial
  fraction rest hrest := by
    dsimp only at hrest
    split at hrest
    · cases hrest
    · rename_i hlong
      cases hrest
      rintro rfl
      exact hlong (Nat.le_refl 1)
  power p hp := by
    cases hp
    exact (Digits.isWhole_ofNat _).ne_nil

theorem wellFormed_numeralOf (layout : Layout) (negative : Bool) {value : TenScaled}
    (h : 0 < value.digits) : (layout.numeralOf negative value).WellFormed := by
  obtain ⟨d, ds, hdigits, hd⟩ := Digits.exists_head_ofNat h
  have hwhole := isWhole_positionalParts hd ds value.exponent
  unfold numeralOf
  dsimp only
  rw [hdigits]
  split
  · exact wellFormed_positional layout negative hwhole _
  · split
    · exact wellFormed_positional layout negative hwhole _
    · exact wellFormed_scientific negative d ds _

theorem wellFormed_numeral (layout : Layout) (d : BinaryScaled) :
    (layout.numeral d).WellFormed := by
  unfold numeral
  split
  · exact wellFormed_positional layout d.negative (show Digits.IsWhole [0] from trivial) []
  · rename_i hd
    exact wellFormed_numeralOf layout d.negative (Shortest.digits_search_pos hd _ _ _)

end Layout
end FrequencySampling
