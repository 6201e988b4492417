import FrequencySampling.Json.Parser

/-!
Numerals are read as they were written. The digits of a row are taken up to the first character that
is no digit, so what follows a numeral must not look like a part of it; blanks, commas and closing
brackets do not. Whole parts without superfluous zeros, and rows of digits after the marks that are
not empty, are what makes a numeral readable.
-/

namespace FrequencySampling

namespace Digits

/-- At least one digit, and no zero in front of others. -/
def IsWhole : Digits → Prop
  | [] => False
  | [_] => True
  | d :: _ :: _ => d.val ≠ 0

theorem IsWhole.ne_nil {ds : Digits} (h : ds.IsWhole) : ds ≠ [] := by
  rintro rfl
  exact h

theorem isWhole_of_head {d : Fin 10} (hd : d.val ≠ 0) (ds : Digits) : IsWhole (d :: ds) := by
  cases ds with
  | nil => exact trivial
  | cons e ds => exact hd

theorem exists_head_ofNat {n : Nat} (hn : 0 < n) : ∃ d ds, ofNat n = d :: ds ∧ d.val ≠ 0 := by
  induction n using Nat.strongRecOn with
  | ind n ih =>
      rw [ofNat]
      split
      · rename_i hlt
        exact ⟨⟨n, hlt⟩, [], rfl, Nat.ne_of_gt hn⟩
      · obtain ⟨d, ds, heq, hd⟩ := ih (n / 10) (by omega) (by omega)
        exact ⟨d, ds ++ _, by rw [heq]; rfl, hd⟩

theorem isWhole_ofNat (n : Nat) : (ofNat n).IsWhole := by
  cases n with
  | zero =>
      rw [ofNat]
      exact trivial
  | succ n =>
      obtain ⟨d, ds, heq, hd⟩ := exists_head_ofNat (Nat.succ_pos n)
      rw [heq]
      exact isWhole_of_head hd ds

end Digits

/-- A numeral that the format admits. -/
structure Numeral.WellFormed (n : Numeral) : Prop where
  whole : n.whole.IsWhole
  fraction : ∀ ds, n.fraction = some ds → ds ≠ []
  power : ∀ p, n.power = some p → p.digits ≠ []

theorem Numeral.wellFormed_ofNat (n : Nat) : (Numeral.ofNat n).WellFormed where
  whole := Digits.isWhole_ofNat n
  fraction := by
    intro ds h
    cases h
  power := by
    intro p h
    cases h

namespace Json

variable {rest : List Char}

/-- A row of digits does not go on here. -/
def EndsDigits : List Char → Prop
  | [] => True
  | c :: _ => Digits.ofChar? c = none

/-- A numeral does not go on here. -/
def EndsNumeral : List Char → Prop
  | [] => True
  | c :: _ => Digits.ofChar? c = none ∧ c ≠ '.' ∧ c ≠ 'e' ∧ c ≠ 'E'

theorem EndsNumeral.endsDigits (h : EndsNumeral rest) : EndsDigits rest := by
  cases rest with
  | nil => exact trivial
  | cons c rest => exact h.1

theorem digitRun_toChars (ds : Digits) (hrest : EndsDigits rest) :
    digitRun (ds.toChars ++ rest) = (ds, rest) := by
  induction ds with
  | nil =>
      cases rest with
      | nil => rfl
      | cons c rest =>
          change Digits.ofChar? c = none at hrest
          simp only [Digits.toChars, List.map_nil, List.nil_append, digitRun, hrest]
  | cons d ds ih =>
      simp only [Digits.toChars, List.map_cons, List.cons_append] at ih ⊢
      simp only [digitRun, Digits.ofChar?_toChar, ih]

theorem someDigits_toChars {ds : Digits} (hds : ds ≠ []) (hrest : EndsDigits rest) :
    someDigits (ds.toChars ++ rest) = some (ds, rest) := by
  rw [someDigits, digitRun_toChars ds hrest]
  cases ds with
  | nil => exact absurd rfl hds
  | cons d ds => rfl

theorem wholePart_toChars {ds : Digits} (hds : ds.IsWhole) (hrest : EndsDigits rest) :
    wholePart (ds.toChars ++ rest) = some (ds, rest) := by
  rw [wholePart, someDigits_toChars hds.ne_nil hrest]
  match ds, hds with
  | [d], _ => rfl
  | d :: e :: ds, hd =>
      change d.val ≠ 0 at hd
      simp only [hd, if_false]

theorem fractionPart_point {ds : Digits} (hds : ds ≠ []) (hrest : EndsDigits rest) :
    fractionPart ('.' :: (ds.toChars ++ rest)) = some (some ds, rest) := by
  rw [fractionPart, someDigits_toChars hds hrest]
  rfl

theorem fractionPart_none (hrest : ∀ cs, rest ≠ '.' :: cs) :
    fractionPart rest = some (none, rest) := by
  unfold fractionPart
  split
  · exact absurd rfl (hrest _)
  · rfl

theorem powerPart_toChars {p : TenPower} (hp : p.digits ≠ []) (hrest : EndsDigits rest) :
    powerPart (p.toChars ++ rest) = some (some p, rest) := by
  obtain ⟨negative, ds⟩ := p
  cases negative with
  | false =>
      simp only [TenPower.toChars, List.cons_append, powerPart, Bool.false_eq_true, if_false,
        signedDigits, someDigits_toChars hp hrest, Option.map_some]
  | true =>
      simp only [TenPower.toChars, List.cons_append, powerPart, if_true, signedDigits,
        someDigits_toChars hp hrest, Option.map_some]

theorem powerPart_none (hrest : EndsNumeral rest) : powerPart rest = some (none, rest) := by
  unfold powerPart
  split
  · exact absurd rfl hrest.2.2.1
  · exact absurd rfl hrest.2.2.2
  · rfl

theorem endsDigits_power (p : TenPower) (rest : List Char) : EndsDigits (p.toChars ++ rest) := by
  change Digits.ofChar? 'e' = none
  decide

theorem EndsNumeral.ne_point (h : EndsNumeral rest) (cs : List Char) : rest ≠ '.' :: cs := by
  rintro rfl
  exact h.2.1 rfl

theorem unsigned_eq {negative : Bool} {cs cs' cs'' : List Char} {whole : Digits}
    {fraction : Option Digits} {power : Option TenPower}
    (hwhole : wholePart cs = some (whole, cs'))
    (hfraction : fractionPart cs' = some (fraction, cs''))
    (hpower : powerPart cs'' = some (power, rest)) :
    unsigned negative cs = some (⟨negative, whole, fraction, power⟩, rest) := by
  simp only [unsigned, hwhole, hfraction, hpower, Option.bind_eq_bind, Option.bind_some]
  rfl

/-- The characters of a numeral after its sign. -/
theorem unsigned_toChars {n : Numeral} (hn : n.WellFormed) (hsign : n.negative = false)
    (hrest : EndsNumeral rest) (negative : Bool) :
    unsigned negative (n.toChars ++ rest) = some ({ n with negative := negative }, rest) := by
  obtain ⟨_, whole, fraction, power⟩ := n
  cases hsign
  have hwhole := hn.whole
  simp only [Numeral.toChars, Bool.false_eq_true, if_false, List.nil_append, List.append_assoc]
  cases fraction with
  | none =>
      cases power with
      | none =>
          exact unsigned_eq (wholePart_toChars hwhole hrest.endsDigits)
            (fractionPart_none hrest.ne_point) (powerPart_none hrest)
      | some p =>
          exact unsigned_eq (wholePart_toChars hwhole (endsDigits_power p rest))
            (fractionPart_none fun cs h => by cases h)
            (powerPart_toChars (hn.power p rfl) hrest.endsDigits)
  | some ds =>
      have hpoint : ∀ cs, EndsDigits ('.' :: cs) := fun cs => by
        change Digits.ofChar? '.' = none
        decide
      cases power with
      | none =>
          exact unsigned_eq (wholePart_toChars hwhole (hpoint _))
            (fractionPart_point (hn.fraction ds rfl) hrest.endsDigits) (powerPart_none hrest)
      | some p =>
          exact unsigned_eq (wholePart_toChars hwhole (hpoint _))
            (fractionPart_point (hn.fraction ds rfl) (endsDigits_power p rest))
            (powerPart_toChars (hn.power p rfl) hrest.endsDigits)

/-- What a numeral begins with. -/
def BeginsNumeral (c : Char) : Prop :=
  c = '-' ∨ ∃ d, c = Digits.toChar d

theorem exists_head_toChars {n : Numeral} (hn : n.WellFormed) :
    ∃ c cs, n.toChars = c :: cs ∧ BeginsNumeral c := by
  obtain ⟨negative, whole, fraction, power⟩ := n
  cases negative with
  | true => exact ⟨'-', _, rfl, .inl rfl⟩
  | false =>
      match whole, hn.whole with
      | d :: ds, _ => exact ⟨Digits.toChar d, _, rfl, .inr ⟨d, rfl⟩⟩

theorem numeral_toChars {n : Numeral} (hn : n.WellFormed) (hrest : EndsNumeral rest) :
    numeral (n.toChars ++ rest) = some (n, rest) := by
  obtain ⟨negative, whole, fraction, power⟩ := n
  have hunsigned := unsigned_toChars (n := ⟨false, whole, fraction, power⟩)
    ⟨hn.whole, hn.fraction, hn.power⟩ rfl hrest negative
  cases negative with
  | true => exact hunsigned
  | false =>
      match whole, hn.whole with
      | d :: ds, _ =>
          have hdigit : ∀ d, Digits.toChar d ≠ '-' := by decide
          unfold numeral
          split
          · rename_i heq
            exact absurd (List.cons.inj heq).1 (hdigit d)
          · exact hunsigned

end Json
end FrequencySampling
