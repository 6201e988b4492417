import FrequencySampling.Codec.Params
import FrequencySampling.Proofs.Json.Numeral

/-!
The numbers in what is stored. Finite values, and only they, are written as numerals, and a numeral
is read as a finite value or not at all. Whether the same value is read again depends on how much of
it the numeral tells, so it is a property of the single value.
-/

namespace FrequencySampling

namespace LineSearchParams

variable {α : Type}

def numbers (p : LineSearchParams α) : List α :=
  [p.tol]

def indices (p : LineSearchParams α) : List Nat :=
  [p.maxIterations, p.maxBracketSteps]

end LineSearchParams

namespace PlaneSearchParams

variable {α : Type}

def numbers (p : PlaneSearchParams α) : List α :=
  [p.tweakFactor, p.startLevel] ++ p.rippleTol.toList ++ [p.minLineSeparation]

def indices (p : PlaneSearchParams α) : List Nat :=
  [p.maxOuterIterations]

end PlaneSearchParams

namespace DesignParams

variable {α : Type}

def numbers (p : DesignParams α) : List α :=
  p.line.numbers ++ p.direction.numbers

def indices (p : DesignParams α) : List Nat :=
  p.line.indices ++ p.direction.indices ++ [p.points]

end DesignParams

namespace StoredNumber

/-- The numeral of the value, if it has one, is read as the value. -/
def ReadsBack {α : Type} [StoredNumber α] (x : α) : Prop :=
  ∀ n ∈ toNumeral? x, ofNumeral? n = some x

/-- An arithmetic whose numerals are those of its finite values. The defaults are finite, and so is
everything above zero and not above one. -/
class Faithful (α : Type) [Scalar α] [StoredNumber α] : Prop where
  isSome_toNumeral? (x : α) : (toNumeral? x).isSome = Scalar.isFinite x
  wellFormed {x : α} {n : Numeral} (h : toNumeral? x = some n) : n.WellFormed
  isFinite_of_ofNumeral? {x : α} {n : Numeral} (h : ofNumeral? n = some x) :
    Scalar.isFinite x = true
  isFinite_default : ∀ x ∈ (DesignParams.default : DesignParams α).numbers,
    Scalar.isFinite x = true
  isFinite_of_unit {x : α} (hnumber : Scalar.isNaN x = false) (hpos : ¬ x ≤ 0) (hone : ¬ 1 < x) :
    Scalar.isFinite x = true

variable {α : Type} [Scalar α] [StoredNumber α] [Faithful α] {x : α}

theorem exists_numeral (h : Scalar.isFinite x = true) :
    ∃ n, toNumeral? x = some n ∧ n.WellFormed := by
  have hsome := Faithful.isSome_toNumeral? x
  rw [h] at hsome
  obtain ⟨n, hn⟩ := Option.isSome_iff_exists.mp hsome
  exact ⟨n, hn, Faithful.wellFormed hn⟩

theorem toNumeral?_eq_none (h : Scalar.isFinite x = false) : toNumeral? x = none := by
  have hsome := Faithful.isSome_toNumeral? x
  rw [h] at hsome
  exact Option.isNone_iff_eq_none.mp (Option.isSome_eq_false_iff.mp hsome)

end StoredNumber
end FrequencySampling
