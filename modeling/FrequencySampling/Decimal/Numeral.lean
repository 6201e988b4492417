/-!
Decimal numerals: what is written when a number is written in base ten. A numeral keeps its digits
as they stand, so that reading a text and judging its value are separate matters.
-/

namespace FrequencySampling

/-- Decimal digits, the most significant first. -/
abbrev Digits := List (Fin 10)

namespace Digits

/-- The digits of a natural number, without a leading zero; zero itself has one digit. -/
def ofNat (n : Nat) : Digits :=
  if h : n < 10 then [⟨n, h⟩]
  else ofNat (n / 10) ++ [⟨n % 10, Nat.mod_lt _ (by decide)⟩]
termination_by n

/-- The number that a row of digits stands for. -/
def toNat (ds : Digits) : Nat :=
  ds.foldl (fun n d => 10 * n + d.val) 0

theorem toNat_append_singleton (ds : Digits) (d : Fin 10) :
    toNat (ds ++ [d]) = 10 * toNat ds + d.val := by
  simp [toNat]

theorem toNat_ofNat (n : Nat) : toNat (ofNat n) = n := by
  induction n using Nat.strongRecOn with
  | ind n ih =>
    rw [ofNat]
    split
    · simp [toNat]
    · rw [toNat_append_singleton, ih (n / 10) (by omega)]
      simp only
      omega

def toChar (d : Fin 10) : Char :=
  Char.ofNat (48 + d.val)

def ofChar? (c : Char) : Option (Fin 10) :=
  if h : 48 ≤ c.toNat ∧ c.toNat < 58 then some ⟨c.toNat - 48, by omega⟩ else none

theorem ofChar?_toChar (d : Fin 10) : ofChar? (toChar d) = some d := by
  revert d
  decide

def toChars (ds : Digits) : List Char :=
  ds.map toChar

end Digits

/-- The power of ten after the mark of a numeral. -/
structure TenPower where
  negative : Bool
  digits : Digits
deriving DecidableEq, Inhabited

namespace TenPower

def ofInt (e : Int) : TenPower :=
  ⟨decide (e < 0), Digits.ofNat e.natAbs⟩

def toInt (p : TenPower) : Int :=
  if p.negative then -(p.digits.toNat : Int) else p.digits.toNat

/-- The sign of a power is always written. -/
def toChars (p : TenPower) : List Char :=
  'e' :: (if p.negative then '-' else '+') :: p.digits.toChars

end TenPower

/-- A numeral: sign, whole part, the part after the point if there is a point, and the power of ten
if one is written. -/
structure Numeral where
  negative : Bool
  whole : Digits
  fraction : Option Digits
  power : Option TenPower
deriving DecidableEq, Inhabited

namespace Numeral

def ofNat (n : Nat) : Numeral :=
  ⟨false, Digits.ofNat n, none, none⟩

/-- Whether neither a point nor a power of ten is written. -/
def isInteger (n : Numeral) : Bool :=
  n.fraction.isNone && n.power.isNone

/-- The digits of the whole part and the fraction, read as one number. -/
def significand (n : Numeral) : Nat :=
  Digits.toNat (n.whole ++ n.fraction.getD [])

/-- The power of ten that the significand is multiplied by. -/
def scale (n : Numeral) : Int :=
  (n.power.map TenPower.toInt).getD 0 - (n.fraction.getD []).length

def toChars (n : Numeral) : List Char :=
  (if n.negative then ['-'] else []) ++ n.whole.toChars
    ++ (match n.fraction with
      | some ds => '.' :: ds.toChars
      | none => [])
    ++ (match n.power with
      | some p => p.toChars
      | none => [])

def text (n : Numeral) : String :=
  String.ofList n.toChars

/-- The double nearest to the numeral, infinite beyond the range. A power far outside the range is
settled without computing it. -/
def toDouble (n : Numeral) : Float :=
  let size :=
    if n.significand == 0 then 0.0
    else
      let lead := n.scale + (Digits.ofNat n.significand).length
      if lead > 400 then 1.0 / 0.0
      else if lead < -400 then 0.0
      else Float.ofScientific n.significand (decide (n.scale < 0)) n.scale.natAbs
  if n.negative then -size else size

end Numeral
end FrequencySampling
