import FrequencySampling.Decimal.Layout
import FrequencySampling.Json.Value

/-!
Numbers of the interchange format. Integers are 64-bit and written without point or power. How other
numbers are written and read depends on the arithmetic, so it is a class; the instance for doubles
reads in two roundings, one of the significand and one of its product with a power of ten.
-/

namespace FrequencySampling

/-- An arithmetic whose numbers can be stored. A value without a numeral is stored as null. -/
class StoredNumber (α : Type) where
  toNumeral? : α → Option Numeral
  ofNumeral? : Numeral → Option α

namespace Json

def ofNumber {α : Type} [StoredNumber α] (x : α) : Json :=
  match StoredNumber.toNumeral? x with
  | some n => .number n
  | none => .null

def toNumber? {α : Type} [StoredNumber α] : Json → Option α
  | .number n => StoredNumber.ofNumeral? n
  | _ => none

/-- An index: an integer from 0 to `2 ^ 64 - 1`, and no sign even before zero. -/
def toNat? : Json → Option Nat
  | .number n =>
    if n.isInteger && !n.negative && decide (Digits.toNat n.whole < UInt64.size) then
      some (Digits.toNat n.whole)
    else none
  | _ => none

def toBool? : Json → Option Bool
  | .bool b => some b
  | _ => none

end Json

namespace StagedReading

/-- The largest significand that is kept. -/
def greatest : Nat := UInt64.size - 1

/-- Extends a significand by the digits of a whole part and counts those left from the first that
does not fit. -/
def takeWhole : Nat → Digits → Nat × Nat
  | n, [] => (n, 0)
  | n, d :: ds =>
    if greatest < 10 * n + d.val then (n, ds.length + 1) else takeWhole (10 * n + d.val) ds

/-- Extends a significand by the digits of a fraction and counts those taken; from the first that
does not fit they are dropped. -/
def takeFraction : Nat → Digits → Nat × Nat
  | n, [] => (n, 0)
  | n, d :: ds =>
    if greatest < 10 * n + d.val then (n, 0)
    else
      let (m, taken) := takeFraction (10 * n + d.val) ds
      (m, taken + 1)

def tenPower (e : Nat) : Float :=
  Float.ofScientific 1 false e

/-- Multiplies by a power of ten. Powers below those of the format are applied in several steps, and
a product beyond the range is refused. -/
def scaled (x : Float) : Nat → Int → Option Float
  | 0, _ => none
  | fuel + 1, e =>
    if e.natAbs ≤ 308 then
      if 0 ≤ e then
        let y := x * tenPower e.natAbs
        if y.isInf then none else some y
      else some (x / tenPower e.natAbs)
    else if x == 0.0 then some x
    else if 0 ≤ e then none
    else scaled (x / tenPower 308) fuel (e + 308)

/-- The double that a numeral is read as. A written power of 32 bits or more is out of range unless
it leads to zero. -/
def double? (n : Numeral) : Option Float := do
  let (whole, left) := takeWhole 0 n.whole
  let (significand, taken) := takeFraction whole (n.fraction.getD [])
  let size ←
    match n.power with
    | some p =>
      if p.digits.toNat < Nat.pow 2 31 then
        scaled (Float.ofNat significand) 5 ((left : Int) - taken + p.toInt)
      else if significand != 0 && !p.negative then none
      else some 0.0
    | none => scaled (Float.ofNat significand) 5 ((left : Int) - taken)
  return if n.negative then -size else size

end StagedReading

instance : StoredNumber Float where
  toNumeral? x :=
    match Binary64.ofDouble x with
    | .finite d => some (Layout.stored.numeral d)
    | _ => none
  ofNumeral? := StagedReading.double?

end FrequencySampling
