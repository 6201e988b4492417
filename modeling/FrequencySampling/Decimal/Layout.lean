import FrequencySampling.Decimal.Numeral
import FrequencySampling.Decimal.Shortest

/-!
How doubles are laid out as text. Both layouts show the shortest identifying digits; they differ in
where positional notation ends and in how an integral value is marked.
-/

namespace FrequencySampling

/-- The choices of a decimal layout. -/
structure Layout where
  /-- The places of the leading digit for which the number is written positionally; all places if
  absent. -/
  positional : Option (Int × Int)
  /-- Whether an integral value is written with a zero after the point. -/
  pointZero : Bool
  /-- Whether an exact tie between two shortest decimals goes to the even one. -/
  tieToEven : Bool

namespace Layout

/-- The layout of messages and listings: never a power of ten, and no point after an integer. -/
def plain : Layout :=
  ⟨none, false, false⟩

/-- The layout of stored values: a power of ten from `10 ^ 16` upwards and below `10 ^ -5`, and
integral values marked by `.0`. -/
def stored : Layout :=
  ⟨some (-5, 15), true, true⟩

/-- The digits of `digits * 10 ^ exponent` around the point. -/
def positionalParts (digits : Digits) (exponent : Int) : Digits × Digits :=
  if 0 ≤ exponent then
    (digits ++ List.replicate exponent.toNat 0, [])
  else
    let places := (-exponent).toNat
    if digits.length ≤ places then
      ([0], List.replicate (places - digits.length) 0 ++ digits)
    else
      digits.splitAt (digits.length - places)

/-- Writes the part after the point, where an empty one is either left out or marked by a zero. -/
def fraction (layout : Layout) (digits : Digits) : Option Digits :=
  if digits.isEmpty then
    if layout.pointZero then some [0] else none
  else some digits

def numeralOf (layout : Layout) (negative : Bool) (value : TenScaled) : Numeral :=
  let digits := Digits.ofNat value.digits
  let lead := value.exponent + (digits.length : Int) - 1
  let isPositional :=
    match layout.positional with
    | none => true
    | some (least, greatest) => decide (least ≤ lead ∧ lead ≤ greatest)
  if isPositional then
    let (whole, rest) := positionalParts digits value.exponent
    ⟨negative, whole, layout.fraction rest, none⟩
  else
    ⟨negative, digits.take 1, if digits.length ≤ 1 then none else some (digits.drop 1),
      some (TenPower.ofInt lead)⟩

/-- The numeral of a finite value; zero keeps its sign. -/
def numeral (layout : Layout) (d : BinaryScaled) : Numeral :=
  if d.mantissa = 0 then ⟨d.negative, [0], layout.fraction [], none⟩
  else layout.numeralOf d.negative (d.shortest layout.tieToEven)

end Layout

/-- The text of a double in messages and listings. -/
def displayDouble (x : Float) : String :=
  match Binary64.ofDouble x with
  | .notANumber => "NaN"
  | .infinite true => "-inf"
  | .infinite false => "inf"
  | .finite d => (Layout.plain.numeral d).text

end FrequencySampling
