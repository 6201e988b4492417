import FrequencySampling.Decimal.Binary64

/-!
The shortest decimal that identifies a double. A decimal identifies a double when it lies in the
interval of reals that round to it; the ends of that interval belong to it exactly when the mantissa
is even. Grids of decimals are tried from coarse to fine, and on each grid only the two neighbours
of the value matter: if any point of a grid lies in the interval, one of these two does.
-/

namespace FrequencySampling

/-- The number `digits * 10 ^ exponent`. -/
structure TenScaled where
  digits : Nat
  exponent : Int
deriving DecidableEq, Inhabited

namespace Shortest

/-- The value and the ends of its interval on one scale with the points of a decimal grid: the
grid's points are the multiples of `step`. -/
structure Window where
  low : Nat
  value : Nat
  high : Nat
  step : Nat
  closed : Bool

/-- A quarter of the mantissa's unit makes both ends of the interval integers; powers of two and ten
with a negative exponent are moved to the other side. -/
def window (d : BinaryScaled) (place : Int) : Window :=
  let quarter := d.exponent - 2
  let unit := Nat.pow 2 quarter.toNat * Nat.pow 10 (-place).toNat
  { low := (4 * d.mantissa - (if d.narrowBelow then 1 else 2)) * unit
    value := 4 * d.mantissa * unit
    high := (4 * d.mantissa + 2) * unit
    step := Nat.pow 10 place.toNat * Nat.pow 2 (-quarter).toNat
    closed := d.mantissa % 2 == 0 }

namespace Window

/-- Whether a point lies in the interval. -/
def holds (w : Window) (point : Nat) : Bool :=
  if w.closed then decide (w.low ≤ point ∧ point ≤ w.high)
  else decide (w.low < point ∧ point < w.high)

/-- The neighbour of the value on the grid that lies in the interval, the nearer one if both do. An
exact tie goes to the even neighbour if `tieToEven` is set and up otherwise. -/
def pick (w : Window) (tieToEven : Bool) : Option Nat :=
  let below := w.value / w.step
  let above := below + 1
  match w.holds (below * w.step), w.holds (above * w.step) with
  | false, false => none
  | true, false => some below
  | false, true => some above
  | true, true =>
    let down := w.value - below * w.step
    let up := above * w.step - w.value
    if down < up then some below
    else if up < down then some above
    else if tieToEven && below % 2 == 0 then some below
    else some above

end Window

/-- Tries the grids from the given place downwards. -/
def search (d : BinaryScaled) (tieToEven : Bool) : Nat → Int → TenScaled
  | 0, place => ⟨4 * d.mantissa, place⟩
  | fuel + 1, place =>
    match (window d place).pick tieToEven with
    | some digits => ⟨digits, place⟩
    | none => search d tieToEven fuel (place - 1)

/-- A place at or above that of the leading digit: `30103 / 100000` is just above the decimal
logarithm of two. -/
def topPlace (d : BinaryScaled) : Int :=
  ((Nat.log2 d.mantissa + 1 + d.exponent) * 30103).fdiv 100000 + 1

end Shortest

/-- The decimal with the fewest digits that identifies a non-zero value, the nearest of those.
Seventeen digits always suffice, and the search starts at most two places too high. -/
def BinaryScaled.shortest (d : BinaryScaled) (tieToEven : Bool) : TenScaled :=
  Shortest.search d tieToEven 20 (Shortest.topPlace d)

end FrequencySampling
