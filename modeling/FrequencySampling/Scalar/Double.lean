import FrequencySampling.Scalar

/-!
Double precision as an arithmetic for designs. Sums, products and quotients round once, to nearest;
the transcendental functions are those of the platform.
-/

namespace FrequencySampling

namespace DoubleHypot

/-- The length of a vector whose coordinates, the longer first, can be squared without leaving the
range. The root of the rounded squares is corrected by one Newton step, whose residue
`h * h - long * long - short * short` is arranged so that hardly anything cancels. -/
def corrected (long short : Float) : Float :=
  let h := Float.sqrt (long * long + short * short)
  let residue :=
    if h ≤ 2.0 * short then
      let d := h - short
      long * (2.0 * d - long) + (d - 2.0 * (long - short)) * d
    else
      let d := h - long
      2.0 * d * (long - 2.0 * short) + ((4.0 * d - short) * short + d * d)
  h - residue / (2.0 * h)

/-- A power of two that brings the squares of very large numbers back into range. -/
def shrink : Float := Float.scaleB 1.0 (-600)

/-- The length from two coordinates that are not negative, the longer first. A short coordinate
below the last place of a long one does not count. -/
def ofOrdered (long short : Float) : Float :=
  if short ≤ long * Float.scaleB 1.0 (-54) then long + short
  else if Float.scaleB 1.0 511 < long then corrected (long * shrink) (short * shrink) / shrink
  else if short < Float.scaleB 1.0 (-459) then corrected (long / shrink) (short / shrink) * shrink
  else corrected long short

end DoubleHypot

/-- The length of a vector without an intermediate overflow or underflow. An infinite coordinate
makes it infinite whatever the other is. -/
def doubleHypot (x y : Float) : Float :=
  let a := x.abs
  let b := y.abs
  if a.isInf || b.isInf then 1.0 / 0.0
  else if a.isNaN || b.isNaN then 0.0 / 0.0
  else if a < b then DoubleHypot.ofOrdered b a
  else DoubleHypot.ofOrdered a b

/-- The integer at or below a double. From `2 ^ 52` on every double is one; a zero keeps its sign,
and what is not finite stays as it is. -/
def doubleFloor (x : Float) : Float :=
  if x.abs < 4503599627370496.0 then
    let whole := Float.ofNat x.abs.toUInt64.toNat
    if 0.0 < x then whole
    else if x < 0.0 then
      if whole < x.abs then -(whole + 1.0) else x
    else x
  else x

instance : Scalar Float where
  zero := 0.0
  one := 1.0
  natCast := Float.ofNat
  decLt := inferInstance
  decLe := inferInstance
  pi := 3.141592653589793
  sin := Float.sin
  cos := Float.cos
  log10 := Float.log10
  hypot := doubleHypot
  abs := Float.abs
  floor := doubleFloor
  toIndex x := x.toUInt64.toNat
  isNaN := Float.isNaN
  isFinite := Float.isFinite

end FrequencySampling
