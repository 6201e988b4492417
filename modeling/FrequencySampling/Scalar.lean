/-!
The arithmetic a design is computed in. Every formula of the library is written once over this
class, so that the filters that are run in machine arithmetic and the laws that are proved in exact
arithmetic speak of the same definitions. The order is not assumed total: a machine number may be
no number at all, and each comparison below says which side it then takes.
-/

namespace FrequencySampling

/-- Numbers with the four operations, decimal constants, decidable comparisons and the few
transcendental functions that frequency sampling needs. -/
class Scalar (α : Type) extends Zero α, One α, Add α, Sub α, Mul α, Div α, Neg α, NatCast α,
    OfScientific α, LT α, LE α, BEq α where
  decLt : DecidableLT α
  decLe : DecidableLE α
  /-- Half the length of the unit circle. -/
  pi : α
  sin : α → α
  cos : α → α
  /-- The decimal logarithm; at zero it is minus infinity where there is one. -/
  log10 : α → α
  /-- The length of the vector with the two given coordinates. -/
  hypot : α → α → α
  abs : α → α
  floor : α → α
  /-- The integral part as a 64-bit index, held at the ends of that range. -/
  toIndex : α → Nat
  /-- Whether the value is not a number. -/
  isNaN : α → Bool
  /-- Whether the value is a number and not an infinity. -/
  isFinite : α → Bool

namespace Scalar

variable {α : Type} [Scalar α]

-- A type that has an operation of its own keeps it.
attribute [instance (100)] toZero toOne toAdd toSub toMul toDiv toNeg toNatCast toOfScientific toLT
  toLE toBEq

instance (priority := 100) : DecidableLT α := decLt
instance (priority := 100) : DecidableLE α := decLe

/-- The larger of two values, the second of equal ones. One that is not a number gives way to the
other. -/
def larger (a b : α) : α :=
  if b < a then a else if isNaN b then a else b

/-- The smaller of two values, the second of equal ones. One that is not a number gives way to the
other. -/
def smaller (a b : α) : α :=
  if a < b then a else if isNaN b then a else b

/-- The largest of the values and a floor below which the answer never falls. -/
def largestFrom (floor : α) (values : Array α) : α :=
  values.foldl larger floor

/-- Adds the terms numbered from one upwards to a start, in order. -/
def sumUpTo (start : α) (term : Nat → α) (count : Nat) : α :=
  count.fold (fun k _ sum => sum + term (k + 1)) start

@[simp] theorem sumUpTo_zero (start : α) (term : Nat → α) : sumUpTo start term 0 = start := rfl

@[simp] theorem sumUpTo_succ (start : α) (term : Nat → α) (n : Nat) :
    sumUpTo start term (n + 1) = sumUpTo start term n + term (n + 1) := by
  simp [sumUpTo]

end Scalar
end FrequencySampling
