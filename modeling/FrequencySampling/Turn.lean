import FrequencySampling.Scalar

/-!
Cosine and sine of fractions of a turn. At whole quarters of a turn they are integers and are given
as such, also where the arithmetic has no exact angle for a quarter turn: sums in which such terms
cancel then cancel without a remainder.
-/

namespace FrequencySampling

/-- The fraction `num / den` of a turn. -/
structure Turn where
  num : Nat
  den : Nat
deriving DecidableEq, Repr

namespace Turn

variable {α : Type} [Scalar α]

/-- The number of quarters beyond the last whole turn, if there is a whole number of them. -/
def quarters? (t : Turn) : Option Nat :=
  if 4 * t.num % t.den = 0 then some (4 * t.num / t.den % 4) else none

/-- The angle in radians. Whole turns are taken out before anything is rounded. -/
def angle (t : Turn) : α :=
  (2 : Nat) * Scalar.pi * ((t.num % t.den : Nat) : α) / t.den

def cos (t : Turn) : α :=
  match t.quarters? with
  | none => Scalar.cos t.angle
  | some 0 => 1
  | some 2 => -1
  | some _ => 0

def sin (t : Turn) : α :=
  match t.quarters? with
  | none => Scalar.sin t.angle
  | some 1 => 1
  | some 3 => -1
  | some _ => 0

end Turn
end FrequencySampling
