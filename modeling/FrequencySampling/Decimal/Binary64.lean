/-!
The view of a double as an integer times a power of two. Whatever is said about the decimal text of
a double is said about this view, so that it is said in exact arithmetic.
-/

namespace FrequencySampling

/-- The number `mantissa * 2 ^ exponent`, up to its sign. The gap to the next smaller double is half
the gap to the next larger one when `narrowBelow` holds, which is so at a power of two. -/
structure BinaryScaled where
  negative : Bool
  mantissa : Nat
  exponent : Int
  narrowBelow : Bool
deriving DecidableEq, Inhabited

/-- What a bit pattern stands for. -/
inductive Binary64 where
  | notANumber
  | infinite (negative : Bool)
  | finite (value : BinaryScaled)
deriving DecidableEq, Inhabited

namespace Binary64

/-- Splits a 64-bit pattern into sign, exponent field and fraction field. -/
def ofBits (bits : Nat) : Binary64 :=
  let negative := decide (bits / Nat.pow 2 63 % 2 = 1)
  let field : Nat := bits / Nat.pow 2 52 % Nat.pow 2 11
  let fraction : Nat := bits % Nat.pow 2 52
  if field = 2047 then
    if fraction = 0 then .infinite negative else .notANumber
  else if field = 0 then
    .finite ⟨negative, fraction, -1074, false⟩
  else
    .finite ⟨negative, Nat.pow 2 52 + fraction, (field : Int) - 1075,
      decide (fraction = 0) && decide (1 < field)⟩

def ofDouble (x : Float) : Binary64 :=
  ofBits x.toBits.toNat

end Binary64
end FrequencySampling
