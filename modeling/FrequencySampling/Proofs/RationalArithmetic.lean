import Mathlib.Data.Rat.Floor
import FrequencySampling.Session

/-!
The rational numbers as an arithmetic in which whole designs can be evaluated by the kernel. The
transcendental functions are crude stand-ins: triangle waves for the circular functions, and the
identity for the logarithm. What holds in every arithmetic can be watched here on a run that ends.
-/

namespace FrequencySampling

namespace RationalArithmetic

/-- Half the length of the unit circle, nearly. -/
def halfTurn : ℚ :=
  mkRat 22 7

/-- The triangle wave that meets the cosine at every quarter turn. -/
def triangle (x : ℚ) : ℚ :=
  let phase := Int.fract (x / (halfTurn + halfTurn))
  |mkRat 4 1 * phase - mkRat 2 1| - 1

end RationalArithmetic

open RationalArithmetic in
instance rationalArithmetic : Scalar ℚ where
  decLt := inferInstance
  decLe := inferInstance
  pi := halfTurn
  sin x := triangle (x - halfTurn / mkRat 2 1)
  cos := triangle
  log10 x := x
  hypot x y := |x| + |y|
  abs x := |x|
  floor x := ⌊x⌋
  toIndex x := min ⌊x⌋.toNat (2 ^ 64 - 1)
  isNaN _ := false
  isFinite _ := true

namespace RationalArithmetic

/-- A low-pass filter of eight taps with two transition samples, about to be optimized. -/
def session (context : RunContext ℚ) : Session ℚ :=
  .start ⟨⟨8, .lowpass, .typeII, .twoBand 0 3⟩, #[1, 0, 0, 0, 0]⟩ ⟨3, .decibel, .amplitude⟩ context

/-- One bracketing trial and one narrowing for each line search. -/
def line : LineSearchParams ℚ :=
  ⟨mkRat 1 10, 1, 1⟩

/-- Two iterations; the second does not improve on the first. -/
def direction : PlaneSearchParams ℚ :=
  ⟨mkRat 3 4, mkRat 3 4, some (mkRat 1 100), 2, mkRat 1 1000⟩

/-- A whole design with these searches, on the grid of the session. -/
def designParams : DesignParams ℚ :=
  ⟨line, direction, 3, .decibel, true, .amplitude⟩

end RationalArithmetic

end FrequencySampling
