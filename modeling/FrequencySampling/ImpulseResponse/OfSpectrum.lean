import FrequencySampling.HalfSpectrum.Basic
import FrequencySampling.ImpulseResponse.Basic

/-!
Synthesis: the impulse response whose amplitude takes the desired values at the frequency samples.
Each symmetry type has its own real inverse transform, written about the middle of the response.
-/

namespace FrequencySampling.ImpulseResponse

variable {α : Type} [Scalar α]

/-- The sum `h 0 + 2 * cos x * h 1 + 2 * cos (2 * x) * h 2 + …`. -/
def cosineSum (h : Nat → α) (x : α) (upper : Nat) : α :=
  Scalar.sumUpTo (h 0) (fun k => (2 : Nat) * Scalar.cos (x * (k : α)) * h k) upper

/-- The sum `2 * sin x * h 1 + 2 * sin (2 * x) * h 2 + …`. -/
def sineSum (h : Nat → α) (x : α) (upper : Nat) : α :=
  Scalar.sumUpTo 0 (fun k => (2 : Nat) * Scalar.sin (x * (k : α)) * h k) upper

/-- The tap at a distance from the middle, times the number of taps. Of the four types only the
fourth reads the sample at the folding frequency. -/
def tapSum (s : HalfSpectrum α) (offset : α) : α :=
  let taps := s.geometry.numTaps
  match s.geometry.phase with
  | .typeI => cosineSum s.sample ((2 : Nat) * Scalar.pi * offset / taps) ((taps - 1) / 2)
  | .typeII => cosineSum s.sample ((2 : Nat) * Scalar.pi * offset / taps) (taps / 2 - 1)
  | .typeIII => sineSum s.sample (-(2 : Nat) * Scalar.pi * offset / taps) ((taps - 1) / 2)
  | .typeIV =>
    Scalar.sin (-Scalar.pi * offset) * s.sample (taps / 2)
      + sineSum s.sample (-(2 : Nat) * Scalar.pi * offset / taps) (taps / 2 - 1)

/-- The tap at an index. -/
def tapOf (s : HalfSpectrum α) (n : Nat) : α :=
  let middle : α := ((s.geometry.numTaps : α) - 1) / (2 : Nat)
  tapSum s ((n : α) - middle) / s.geometry.numTaps

/-- The impulse response of a half spectrum. -/
def ofSpectrum (s : HalfSpectrum α) : Outcome α (ImpulseResponse α) := do
  s.geometry.phase.check s.geometry.numTaps
  return ⟨(Array.range s.geometry.numTaps).map (tapOf s), s.geometry.phase⟩

end FrequencySampling.ImpulseResponse
