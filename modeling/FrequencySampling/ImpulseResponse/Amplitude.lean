import FrequencySampling.ImpulseResponse.Basic

/-!
The amplitude of a linear-phase filter: the real function of frequency that is left of its frequency
response when the linear phase is taken out. It needs one half of the taps only.
-/

namespace FrequencySampling.ImpulseResponse

variable {α : Type} [Scalar α]

/-- The amplitude at an angular frequency. -/
def amplitudeAt (h : ImpulseResponse α) (lambda : α) : α :=
  let half := h.numTaps / 2
  let middle := (h.numTaps - 1) / 2
  match h.phase with
  | .typeI =>
    Scalar.sumUpTo (h.tap middle)
      (fun n => (2 : Nat) * h.tap (middle - n) * Scalar.cos ((n : α) * lambda)) middle
  | .typeII =>
    Scalar.sumUpTo 0
      (fun n => (2 : Nat) * h.tap (half - n) * Scalar.cos (((n : α) - 0.5) * lambda)) half
  | .typeIII =>
    Scalar.sumUpTo 0
      (fun n => (2 : Nat) * h.tap (middle - n) * Scalar.sin ((n : α) * lambda)) middle
  | .typeIV =>
    Scalar.sumUpTo 0
      (fun n => (2 : Nat) * h.tap (half - n) * Scalar.sin (((n : α) - 0.5) * lambda)) half

/-- The frequency of a point on the grid of the given number of points below the folding
frequency. -/
def gridFrequency (points index : Nat) : α :=
  (index : α) * Scalar.pi / points

/-- The amplitude at every point of a grid. -/
def amplitudes (h : ImpulseResponse α) (points : Nat) : Array α :=
  (Array.range points).map fun index => h.amplitudeAt (gridFrequency points index)

end FrequencySampling.ImpulseResponse
