import FrequencySampling.ImpulseResponse.Amplitude
import FrequencySampling.ImpulseResponse.Dft
import FrequencySampling.MagnitudeResponse.Basic

/-!
Measuring the magnitude response of a filter on a grid of frequencies.
-/

namespace FrequencySampling

/-- How a response is computed. The two ways agree for taps with the symmetry they claim. -/
inductive ResponseMethod where
  /-- The amplitude sum of the symmetry type. -/
  | amplitude
  /-- A discrete Fourier transform. -/
  | fourier
deriving DecidableEq, Repr

structure ResponseGrid where
  points : Nat
  scale : MagnitudeScale
  method : ResponseMethod
deriving DecidableEq, Repr

namespace ResponseGrid

variable {α : Type} [Scalar α]

def measure (grid : ResponseGrid) (h : ImpulseResponse α) :
    Outcome α (MagnitudeResponse α) :=
  if grid.points = 0 then .error (.invalidParameter .noResponsePoint)
  else
    let amplitudes :=
      match grid.method with
      | .amplitude => h.amplitudes grid.points
      | .fourier => h.dftMagnitudes grid.points
    .ok ⟨amplitudes.map grid.scale.level, grid.scale⟩

end ResponseGrid

namespace ImpulseResponse

variable {α : Type} [Scalar α]

/-- The grid on which the gain of a filter is measured. -/
def gainGrid : ResponseGrid :=
  ⟨500, .linear, .amplitude⟩

/-- The taps scaled so that the linear response peaks at one. -/
def toUnityGain (h : ImpulseResponse α) : Outcome α (ImpulseResponse α) := do
  let response ← gainGrid.measure h
  match response.peak? with
  | none => throw (.degenerateResponse .silentTaps)
  | some peak =>
    if Scalar.isNaN peak ∨ peak ≤ 0 then throw (.degenerateResponse .silentTaps)
    return h.scale (1 / peak)

end ImpulseResponse
end FrequencySampling
