import FrequencySampling.HalfSpectrum.Transition
import FrequencySampling.ImpulseResponse.OfSpectrum
import FrequencySampling.MagnitudeResponse.Grid

/-!
The stopband peak, the quantity that a choice of transition samples is judged by: the largest
magnitude in the stopband of the normalized response.
-/

namespace FrequencySampling

namespace Geometry

/-- The response index at or below a frequency sample, on a grid of the given number of points. The
product is 64-bit and wraps. -/
def responseIndex (g : Geometry) (points sample : Nat) : Nat :=
  min (2 * points * sample % UInt64.size / g.numTaps) points

/-- The response indices of the stopband. Of a band-pass filter only the lower stopband counts. -/
def stopband (g : Geometry) (points : Nat) : List IndexRange :=
  let index := g.responseIndex points
  match g.band with
  | .lowpass => [⟨index g.edges.n2, points⟩]
  | .highpass | .bandpass => [⟨0, index g.edges.n1⟩]
  | .bandstop => [⟨index g.edges.n2, index g.edges.n3⟩, ⟨index g.edges.n4, points⟩]

end Geometry

namespace MagnitudeResponse

/-- The largest magnitude in the stopband of a geometry; the floor if no point lies there. -/
def stopbandPeak {α : Type} [Scalar α] (r : MagnitudeResponse α) (g : Geometry) : α :=
  r.peakOver (g.stopband r.size)

end MagnitudeResponse

namespace ResponseGrid

/-- The stopband peak of the filter synthesized from a half spectrum, after normalization. -/
def stopbandLevel {α : Type} [Scalar α] (grid : ResponseGrid)
    (s : HalfSpectrum α) : Outcome α α := do
  let ranges := s.geometry.stopband grid.points
  if ranges.all (·.isEmpty) then
    throw (.degenerateResponse (.emptyStopband s.geometry.band s.geometry.edges grid.points))
  let h ← ImpulseResponse.ofSpectrum s
  let response ← grid.measure h
  let normalized ← response.normalize
  return normalized.peakOver ranges

end ResponseGrid
end FrequencySampling
