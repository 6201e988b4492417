import FrequencySampling.Filter.Geometry

/-!
The half spectrum that a filter is asked for: a desired amplitude at each of the frequencies
`2 * pi * k / N` up to the folding frequency. Passed bands start at one and stopped bands at zero;
the transition samples between them start at zero and are what a search adjusts.
-/

namespace FrequencySampling

structure HalfSpectrum (α : Type) where
  geometry : Geometry
  desired : Array α

namespace HalfSpectrum

variable {α : Type} [Scalar α]

/-- Overwrites the samples from one index to another, both included. -/
def paint (first last : Nat) (level : α) (samples : Array α) : Array α :=
  samples.mapIdx fun k x => if first ≤ k ∧ k ≤ last then level else x

/-- The samples with every band at its level. The last band runs to the end, so that for even
lengths it takes in the sample at the folding frequency. -/
def bandLevels (g : Geometry) : Array α :=
  let low : α := if g.band.passesLowest then 1 else 0
  let high : α := 1 - low
  let last := g.numSamples - 1
  let lowest := paint 0 g.edges.n1 low (Array.replicate g.numSamples 0)
  if g.band.hasFourEdges then
    paint g.edges.n4 last low (paint g.edges.n2 g.edges.n3 high lowest)
  else paint g.edges.n2 last high lowest

/-- The half spectrum of an admissible geometry, transition samples at zero. -/
def ofGeometry (g : Geometry) : Outcome α (HalfSpectrum α) := do
  g.check
  return ⟨g, bandLevels g⟩

/-- The desired amplitude at a sample; there are none beyond the last. -/
def sample? (s : HalfSpectrum α) (k : Nat) : Option α :=
  s.desired[k]?

/-- The desired amplitude at a sample that exists. -/
def sample (s : HalfSpectrum α) (k : Nat) : α :=
  s.desired.getD k 0

/-- Overwrites one sample, whichever band it belongs to. -/
def setSample (s : HalfSpectrum α) (k : Nat) (value : α) : Outcome α (HalfSpectrum α) :=
  if k < s.desired.size then .ok { s with desired := s.desired.setIfInBounds k value }
  else .error (.invalidParameter (.sampleIndex k s.desired.size))

end HalfSpectrum
end FrequencySampling
