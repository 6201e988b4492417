import FrequencySampling.Filter.Cutoff
import FrequencySampling.HalfSpectrum.Basic

/-!
Placing the passband edge of a low-pass filter from a cutoff frequency. Without transition samples
the response crosses half amplitude or half power at a known distance past the last passband sample,
which depends on the parity of the length; the edge is the last sample whose crossing does not lie
above the cutoff.
-/

namespace FrequencySampling

/-- The last passband sample, and the cutoff to expect with it as a fraction of the folding
frequency. -/
structure Placement (α : Type) where
  edge : Nat
  predicted : α

namespace Placement

variable {α : Type} [Scalar α]

/-- The distance in samples from the last passband sample to the crossing. -/
def crossing (oddLength : Bool) (level : CutoffLevel) : α :=
  match oddLength, level with
  | true, .halfAmplitude => 0.5
  | true, .halfPower => 0.293
  | false, .halfAmplitude => 0
  | false, .halfPower => -0.207

/-- The last sample whose crossing does not lie above the cutoff, before it is known to be an
index. -/
def rawEdge (taps : Nat) (cutoff : Cutoff α) : α :=
  Scalar.floor
    ((taps : α) * cutoff.fraction / (2 : Nat) - crossing (taps % 2 == 1) cutoff.level)

/-- The placement for a cutoff. A cutoff below the crossing of the first sample has none. -/
def ofCutoff (taps : Nat) (cutoff : Cutoff α) : Outcome α (Placement α) :=
  let raw := rawEdge taps cutoff
  if !Scalar.isFinite raw ∨ raw < 0 then
    .error (.invalidParameter (.cutoffBelowFirstSample cutoff.fraction taps))
  else
    .ok ⟨Scalar.toIndex raw, (2 : Nat) * (raw + crossing (taps % 2 == 1) cutoff.level) / taps⟩

end Placement

namespace HalfSpectrum

variable {α : Type} [Scalar α]

/-- A low-pass half spectrum whose passband edge is placed from a cutoff, with up to two transition
samples above it. Indices are 64-bit and wrap. -/
def lowpassOfCutoff (taps : Nat) (phase : LinearPhase) (cutoff : Cutoff α) (transitions : Nat) :
    Outcome α (HalfSpectrum α × Placement α) := do
  if 2 < transitions then throw (.invalidParameter (.transitionChoice transitions))
  let placement ← Placement.ofCutoff taps cutoff
  let edges := BandEdges.twoBand placement.edge ((placement.edge + 1 + transitions) % UInt64.size)
  let spectrum ← ofGeometry ⟨taps, .lowpass, phase, edges⟩
  return (spectrum, placement)

end HalfSpectrum
end FrequencySampling
