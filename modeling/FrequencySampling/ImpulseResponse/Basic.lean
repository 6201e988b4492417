import FrequencySampling.Filter.Geometry

/-!
Impulse responses of linear-phase filters: the taps and the symmetry they are built with. Only the
parity of the length is checked; taps handed in need not be symmetric.
-/

namespace FrequencySampling

structure ImpulseResponse (α : Type) where
  taps : Array α
  phase : LinearPhase

namespace ImpulseResponse

variable {α : Type} [Scalar α]

def ofTaps (taps : Array α) (phase : LinearPhase) : Outcome α (ImpulseResponse α) := do
  phase.check taps.size
  return ⟨taps, phase⟩

def numTaps (h : ImpulseResponse α) : Nat :=
  h.taps.size

/-- The tap at an index; outside the response it is zero. -/
def tap (h : ImpulseResponse α) (n : Nat) : α :=
  h.taps.getD n 0

def scale (h : ImpulseResponse α) (factor : α) : ImpulseResponse α :=
  { h with taps := h.taps.map (· * factor) }

end ImpulseResponse
end FrequencySampling
